import LedgerFeed.Subscription.Basic

/-!
# The worker of a subscription

`Subscription.step` is what the worker does without waiting, or nothing if it has to wait or is
gone. Each step lowers `work` (`Step.work_lt`), so that `settle`, which takes steps as long as
there are any, needs no more of them than that.

A cancelled subscription is noticed wherever the worker looks for a cancellation: before it asks the
feed, puts a record in its place or reports a fault, and as soon as it would wait, or wakes from
waiting. Between looking and acting the worker takes no notice. A fault of the feed is looked at
once more. A fault of a message is recorded as the outcome in any case, but it is not reported to a
subscription that is found cancelled.
-/

namespace LedgerFeed.Subscription
variable {t : Topic}

/-- The sequence after a message, if the topic is numbered. -/
def checkIndex (s : Option Sequence) (m : t.Message) : Except StreamError (Option Sequence) :=
  match s, Topic.Message.index? t m with
  | some s, some n =>
    match s.accept n with
    | .ok s' => .ok (some s')
    | .error e => .error (.ordering t (Topic.Message.height t m) e)
  | s, _ => .ok s

/-- The record of a message. -/
def convert (o : DecodeOptions) (m : t.Message) : Except StreamError t.Record :=
  match Topic.Message.convert t o m with
  | .ok r => .ok r
  | .error e => .error (.conversion t (Topic.Message.height t m) e)

/-- The sequence after a message and the record of the message: its number is checked first. -/
def handle (o : DecodeOptions) (s : Option Sequence) (m : t.Message) :
    Except StreamError (Option Sequence × t.Record) := do
  let s' ← checkIndex s m
  return (s', ← convert o m)

/-- The feed has answered, and all subscriptions may have been cancelled before it did. -/
def answer (s : Subscription t) (a : Answer t.Message) (feed : Feed t.Message) (cancels : Bool) :
    Subscription t :=
  { s with
    feed := feed
    phase := .answered a
    cancelled := s.cancelled || cancels
    cancelsAll := s.cancelsAll || cancels }

/-- The worker counts a message and turns to it. -/
def receive (s : Subscription t) (m : t.Message) : Subscription t :=
  { s with phase := .handling m, stats := { s.stats with received := s.stats.received + 1 } }

/-- The worker goes on to a phase. -/
def enter (s : Subscription t) (p : Phase t) : Subscription t :=
  { s with phase := p }

@[simp] theorem enter_phase (s : Subscription t) (p : Phase t) : (s.enter p).phase = p := rfl

/-- A record that is sent need not wait: its place is free, or nobody will take it. -/
def hasRoom (s : Subscription t) : Bool :=
  s.record.isNone || !s.recordsOpen

/-- The next step of the worker. -/
def step (s : Subscription t) : Option (Subscription t) :=
  match s.phase with
  | .receiving => some (s.enter (if s.cancelled then .finishing .cancelled else .asking))
  | .asking =>
    match s.feed with
    | .message m cancels rest => some (s.answer (.message m) rest cancels)
    | .fault e cancels => some (s.answer (.fault e) s.feed cancels)
    | .ended => some (s.answer .ended s.feed false)
    | .silent => some (s.enter .waiting)
  | .waiting => if s.cancelled then some (s.enter (.finishing .cancelled)) else none
  | .answered (.message m) => some (s.receive m)
  | .answered (.fault e) =>
    some (s.enter (if s.cancelled then .finishing .cancelled else .failing (.transport t e)))
  | .answered .ended => some (s.enter (.finishing .completed))
  | .handling m =>
    match handle s.decode s.sequence m with
    | .ok (s', r) => some { s with sequence := s', phase := .offering r }
    | .error e => some (s.enter (.failing e))
  | .offering r => some (s.enter (if s.cancelled then .finishing .cancelled else .sending r))
  | .sending r =>
    if !s.recordsOpen then some (s.enter (.finishing .cancelled))
    else if s.record.isNone then some { s with record := some r, phase := .placed }
    else some (s.enter (.blocked r))
  | .blocked r =>
    if s.cancelled then some (s.enter (.finishing .cancelled))
    else if s.hasRoom then some (s.enter (.sending r))
    else none
  | .placed =>
    some { s with
      phase := .receiving
      stats := { s.stats with delivered := s.stats.delivered + 1 } }
  | .failing e =>
    some { s with phase := .reporting e, stats := { s.stats with outcome := .failed } }
  | .reporting e => some (s.enter (if s.cancelled then .leaving else .posting e))
  | .posting e =>
    some { s with phase := .leaving, fault := if s.faultsOpen then some e else s.fault }
  | .finishing o =>
    some { s with phase := .leaving, stats := { s.stats with outcome := o } }
  | .leaving => some (s.enter .exited)
  | .exited => none

/-- What the phase adds to the work. A blocked record weighs more than one that is sent as soon as
there is room for it, and less before. -/
def rank (s : Subscription t) : Nat :=
  match s.phase with
  | .exited => 0
  | .leaving => 1
  | .finishing _ => 2
  | .answered .ended | .waiting | .posting _ => 3
  | .reporting _ => 4
  | .failing _ => 5
  | .answered (.fault _) => 6
  | .asking => 7
  | .receiving => 8
  | .placed => 9
  | .blocked _ => if s.hasRoom then 14 else 12
  | .sending _ => 13
  | .offering _ => 14
  | .handling _ => 15
  | .answered (.message _) => 16

/-- The steps that the worker can take and the items that the reader can get, at most. -/
def work (s : Subscription t) : Nat :=
  10 * s.feed.size + s.rank + 3 * s.record.toList.length + s.fault.toList.length

/-- The state after at most `n` steps. -/
def advance : Nat → Subscription t → Subscription t
  | 0, s => s
  | n + 1, s =>
    match s.step with
    | none => s
    | some s' => advance n s'

/-- The state in which the worker waits or is gone. -/
def settle (s : Subscription t) : Subscription t :=
  advance s.work s

end LedgerFeed.Subscription

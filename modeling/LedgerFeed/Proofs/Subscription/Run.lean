import LedgerFeed.Subscription.Reader

/-!
# Runs of a subscription

`Step` lists what a step of the worker can be; every law of a subscription is a case analysis on it.
The steps that change nothing but the phase are listed apart (`Enters`), so that a law about
anything else treats them as one. A run interleaves steps with what the reader does, in any order:
`after` is the subscription at the end of a run and `taken` is what the reader got in it.
-/

namespace LedgerFeed

/-- What a reader gets by a reading that is not in vain. -/
def Reading.item? {α : Type} : Reading α → Option α
  | .item a => some a
  | .ended | .pending => none

/-- No message and no fault of the feed comes with a cancellation. -/
def Feed.IsCalm {M : Type} : Feed M → Prop
  | .message _ cancels rest => cancels = false ∧ rest.IsCalm
  | .fault _ cancels => cancels = false
  | .ended | .silent => True

namespace Subscription
variable {t : Topic}

/-- What a reader gets from a subscription: records, and at most one fault. -/
abbrev Item (t : Topic) : Type :=
  Except StreamError t.Record

/-- The record of an item. -/
def Item.record? : Item t → Option t.Record
  | .ok r => some r
  | .error _ => none

/-- The fault of an item. -/
def Item.fault? : Item t → Option StreamError
  | .ok _ => none
  | .error e => some e

/-- The phases to which the worker goes on without changing anything else. -/
inductive Enters (s : Subscription t) : Phase t → Prop
  /-- A cancellation is noticed instead of asking for a message. -/
  | stop : s.phase = .receiving → s.cancelled = true → Enters s (.finishing .cancelled)
  | ask : s.phase = .receiving → s.cancelled = false → Enters s .asking
  | wait : s.phase = .asking → s.feed = .silent → Enters s .waiting
  | stopWaiting : s.phase = .waiting → s.cancelled = true → Enters s (.finishing .cancelled)
  /-- A cancellation is noticed instead of a fault of the feed. -/
  | stopAtFault {e : TransportError} : s.phase = .answered (.fault e) → s.cancelled = true →
      Enters s (.finishing .cancelled)
  | meet {e : TransportError} : s.phase = .answered (.fault e) → s.cancelled = false →
      Enters s (.failing (.transport t e))
  | complete : s.phase = .answered .ended → Enters s (.finishing .completed)
  | refuse {m : t.Message} {e : StreamError} : s.phase = .handling m →
      handle s.decode s.sequence m = .error e → Enters s (.failing e)
  /-- A cancellation is noticed instead of sending a record. -/
  | stopOffering {r : t.Record} : s.phase = .offering r → s.cancelled = true →
      Enters s (.finishing .cancelled)
  | send {r : t.Record} : s.phase = .offering r → s.cancelled = false → Enters s (.sending r)
  /-- A record is given up because nobody will take it. -/
  | giveUp {r : t.Record} : s.phase = .sending r → s.recordsOpen = false →
      Enters s (.finishing .cancelled)
  | block {r : t.Record} : s.phase = .sending r → s.hasRoom = false → Enters s (.blocked r)
  | stopBlocked {r : t.Record} : s.phase = .blocked r → s.cancelled = true →
      Enters s (.finishing .cancelled)
  | wake {r : t.Record} : s.phase = .blocked r → s.cancelled = false → s.hasRoom = true →
      Enters s (.sending r)
  /-- A cancellation is noticed instead of reporting a fault. -/
  | withhold {e : StreamError} : s.phase = .reporting e → s.cancelled = true → Enters s .leaving
  | post {e : StreamError} : s.phase = .reporting e → s.cancelled = false → Enters s (.posting e)
  | leave : s.phase = .leaving → Enters s .exited

/-- The steps of a worker. -/
inductive Step : Subscription t → Subscription t → Prop
  | enter {s : Subscription t} {p : Phase t} : s.Enters p → Step s (s.enter p)
  | message {s : Subscription t} {m : t.Message} {c : Bool} {rest : Feed t.Message} :
      s.phase = .asking → s.feed = .message m c rest → Step s (s.answer (.message m) rest c)
  | fault {s : Subscription t} {e : TransportError} {c : Bool} :
      s.phase = .asking → s.feed = .fault e c → Step s (s.answer (.fault e) s.feed c)
  | ended {s : Subscription t} : s.phase = .asking → s.feed = .ended →
      Step s (s.answer .ended s.feed false)
  | receive {s : Subscription t} {m : t.Message} : s.phase = .answered (.message m) →
      Step s (s.receive m)
  | convert {s : Subscription t} {m : t.Message} {q : Option Sequence} {r : t.Record} :
      s.phase = .handling m → handle s.decode s.sequence m = .ok (q, r) →
      Step s { s with sequence := q, phase := .offering r }
  | place {s : Subscription t} {r : t.Record} : s.phase = .sending r → s.recordsOpen = true →
      s.record = none → Step s { s with record := some r, phase := .placed }
  | count {s : Subscription t} : s.phase = .placed →
      Step s { s with
        phase := .receiving
        stats := { s.stats with delivered := s.stats.delivered + 1 } }
  | fail {s : Subscription t} {e : StreamError} : s.phase = .failing e →
      Step s { s with phase := .reporting e, stats := { s.stats with outcome := .failed } }
  /-- A fault is put in its place, unless nobody will take it. -/
  | report {s : Subscription t} {e : StreamError} : s.phase = .posting e →
      Step s { s with phase := .leaving, fault := if s.faultsOpen then some e else s.fault }
  | finish {s : Subscription t} {o : Outcome} : s.phase = .finishing o →
      Step s { s with phase := .leaving, stats := { s.stats with outcome := o } }

/-- There is no room for a record just if another one is in the place of records and somebody may
still take it. -/
theorem hasRoom_eq_false (s : Subscription t) :
    s.hasRoom = false ↔ s.record ≠ none ∧ s.recordsOpen = true := by
  simp [hasRoom, ← Option.isNone_iff_eq_none]

/-- Every step of the worker is one of the list. -/
theorem Step.of_step {s s' : Subscription t} (h : s.step = some s') : Step s s' := by
  unfold step at h
  split at h
  · next hp =>
    cases h
    split
    · next hc => exact .enter (.stop hp hc)
    · next hc => exact .enter (.ask hp (by simpa using hc))
  · next hp =>
    split at h
    · next hf => cases h; exact .message hp hf
    · next hf => cases h; exact .fault hp hf
    · next hf => cases h; exact .ended hp hf
    · next hf => cases h; exact .enter (.wait hp hf)
  · next hp =>
    split at h
    · next hc => cases h; exact .enter (.stopWaiting hp hc)
    · cases h
  · next hp => cases h; exact .receive hp
  · next hp =>
    cases h
    split
    · next hc => exact .enter (.stopAtFault hp hc)
    · next hc => exact .enter (.meet hp (by simpa using hc))
  · next hp => cases h; exact .enter (.complete hp)
  · next hp =>
    split at h
    · next hh => cases h; exact .convert hp hh
    · next hh => cases h; exact .enter (.refuse hp hh)
  · next hp =>
    cases h
    split
    · next hc => exact .enter (.stopOffering hp hc)
    · next hc => exact .enter (.send hp (by simpa using hc))
  · next hp =>
    split at h
    · next ho => cases h; exact .enter (.giveUp hp (by simpa using ho))
    · next ho =>
      have ho : s.recordsOpen = true := by simpa using ho
      split at h
      · next hr => cases h; exact .place hp ho (by simpa using hr)
      · next hr =>
        cases h
        exact .enter (.block hp ((hasRoom_eq_false s).2 ⟨by simpa using hr, ho⟩))
  · next hp =>
    split at h
    · next hc => cases h; exact .enter (.stopBlocked hp hc)
    · next hc =>
      split at h
      · next hr => cases h; exact .enter (.wake hp (by simpa using hc) hr)
      · cases h
  · next hp => cases h; exact .count hp
  · next hp => cases h; exact .fail hp
  · next hp =>
    cases h
    split
    · next hc => exact .enter (.withhold hp hc)
    · next hc => exact .enter (.post hp (by simpa using hc))
  · next hp => cases h; exact .report hp
  · next hp => cases h; exact .finish hp
  · next hp => cases h; exact .enter (.leave hp)
  · cases h

/-- A worker without a next step waits for a silent feed or for the place of a record, or is
gone. -/
theorem waiting_cases {s : Subscription t} (h : s.step = none) :
    (s.phase = .waiting ∧ s.cancelled = false) ∨
    (∃ r, s.phase = .blocked r ∧ s.cancelled = false ∧ s.recordsOpen = true ∧ s.record ≠ none) ∨
    s.phase = .exited := by
  unfold step at h
  split at h
  · cases h
  · split at h <;> cases h
  · next hp =>
    split at h
    · cases h
    · next hc => exact .inl ⟨hp, by simpa using hc⟩
  · cases h
  · cases h
  · cases h
  · split at h <;> cases h
  · cases h
  · split at h
    · cases h
    · split at h <;> cases h
  · next hp =>
    split at h
    · cases h
    · next hc =>
      split at h
      · cases h
      · next hr =>
        obtain ⟨hr, ho⟩ := (hasRoom_eq_false s).1 (by simpa using hr)
        exact .inr (.inl ⟨_, hp, by simpa using hc, ho, hr⟩)
  · cases h
  · cases h
  · cases h
  · cases h
  · cases h
  · cases h
  · next hp => exact .inr (.inr hp)

/-! ## Work -/

/-- A worker that only goes on to another phase goes on to one of lower rank. -/
theorem Enters.rank_lt {s : Subscription t} {p : Phase t} (h : s.Enters p) :
    (s.enter p).rank < s.rank := by
  cases h with
  | @block r hp hr =>
    -- without room a blocked record weighs less than one that is sent; with room it weighs more
    have hr' : (s.enter (.blocked r)).hasRoom = false := hr
    have hrank : (s.enter (.blocked r)).rank = 12 := if_neg (by simp [hr'])
    rw [hrank]
    simp [rank, hp]
  | stopBlocked hp =>
    simp only [rank, enter, hp]
    split <;> decide
  | wake hp _ hr => simp [rank, enter, hp, hr]
  | stop hp | ask hp | wait hp | stopWaiting hp | stopAtFault hp | meet hp | complete hp | refuse hp
  | stopOffering hp | send hp | giveUp hp | withhold hp | post hp | leave hp =>
    simp [rank, enter, hp]

/-- A step lowers the work. -/
theorem Step.work_lt {s s' : Subscription t} (h : Step s s') : s'.work < s.work := by
  cases h with
  | @enter p h =>
    have hrank := h.rank_lt
    have hwork : (s.enter p).work = 10 * s.feed.size + (s.enter p).rank
      + 3 * s.record.toList.length + s.fault.toList.length := rfl
    rw [hwork, work]
    omega
  | message hp hf => simp [work, rank, answer, hp, hf, Feed.size]; omega
  | fault hp | ended hp => simp [work, rank, answer, hp]
  | receive hp => simp [work, rank, Subscription.receive, hp]
  | place hp _ hr => simp [work, rank, hp, hr]
  | convert hp | count hp | fail hp | finish hp => simp [work, rank, hp]
  | @report e hp =>
    -- the rank falls by more than the fault that is put in its place weighs
    have hplace : (if s.faultsOpen then some e else s.fault).toList.length ≤
        s.fault.toList.length + 1 := by split <;> simp
    simp only [work, rank, hp]
    omega

/-- Enough steps lead to a state without a next one. -/
theorem step_advance (n : Nat) (s : Subscription t) (h : s.work ≤ n) :
    (advance n s).step = none := by
  induction n generalizing s with
  | zero =>
    cases hs : s.step with
    | none => exact hs
    | some s' => have := (Step.of_step hs).work_lt; omega
  | succ n ih =>
    unfold advance
    cases hs : s.step with
    | none => exact hs
    | some s' => exact ih s' (by have := (Step.of_step hs).work_lt; omega)

/-- The worker of a settled subscription has to wait or is gone. -/
theorem step_settle (s : Subscription t) : s.settle.step = none :=
  step_advance s.work s (Nat.le_refl _)

/-! ## Moves -/

/-- What can happen next to a subscription. -/
inductive Move
  /-- The worker takes its next step if it has one. -/
  | work
  | next
  | recv
  | error
  /-- The subscription is cancelled. -/
  | cancel
  /-- All subscriptions are cancelled. -/
  | cancelAll
  | closeRecords
  | closeFaults
  | drop
  deriving DecidableEq, Repr

/-- What the reader gets by a move, and the subscription after it. -/
def move (s : Subscription t) : Move → Option (Item t) × Subscription t
  | .work => (none, s.step.getD s)
  | .next => (s.next.1.item?.map .ok, s.next.2)
  | .recv => (s.recv.1.item?, s.recv.2)
  | .error => (s.error.1.item?.map .error, s.error.2)
  | .cancel | .cancelAll => (none, s.cancel)
  | .closeRecords => (none, s.closeRecords)
  | .closeFaults => (none, s.closeFaults)
  | .drop => (none, s.drop)

/-- The subscription after a run. -/
def after (s : Subscription t) : List Move → Subscription t
  | [] => s
  | m :: ms => (s.move m).2.after ms

/-- What the reader gets in a run, in order. -/
def taken (s : Subscription t) : List Move → List (Item t)
  | [] => []
  | m :: ms => (s.move m).1.toList ++ (s.move m).2.taken ms

/-- A run in two parts is the second part after the first. -/
theorem after_append (s : Subscription t) (ms ns : List Move) :
    s.after (ms ++ ns) = (s.after ms).after ns := by
  induction ms generalizing s with
  | nil => rfl
  | cons m ms ih => exact ih _

/-- One more move at the end of a run. -/
theorem after_concat (s : Subscription t) (ms : List Move) (m : Move) :
    s.after (ms ++ [m]) = ((s.after ms).move m).2 := by
  rw [after_append]; rfl

/-! ## Readings -/

/-- What a reading through `next` finds. -/
theorem next_cases (s : Subscription t) :
    (∃ r, s.record = some r ∧ s.next = (.item r, { s with record := none })) ∨
    (s.record = none ∧ s.hasExited = false ∧ s.next = (.pending, s)) ∨
    (s.record = none ∧ s.hasExited = true ∧ s.next = (.ended, s)) := by
  cases hr : s.record with
  | some r => exact .inl ⟨r, rfl, by simp [next, hr]⟩
  | none =>
    cases hx : s.hasExited with
    | false => exact .inr (.inl ⟨rfl, rfl, by simp [next, nothing, hr, hx]⟩)
    | true => exact .inr (.inr ⟨rfl, rfl, by simp [next, nothing, hr, hx]⟩)

/-- What a reading through `error` finds. -/
theorem error_cases (s : Subscription t) :
    (∃ e, s.fault = some e ∧ s.error = (.item e, { s with fault := none })) ∨
    (s.fault = none ∧ s.error = (s.nothing, s)) := by
  cases hf : s.fault with
  | some e => exact .inl ⟨e, rfl, by simp [error, hf]⟩
  | none => exact .inr ⟨rfl, by simp [error, hf]⟩

/-- What a reading through `recv` finds. -/
theorem recv_cases (s : Subscription t) :
    (∃ r, s.record = some r ∧ s.recv = (.item (.ok r), { s with record := none })) ∨
    (s.record = none ∧ s.hasExited = false ∧ s.recv = (.pending, s)) ∨
    (∃ e, s.record = none ∧ s.hasExited = true ∧ s.fault = some e ∧
      s.recv = (.item (.error e), { s with fault := none })) ∨
    (s.record = none ∧ s.hasExited = true ∧ s.fault = none ∧ s.recv = (.ended, s)) := by
  rcases next_cases s with ⟨r, hr, hn⟩ | ⟨hr, hx, hn⟩ | ⟨hr, hx, hn⟩
  · exact .inl ⟨r, hr, by simp [recv, hn]⟩
  · exact .inr (.inl ⟨hr, hx, by simp [recv, hn]⟩)
  · rcases error_cases s with ⟨e, hf, he⟩ | ⟨hf, he⟩
    · exact .inr (.inr (.inl ⟨e, hr, hx, hf, by simp [recv, hn, he]⟩))
    · exact .inr (.inr (.inr ⟨hr, hx, hf, by simp [recv, hn, he, nothing, hx]⟩))

/-- Without anything to read, a reading gives nothing. -/
theorem item?_nothing {α : Type} (s : Subscription t) : (s.nothing : Reading α).item? = none := by
  unfold nothing
  split <;> rfl

/-- The records have ended just if there is none in place and the worker is gone. -/
theorem next_ended_iff (s : Subscription t) :
    s.next.1 = .ended ↔ s.record = none ∧ s.hasExited = true := by
  rcases next_cases s with ⟨r, hr, h⟩ | ⟨hr, hx, h⟩ | ⟨hr, hx, h⟩
  · simp [h, hr]
  · simp [h, hx]
  · simp [h, hr, hx]

/-- All has been read just if nothing is in place and the worker is gone. -/
theorem recv_ended_iff (s : Subscription t) :
    s.recv.1 = .ended ↔ s.record = none ∧ s.hasExited = true ∧ s.fault = none := by
  rcases recv_cases s with ⟨r, hr, h⟩ | ⟨hr, hx, h⟩ | ⟨e, hr, hx, hf, h⟩ | ⟨hr, hx, hf, h⟩
  · simp [h, hr]
  · simp [h, hx]
  · simp [h, hf]
  · simp [h, hr, hx, hf]

/-- The moves by which the reader asks for something. -/
def Move.IsReading : Move → Prop
  | .next | .recv | .error => True
  | _ => False

/-- A reading is in vain, or takes the record that is in place, or the fault. Only `error` takes
a fault before the records have ended. -/
theorem reading_cases (s : Subscription t) {m : Move} (hm : m.IsReading) :
    s.move m = (none, s) ∨
    (∃ r, s.record = some r ∧ s.move m = (some (.ok r), { s with record := none })) ∨
    (∃ e, s.fault = some e ∧ (m = .recv → s.next.1 = .ended) ∧
      s.move m = (some (.error e), { s with fault := none })) := by
  cases m with
  | next =>
    rcases next_cases s with ⟨r, hr, h⟩ | ⟨-, -, h⟩ | ⟨-, -, h⟩
    · exact .inr (.inl ⟨r, hr, by simp [move, h, Reading.item?]⟩)
    · exact .inl (by simp [move, h, Reading.item?])
    · exact .inl (by simp [move, h, Reading.item?])
  | recv =>
    rcases recv_cases s with ⟨r, hr, h⟩ | ⟨-, -, h⟩ | ⟨e, hr, hx, hf, h⟩ | ⟨-, -, -, h⟩
    · exact .inr (.inl ⟨r, hr, by simp [move, h, Reading.item?]⟩)
    · exact .inl (by simp [move, h, Reading.item?])
    · exact .inr (.inr ⟨e, hf, fun _ => s.next_ended_iff.2 ⟨hr, hx⟩,
        by simp [move, h, Reading.item?]⟩)
    · exact .inl (by simp [move, h, Reading.item?])
  | error =>
    rcases error_cases s with ⟨e, hf, h⟩ | ⟨-, h⟩
    · exact .inr (.inr ⟨e, hf, nofun, by simp [move, h, Reading.item?]⟩)
    · exact .inl (by simp [move, h, item?_nothing])
  | work | cancel | cancelAll | closeRecords | closeFaults | drop => exact hm.elim

end Subscription

end LedgerFeed

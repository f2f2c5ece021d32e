import LedgerFeed.Proofs.Sequence
import LedgerFeed.Proofs.Subscription.Run

/-!
# The yield of a feed

What a feed is worth to a reader who loses nothing: the records of its messages up to the first
fault, and then the fault, if it has one. `Yield.ofFeed` walks over the messages with a counter of
the indices that are due; `Yield.walk` walks with the sequence of a worker. `walk_eq_ofFeed` says
that both come to the same.
-/

namespace LedgerFeed

/-- How a walk over a feed comes to its end. -/
inductive Ending
  | clean
  | failed (e : StreamError)
  | silent

/-- The fault at the end. -/
def Ending.fault? : Ending → Option StreamError
  | .failed e => some e
  | .clean | .silent => none

/-- The records of a feed and how it ends. -/
structure Yield (t : Topic) where
  records : List t.Record
  ending : Ending

namespace Yield
variable {t : Topic}

/-- The yield with a record in front. -/
def cons (r : t.Record) (y : Yield t) : Yield t :=
  { y with records := r :: y.records }

/-- The yield without any record. -/
def only (e : Ending) : Yield t :=
  ⟨[], e⟩

@[simp] theorem cons_records (r : t.Record) (y : Yield t) :
    (y.cons r).records = r :: y.records := rfl

@[simp] theorem cons_ending (r : t.Record) (y : Yield t) : (y.cons r).ending = y.ending := rfl

@[simp] theorem only_records (e : Ending) : (only e : Yield t).records = [] := rfl

@[simp] theorem only_ending (e : Ending) : (only e : Yield t).ending = e := rfl

/-- The fault at the end of a yield. -/
def faults (y : Yield t) : List StreamError :=
  y.ending.fault?.toList

@[simp] theorem cons_faults (r : t.Record) (y : Yield t) : (y.cons r).faults = y.faults := rfl

@[simp] theorem only_clean_faults : (only .clean : Yield t).faults = [] := rfl

@[simp] theorem only_silent_faults : (only .silent : Yield t).faults = [] := rfl

@[simp] theorem only_failed_faults (e : StreamError) :
    (only (.failed e) : Yield t).faults = [e] := rfl

/-- What a reader gets: all records and then the fault. -/
def items (y : Yield t) : List (Subscription.Item t) :=
  y.records.map .ok ++ y.faults.map .error

/-- What is wrong with the number of a message where the index `n` is due. Only the messages of
numbered topics can be wrong. -/
def misplaced? (t : Topic) (n : Nat) (m : t.Message) : Option OrderingError :=
  match Topic.Message.index? t m with
  | none => none
  | some i =>
    if i.toNat = n then none
    else if n < 2 ^ 64 then some (.outOfOrder (.ofNat n) i)
    else some (.exhausted i)

/-- The yield of a feed whose first message should have the index `n`. -/
def ofFeed (o : DecodeOptions) (n : Nat) : Feed t.Message → Yield t
  | .message m _ rest =>
    match misplaced? t n m with
    | some e => only (.failed (.ordering t (Topic.Message.height t m) e))
    | none =>
      match Topic.Message.convert t o m with
      | .ok r => (ofFeed o (n + 1) rest).cons r
      | .error e => only (.failed (.conversion t (Topic.Message.height t m) e))
  | .fault e _ => only (.failed (.transport t e))
  | .ended => only .clean
  | .silent => only .silent

/-- The yield of a feed for a worker with a sequence. -/
def walk (o : DecodeOptions) (q : Option Sequence) : Feed t.Message → Yield t
  | .message m _ rest =>
    match Subscription.handle o q m with
    | .ok (q', r) => (walk o q' rest).cons r
    | .error e => only (.failed e)
  | .fault e _ => only (.failed (.transport t e))
  | .ended => only .clean
  | .silent => only .silent

/-- The sequence that waits for the index `n`. -/
def sequenceAt (t : Topic) (n : Nat) : Option Sequence :=
  if t.isNumbered then some ⟨if n < 2 ^ 64 then some (.ofNat n) else none⟩ else none

/-- Only the messages of numbered topics have an index. -/
theorem index?_eq_none (h : t.isNumbered = false) (m : t.Message) :
    Topic.Message.index? t m = none := by
  cases t with
  | accountStatuses => cases h
  | _ => rfl

/-- The sequence that waits for `n` finds wrong what the counter at `n` does, and waits for the
next index otherwise. -/
theorem checkIndex_sequenceAt (n : Nat) (m : t.Message) :
    Subscription.checkIndex (sequenceAt t n) m =
      match misplaced? t n m with
      | none => .ok (sequenceAt t (n + 1))
      | some e => .error (.ordering t (Topic.Message.height t m) e) := by
  cases ht : t.isNumbered with
  | false =>
    have hsequence : ∀ n, sequenceAt t n = none := fun _ => if_neg (by rw [ht]; decide)
    have hindex := index?_eq_none ht m
    simp only [Subscription.checkIndex, misplaced?, hsequence, hindex]
  | true =>
    have hsequence : ∀ n, sequenceAt t n = some (.waitingFor n) := fun _ => if_pos ht
    cases hi : Topic.Message.index? t m with
    | none => cases t <;> simp [Topic.isNumbered, Topic.Message.index?] at ht hi
    | some i =>
      have hmisplaced : misplaced? t n m = Sequence.refusal? n i := by
        rw [misplaced?, hi]
        rfl
      simp only [Subscription.checkIndex, hsequence, hi, hmisplaced, Sequence.accept_waitingFor]
      cases Sequence.refusal? n i <;> rfl

/-- A worker whose sequence waits for `n` walks like a counter that starts at `n`. -/
theorem walk_eq_ofFeed (o : DecodeOptions) (n : Nat) (feed : Feed t.Message) :
    walk o (sequenceAt t n) feed = ofFeed o n feed := by
  induction feed generalizing n with
  | message m c rest ih =>
    rw [walk, ofFeed, Subscription.handle, checkIndex_sequenceAt]
    cases misplaced? t n m with
    | some e => rfl
    | none =>
      cases hc : Topic.Message.convert t o m with
      | error e => simp [Subscription.convert, hc, bind, Except.bind]
      | ok r => simp [Subscription.convert, hc, bind, Except.bind, pure, Except.pure, ih]
  | fault e c => rfl
  | ended => rfl
  | silent => rfl

end Yield

end LedgerFeed

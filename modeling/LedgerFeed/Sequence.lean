import LedgerFeed.Bytes

/-!
# Numbered messages

The messages of a numbered topic come with indices that rise by one. `Sequence.accept` takes the
index that is due and refuses all others; a refused index leaves the sequence as it was, and after
the greatest index there is none that is due.
-/

namespace LedgerFeed

/-- The index that is due, if there is one. -/
structure Sequence where
  due : Option UInt64
  deriving DecidableEq, Repr

/-- Why an index is refused. -/
inductive OrderingError
  | outOfOrder (due observed : UInt64)
  | exhausted (observed : UInt64)
  deriving DecidableEq, Repr

def OrderingError.message : OrderingError → String
  | .outOfOrder due observed =>
    "message index out of order: expected " ++ toString due.toNat ++ ", got "
      ++ toString observed.toNat
  | .exhausted observed => "message index space exhausted, got " ++ toString observed.toNat

namespace Sequence

/-- The sequence that starts at an index. -/
def ofStart (n : UInt64) : Sequence :=
  ⟨some n⟩

/-- The index after an index, unless that is the greatest. -/
def next? (n : UInt64) : Option UInt64 :=
  if n.toNat + 1 < 2 ^ 64 then some (n + 1) else none

/-- The sequence after an index. -/
def accept (s : Sequence) (observed : UInt64) : Except OrderingError Sequence :=
  match s.due with
  | none => .error (.exhausted observed)
  | some n => if observed = n then .ok ⟨next? n⟩ else .error (.outOfOrder n observed)

end Sequence

end LedgerFeed

import LedgerFeed.Bytes

/-!
# Bracket nesting of a text

How many brackets and braces are open at once in a byte string, seen by a scan that knows nothing
of JSON but where texts begin and end. A closing bracket with nothing open is passed over.
-/

namespace LedgerFeed.Json

/-- The scan so far. -/
structure Scan where
  opened : Nat
  deepest : Nat
  inText : Bool
  escaped : Bool
  deriving DecidableEq, Repr

/-- Before the first byte. -/
def Scan.start : Scan :=
  ⟨0, 0, false, false⟩

/-- The scan after one more byte. -/
def Scan.step (s : Scan) (b : UInt8) : Scan :=
  if s.inText then
    if s.escaped then { s with escaped := false }
    else if b = 0x5c then { s with escaped := true }
    else if b = 0x22 then { s with inText := false }
    else s
  else if b = 0x22 then { s with inText := true }
  else if b = 0x7b ∨ b = 0x5b then
    { s with opened := s.opened + 1, deepest := max s.deepest (s.opened + 1) }
  else if b = 0x7d ∨ b = 0x5d then { s with opened := s.opened - 1 }
  else s

/-- The most brackets and braces open at once. -/
def bracketNesting (b : Bytes) : Nat :=
  (b.foldl Scan.step Scan.start).deepest

end LedgerFeed.Json

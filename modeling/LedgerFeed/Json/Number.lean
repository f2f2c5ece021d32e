import LedgerFeed.Number.Binary64

/-!
# Numbers of JSON

A number is an integer with all its digits, its sign apart so that `-0` is not `0`, or a double.

Digits that do not make an integer of 64 bits are read in two steps: as many as fit 64 bits are
read as an integer and rounded to a double, which is then multiplied or divided by the double
nearest to a power of ten. The digits left over only count in that power.
-/

namespace LedgerFeed.Json

inductive Number
  | integer (negative : Bool) (magnitude : Nat)
  | real (value : Binary64)
  deriving DecidableEq, Repr

/-- Digits taken into a significand as long as it fits 64 bits, and the digits left over. -/
def significand (n : Nat) : List Nat → Nat × List Nat
  | [] => (n, [])
  | d :: rest => if 10 * n + d < 2 ^ 64 then significand (10 * n + d) rest else (n, d :: rest)

/-- The double nearest to a power of ten. -/
def powerOfTen (k : Nat) : Option Binary64 :=
  Binary64.ofFraction (10 ^ k) 1

/-- A double divided by `10 ^ k`, by `10 ^ 308` at most in a step. Two steps take every significand
to zero. -/
def scaleDown : Nat → Binary64 → Nat → Option Binary64
  | 0, x, _ => some { x with mantissa := 0 }
  | steps + 1, x, k =>
    if k ≤ 308 then (powerOfTen k).bind x.div
    else (powerOfTen 308).bind x.div |>.bind fun y => scaleDown steps y (k - 308)

/-- A significand times a power of ten, unless that is beyond the largest double. -/
def scale (significand : Nat) (exponent : Int) : Option Binary64 :=
  (Binary64.ofFraction significand 1).bind fun x =>
    if exponent < 0 then scaleDown 3 x exponent.natAbs
    else if exponent ≤ 308 then (powerOfTen exponent.natAbs).bind x.mul
    else if significand = 0 then some x else none

/-- The double that an integer is read as. -/
def roundInteger (negative : Bool) (magnitude : Nat) : Option Binary64 :=
  let digits := (Nat.toDigits 10 magnitude).map fun c => c.toNat - 48
  let (n, left) := significand 0 digits
  (scale n left.length).map fun x => { x with negative }

/-- An integer stays one if it fits 64 bits, with or without a sign; `-0` and integers of more bits
become doubles. -/
def Number.narrow : Number → Option Number
  | .integer negative magnitude =>
    if (negative = true ∧ 0 < magnitude ∧ magnitude ≤ 2 ^ 63)
        ∨ (negative = false ∧ magnitude < 2 ^ 64) then
      some (.integer negative magnitude)
    else (roundInteger negative magnitude).map .real
  | .real x => some (.real x)

end LedgerFeed.Json

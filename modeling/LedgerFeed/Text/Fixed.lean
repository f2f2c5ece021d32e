import LedgerFeed.Bytes
import LedgerFeed.Text.Integer

/-!
# Fixed-point text

A fixed-point number counts units of `10 ^ -8`. It is written with 8 digits behind the point and
read with none to 8, an optional minus sign in front.
-/

namespace LedgerFeed.Fixed

/-- The units of one. -/
def unitsOfOne : Nat := 10 ^ 8

/-- The text of a number of units. -/
def render (units : Int) : List Char :=
  let n := units.natAbs
  (if units < 0 then ['-'] else [])
    ++ Integer.digits (n / unitsOfOne) ++ '.' :: Integer.padded 8 (n % unitsOfOne)

/-- The number that a list of digits stands for, if all characters are digits. -/
def digits? (s : List Char) : Option Nat :=
  s.foldl (fun n c => n.bind fun n => (Integer.digit? c).map fun d => 10 * n + d) (some 0)

/-- The text before the first point and the text behind it, which is empty without a point. -/
def splitPoint : List Char → List Char × List Char
  | [] => ([], [])
  | c :: rest =>
    if c = '.' then ([], rest)
    else
      let (before, behind) := splitPoint rest
      (c :: before, behind)

/-- The largest number of units that is read, of any type. -/
def most : Nat := 2 ^ 127 - 1

/-- The units of a number without sign. -/
def parseMagnitude (s : List Char) : Option Nat :=
  let (whole, fraction) := splitPoint s
  if whole.isEmpty ∨ 8 < fraction.length then none
  else do
    let n ← digits? whole
    let f ← digits? fraction
    let units := n * unitsOfOne + f * 10 ^ (8 - fraction.length)
    if units ≤ most then some units else none

/-- The units of a number. -/
def parse : List Char → Option Int
  | '-' :: rest => (parseMagnitude rest).map fun n => -(n : Int)
  | s => (parseMagnitude s).map fun n => (n : Int)

end LedgerFeed.Fixed

import LedgerFeed.Bytes

/-!
# Binary floating point of 64 bits

A finite number is a sign and `mantissa * 2 ^ exponent`, with 53 bits of mantissa at most and an
exponent of -1074 at least. Operations take the exact rational result to the nearest number, ties
to an even mantissa, and have no result above the largest number. `digits` finds the shortest
decimal that reads back as the number.
-/

namespace LedgerFeed

/-- A finite number. -/
structure Binary64 where
  negative : Bool
  mantissa : Nat
  exponent : Int
  deriving DecidableEq, Repr

namespace Binary64

/-- `num / den` divided by a power of two, as a fraction. -/
def scaled (num den : Nat) (e : Int) : Nat × Nat :=
  if 0 ≤ e then (num, den * 2 ^ e.toNat) else (num * 2 ^ (-e).toNat, den)

/-- The nearest integer to a fraction, an even one if two are as near. -/
def nearest (num den : Nat) : Nat :=
  let q := num / den
  let r := num % den
  if 2 * r < den then q else if den < 2 * r then q + 1 else q + q % 2

/-- The exponent at which a positive fraction has 53 bits, or the least exponent. -/
def exponentOf (num den : Nat) : Int :=
  let e : Int := (Nat.log2 num : Int) - Nat.log2 den - 52
  let (n, d) := scaled num den e
  max (-1074) (if n / d < 2 ^ 52 then e - 1 else e)

/-- The number nearest to a fraction, unless it is beyond the largest number. -/
def ofFraction (num den : Nat) : Option Binary64 :=
  if num = 0 then some ⟨false, 0, -1074⟩
  else
    let e := exponentOf num den
    let (n, d) := scaled num den e
    let m := nearest n d
    let (m, e) := if m = 2 ^ 53 then (2 ^ 52, e + 1) else (m, e)
    if 971 < e then none else some ⟨false, m, e⟩

/-- The magnitude of a number as a fraction. -/
def fraction (x : Binary64) : Nat × Nat :=
  if 0 ≤ x.exponent then (x.mantissa * 2 ^ x.exponent.toNat, 1)
  else (x.mantissa, 2 ^ (-x.exponent).toNat)

/-- The number nearest to the product of two magnitudes. -/
def mul (x y : Binary64) : Option Binary64 :=
  let (a, b) := x.fraction
  let (c, d) := y.fraction
  ofFraction (a * c) (b * d)

/-- The number nearest to the quotient of two magnitudes. -/
def div (x y : Binary64) : Option Binary64 :=
  let (a, b) := x.fraction
  let (c, d) := y.fraction
  ofFraction (a * d) (b * c)

/-- The fractions between which a positive number is the nearest, and whether they belong to it. -/
def interval (x : Binary64) : (Nat × Nat) × (Nat × Nat) × Bool :=
  let below := if x.mantissa = 2 ^ 52 ∧ -1074 < x.exponent then 4 * x.mantissa - 1
    else 4 * x.mantissa - 2
  let above := 4 * x.mantissa + 2
  let e := x.exponent - 2
  let (n, d) := if 0 ≤ e then (2 ^ e.toNat, 1) else (1, 2 ^ (-e).toNat)
  ((below * n, d), (above * n, d), x.mantissa % 2 == 0)

/-- A decimal, `coefficient * 10 ^ exponent`, as a fraction. -/
def decimalFraction (coefficient : Nat) (exponent : Int) : Nat × Nat :=
  if 0 ≤ exponent then (coefficient * 10 ^ exponent.toNat, 1)
  else (coefficient, 10 ^ (-exponent).toNat)

/-- The first fraction is below the second, or equal to it where that is allowed. -/
def before (orEqual : Bool) (a b : Nat × Nat) : Bool :=
  a.1 * b.2 < b.1 * a.2 || (orEqual && a.1 * b.2 == b.1 * a.2)

/-- The better of the two decimals around a positive number whose last digit stands for
`10 ^ exponent`, if one of them reads back as the number. -/
def decimalAt (x : Binary64) (exponent : Int) : Option Nat :=
  let v := x.fraction
  let (low, high, ends) := x.interval
  let (n, d) := if 0 ≤ exponent then (v.1, v.2 * 10 ^ exponent.toNat)
    else (v.1 * 10 ^ (-exponent).toNat, v.2)
  let c := n / d
  let r := n % d
  let reads (c : Nat) : Bool :=
    before ends low (decimalFraction c exponent) && before ends (decimalFraction c exponent) high
  let upFirst := d < 2 * r || (d == 2 * r && c % 2 == 1)
  let (first, second) := if upFirst then (c + 1, c) else (c, c + 1)
  if reads first then some first else if reads second then some second else none

/-- The decimal exponent of the first digit of a positive fraction, searched down from a bound. -/
def leadingExponent (v : Nat × Nat) : Nat → Int → Int
  | 0, e => e
  | k + 1, e => if before true (decimalFraction 1 e) v then e else leadingExponent v k (e - 1)

/-- The shortest decimal that reads back as a positive number, nearest of its length: coefficient
and exponent. Lengths from `17 - k` up to 17 digits are tried. -/
def shortest (x : Binary64) (lead : Int) : Nat → Nat × Int
  | 0 => ((x.decimalAt (lead - 16)).getD 0, lead - 16)
  | k + 1 =>
    let e := lead - (16 - (k + 1 : Nat) : Int)
    match x.decimalAt e with
    | some c => (c, e)
    | none => shortest x lead k

/-- The digits and the exponent of the shortest decimal of a positive number. A nine that was
rounded up is a one of the next place. -/
def digits (x : Binary64) : List Char × Int :=
  let (c, e) := shortest x (leadingExponent x.fraction 700 310) 16
  if c % 10 = 0 then (Nat.toDigits 10 (c / 10), e + 1) else (Nat.toDigits 10 c, e)

/-- Where the text of a number changes from positional to scientific: a point is written as long as
at most 16 digits stand before it, or at most 4 zeros behind it. An exponent always has its sign. -/
def renderMagnitude (digits : List Char) (exponent : Int) : List Char :=
  let point := (digits.length : Int) + exponent
  if 0 ≤ exponent ∧ point ≤ 16 then digits ++ List.replicate exponent.toNat '0' ++ ['.', '0']
  else if 0 < point ∧ point ≤ 16 then digits.take point.toNat ++ '.' :: digits.drop point.toNat
  else if -5 < point ∧ point ≤ 0 then
    ['0', '.'] ++ List.replicate (-point).toNat '0' ++ digits
  else
    let tail := digits.drop 1
    digits.take 1 ++ (if tail.isEmpty then [] else '.' :: tail) ++ 'e'
      :: (if point ≤ 0 then '-' else '+') :: Nat.toDigits 10 (point - 1).natAbs

/-- The text of a number. -/
def render (x : Binary64) : List Char :=
  let magnitude :=
    if x.mantissa = 0 then ['0', '.', '0'] else renderMagnitude x.digits.1 x.digits.2
  if x.negative then '-' :: magnitude else magnitude

end Binary64

end LedgerFeed

/-!
# Decimal integers of a range

An integer is an optional sign and at least one digit; the minus sign belongs to ranges that reach
below zero. Digits are read from the left and the number read so far must stay in the range, so the
first fault from the left is the one reported.
-/

namespace LedgerFeed.Integer

/-- Why a text is no integer of a range. -/
inductive Fault
  | empty
  | badDigit
  | tooLarge
  | tooSmall
  deriving DecidableEq, Repr

def Fault.message : Fault → String
  | .empty => "cannot parse integer from empty string"
  | .badDigit => "invalid digit found in string"
  | .tooLarge => "number too large to fit in target type"
  | .tooSmall => "number too small to fit in target type"

/-- The value of an ASCII digit. -/
def digit? (c : Char) : Option Nat :=
  if '0' ≤ c ∧ c ≤ '9' then some (c.toNat - 48) else none

/-- The number that continues `n` with digits, none of which may take it above `hi`. -/
def readUp (hi : Int) (n : Int) : List Char → Except Fault Int
  | [] => .ok n
  | c :: rest =>
    match digit? c with
    | none => .error .badDigit
    | some d => if 10 * n + d ≤ hi then readUp hi (10 * n + d) rest else .error .tooLarge

/-- The number that continues the negative `n` with digits, none of which may take it below `lo`. -/
def readDown (lo : Int) (n : Int) : List Char → Except Fault Int
  | [] => .ok n
  | c :: rest =>
    match digit? c with
    | none => .error .badDigit
    | some d => if lo ≤ 10 * n - d then readDown lo (10 * n - d) rest else .error .tooSmall

/-- The integer between `lo` and `hi` that a text stands for. A sign alone is a bad digit, and so is
a minus sign where the range does not reach below zero. -/
def parse (lo hi : Int) (s : List Char) : Except Fault Int :=
  match s with
  | [] => .error .empty
  | ['+'] | ['-'] => .error .badDigit
  | '+' :: rest => readUp hi 0 rest
  | '-' :: rest => if lo < 0 then readDown lo 0 rest else .error .badDigit
  | s => readUp hi 0 s

/-- The decimal digits of a number. -/
def digits (n : Nat) : List Char :=
  Nat.toDigits 10 n

/-- The digits of a number with zeros in front, `width` of them at least. -/
def padded (width n : Nat) : List Char :=
  let digits := digits n
  List.replicate (width - digits.length) '0' ++ digits

/-- The decimal text of an integer: a minus sign if it is negative, then its digits. -/
def render (n : Int) : List Char :=
  if n < 0 then '-' :: digits n.natAbs else digits n.natAbs

end LedgerFeed.Integer

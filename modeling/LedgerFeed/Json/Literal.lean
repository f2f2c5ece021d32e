import LedgerFeed.Json.Basic

/-!
# Literals of JSON

What the characters of a number or of a text literal stand for. A literal that stands for nothing,
because its number is beyond the largest double or its text has half a surrogate pair, is
unreadable.
-/

namespace LedgerFeed.Json

/-- What a text literal holds: characters, and UTF-16 units written as escapes. -/
inductive Piece
  | char (c : Char)
  | unit (value : Nat)
  deriving DecidableEq, Repr

/-- A unit that starts a surrogate pair. -/
def isHighSurrogate (u : Nat) : Bool :=
  0xd800 ≤ u && u < 0xdc00

/-- A unit that ends a surrogate pair. -/
def isLowSurrogate (u : Nat) : Bool :=
  0xdc00 ≤ u && u < 0xe000

/-- The characters that the pieces stand for. Half a surrogate pair stands for none. -/
def joinPieces : List Piece → Option (List Char)
  | [] => some []
  | .char c :: rest => (joinPieces rest).map (c :: ·)
  | .unit u :: rest =>
    if isHighSurrogate u then
      match rest with
      | .unit v :: rest =>
        if isLowSurrogate v then
          (joinPieces rest).map (Char.ofNat (0x10000 + (u - 0xd800) * 0x400 + (v - 0xdc00)) :: ·)
        else none
      | _ => none
    else if isLowSurrogate u then none
    else (joinPieces rest).map (Char.ofNat u :: ·)

/-- The text that the pieces stand for. -/
def textOf (pieces : List Piece) : Option String :=
  (joinPieces pieces).map String.ofList

/-- The parts of a number. Digits are kept last first while the number is read. -/
structure Literal where
  negative : Bool
  whole : List Nat
  fraction : Option (List Nat)
  exponent : Option (Bool × List Nat)
  deriving DecidableEq, Repr

/-- The number that digits stand for, first digit first. -/
def ofDigits (digits : List Nat) : Nat :=
  digits.foldl (fun n d => 10 * n + d) 0

/-- The double that the parts stand for. -/
def Literal.toReal (l : Literal) : Option Binary64 :=
  let (n, left) := significand 0 l.whole.reverse
  let (m, unused) := significand n (l.fraction.getD []).reverse
  let point : Int := left.length - ((l.fraction.getD []).length - unused.length : Nat)
  let exponent : Int :=
    match l.exponent with
    | none => 0
    | some (negative, digits) =>
      let e := ofDigits digits.reverse
      if negative then -e else e
  (scale m (point + exponent)).map fun x => { x with negative := l.negative }

/-- The tree of a number: an integer if it has neither fraction nor exponent. -/
def Literal.toJson (l : Literal) : Json :=
  if l.fraction.isNone ∧ l.exponent.isNone then
    let n : Number := .integer l.negative (ofDigits l.whole.reverse)
    if n.narrow.isSome then .number n else .unreadable
  else l.toReal.elim .unreadable (.number <| .real ·)

end LedgerFeed.Json

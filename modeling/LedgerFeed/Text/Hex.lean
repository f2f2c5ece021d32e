import LedgerFeed.Bytes
import LedgerFeed.Text.Printable

/-!
# Hexadecimal text

Byte strings are written with two lowercase digits a byte and read with digits of either case. The
reader looks at the UTF-8 bytes of the text, so the position of a bad digit counts bytes.
-/

namespace LedgerFeed.Hex

/-- Why a text is not hexadecimal. -/
inductive Fault
  | oddLength
  | badDigit (byte : UInt8) (position : Nat)
  deriving DecidableEq, Repr

/-- A bad digit is shown as the character whose code point is the byte. -/
def Fault.message : Fault → String
  | .oddLength => "Odd number of digits"
  | .badDigit b p =>
    "Invalid character " ++ String.ofList (Text.quoted '\'' [Char.ofNat b.toNat])
      ++ " at position " ++ toString p

/-- The lowercase digit of a number below 16. -/
def digit (n : Nat) : Char :=
  if n < 10 then Char.ofNat (48 + n) else Char.ofNat (87 + n)

/-- The number that a digit of either case stands for. -/
def value? (b : UInt8) : Option Nat :=
  let n := b.toNat
  if 48 ≤ n ∧ n ≤ 57 then some (n - 48)
  else if 97 ≤ n ∧ n ≤ 102 then some (n - 87)
  else if 65 ≤ n ∧ n ≤ 70 then some (n - 55)
  else none

/-- The character is a digit of either case. -/
def isDigit (c : Char) : Bool :=
  c.isDigit || ('a' ≤ c && c ≤ 'f') || ('A' ≤ c && c ≤ 'F')

/-- The digits of a byte string, high half of each byte first. -/
def digits (b : Bytes) : List Char :=
  b.flatMap fun x => [digit (x.toNat / 16), digit (x.toNat % 16)]

/-- The text of a byte string. -/
def encode (b : Bytes) : String :=
  String.ofList (digits b)

/-- The value of the digit at a position. -/
def valueAt (position : Nat) (b : UInt8) : Except Fault Nat :=
  match value? b with
  | some n => .ok n
  | none => .error (.badDigit b position)

/-- The bytes written by pairs of digits, from a position on. -/
def decodePairs (position : Nat) : Bytes → Except Fault Bytes
  | high :: low :: rest => do
    let h ← valueAt position high
    let l ← valueAt (position + 1) low
    let b ← decodePairs (position + 2) rest
    return UInt8.ofNat (16 * h + l) :: b
  | _ => .ok []

/-- The bytes that a text of digits stands for. The length is looked at before the digits. -/
def decode (s : String) : Except Fault Bytes :=
  let b := Bytes.ofText s
  if b.length % 2 = 0 then decodePairs 0 b else .error .oddLength

/-- The text without the `0x` it may start with. -/
def dropMarker (s : String) : String :=
  match s.toList with
  | '0' :: 'x' :: rest => String.ofList rest
  | _ => s

/-- The bytes that a text of digits stands for, with or without `0x` in front. -/
def decodeMarked (s : String) : Except Fault Bytes :=
  decode (dropMarker s)

end LedgerFeed.Hex

import LedgerFeed.Bytes

/-!
# Writing CBOR items

Every item is written in its one preferred form: arguments in the fewest bytes, lengths definite.
-/

namespace LedgerFeed.Cbor

/-- The head of an item: the major type, and the argument in the fewest bytes. -/
def head (major : Nat) (n : Nat) : Bytes :=
  if n < 0x18 then [UInt8.ofNat (32 * major + n)]
  else if n < 2 ^ 8 then UInt8.ofNat (32 * major + 0x18) :: Bytes.ofNat 1 n
  else if n < 2 ^ 16 then UInt8.ofNat (32 * major + 0x19) :: Bytes.ofNat 2 n
  else if n < 2 ^ 32 then UInt8.ofNat (32 * major + 0x1a) :: Bytes.ofNat 4 n
  else UInt8.ofNat (32 * major + 0x1b) :: Bytes.ofNat 8 n

/-- A number without sign. -/
def writeNat (n : Nat) : Bytes :=
  head 0 n

/-- A number with a sign. -/
def writeInt (n : Int) : Bytes :=
  if n < 0 then head 1 (-1 - n).toNat else head 0 n.toNat

/-- A truth value. -/
def writeBool (b : Bool) : Bytes :=
  [if b then 0xf5 else 0xf4]

/-- Null. -/
def writeNull : Bytes :=
  [0xf6]

/-- A byte string. -/
def writeBytes (b : Bytes) : Bytes :=
  head 2 b.length ++ b

/-- A text. -/
def writeText (s : String) : Bytes :=
  head 3 (Bytes.ofText s).length ++ Bytes.ofText s

/-- The start of an array. -/
def writeArray (size : Nat) : Bytes :=
  head 4 size

/-- A tag. -/
def writeTag (n : Nat) : Bytes :=
  head 6 n

end LedgerFeed.Cbor

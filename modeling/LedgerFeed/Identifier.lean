import LedgerFeed.Json.Record
import LedgerFeed.Text.Hex

/-!
# Identifiers and addresses

An identifier of a block, a transaction or a collection has 32 bytes and is written as 64 digits.
The address of an account has 8 bytes and is written as 16 digits behind `0x`. Both are read with
or without `0x` in front.
-/

namespace LedgerFeed

/-- The name of a block, a transaction, a collection or a receipt. -/
structure Identifier where
  octets : Bytes
  size : octets.length = 32
  deriving DecidableEq, Repr

namespace Identifier

/-- The identifier with the given bytes, if they are 32. -/
def ofBytes? (b : Bytes) : Option Identifier :=
  if h : b.length = 32 then some ⟨b, h⟩ else none

/-- Why a text is no identifier. The text is shown without its `0x`. -/
inductive Fault
  | badHex (text : String) (fault : Hex.Fault)
  | badSize (text : String) (size : Nat)
  deriving DecidableEq, Repr

def Fault.message : Fault → String
  | .badHex text fault => "invalid identifier '" ++ text ++ "': " ++ fault.message
  | .badSize text size =>
    "invalid identifier '" ++ text ++ "': expected 32 bytes, got " ++ toString size

/-- The identifier that a text stands for. -/
def parse (s : String) : Except Fault Identifier :=
  let digits := Hex.dropMarker s
  match Hex.decode digits with
  | .error fault => .error (.badHex digits fault)
  | .ok b =>
    match ofBytes? b with
    | some id => .ok id
    | none => .error (.badSize digits b.length)

/-- The digits of an identifier. -/
def toText (id : Identifier) : String :=
  Hex.encode id.octets

/-- All bytes are zero. -/
def isZero (id : Identifier) : Bool :=
  id.octets.all (· == 0)

def toJson (id : Identifier) : Json :=
  .text id.toText

def ofJson? (j : Json) : Option Identifier :=
  j.asText.bind fun s => (parse s).toOption

end Identifier

/-- The name of an account. -/
structure Address where
  octets : Bytes
  size : octets.length = 8
  deriving DecidableEq, Repr

namespace Address

/-- The address with the given bytes, if they are 8. -/
def ofBytes? (b : Bytes) : Option Address :=
  if h : b.length = 8 then some ⟨b, h⟩ else none

/-- Why a text is no address. The text is shown as it is. -/
inductive Fault
  | badHex (text : String) (fault : Hex.Fault)
  | badSize (text : String) (size : Nat)
  deriving DecidableEq, Repr

def Fault.message : Fault → String
  | .badHex text fault => "invalid address '" ++ text ++ "': " ++ fault.message
  | .badSize text size =>
    "invalid address '" ++ text ++ "': expected 16 hex chars, got " ++ toString size

/-- The address that a text stands for. The size of the text in UTF-8 is looked at before its
digits. -/
def parse (s : String) : Except Fault Address :=
  let digits := Hex.dropMarker s
  if digits.utf8ByteSize = 16 then
    match Hex.decode digits with
    | .error fault => .error (.badHex s fault)
    | .ok b =>
      match ofBytes? b with
      | some a => .ok a
      | none => .error (.badSize s b.length)
  else .error (.badSize s digits.utf8ByteSize)

/-- The digits of an address. -/
def digits (a : Address) : String :=
  Hex.encode a.octets

/-- The digits of an address behind `0x`. -/
def toText (a : Address) : String :=
  "0x" ++ a.digits

def toJson (a : Address) : Json :=
  .text a.toText

def ofJson? (j : Json) : Option Address :=
  j.asText.bind fun s => (parse s).toOption

end Address

end LedgerFeed

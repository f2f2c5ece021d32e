import LedgerFeed.Cbor.Reader
import LedgerFeed.Cbor.Writer
import LedgerFeed.Value.Basic

/-!
# The compact encoding

A payload is tag 130 around the array of a version number and a value. A value is an array too: the
code of its kind, then the kind's elements. Integers of 128 bits are byte strings in two's
complement. The reader goes down with the number of levels it may still open, so that no payload
nests deeper than `Value.maxDepth`.
-/

namespace LedgerFeed.Compact

/-- The tag of a payload. -/
def tag : Nat := 130

/-- The version that is read and written. -/
def version : Nat := 0

/-- The parts of a value that have a fixed size in bytes. -/
inductive Sized
  | address
  | int
  | uint
  deriving DecidableEq, Repr

def Sized.name : Sized → String
  | .address => "address"
  | .int => "Int"
  | .uint => "UInt"

def Sized.size : Sized → Nat
  | .address => 8
  | .int | .uint => 16

/-- Why a payload holds no value. -/
inductive Fault
  | emptyPayload
  | item (fault : Cbor.Fault)
  | wrongTag (tag : Nat)
  | openArray
  | wrongLength (expected found : Nat)
  | wrongVersion (version : Nat)
  | tooDeep
  | emptyValue
  | wrongArity (code expected found : Nat)
  | unknownKind (code : Nat)
  | wrongSize (part : Sized) (found : Nat)
  | trailing (count : Nat)
  deriving DecidableEq, Repr

/-- The message of a fault in a payload of the given size. -/
def Fault.message (size : Nat) : Fault → String
  | .emptyPayload => "empty payload"
  | .item fault => fault.message size
  | .wrongTag tag => "unexpected tag " ++ toString tag
  | .openArray => "indefinite-length array"
  | .wrongLength expected found =>
    "expected array of " ++ toString expected ++ ", got " ++ toString found
  | .wrongVersion version => "unsupported version " ++ toString version
  | .tooDeep => "nesting deeper than " ++ toString Value.maxDepth
  | .emptyValue => "empty value array"
  | .wrongArity code expected found =>
    "kind " ++ toString code ++ " expects " ++ toString expected ++ " elements, got "
      ++ toString found
  | .unknownKind code => "unknown kind code " ++ toString code
  | .wrongSize part found =>
    part.name ++ " must be " ++ toString part.size ++ " bytes, got " ++ toString found
  | .trailing count => toString count ++ " trailing bytes"

/-- A reader of a part of a payload. -/
abbrev Reader (α : Type) : Type :=
  Bytes → Except Fault (α × Bytes)

/-- A reader of a CBOR item as one of a part of a payload. -/
def item {α : Type} (read : Cbor.Reader α) : Reader α := fun b =>
  match read b with
  | .ok r => .ok r
  | .error e => .error (.item e)

/-- The start of an array of definite length: its length. -/
def readLength : Reader Nat := fun b => do
  let (size, rest) ← item Cbor.readArray b
  match size with
  | some n => .ok (n, rest)
  | none => .error .openArray

/-- The start of an array of the given length. -/
def expectLength (n : Nat) : Reader Unit := fun b => do
  let (found, rest) ← readLength b
  if found = n then .ok ((), rest) else .error (.wrongLength n found)

/-- A byte string of a fixed size. -/
def readSized (part : Sized) : Reader { octets : Bytes // octets.length = part.size } := fun b => do
  let (octets, rest) ← item Cbor.readBytes b
  if h : octets.length = part.size then .ok (⟨octets, h⟩, rest)
  else .error (.wrongSize part octets.length)

/-- An item read `n` times. -/
def repeated {α : Type} (read : Reader α) : Nat → Reader (List α)
  | 0, b => .ok ([], b)
  | n + 1, b => do
    let (a, rest) ← read b
    let (as, rest) ← repeated read n rest
    return (a :: as, rest)

/-- An array of definite length of items. -/
def readList {α : Type} (read : Reader α) : Reader (List α) := fun b => do
  let (n, rest) ← readLength b
  repeated read n rest

/-- A pair: an array of two items. -/
def readPair {α β : Type} (first : Reader α) (second : Reader β) : Reader (α × β) := fun b => do
  let ((), rest) ← expectLength 2 b
  let (a, rest) ← first rest
  let (b, rest) ← second rest
  return ((a, b), rest)

/-- Null, or an item. -/
def readOptional {α : Type} (read : Reader α) : Reader (Option α) := fun b => do
  match Cbor.nextIsNull b with
  | .error e => .error (.item e)
  | .ok true =>
    let ((), rest) ← item Cbor.readNull b
    return (none, rest)
  | .ok false =>
    let (a, rest) ← read b
    return (some a, rest)

/-- An integer of a type as the item or the byte string that it is written in. -/
def readInteger (t : IntegerType) : Reader Int := fun b =>
  match t with
  | .int => do
    let (octets, rest) ← readSized .int b
    return (Bytes.toInt octets.val, rest)
  | .uint => do
    let (octets, rest) ← readSized .uint b
    return ((Bytes.toNat octets.val : Int), rest)
  | .int64 => item Cbor.readInt64 b
  | .uint8 => do
    let (n, rest) ← item Cbor.readUInt8 b
    return ((n : Int), rest)
  | .uint64 => do
    let (n, rest) ← item Cbor.readUInt64 b
    return ((n : Int), rest)

/-- A number of units of a fixed-point type. -/
def readUnits (t : FixedType) : Reader Int := fun b =>
  match t with
  | .fix64 => item Cbor.readInt64 b
  | .ufix64 => do
    let (n, rest) ← item Cbor.readUInt64 b
    return ((n : Int), rest)

/-- How many elements a value of a kind has, its code included. -/
def arity : Kind → Nat
  | .void => 1
  | .composite _ | .path | .type => 3
  | _ => 2

/-- The value of a kind, behind its code, by a reader for the values inside it. The numbers read are
in the range of their type already, so that clamping them only records it. -/
def readBody (read : Reader Value) (k : Kind) : Reader Value := fun b =>
  match k with
  | .void => .ok (.void, b)
  | .optional => do
    let (content, rest) ← readOptional read b
    return (content.elim .absent .present, rest)
  | .bool => do
    let (v, rest) ← item Cbor.readBool b
    return (.bool v, rest)
  | .text => do
    let (s, rest) ← item Cbor.readText b
    return (.text s, rest)
  | .address => do
    let (octets, rest) ← readSized .address b
    return (.address ⟨octets.val, octets.property⟩, rest)
  | .integer t => do
    let (n, rest) ← readInteger t b
    return (.integer t (.clamp t.lo_le_hi n), rest)
  | .fixed t => do
    let (n, rest) ← readUnits t b
    return (.fixed t (.clamp t.lo_le_hi n), rest)
  | .array => do
    let (items, rest) ← readList read b
    return (.array items, rest)
  | .dictionary => do
    let (entries, rest) ← readList (readPair read read) b
    return (.dictionary entries, rest)
  | .composite k => do
    let (typeId, rest) ← item Cbor.readText b
    let (fields, rest) ← readList (readPair (item Cbor.readText) read) rest
    return (.composite k typeId fields, rest)
  | .path => do
    let (domain, rest) ← item Cbor.readText b
    let (identifier, rest) ← item Cbor.readText rest
    return (.path domain identifier, rest)
  | .type => do
    let (kind, rest) ← item Cbor.readText b
    let (typeId, rest) ← readOptional (item Cbor.readText) rest
    return (.type ⟨kind, typeId⟩, rest)

/-- A value that opens `levels` levels at most. -/
def readValue : Nat → Reader Value
  | 0, _ => .error .tooDeep
  | levels + 1, b => do
    let (size, rest) ← readLength b
    if size = 0 then .error .emptyValue
    else
      let (code, rest) ← item Cbor.readUInt8 rest
      match Kind.ofCode? code with
      | none => .error (.unknownKind code)
      | some k =>
        if size = arity k then readBody (readValue levels) k rest
        else .error (.wrongArity code (arity k) size)

/-- The tag, the array and the version in front of the value. -/
def readHeader : Reader Unit := fun b => do
  let (t, rest) ← item Cbor.readTag b
  if t ≠ tag then .error (.wrongTag t)
  else
    let ((), rest) ← expectLength 2 rest
    let (v, rest) ← item Cbor.readUInt64 rest
    if v = version then .ok ((), rest) else .error (.wrongVersion v)

/-- The value of a payload. -/
def decode (payload : Bytes) : Except Fault Value :=
  if payload.isEmpty then .error .emptyPayload
  else do
    let ((), rest) ← readHeader payload
    let (v, rest) ← readValue Value.maxDepth rest
    if rest.isEmpty then return v else .error (.trailing rest.length)

/-- An integer of a type. -/
def writeInteger (t : IntegerType) (n : Int) : Bytes :=
  match t with
  | .int | .uint => Cbor.writeBytes (Bytes.ofInt 16 n)
  | .int64 => Cbor.writeInt n
  | .uint8 | .uint64 => Cbor.writeNat n.toNat

/-- A number of units of a fixed-point type. -/
def writeUnits (t : FixedType) (n : Int) : Bytes :=
  match t with
  | .fix64 => Cbor.writeInt n
  | .ufix64 => Cbor.writeNat n.toNat

/-- Null, or a text. -/
def writeOptionalText : Option String → Bytes
  | none => Cbor.writeNull
  | some s => Cbor.writeText s

/-- The array of a value and the code of its kind. -/
def writeKind (k : Kind) : Bytes :=
  Cbor.writeArray (arity k) ++ Cbor.writeNat k.code

mutual

/-- The bytes of a value. -/
def write : Value → Bytes
  | .void => writeKind .void
  | .absent => writeKind .optional ++ Cbor.writeNull
  | .present v => writeKind .optional ++ write v
  | .bool b => writeKind .bool ++ Cbor.writeBool b
  | .text s => writeKind .text ++ Cbor.writeText s
  | .address a => writeKind .address ++ Cbor.writeBytes a.octets
  | .integer t n => writeKind (.integer t) ++ writeInteger t n.val
  | .fixed t n => writeKind (.fixed t) ++ writeUnits t n.val
  | .array items => writeKind .array ++ Cbor.writeArray items.length ++ writeItems items
  | .dictionary entries =>
    writeKind .dictionary ++ Cbor.writeArray entries.length ++ writeEntries entries
  | .composite k typeId fields =>
    writeKind (.composite k) ++ Cbor.writeText typeId ++ Cbor.writeArray fields.length
      ++ writeFields fields
  | .path domain identifier =>
    writeKind .path ++ Cbor.writeText domain ++ Cbor.writeText identifier
  | .type t => writeKind .type ++ Cbor.writeText t.kind ++ writeOptionalText t.typeId

/-- The bytes of items. -/
def writeItems : List Value → Bytes
  | [] => []
  | v :: rest => write v ++ writeItems rest

/-- The bytes of entries. -/
def writeEntries : List (Value × Value) → Bytes
  | [] => []
  | (k, v) :: rest => Cbor.writeArray 2 ++ write k ++ write v ++ writeEntries rest

/-- The bytes of fields. -/
def writeFields : List (String × Value) → Bytes
  | [] => []
  | (name, v) :: rest => Cbor.writeArray 2 ++ Cbor.writeText name ++ write v ++ writeFields rest

end

/-- The tag, the array and the version in front of the value. -/
def header : Bytes :=
  Cbor.writeTag tag ++ Cbor.writeArray 2 ++ Cbor.writeNat version

/-- The payload of a value, if the value is not too deep. -/
def encode? (v : Value) : Option Bytes :=
  if v.depth ≤ Value.maxDepth then some (header ++ write v) else none

end LedgerFeed.Compact

import LedgerFeed.Bytes

/-!
# Reading CBOR items

Readers for the items of RFC 8949 that payloads are made of. A reader takes the unread bytes and
returns the item and the rest. Arguments may be written in more bytes than they need; items of
indefinite length are only told apart. A fault says how many bytes were unread where its item
starts, so that its position follows from the size of the payload.
-/

namespace LedgerFeed.Cbor

/-- What an initial byte announces. -/
inductive ItemType
  | u8
  | u16
  | u32
  | u64
  | i8
  | i16
  | i32
  | i64
  | int
  | bytes
  | openBytes
  | text
  | openText
  | array
  | openArray
  | map
  | openMap
  | tag
  | simple
  | bool
  | null
  | undefined
  | f16
  | f32
  | f64
  | stop
  | unknown (byte : Nat)
  deriving DecidableEq, Repr

def ItemType.name : ItemType → String
  | .u8 => "u8"
  | .u16 => "u16"
  | .u32 => "u32"
  | .u64 => "u64"
  | .i8 => "i8"
  | .i16 => "i16"
  | .i32 => "i32"
  | .i64 => "i64"
  | .int => "int"
  | .bytes => "bytes"
  | .openBytes => "indefinite bytes"
  | .text => "string"
  | .openText => "indefinite string"
  | .array => "array"
  | .openArray => "indefinite array"
  | .map => "map"
  | .openMap => "indefinite map"
  | .tag => "tag"
  | .simple => "simple"
  | .bool => "bool"
  | .null => "null"
  | .undefined => "undefined"
  | .f16 => "f16"
  | .f32 => "f32"
  | .f64 => "f64"
  | .stop => "break"
  | .unknown byte => "0x" ++ String.ofList (Nat.toDigits 16 byte)

/-- What a reader expects. -/
inductive Expected
  | tag
  | array
  | u64
  | u8
  | i64
  | bool
  | bytes
  | text
  | null
  deriving DecidableEq, Repr

def Expected.message : Expected → String
  | .tag => "expected tag"
  | .array => "expected array"
  | .u64 => "expected u64"
  | .u8 => "expected u8"
  | .i64 => "expected i64"
  | .bool => "expected bool"
  | .bytes => "expected bytes (definite length)"
  | .text => "expected text (definite length)"
  | .null => "expected null"

/-- Why an item is not read. The number `unread` counts the bytes from its initial byte on. -/
inductive Fault
  | endOfInput
  | unexpected (found : ItemType) (unread : Nat) (expected : Expected)
  | overflow (value : Nat) (unread : Nat) (source target : String)
  | badText (unread : Nat)
  deriving DecidableEq, Repr

/-- The message of a fault in a payload of the given size. -/
def Fault.message (size : Nat) : Fault → String
  | .endOfInput => "end of input bytes"
  | .unexpected found unread expected =>
    "unexpected type " ++ found.name ++ " at position " ++ toString (size - unread) ++ ": "
      ++ expected.message
  | .overflow value unread source target =>
    toString value ++ " overflows target type at position " ++ toString (size - unread)
      ++ ": when converting " ++ source ++ " to " ++ target
  | .badText unread => "invalid utf-8 at position " ++ toString (size - unread)

/-- A reader of an item. -/
abbrev Reader (α : Type) : Type :=
  Bytes → Except Fault (α × Bytes)

/-- The next byte. -/
def byte : Reader UInt8
  | [] => .error .endOfInput
  | b :: rest => .ok (b, rest)

/-- The next `n` bytes. -/
def take : Nat → Reader Bytes
  | 0, b => .ok ([], b)
  | _ + 1, [] => .error .endOfInput
  | n + 1, x :: rest =>
    match take n rest with
    | .ok (b, rest) => .ok (x :: b, rest)
    | .error e => .error e

/-- The number in the next `n` bytes. -/
def number (n : Nat) : Reader Nat := fun b => do
  let (digits, rest) ← take n b
  return (Bytes.toNat digits, rest)

/-- A negative number is told to be of the narrower type if the sign bit of a byte is clear. The
byte is the second one behind the initial byte; `behind` starts with the first. -/
def signedType (narrow wide : ItemType) (behind : Bytes) : Except Fault ItemType :=
  match behind with
  | _ :: b :: _ => .ok (if b < 0x80 then narrow else wide)
  | _ => .error .endOfInput

/-- What the initial byte `n` announces, given the bytes behind it. -/
def typeOf (n : Nat) (behind : Bytes) : Except Fault ItemType :=
  if n ≤ 0x18 then .ok .u8
  else if n = 0x19 then .ok .u16
  else if n = 0x1a then .ok .u32
  else if n = 0x1b then .ok .u64
  else if 0x20 ≤ n ∧ n ≤ 0x37 then .ok .i8
  else if n = 0x38 then signedType .i8 .i16 behind
  else if n = 0x39 then signedType .i16 .i32 behind
  else if n = 0x3a then signedType .i32 .i64 behind
  else if n = 0x3b then signedType .i64 .int behind
  else if 0x40 ≤ n ∧ n ≤ 0x5b then .ok .bytes
  else if n = 0x5f then .ok .openBytes
  else if 0x60 ≤ n ∧ n ≤ 0x7b then .ok .text
  else if n = 0x7f then .ok .openText
  else if 0x80 ≤ n ∧ n ≤ 0x9b then .ok .array
  else if n = 0x9f then .ok .openArray
  else if 0xa0 ≤ n ∧ n ≤ 0xbb then .ok .map
  else if n = 0xbf then .ok .openMap
  else if 0xc0 ≤ n ∧ n ≤ 0xdb then .ok .tag
  else if (0xe0 ≤ n ∧ n ≤ 0xf3) ∨ n = 0xf8 then .ok .simple
  else if n = 0xf4 ∨ n = 0xf5 then .ok .bool
  else if n = 0xf6 then .ok .null
  else if n = 0xf7 then .ok .undefined
  else if n = 0xf9 then .ok .f16
  else if n = 0xfa then .ok .f32
  else if n = 0xfb then .ok .f64
  else if n = 0xff then .ok .stop
  else .ok (.unknown n)

/-- The fault of an item that starts with `n` where something else is expected. -/
def mismatch {α : Type} (n : Nat) (behind : Bytes) (expected : Expected) : Except Fault α := do
  let found ← typeOf n behind
  .error (.unexpected found (behind.length + 1) expected)

/-- The argument that the initial byte, or its low five bits, announce. -/
def argument (n : Nat) (behind : Bytes) : Except Fault (Nat × Bytes) :=
  if n < 0x18 then .ok (n, behind)
  else if n = 0x18 then number 1 behind
  else if n = 0x19 then number 2 behind
  else if n = 0x1a then number 4 behind
  else if n = 0x1b then number 8 behind
  else mismatch n behind .u64

/-- An unsigned number of 64 bits. -/
def readUInt64 : Reader Nat := fun b => do
  let (head, rest) ← byte b
  argument head.toNat rest

/-- A number that was written with `bits` bits and has to fit the target. -/
def fit {α : Type} (value unread : Nat) (source target : String) (fits : Bool) (result : α)
    (rest : Bytes) : Except Fault (α × Bytes) :=
  if fits then .ok (result, rest) else .error (.overflow value unread source target)

/-- An unsigned number of 8 bits, written with any number of them. -/
def readUInt8 : Reader Nat := fun b => do
  let (head, rest) ← byte b
  let n := head.toNat
  if n < 0x18 then return (n, rest)
  else if n = 0x18 then number 1 rest
  else if n = 0x19 then
    let (v, rest) ← number 2 rest
    fit v b.length "u16" "u8" (v < 256) v rest
  else if n = 0x1a then
    let (v, rest) ← number 4 rest
    fit v b.length "u32" "u8" (v < 256) v rest
  else if n = 0x1b then
    let (v, rest) ← number 8 rest
    fit v b.length "u64" "u8" (v < 256) v rest
  else mismatch n rest .u8

/-- A signed number of 64 bits. -/
def readInt64 : Reader Int := fun b => do
  let (head, rest) ← byte b
  let n := head.toNat
  if n ≤ 0x1b then
    let (v, rest) ← argument n rest
    fit v b.length "u64" "i64" (v < 2 ^ 63) (v : Int) rest
  else if 0x20 ≤ n ∧ n ≤ 0x3b then
    let (v, rest) ← argument (n - 0x20) rest
    fit v b.length "u64" "i64" (v < 2 ^ 63) (-1 - (v : Int)) rest
  else mismatch n rest .i64

/-- A truth value. -/
def readBool : Reader Bool := fun b => do
  let (head, rest) ← byte b
  if head = 0xf4 then return (false, rest)
  else if head = 0xf5 then return (true, rest)
  else mismatch head.toNat rest .bool

/-- Null. -/
def readNull : Reader Unit := fun b => do
  let (head, rest) ← byte b
  if head = 0xf6 then return ((), rest) else mismatch head.toNat rest .null

/-- A byte string of definite length. -/
def readBytes : Reader Bytes := fun b => do
  let (head, rest) ← byte b
  let n := head.toNat
  if n / 32 = 2 ∧ n % 32 ≠ 31 then
    let (size, rest) ← argument (n % 32) rest
    take size rest
  else mismatch n rest .bytes

/-- A text of definite length. -/
def readText : Reader String := fun b => do
  let (head, rest) ← byte b
  let n := head.toNat
  if n / 32 = 3 ∧ n % 32 ≠ 31 then
    let (size, rest) ← argument (n % 32) rest
    let (content, rest) ← take size rest
    match Bytes.text? content with
    | some s => return (s, rest)
    | none => .error (.badText b.length)
  else mismatch n rest .text

/-- The start of an array: its length, or nothing if the length is indefinite. -/
def readArray : Reader (Option Nat) := fun b => do
  let (head, rest) ← byte b
  let n := head.toNat
  if n / 32 = 4 then
    if n % 32 = 31 then return (none, rest)
    else
      let (size, rest) ← argument (n % 32) rest
      return (some size, rest)
  else mismatch n rest .array

/-- A tag. -/
def readTag : Reader Nat := fun b => do
  let (head, rest) ← byte b
  let n := head.toNat
  if n / 32 = 6 then argument (n % 32) rest else mismatch n rest .tag

/-- Whether null comes next. The type of the next item is found out as if its initial byte had been
read by someone else: the byte that tells the types of negative numbers apart is the first one
behind it. -/
def nextIsNull (b : Bytes) : Except Fault Bool := do
  let (head, rest) ← byte b
  let found ← typeOf head.toNat (head :: rest)
  return found = .null

end LedgerFeed.Cbor

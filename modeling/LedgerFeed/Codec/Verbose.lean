import LedgerFeed.Codec.Options
import LedgerFeed.Json.Nesting
import LedgerFeed.Json.Printer
import LedgerFeed.Json.Reader
import LedgerFeed.Text.Fixed
import LedgerFeed.Value.Basic

/-!
# The verbose encoding

A payload is a JSON document. A value is an object of the name of its kind and, except for void, a
body. Numbers are texts of decimal digits, so that none is rounded. The reader looks at the last
member of a name and passes over members that it has no use for. Brackets are counted before the
document is read, so that the reader of JSON needs no limit of its own.
-/

namespace LedgerFeed.Verbose

/-- The most brackets that may be open at once. A field of a composite value opens four for each
level of values. -/
def maxBrackets : Nat :=
  4 * Value.maxDepth + 4

/-- Why a payload holds no value. -/
inductive Fault
  | emptyPayload
  | tooDeep
  | badJson
  | notObject (what : String)
  | notArray (what : String)
  | missingText (field : String)
  | missing (field : String)
  | notBool
  | notText (k : Kind)
  | notDecimal (k : Kind)
  | badAddress (fault : Address.Fault)
  | badInteger (t : IntegerType) (text : String) (fault : Integer.Fault)
  | badFixed (t : FixedType) (text : String)
  | fixedOutOfRange (t : FixedType)
  | typeIdNotText
  | bareStaticType
  | staticTypeNotObject
  | unknownKind (name : String)
  deriving DecidableEq, Repr

def Fault.message : Fault → String
  | .emptyPayload => "empty payload"
  | .tooDeep => "nesting deeper than " ++ toString Value.maxDepth
  | .badJson => "invalid JSON"
  | .notObject what => what ++ " must be an object"
  | .notArray what => what ++ " must be an array"
  | .missingText field => "missing string field '" ++ field ++ "'"
  | .missing field => "missing field '" ++ field ++ "'"
  | .notBool => "Bool value must be a boolean"
  | .notText k => k.name ++ " value must be a string"
  | .notDecimal k => k.name ++ " value must be a decimal string"
  | .badAddress fault => fault.message
  | .badInteger t text fault =>
    "invalid " ++ (Kind.integer t).name ++ " '" ++ text ++ "': " ++ fault.message
  | .badFixed t text => "invalid " ++ (Kind.fixed t).name ++ " '" ++ text ++ "'"
  | .fixedOutOfRange t => (Kind.fixed t).name ++ " out of range"
  | .typeIdNotText => "typeID must be a string"
  | .bareStaticType => "unstructured static type not allowed"
  | .staticTypeNotObject => "staticType must be an object"
  | .unknownKind name => "unknown type '" ++ name ++ "'"

/-- The members of an object. -/
def membersOf (what : String) : Json → Except Fault (List (String × Json))
  | .object members => .ok members
  | _ => .error (.notObject what)

/-- The items of an array. -/
def itemsOf (what : String) : Json → Except Fault (List Json)
  | .array items => .ok items
  | _ => .error (.notArray what)

/-- A member that is a text. -/
def textField (name : String) (members : List (String × Json)) : Except Fault String :=
  match Json.lastMember? name members with
  | some (.text s) => .ok s
  | _ => .error (.missingText name)

/-- A member. -/
def field (name : String) (members : List (String × Json)) : Except Fault Json :=
  match Json.lastMember? name members with
  | some j => .ok j
  | none => .error (.missing name)

/-- A body that is a text of decimal digits. -/
def decimalText (k : Kind) : Json → Except Fault String
  | .text s => .ok s
  | _ => .error (.notDecimal k)

/-- An integer of a type. -/
def readInteger (t : IntegerType) (body : Json) : Except Fault t.Num := do
  let s ← decimalText (.integer t) body
  match Integer.parse t.lo t.hi s.toList with
  | .ok n => .ok (.clamp t.lo_le_hi n)
  | .error e => .error (.badInteger t s e)

/-- A fixed-point number of a type. -/
def readFixed (t : FixedType) (body : Json) : Except Fault t.Num := do
  let s ← decimalText (.fixed t) body
  match Fixed.parse s.toList with
  | none => .error (.badFixed t s)
  | some n =>
    match Bounded.ofInt? n with
    | some n => .ok n
    | none => .error (.fixedOutOfRange t)

/-- An address. -/
def readAddress : Json → Except Fault Address
  | .text s =>
    match Address.parse s with
    | .ok a => .ok a
    | .error e => .error (.badAddress e)
  | _ => .error (.notText .address)

/-- The ID of a type; null is none. -/
def readTypeId (members : List (String × Json)) : Except Fault (Option String) :=
  match Json.lastMember? "typeID" members with
  | none | some .null => .ok none
  | some (.text s) => .ok (some s)
  | some _ => .error .typeIdNotText

/-- The body of a type. A bare text counts as the kind of a type without ID if that is allowed. -/
def readStaticType (o : DecodeOptions) (body : Json) : Except Fault StaticType := do
  let members ← membersOf "Type value" body
  match ← field "staticType" members with
  | .object members => do
    let kind ← textField "kind" members
    let typeId ← readTypeId members
    return ⟨kind, typeId⟩
  | .text s => if o.bareStaticTypes then .ok ⟨s, none⟩ else .error .bareStaticType
  | _ => .error .staticTypeNotObject

/-- A list of which every item is read. -/
def readAll {α : Type} (read : Json → Except Fault α) : List Json → Except Fault (List α)
  | [] => .ok []
  | j :: rest => do
    let a ← read j
    let as ← readAll read rest
    return a :: as

/-- An entry of a dictionary. -/
def readEntry (read : Json → Except Fault Value) (j : Json) : Except Fault (Value × Value) := do
  let members ← membersOf "dictionary entry" j
  let k ← read (← field "key" members)
  let v ← read (← field "value" members)
  return (k, v)

/-- A field of a composite value. -/
def readField (read : Json → Except Fault Value) (j : Json) : Except Fault (String × Value) := do
  let members ← membersOf "field" j
  let name ← textField "name" members
  let v ← read (← field "value" members)
  return (name, v)

/-- The value of a kind from its body, by a reader for the values inside it. -/
def readBody (o : DecodeOptions) (read : Json → Except Fault Value) (k : Kind) (body : Json) :
    Except Fault Value :=
  match k with
  | .void => .ok .void
  | .optional =>
    match body with
    | .null => .ok .absent
    | j => (read j).map .present
  | .bool =>
    match body with
    | .bool b => .ok (.bool b)
    | _ => .error .notBool
  | .text =>
    match body with
    | .text s => .ok (.text s)
    | _ => .error (.notText .text)
  | .address => (readAddress body).map .address
  | .integer t => (readInteger t body).map (.integer t)
  | .fixed t => (readFixed t body).map (.fixed t)
  | .array => do
    let items ← itemsOf "Array value" body
    return .array (← readAll read items)
  | .dictionary => do
    let entries ← itemsOf "Dictionary value" body
    return .dictionary (← readAll (readEntry read) entries)
  | .composite k => do
    let members ← membersOf "composite" body
    let typeId ← textField "id" members
    let fields ← itemsOf "fields" (← field "fields" members)
    return .composite k typeId (← readAll (readField read) fields)
  | .path => do
    let members ← membersOf "Path value" body
    let domain ← textField "domain" members
    let identifier ← textField "identifier" members
    return .path domain identifier
  | .type => (readStaticType o body).map .type

/-- A value that opens `levels` levels of values at most. The body is looked for before the name of
the kind is judged. -/
def ofTree (o : DecodeOptions) : Nat → Json → Except Fault Value
  | 0, _ => .error .tooDeep
  | levels + 1, j => do
    let members ← membersOf "value" j
    let name ← textField "type" members
    if name = Kind.void.name then .ok .void
    else
      let body ← field "value" members
      match Kind.ofName? name with
      | some k => readBody o (ofTree o levels) k body
      | none => .error (.unknownKind name)

/-- The tree of a document, if all of it can be read. -/
def document? (payload : Bytes) : Option Json := do
  let s ← Bytes.text? payload
  let j ← (Json.parse none s.toList).toOption
  if j.isReadable then some j else none

/-- The value of a payload. -/
def decode (o : DecodeOptions) (payload : Bytes) : Except Fault Value :=
  if payload.isEmpty then .error .emptyPayload
  else if maxBrackets < Json.bracketNesting payload then .error .tooDeep
  else
    match document? payload with
    | none => .error .badJson
    | some j => ofTree o Value.maxDepth j

/-- The object of a kind and a body. -/
def tagged (k : Kind) (body : Json) : Json :=
  .object [("type", .text k.name), ("value", body)]

/-- The tree of a type. -/
def treeOfType (t : StaticType) : Json :=
  .object [("staticType", .object (("kind", .text t.kind) :: match t.typeId with
    | none => []
    | some id => [("typeID", .text id)]))]

mutual

/-- The tree of a value. Members are sorted by name. -/
def tree : Value → Json
  | .void => .object [("type", .text Kind.void.name)]
  | .absent => tagged .optional .null
  | .present v => tagged .optional (tree v)
  | .bool b => tagged .bool (.bool b)
  | .text s => tagged .text (.text s)
  | .address a => tagged .address a.toJson
  | .integer t n => tagged (.integer t) (.text (String.ofList (Integer.render n.val)))
  | .fixed t n => tagged (.fixed t) (.text (String.ofList (Fixed.render n.val)))
  | .array items => tagged .array (.array (treeOfItems items))
  | .dictionary entries => tagged .dictionary (.array (treeOfEntries entries))
  | .composite k typeId fields =>
    tagged (.composite k)
      (.object [("fields", .array (treeOfFields fields)), ("id", .text typeId)])
  | .path domain identifier =>
    tagged .path (.object [("domain", .text domain), ("identifier", .text identifier)])
  | .type t => tagged .type (treeOfType t)

/-- The trees of items. -/
def treeOfItems : List Value → List Json
  | [] => []
  | v :: rest => tree v :: treeOfItems rest

/-- The trees of entries. -/
def treeOfEntries : List (Value × Value) → List Json
  | [] => []
  | (k, v) :: rest => .object [("key", tree k), ("value", tree v)] :: treeOfEntries rest

/-- The trees of fields. -/
def treeOfFields : List (String × Value) → List Json
  | [] => []
  | (name, v) :: rest => .object [("name", .text name), ("value", tree v)] :: treeOfFields rest

end

/-- The payload of a value, if the value is not too deep. -/
def encode? (v : Value) : Option Bytes :=
  if v.depth ≤ Value.maxDepth then some (Bytes.ofText (tree v).toText) else none

end LedgerFeed.Verbose

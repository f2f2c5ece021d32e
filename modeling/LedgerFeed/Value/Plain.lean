import LedgerFeed.Value.Basic

/-!
# The plain form of values

The JSON form that records show values in: the name of the kind beside a body in which numbers are
JSON numbers with all their digits, fixed-point numbers count units, and dictionaries and fields are
pairs. Its reader is `ofPlain?`.

The reader takes a body as it stands once it knows the kind. A body that stands before its kind is
kept as a tree until the kind is known, and a kept tree is read in another way: no part of it may be
unreadable, it holds no integers of 128 bits, and it spells kinds more freely.
-/

namespace LedgerFeed.Value

/-- An object of a kind and a body. -/
def tagged (k : Kind) (body : Json) : Json :=
  .object [("type", .text k.name), ("value", body)]

/-- The plain form of a type. -/
def plainType (t : StaticType) : Json :=
  .object (("kind", .text t.kind) :: match t.typeId with
    | none => []
    | some id => [("type_id", .text id)])

mutual

/-- The plain form of a value. -/
def plain : Value → Json
  | .void => .object [("type", .text Kind.void.name)]
  | .absent => tagged .optional .null
  | .present v => tagged .optional (plain v)
  | .bool b => tagged .bool (.bool b)
  | .text s => tagged .text (.text s)
  | .address a => tagged .address a.toJson
  | .integer t n => tagged (.integer t) (.int n.val)
  | .fixed t n => tagged (.fixed t) (.int n.val)
  | .array items => tagged .array (.array (plainItems items))
  | .dictionary entries => tagged .dictionary (.array (plainEntries entries))
  | .composite k typeId fields =>
    tagged (.composite k)
      (.object [("type_id", .text typeId), ("fields", .array (plainFields fields))])
  | .path domain identifier =>
    tagged .path (.object [("domain", .text domain), ("identifier", .text identifier)])
  | .type t => tagged .type (plainType t)

/-- The plain forms of items. -/
def plainItems : List Value → List Json
  | [] => []
  | v :: rest => plain v :: plainItems rest

/-- The plain forms of entries: pairs of a key and a value. -/
def plainEntries : List (Value × Value) → List Json
  | [] => []
  | (k, v) :: rest => .array [plain k, plain v] :: plainEntries rest

/-- The plain forms of fields: pairs of a name and a value. -/
def plainFields : List (String × Value) → List Json
  | [] => []
  | (name, v) :: rest => .array [.text name, plain v] :: plainFields rest

end

/-- The kind that a tree names. In a kept tree, an empty object may stand for the null beside a
name. -/
def namedKind? (kept : Bool) (j : Json) : Option Kind :=
  match kept, j with
  | true, .object [(name, .object [])] => Kind.ofName? name
  | _, j => j.asName.bind Kind.ofName?

/-- The kind at the front of an array: a text and nothing else or, in a kept tree, also a code. -/
def leadingKind? (kept : Bool) (j : Json) : Option Kind :=
  match kept, j with
  | _, .text name => Kind.ofName? name
  | true, .number (.integer false code) => Kind.ofCode? code
  | _, _ => none

/-- A plain form taken apart. -/
structure Untagged where
  kind : Kind
  body? : Option Json
  /-- The body is, or is part of, a tree that was kept until its kind was known. -/
  kept : Bool

/-- The kind and the body of a plain form. An object may leave the body out. A body that stands
before its kind is kept. -/
def untag? (kept : Bool) : Json → Option Untagged
  | .array [k, body] => do return ⟨← leadingKind? kept k, some body, kept⟩
  | .object members => do
    let r ← Json.record? ["type", "value"] (.object members)
    let k ← r.required "type" (namedKind? kept)
    match r.members with
    | ("value", body) :: _ => if body.isReadable then some ⟨k, some body, true⟩ else none
    | _ => return ⟨k, r.find? "value", kept⟩
  | _ => none

/-- An integer of the type. The widest signed type also reads `-0`, and neither type of 128 bits
reads a kept tree. -/
def ofPlainInteger? (kept : Bool) (t : IntegerType) (j : Json) : Option t.Num :=
  if kept && (t = .int || t = .uint) then none
  else
    match j with
    | .number (.integer true 0) => if t = .int then Bounded.ofInt? 0 else none
    | j => (j.asInt t.lo t.hi).bind Bounded.ofInt?

/-- A pair of which both parts are read. -/
def ofPlainPair? {α β : Type} (first : Json → Option α) (second : Json → Option β) :
    Json → Option (α × β)
  | .array [a, b] => do return (← first a, ← second b)
  | _ => none

/-- The type of a plain form. -/
def ofPlainType? (j : Json) : Option StaticType := do
  let r ← j.record? ["kind", "type_id"]
  return ⟨← r.required "kind" Json.asText, ← r.optionalOrAbsent "type_id" Json.asText⟩

/-- The path of a plain form. -/
def ofPlainPath? (j : Json) : Option Value := do
  let r ← j.record? ["domain", "identifier"]
  return .path (← r.required "domain" Json.asText) (← r.required "identifier" Json.asText)

/-- The value of a body of a kind, by a reader for the values inside it. -/
def ofBody? (kept : Bool) (read : Json → Option Value) (k : Kind) (body : Json) : Option Value :=
  match k with
  | .void => if body.isNull then some .void else none
  | .optional => if body.isNull then some .absent else (read body).map .present
  | .bool => body.asBool.map .bool
  | .text => body.asText.map .text
  | .address => (Address.ofJson? body).map .address
  | .integer t => (ofPlainInteger? kept t body).map (.integer t)
  | .fixed t => ((body.asInt t.lo t.hi).bind Bounded.ofInt?).map (.fixed t)
  | .array => (body.asList read).map .array
  | .dictionary => (body.asList (ofPlainPair? read read)).map .dictionary
  | .composite k => do
    let r ← body.record? ["type_id", "fields"]
    let typeId ← r.required "type_id" Json.asText
    let fields ← r.required "fields" (Json.asList (ofPlainPair? Json.asText read))
    return .composite k typeId fields
  | .path => ofPlainPath? body
  | .type => (ofPlainType? body).map .type

/-- The value of a plain form that nests values no deeper than the given number of levels. The form
may be part of a kept tree. -/
def ofPlainWithin? : Nat → Bool → Json → Option Value
  | 0, _, _ => none
  | levels + 1, kept, j =>
    match untag? kept j with
    | some ⟨k, some body, kept⟩ => ofBody? kept (ofPlainWithin? levels kept) k body
    | some ⟨.void, none, _⟩ => some .void
    | some ⟨.optional, none, _⟩ => some .absent
    | _ => none

/-- The value of a plain form. Values nest no deeper than arrays and objects do. -/
def ofPlain? (j : Json) : Option Value :=
  ofPlainWithin? (j.nesting + 1) false j

end LedgerFeed.Value

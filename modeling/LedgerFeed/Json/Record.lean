import LedgerFeed.Json.Basic

/-!
# Reading records from JSON

A record is written as an object with a member for each field, or as an array with the fields in
their declared order. An object may have members of other names, which are skipped whatever they
hold, but no field twice; an array may leave out fields at its end. What an absent or null field
means is the field's own rule: `required`, `orDefault`, `optional` or `optionalOrAbsent`.
-/

namespace LedgerFeed.Json

/-- The fields found in a record. -/
structure Record where
  positional : Bool
  members : List (String × Json)

/-- The fields of a record with the given names. -/
def record? (names : List String) : Json → Option Record
  | .object members =>
    let known := members.filter fun m => names.contains m.1
    if (known.map Prod.fst).Nodup then some ⟨false, known⟩ else none
  | .array items => if items.length ≤ names.length then some ⟨true, names.zip items⟩ else none
  | _ => none

section
variable {α : Type} (r : Record) (name : String)

/-- The field, if it is there. -/
def Record.find? : Option Json :=
  r.members.lookup name

/-- A field that must be there. -/
def Record.required (read : Json → Option α) : Option α :=
  (r.find? name).bind read

/-- A field that has a value of its own if it is absent. -/
def Record.orDefault (default : α) (read : Json → Option α) : Option α :=
  match r.find? name with
  | none => some default
  | some j => read j

/-- A field that may be null, or absent from an object. -/
def Record.optional (read : Json → Option α) : Option (Option α) :=
  match r.find? name with
  | none => if r.positional then none else some none
  | some .null => some none
  | some j => (read j).map some

/-- A field that may be null or absent. -/
def Record.optionalOrAbsent (read : Json → Option α) : Option (Option α) :=
  match r.find? name with
  | none | some .null => some none
  | some j => (read j).map some

end

/-- A text. -/
def asText : Json → Option String
  | .text s => some s
  | _ => none

/-- A truth value. -/
def asBool : Json → Option Bool
  | .bool b => some b
  | _ => none

/-- An integer without sign, below a bound. -/
def asNat (bound : Nat) : Json → Option Nat
  | .number (.integer false n) => if n < bound then some n else none
  | _ => none

/-- An integer of 64 bits without sign. -/
def asUInt64 (j : Json) : Option UInt64 :=
  (j.asNat (2 ^ 64)).map UInt64.ofNat

/-- An integer of 32 bits without sign. -/
def asUInt32 (j : Json) : Option UInt32 :=
  (j.asNat (2 ^ 32)).map UInt32.ofNat

/-- An integer of 16 bits without sign. -/
def asUInt16 (j : Json) : Option UInt16 :=
  (j.asNat (2 ^ 16)).map UInt16.ofNat

/-- An integer between two bounds. The number `-0` is none. -/
def asInt (lo hi : Int) : Json → Option Int
  | .number (.integer false n) => if (n : Int) ≤ hi then some n else none
  | .number (.integer true n) => if 0 < n ∧ lo ≤ -(n : Int) then some (-n) else none
  | _ => none

/-- The items of an array, each read by one rule. -/
def asList {α : Type} (read : Json → Option α) : Json → Option (List α)
  | .array items => items.mapM read
  | _ => none

/-- A name: a text, or an object with a member of that name that is null. -/
def asName : Json → Option String
  | .text s => some s
  | .object [(s, .null)] => some s
  | _ => none

/-- A value of a finite list, by its name. -/
def asOneOf {α : Type} (choices : List (String × α)) (j : Json) : Option α :=
  j.asName.bind fun s => choices.lookup s

/-- An array of texts, or of what texts stand for. -/
def ofTexts (texts : List String) : Json :=
  .array (texts.map .text)

/-- The tree of an optional value: null if there is none. -/
def ofOption {α : Type} (write : α → Json) : Option α → Json
  | none => .null
  | some a => write a

end LedgerFeed.Json

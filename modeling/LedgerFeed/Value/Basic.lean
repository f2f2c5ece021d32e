import LedgerFeed.Identifier
import LedgerFeed.Value.Kind

/-!
# Values

The values that programs on the ledger compute with, whatever bytes they arrive in. Composite
values keep their fields in declared order, dictionaries their entries in written order; neither
has to be free of repetitions.
-/

namespace LedgerFeed

/-- A type as a value. Only types that are declared have a type ID. -/
structure StaticType where
  kind : String
  typeId : Option String
  deriving DecidableEq, Repr

inductive Value
  | void
  | absent
  | present (content : Value)
  | bool (b : Bool)
  | text (s : String)
  | address (a : Address)
  | integer (t : IntegerType) (n : t.Num)
  | fixed (t : FixedType) (units : t.Num)
  | array (items : List Value)
  | dictionary (entries : List (Value × Value))
  | composite (k : CompositeKind) (typeId : String) (fields : List (String × Value))
  | path (domain : String) (identifier : String)
  | type (t : StaticType)
  deriving Repr

namespace Value

/-- The kind of a value. A missing and a present content are optional values alike. -/
def kind : Value → Kind
  | .void => .void
  | .absent | .present _ => .optional
  | .bool _ => .bool
  | .text _ => .text
  | .address _ => .address
  | .integer t _ => .integer t
  | .fixed t _ => .fixed t
  | .array _ => .array
  | .dictionary _ => .dictionary
  | .composite k _ _ => .composite k
  | .path _ _ => .path
  | .type _ => .type

mutual

/-- Nesting depth: one for a value, and one more for each value around it. -/
def depth : Value → Nat
  | .present v => 1 + depth v
  | .array items => 1 + depthOfItems items
  | .dictionary entries => 1 + depthOfEntries entries
  | .composite _ _ fields => 1 + depthOfFields fields
  | _ => 1

/-- The greatest depth of the items. -/
def depthOfItems : List Value → Nat
  | [] => 0
  | v :: rest => max (depth v) (depthOfItems rest)

/-- The greatest depth of the keys and values. -/
def depthOfEntries : List (Value × Value) → Nat
  | [] => 0
  | (k, v) :: rest => max (max (depth k) (depth v)) (depthOfEntries rest)

/-- The greatest depth of the fields. -/
def depthOfFields : List (String × Value) → Nat
  | [] => 0
  | (_, v) :: rest => max (depth v) (depthOfFields rest)

end

/-- The greatest depth of a value that has an encoded form. -/
def maxDepth : Nat := 64

/-- The fields of a composite value. -/
def fields? : Value → Option (List (String × Value))
  | .composite _ _ fields => some fields
  | _ => none

/-- The first field with a name. -/
def field? (name : String) (fields : List (String × Value)) : Option Value :=
  fields.lookup name

/-- The address that an address value holds. -/
def address? : Value → Option Address
  | .address a => some a
  | _ => none

/-- The value is an event. -/
def isEvent : Value → Bool
  | .composite .event _ _ => true
  | _ => false

end Value

end LedgerFeed

import LedgerFeed.Text.Fixed
import LedgerFeed.Value.Basic

/-!
# Values on display

The text in which a value is shown to a person. Texts are quoted, present contents are shown as
themselves, and a composite value is shown as a call of its type.
-/

namespace LedgerFeed.Value

/-- Texts with a comma and a blank between them. -/
def commaSeparated (parts : List String) : String :=
  ", ".intercalate parts

mutual

/-- The text of a value. -/
def display : Value → String
  | .void => "()"
  | .absent => "nil"
  | .present v => display v
  | .bool b => if b then "true" else "false"
  | .text s => String.ofList (Text.quoted '"' s.toList)
  | .address a => a.toText
  | .integer _ n => String.ofList (Integer.render n.val)
  | .fixed _ n => String.ofList (Fixed.render n.val)
  | .array items => "[" ++ commaSeparated (displayItems items) ++ "]"
  | .dictionary entries => "\x7b" ++ commaSeparated (displayEntries entries) ++ "\x7d"
  | .composite _ typeId fields => typeId ++ "(" ++ commaSeparated (displayFields fields) ++ ")"
  | .path domain identifier => "/" ++ domain ++ "/" ++ identifier
  | .type t => "Type<" ++ t.typeId.getD t.kind ++ ">()"

/-- The texts of items. -/
def displayItems : List Value → List String
  | [] => []
  | v :: rest => display v :: displayItems rest

/-- The texts of entries, each a key and a value. -/
def displayEntries : List (Value × Value) → List String
  | [] => []
  | (k, v) :: rest => (display k ++ ": " ++ display v) :: displayEntries rest

/-- The texts of fields, each a name and a value. -/
def displayFields : List (String × Value) → List String
  | [] => []
  | (name, v) :: rest => (name ++ ": " ++ display v) :: displayFields rest

end

end LedgerFeed.Value

import LedgerFeed.Json.Number

/-!
# JSON trees

A tree keeps the members of an object in the order of the text, repeated names included, and an
integer with all its digits. A *generic* tree (`Json.generic`) has forgotten both: of members with
one name the last is kept, members are sorted by name, and integers beyond 64 bits are doubles.

A token can be well formed and still have no value, such as a number beyond the largest double or a
text with half a surrogate pair. Such a token is `unreadable`: it may be skipped but not used.
-/

namespace LedgerFeed

inductive Json
  | null
  | bool (value : Bool)
  | number (value : Json.Number)
  | text (value : String)
  | array (items : List Json)
  | object (members : List (String × Json))
  | unreadable
  deriving Repr

namespace Json

/-- An integer. -/
def int (n : Int) : Json :=
  .number (.integer (n < 0) n.natAbs)

/-- The tree is null. -/
def isNull : Json → Bool
  | .null => true
  | _ => false

/-- A natural number. -/
def nat (n : Nat) : Json :=
  .number (.integer false n)

mutual

/-- No part of the tree is unreadable. -/
def isReadable : Json → Bool
  | .null | .bool _ | .number _ | .text _ => true
  | .array items => allReadable items
  | .object members => membersReadable members
  | .unreadable => false

/-- No part of any of the trees is unreadable. -/
def allReadable : List Json → Bool
  | [] => true
  | j :: rest => isReadable j && allReadable rest

/-- No part of any of the members is unreadable. -/
def membersReadable : List (String × Json) → Bool
  | [] => true
  | (_, j) :: rest => isReadable j && membersReadable rest

end

mutual

/-- How many arrays and objects are open around the innermost part of the tree. -/
def nesting : Json → Nat
  | .null | .bool _ | .number _ | .text _ | .unreadable => 0
  | .array items => 1 + nestingOfAll items
  | .object members => 1 + nestingOfMembers members

/-- The deepest nesting of the trees. -/
def nestingOfAll : List Json → Nat
  | [] => 0
  | j :: rest => max (nesting j) (nestingOfAll rest)

/-- The deepest nesting of the members. -/
def nestingOfMembers : List (String × Json) → Nat
  | [] => 0
  | (_, j) :: rest => max (nesting j) (nestingOfMembers rest)

end

/-- The last of the members with a name. -/
def lastMember? (name : String) : List (String × Json) → Option Json
  | [] => none
  | (n, j) :: rest =>
    match lastMember? name rest with
    | some found => some found
    | none => if n = name then some j else none

/-- A member put into a list sorted by name, in place of the one with its name. -/
def insertMember (name : String) (j : Json) : List (String × Json) → List (String × Json)
  | [] => [(name, j)]
  | (n, k) :: rest =>
    if name = n then (n, j) :: rest
    else if name < n then (name, j) :: (n, k) :: rest
    else (n, k) :: insertMember name j rest

mutual

/-- The generic tree. -/
def generic : Json → Json
  | .number n => n.narrow.elim .unreadable .number
  | .array items => .array (genericAll items)
  | .object members => .object (genericMembers [] members)
  | j => j

/-- The generic trees of a list. -/
def genericAll : List Json → List Json
  | [] => []
  | j :: rest => generic j :: genericAll rest

/-- Members added, in order, to those of a generic object. -/
def genericMembers (sorted : List (String × Json)) : List (String × Json) → List (String × Json)
  | [] => sorted
  | (name, j) :: rest => genericMembers (insertMember name (generic j) sorted) rest

end

end Json

end LedgerFeed

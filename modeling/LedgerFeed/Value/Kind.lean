import LedgerFeed.Bytes

/-!
# Kinds of values

Every value has a kind. A kind has a name, used by texts, and a code, used by bytes; `ofName?_name`
and `ofCode?_code` say that both determine it. Kinds of numbers carry the range of the number.
-/

namespace LedgerFeed

/-- An integer between two bounds. -/
structure Bounded (lo hi : Int) where
  val : Int
  lo_le : lo ≤ val
  le_hi : val ≤ hi
  deriving DecidableEq, Repr

/-- The integer as one between two bounds, if it is. -/
def Bounded.ofInt? {lo hi : Int} (n : Int) : Option (Bounded lo hi) :=
  if h : lo ≤ n ∧ n ≤ hi then some ⟨n, h.1, h.2⟩ else none

/-- An integer between two bounds is found again by its value. -/
theorem Bounded.ofInt?_val {lo hi : Int} (n : Bounded lo hi) : ofInt? n.val = some n := by
  simp [ofInt?, n.lo_le, n.le_hi]

/-- The integer between two bounds that is nearest to an integer. -/
def Bounded.clamp {lo hi : Int} (h : lo ≤ hi) (n : Int) : Bounded lo hi :=
  ⟨max lo (min n hi), by omega, by omega⟩

/-- An integer that is within the bounds is not moved. -/
theorem Bounded.clamp_val {lo hi : Int} (h : lo ≤ hi) (n : Bounded lo hi) : clamp h n.val = n := by
  obtain ⟨n, h1, h2⟩ := n
  simp only [clamp, mk.injEq]
  omega

/-- The integers that values hold: of 128 bits or of a narrower type. -/
inductive IntegerType
  | int
  | int64
  | uint8
  | uint64
  | uint
  deriving DecidableEq, Repr

namespace IntegerType

/-- The least integer of the type. -/
def lo : IntegerType → Int
  | .int => -(2 ^ 127)
  | .int64 => -(2 ^ 63)
  | .uint8 | .uint64 | .uint => 0

/-- The greatest integer of the type. -/
def hi : IntegerType → Int
  | .int => 2 ^ 127 - 1
  | .int64 => 2 ^ 63 - 1
  | .uint8 => 2 ^ 8 - 1
  | .uint64 => 2 ^ 64 - 1
  | .uint => 2 ^ 128 - 1

/-- No type of integers is empty. -/
theorem lo_le_hi (t : IntegerType) : t.lo ≤ t.hi := by
  cases t <;> decide

/-- An integer of the type. -/
abbrev Num (t : IntegerType) : Type :=
  Bounded t.lo t.hi

end IntegerType

/-- The fixed-point numbers that values hold, counted in units of `10 ^ -8`. -/
inductive FixedType
  | fix64
  | ufix64
  deriving DecidableEq, Repr

namespace FixedType

/-- The least number of units of the type. -/
def lo : FixedType → Int
  | .fix64 => -(2 ^ 63)
  | .ufix64 => 0

/-- The greatest number of units of the type. -/
def hi : FixedType → Int
  | .fix64 => 2 ^ 63 - 1
  | .ufix64 => 2 ^ 64 - 1

/-- No type of fixed-point numbers is empty. -/
theorem lo_le_hi (t : FixedType) : t.lo ≤ t.hi := by
  cases t <;> decide

/-- A number of units of the type. -/
abbrev Num (t : FixedType) : Type :=
  Bounded t.lo t.hi

end FixedType

/-- The composite values: they have a type and named fields. -/
inductive CompositeKind
  | struct
  | resource
  | event
  deriving DecidableEq, Repr

inductive Kind
  | void
  | optional
  | bool
  | text
  | address
  | integer (t : IntegerType)
  | fixed (t : FixedType)
  | array
  | dictionary
  | composite (k : CompositeKind)
  | path
  | type
  deriving DecidableEq, Repr

namespace Kind

/-- The name of the kind. -/
def name : Kind → String
  | .void => "Void"
  | .optional => "Optional"
  | .bool => "Bool"
  | .text => "String"
  | .address => "Address"
  | .integer .int => "Int"
  | .integer .int64 => "Int64"
  | .integer .uint8 => "UInt8"
  | .integer .uint64 => "UInt64"
  | .integer .uint => "UInt"
  | .fixed .fix64 => "Fix64"
  | .fixed .ufix64 => "UFix64"
  | .array => "Array"
  | .dictionary => "Dictionary"
  | .composite .struct => "Struct"
  | .composite .resource => "Resource"
  | .composite .event => "Event"
  | .path => "Path"
  | .type => "Type"

/-- All kinds, in the order of their codes. -/
def all : List Kind :=
  [.void, .optional, .bool, .text, .address, .integer .int, .integer .int64, .integer .uint8,
    .integer .uint64, .integer .uint, .fixed .fix64, .fixed .ufix64, .array, .dictionary,
    .composite .struct, .composite .resource, .composite .event, .path, .type]

/-- The kind with a name. -/
def ofName? (s : String) : Option Kind :=
  all.find? (·.name = s)

/-- The code of the kind: its place in the list of all kinds. -/
def code : Kind → Nat
  | .void => 0
  | .optional => 1
  | .bool => 2
  | .text => 3
  | .address => 4
  | .integer .int => 5
  | .integer .int64 => 6
  | .integer .uint8 => 7
  | .integer .uint64 => 8
  | .integer .uint => 9
  | .fixed .fix64 => 10
  | .fixed .ufix64 => 11
  | .array => 12
  | .dictionary => 13
  | .composite .struct => 14
  | .composite .resource => 15
  | .composite .event => 16
  | .path => 17
  | .type => 18

/-- The kind with a code. -/
def ofCode? (n : Nat) : Option Kind :=
  all[n]?

/-- A kind is found by its code. -/
theorem ofCode?_code (k : Kind) : ofCode? k.code = some k := by
  rcases k with _ | _ | _ | _ | _ | t | t | _ | _ | t | _ | _ <;> (try cases t) <;> rfl

/-- A code stands for one kind. -/
theorem ofCode?_eq_some_iff {n : Nat} {k : Kind} : ofCode? n = some k ↔ n = k.code := by
  constructor
  · intro h
    have hall : ∀ i : Fin all.length, i.val = all[i].code := by decide
    obtain ⟨hn, rfl⟩ := List.getElem?_eq_some_iff.1 h
    exact hall ⟨n, hn⟩
  · rintro rfl
    exact ofCode?_code k

/-- A kind is found by its name. -/
theorem ofName?_name (k : Kind) : ofName? k.name = some k := by
  rcases k with _ | _ | _ | _ | _ | t | t | _ | _ | t | _ | _ <;> (try cases t) <;> rfl

end Kind

end LedgerFeed

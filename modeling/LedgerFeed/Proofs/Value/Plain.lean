import LedgerFeed.Proofs.Json.Record
import LedgerFeed.Proofs.Value.Induction
import LedgerFeed.Value.Plain

/-!
# Plain forms as generic trees

A generic tree has no integers beyond 64 bits. The plain form of a value is kept by its generic
tree, the order of members aside, just if no integer in the value is that large
(`IntegersFit`). Then the generic tree shows all it holds in its text.
-/

namespace LedgerFeed

namespace Json

/-! ## Generic trees -/

/-- Members stay writable when a writable one is put among them. -/
theorem isWritable_insertMember {name : String} {j : Json} (hj : j.IsWritable)
    {sorted : List (String × Json)} (h : MembersWritable sorted) :
    MembersWritable (insertMember name j sorted) := by
  induction sorted with
  | nil => exact ⟨hj, trivial⟩
  | cons m rest ih =>
    obtain ⟨n, k⟩ := m
    obtain ⟨hk, hrest⟩ := h
    unfold insertMember
    split
    · exact ⟨hj, hrest⟩
    split
    · exact ⟨hj, hk, hrest⟩
    · exact ⟨hk, ih hrest⟩

/-- Members in the order of their names are writable if each of them is. -/
theorem isWritable_genericMembers {sorted members : List (String × Json)}
    (hsorted : MembersWritable sorted) (h : ∀ m ∈ members, m.2.generic.IsWritable) :
    MembersWritable (genericMembers sorted members) := by
  induction members generalizing sorted with
  | nil => exact hsorted
  | cons m rest ih =>
    obtain ⟨hm, hrest⟩ := List.forall_mem_cons.1 h
    exact ih (isWritable_insertMember hm hsorted) hrest

/-- A generic object shows all it holds if its members do. -/
theorem isWritable_generic_object {members : List (String × Json)}
    (h : ∀ m ∈ members, m.2.generic.IsWritable) : (Json.object members).generic.IsWritable :=
  isWritable_genericMembers trivial h

/-- A generic array shows all it holds if its items do. -/
theorem isWritable_generic_array {items : List Json} (h : ∀ j ∈ items, j.generic.IsWritable) :
    (Json.array items).generic.IsWritable := by
  rw [generic, IsWritable, AllWritable_iff, genericAll_eq]
  exact List.forall_mem_map.2 h

end Json

namespace Value

/-- The integer has 64 bits, with or without a sign. -/
def FitsGeneric (n : Int) : Prop :=
  -(2 ^ 63) ≤ n ∧ n < 2 ^ 64

mutual

/-- No integer in the value is too large for a generic tree. -/
def IntegersFit : Value → Prop
  | .void | .absent | .bool _ | .text _ | .address _ | .fixed _ _ | .path _ _ | .type _ => True
  | .integer _ n => FitsGeneric n.val
  | .present v => v.IntegersFit
  | .array items => ItemsFit items
  | .dictionary entries => EntriesFit entries
  | .composite _ _ fields => FieldsFit fields

/-- `IntegersFit` over items. -/
def ItemsFit : List Value → Prop
  | [] => True
  | v :: rest => v.IntegersFit ∧ ItemsFit rest

/-- `IntegersFit` over keys and values. -/
def EntriesFit : List (Value × Value) → Prop
  | [] => True
  | (k, v) :: rest => (k.IntegersFit ∧ v.IntegersFit) ∧ EntriesFit rest

/-- `IntegersFit` over fields. -/
def FieldsFit : List (String × Value) → Prop
  | [] => True
  | (_, v) :: rest => v.IntegersFit ∧ FieldsFit rest

end

/-- `ItemsFit` in the per-item form. -/
theorem ItemsFit_iff {items : List Value} : ItemsFit items ↔ ∀ v ∈ items, v.IntegersFit := by
  induction items with
  | nil => simp [ItemsFit]
  | cons v rest ih => simp only [ItemsFit, ih, List.forall_mem_cons]

/-- `EntriesFit` in the per-entry form. -/
theorem EntriesFit_iff {entries : List (Value × Value)} :
    EntriesFit entries ↔ ∀ e ∈ entries, e.1.IntegersFit ∧ e.2.IntegersFit := by
  induction entries with
  | nil => simp [EntriesFit]
  | cons e rest ih => simp only [EntriesFit, ih, List.forall_mem_cons]

/-- `FieldsFit` in the per-field form. -/
theorem FieldsFit_iff {fields : List (String × Value)} :
    FieldsFit fields ↔ ∀ f ∈ fields, f.2.IntegersFit := by
  induction fields with
  | nil => simp [FieldsFit]
  | cons f rest ih => simp only [FieldsFit, ih, List.forall_mem_cons]

/-! ## Plain forms -/

/-- The plain forms of items are the items, each in its plain form. -/
theorem plainItems_eq (items : List Value) : plainItems items = items.map plain := by
  induction items with
  | nil => rfl
  | cons v rest ih => rw [plainItems, ih, List.map_cons]

/-- The plain form of an entry is a pair of two plain forms. -/
theorem plainEntries_eq (entries : List (Value × Value)) :
    plainEntries entries = entries.map fun e => .array [plain e.1, plain e.2] := by
  induction entries with
  | nil => rfl
  | cons e rest ih => rw [plainEntries, ih, List.map_cons]

/-- The plain form of a field is a pair of its name and a plain form. -/
theorem plainFields_eq (fields : List (String × Value)) :
    plainFields fields = fields.map fun f => .array [.text f.1, plain f.2] := by
  induction fields with
  | nil => rfl
  | cons f rest ih => rw [plainFields, ih, List.map_cons]

/-- Integers of fixed-point numbers are never too large. -/
theorem fitsGeneric_units {t : FixedType} (units : t.Num) : FitsGeneric units.val := by
  have hlo : -(2 ^ 63) ≤ t.lo := by cases t <;> decide
  have hhi : t.hi < 2 ^ 64 := by cases t <;> decide
  exact ⟨Int.le_trans hlo units.lo_le, Int.lt_of_le_of_lt units.le_hi hhi⟩

/-- An integer of 64 bits is kept whole by a generic tree. -/
theorem isWritable_generic_int {n : Int} (h : FitsGeneric n) : (Json.int n).generic.IsWritable := by
  obtain ⟨hlo, hhi⟩ := h
  have hnarrow : (Json.Number.integer (n < 0) n.natAbs).narrow =
      some (.integer (n < 0) n.natAbs) := by
    rw [Json.Number.narrow, if_pos]
    by_cases hn : n < 0
    · exact .inl ⟨decide_eq_true hn, by omega, by omega⟩
    · exact .inr ⟨decide_eq_false hn, by omega⟩
  rw [Json.int, Json.generic, hnarrow]
  exact Option.isSome_of_eq_some hnarrow

/-- A pair is kept whole if both parts are. -/
theorem isWritable_generic_pair {a b : Json} (ha : a.generic.IsWritable)
    (hb : b.generic.IsWritable) : (Json.array [a, b]).generic.IsWritable :=
  Json.isWritable_generic_array (List.forall_mem_cons.2 ⟨ha, List.forall_mem_singleton.2 hb⟩)

/-- An object of two members is kept whole if both are. -/
theorem isWritable_generic_members {m m' : String × Json} (hm : m.2.generic.IsWritable)
    (hm' : m'.2.generic.IsWritable) : (Json.object [m, m']).generic.IsWritable :=
  Json.isWritable_generic_object (List.forall_mem_cons.2 ⟨hm, List.forall_mem_singleton.2 hm'⟩)

/-- A body is kept whole with its kind if it is alone. -/
theorem isWritable_generic_tagged {k : Kind} {body : Json} (h : body.generic.IsWritable) :
    (tagged k body).generic.IsWritable :=
  isWritable_generic_members trivial h

/-- The generic tree of a plain form shows all it holds in its text, if all integers fit. -/
theorem isWritable_generic_plain {v : Value} (h : v.IntegersFit) : v.plain.generic.IsWritable := by
  induction v with
  | void => exact Json.isWritable_generic_object (List.forall_mem_singleton.2 trivial)
  | absent | bool | text | address => exact isWritable_generic_tagged trivial
  | present v ih => exact isWritable_generic_tagged (ih h)
  | integer t n => exact isWritable_generic_tagged (isWritable_generic_int h)
  | fixed t units =>
    exact isWritable_generic_tagged (isWritable_generic_int (fitsGeneric_units units))
  | array items ih =>
    refine isWritable_generic_tagged (Json.isWritable_generic_array ?_)
    rw [plainItems_eq]
    exact List.forall_mem_map.2 fun v hv => ih v hv (ItemsFit_iff.1 h v hv)
  | dictionary entries ih =>
    refine isWritable_generic_tagged (Json.isWritable_generic_array ?_)
    rw [plainEntries_eq]
    refine List.forall_mem_map.2 fun e he => ?_
    have hfit := EntriesFit_iff.1 h e he
    exact isWritable_generic_pair ((ih e he).1 hfit.1) ((ih e he).2 hfit.2)
  | composite k typeId fields ih =>
    have hfields : (Json.array (plainFields fields)).generic.IsWritable := by
      refine Json.isWritable_generic_array ?_
      rw [plainFields_eq]
      refine List.forall_mem_map.2 fun f hf => ?_
      exact isWritable_generic_pair trivial (ih f hf (FieldsFit_iff.1 h f hf))
    exact isWritable_generic_tagged (isWritable_generic_members trivial hfields)
  | path domain identifier =>
    exact isWritable_generic_tagged (isWritable_generic_members trivial trivial)
  | type t =>
    obtain ⟨kind, _ | id⟩ := t
    · exact isWritable_generic_tagged
        (Json.isWritable_generic_object (List.forall_mem_singleton.2 trivial))
    · exact isWritable_generic_tagged (isWritable_generic_members trivial trivial)

end Value

end LedgerFeed

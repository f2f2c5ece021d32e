import LedgerFeed.Proofs.Value.Induction

/-!
# Lengths in a value

How long the texts and lists in a value are. A length that is written in front of what it counts has
64 bits at most.
-/

namespace LedgerFeed.Value

mutual

/-- Every text in the value has fewer than `n` bytes, and every list fewer than `n` items. -/
def LengthsBelow (n : Nat) : Value → Prop
  | .void | .absent | .bool _ | .address _ | .integer _ _ | .fixed _ _ => True
  | .present v => v.LengthsBelow n
  | .text s => (Bytes.ofText s).length < n
  | .array items => items.length < n ∧ ItemsBelow n items
  | .dictionary entries => entries.length < n ∧ EntriesBelow n entries
  | .composite _ typeId fields =>
    (Bytes.ofText typeId).length < n ∧ fields.length < n ∧ FieldsBelow n fields
  | .path domain identifier =>
    (Bytes.ofText domain).length < n ∧ (Bytes.ofText identifier).length < n
  | .type t => (Bytes.ofText t.kind).length < n ∧ ∀ id ∈ t.typeId, (Bytes.ofText id).length < n

/-- `LengthsBelow` over items. -/
def ItemsBelow (n : Nat) : List Value → Prop
  | [] => True
  | v :: rest => v.LengthsBelow n ∧ ItemsBelow n rest

/-- `LengthsBelow` over keys and values. -/
def EntriesBelow (n : Nat) : List (Value × Value) → Prop
  | [] => True
  | (k, v) :: rest => (k.LengthsBelow n ∧ v.LengthsBelow n) ∧ EntriesBelow n rest

/-- `LengthsBelow` over fields and their names. -/
def FieldsBelow (n : Nat) : List (String × Value) → Prop
  | [] => True
  | (name, v) :: rest =>
    ((Bytes.ofText name).length < n ∧ v.LengthsBelow n) ∧ FieldsBelow n rest

end

/-- `ItemsBelow` in the per-item form. -/
theorem ItemsBelow_iff {n : Nat} {items : List Value} :
    ItemsBelow n items ↔ ∀ v ∈ items, v.LengthsBelow n := by
  induction items with
  | nil => simp [ItemsBelow]
  | cons v rest ih => simp [ItemsBelow, ih]

/-- `EntriesBelow` in the per-entry form. -/
theorem EntriesBelow_iff {n : Nat} {entries : List (Value × Value)} :
    EntriesBelow n entries ↔ ∀ e ∈ entries, e.1.LengthsBelow n ∧ e.2.LengthsBelow n := by
  induction entries with
  | nil => simp [EntriesBelow]
  | cons e rest ih => simp only [EntriesBelow, ih, List.forall_mem_cons]

/-- `FieldsBelow` in the per-field form. -/
theorem FieldsBelow_iff {n : Nat} {fields : List (String × Value)} :
    FieldsBelow n fields ↔
      ∀ f ∈ fields, (Bytes.ofText f.1).length < n ∧ f.2.LengthsBelow n := by
  induction fields with
  | nil => simp [FieldsBelow]
  | cons f rest ih => simp only [FieldsBelow, ih, List.forall_mem_cons]

/-- The value is no deeper than `levels`, and all lengths in it are below `n`. -/
structure Within (levels n : Nat) (v : Value) : Prop where
  depth_le : v.depth ≤ levels
  lengths : v.LengthsBelow n

namespace Within

variable {levels n : Nat}

/-- A value that holds no others opens one level. -/
theorem leaf {v : Value} (hd : v.depth = 1) (h : v.LengthsBelow n) : v.Within (levels + 1) n :=
  ⟨by omega, h⟩

/-- A present content has the bounds of the content, one level higher. -/
theorem present {v : Value} (h : v.Within levels n) : (Value.present v).Within (levels + 1) n := by
  refine ⟨?_, h.lengths⟩
  have hd := h.depth_le
  rw [depth]
  omega

/-- An array has the bounds of its items, one level higher, if it is short enough itself. -/
theorem array {items : List Value} (hn : items.length < n) (h : ∀ v ∈ items, v.Within levels n) :
    (Value.array items).Within (levels + 1) n := by
  refine ⟨?_, hn, ItemsBelow_iff.2 fun v hv => (h v hv).lengths⟩
  have hd := depthOfItems_le.2 fun v hv => (h v hv).depth_le
  rw [depth]
  omega

/-- A dictionary has the bounds of its entries, one level higher, if it is short enough itself. -/
theorem dictionary {entries : List (Value × Value)} (hn : entries.length < n)
    (h : ∀ e ∈ entries, e.1.Within levels n ∧ e.2.Within levels n) :
    (Value.dictionary entries).Within (levels + 1) n := by
  refine ⟨?_, hn, EntriesBelow_iff.2 fun e he => ⟨(h e he).1.lengths, (h e he).2.lengths⟩⟩
  have hd := depthOfEntries_le.2 fun e he => ⟨(h e he).1.depth_le, (h e he).2.depth_le⟩
  rw [depth]
  omega

/-- A composite value has the bounds of its fields, one level higher, if its texts and the list of
its fields are short enough. -/
theorem composite {k : CompositeKind} {typeId : String} {fields : List (String × Value)}
    (ht : (Bytes.ofText typeId).length < n) (hn : fields.length < n)
    (h : ∀ f ∈ fields, (Bytes.ofText f.1).length < n ∧ f.2.Within levels n) :
    (Value.composite k typeId fields).Within (levels + 1) n := by
  refine ⟨?_, ht, hn, FieldsBelow_iff.2 fun f hf => ⟨(h f hf).1, (h f hf).2.lengths⟩⟩
  have hd := depthOfFields_le.2 fun f hf => (h f hf).2.depth_le
  rw [depth]
  omega

end Within

end LedgerFeed.Value

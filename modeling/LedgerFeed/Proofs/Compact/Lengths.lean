import LedgerFeed.Proofs.Compact.RoundTrip

/-!
# Lengths in a value and the length of its bytes

Whatever is counted in a value takes at least as many bytes, so no length in the value reaches that
of its bytes (`lengthsBelow_of_write`).
-/

namespace LedgerFeed.Compact

/-- A head is never empty. -/
theorem length_head_pos (major n : Nat) : 0 < (Cbor.head major n).length := by
  unfold Cbor.head
  split_ifs <;> exact Nat.succ_pos _

/-- A text is written in more bytes than its UTF-8 form has, for it has a head. -/
theorem length_writeText (s : String) :
    (Bytes.ofText s).length < (Cbor.writeText s).length := by
  have hh := length_head_pos 3 (Bytes.ofText s).length
  rw [Cbor.writeText, List.length_append]
  omega

/-- No value is written as nothing. -/
theorem length_write_pos (v : Value) : 0 < (write v).length := by
  obtain ⟨elements, h⟩ := write_eq v
  have hh : 0 < (Cbor.writeArray (arity v.kind)).length := length_head_pos 4 _
  rw [h, writeKind, List.length_append, List.length_append]
  omega

/-- The bytes of an item are no more than those of all items. -/
theorem length_le_flatMap {α : Type} (write : α → Bytes) {items : List α} {a : α}
    (h : a ∈ items) : (write a).length ≤ (items.flatMap write).length := by
  rw [List.flatMap_def]
  exact (List.sublist_flatten_of_mem (List.mem_map_of_mem h)).length_le

/-- Items are no more than their bytes, if each has one. -/
theorem count_le_flatMap {α : Type} {write : α → Bytes} (h : ∀ a, 0 < (write a).length)
    (items : List α) : items.length ≤ (items.flatMap write).length := by
  induction items with
  | nil => exact Nat.le_refl 0
  | cons a items ih =>
    have ha := h a
    rw [List.flatMap_cons, List.length_append, List.length_cons]
    omega

/-- No length in a value reaches the length of the bytes of the value. -/
theorem lengthsBelow_of_write {v : Value} {n : Nat} (h : (write v).length ≤ n) :
    v.LengthsBelow n := by
  induction v with
  | void | absent | bool | address | integer | fixed => trivial
  | present content ih =>
    rw [write, List.length_append] at h
    exact ih (by omega)
  | text s =>
    have hs := length_writeText s
    rw [write, List.length_append] at h
    exact Nat.lt_of_lt_of_le hs (by omega)
  | array items ih =>
    have hh : 0 < (Cbor.writeArray items.length).length := length_head_pos 4 _
    have hn := count_le_flatMap length_write_pos items
    rw [write, writeItems_eq, List.length_append, List.length_append] at h
    refine ⟨by omega, Value.ItemsBelow_iff.2 ?_⟩
    intro v hv
    have hle := length_le_flatMap write hv
    exact ih v hv (by omega)
  | dictionary entries ih =>
    have hh : 0 < (Cbor.writeArray entries.length).length := length_head_pos 4 _
    have hpos : ∀ e, 0 < (writeEntry e).length := by
      intro e
      have hk := length_write_pos e.1
      rw [writeEntry, List.length_append, List.length_append]
      omega
    have hn := count_le_flatMap hpos entries
    rw [write, writeEntries_eq, List.length_append, List.length_append] at h
    refine ⟨by omega, Value.EntriesBelow_iff.2 ?_⟩
    intro e he
    have hle := length_le_flatMap writeEntry he
    rw [writeEntry, List.length_append, List.length_append] at hle
    exact ⟨(ih e he).1 (by omega), (ih e he).2 (by omega)⟩
  | composite k typeId fields ih =>
    have hh : 0 < (Cbor.writeArray fields.length).length := length_head_pos 4 _
    have ht := length_writeText typeId
    have hpos : ∀ f, 0 < (writeField f).length := by
      intro f
      have hv := length_write_pos f.2
      rw [writeField, List.length_append, List.length_append]
      omega
    have hn := count_le_flatMap hpos fields
    rw [write, writeFields_eq, List.length_append, List.length_append, List.length_append] at h
    refine ⟨by omega, by omega, Value.FieldsBelow_iff.2 ?_⟩
    intro f hf
    have hle := length_le_flatMap writeField hf
    have hname := length_writeText f.1
    rw [writeField, List.length_append, List.length_append] at hle
    exact ⟨by omega, ih f hf (by omega)⟩
  | path domain identifier =>
    have hd := length_writeText domain
    have hi := length_writeText identifier
    rw [write, List.length_append, List.length_append] at h
    exact ⟨by omega, by omega⟩
  | type t =>
    have hk := length_writeText t.kind
    rw [write, List.length_append, List.length_append] at h
    refine ⟨by omega, ?_⟩
    intro id hid
    have hs := length_writeText id
    rw [Option.mem_def.1 hid, writeOptionalText] at h
    omega

end LedgerFeed.Compact

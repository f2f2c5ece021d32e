import LedgerFeed.Codec
import LedgerFeed.Proofs.Cbor.RoundTrip
import LedgerFeed.Proofs.Value.Induction
import LedgerFeed.Proofs.Value.Lengths

/-!
# Compact payloads read back

The bytes of a value give the value back, whatever follows them, to a reader that may open as many
levels as the value has (`readValue_write`). So a value is encoded just if it is not too deep, and
its payload decodes to it.
-/

namespace LedgerFeed.Compact

/-! ## Parts of a payload -/

/-- An item is read from a payload as it is read alone. -/
theorem item_ok {α : Type} {read : Cbor.Reader α} {b : Bytes} {r : α × Bytes}
    (h : read b = .ok r) : item read b = .ok r := by
  simp [item, h]

/-- A length is read back. -/
theorem readLength_append {n : Nat} (h : n < 2 ^ 64) (rest : Bytes) :
    readLength (Cbor.writeArray n ++ rest) = .ok (n, rest) := by
  simp [readLength, item_ok (Cbor.readArray_append h rest), bind, Except.bind]

/-- An expected length is read back. -/
theorem expectLength_append {n : Nat} (h : n < 2 ^ 64) (rest : Bytes) :
    expectLength n (Cbor.writeArray n ++ rest) = .ok ((), rest) := by
  simp [expectLength, readLength_append h rest, bind, Except.bind]

/-- A part of fixed size is read back. -/
theorem readSized_append (part : Sized) {b : Bytes} (h : b.length = part.size) (rest : Bytes) :
    readSized part (Cbor.writeBytes b ++ rest) = .ok (⟨b, h⟩, rest) := by
  have hb : b.length < 2 ^ 64 := by rw [h]; cases part <;> decide
  simp [readSized, item_ok (Cbor.readBytes_append hb rest), bind, Except.bind, h]

/-- An integer of any type is read back, those of 128 bits from their bytes. -/
theorem readInteger_append (t : IntegerType) (n : t.Num) (rest : Bytes) :
    readInteger t (writeInteger t n.val ++ rest) = .ok (n.val, rest) := by
  have h0 := n.lo_le
  have h1 := n.le_hi
  cases t with
  | int =>
    simp only [IntegerType.lo, IntegerType.hi] at h0 h1
    have hb := readSized_append .int (Bytes.length_ofInt 16 n.val) rest
    simp only [writeInteger, readInteger, hb, bind, Except.bind, pure, Except.pure]
    rw [Bytes.toInt_ofInt (by omega) (by omega)]
  | uint =>
    simp only [IntegerType.lo, IntegerType.hi] at h0 h1
    have hb := readSized_append .uint (Bytes.length_ofInt 16 n.val) rest
    simp only [writeInteger, readInteger, hb, bind, Except.bind, pure, Except.pure]
    rw [Bytes.toNat_ofInt_of_nonneg h0 (by omega)]
  | int64 =>
    simp only [IntegerType.lo, IntegerType.hi] at h0 h1
    exact item_ok (Cbor.readInt64_append h0 (by omega) rest)
  | uint8 =>
    simp only [IntegerType.lo, IntegerType.hi] at h0 h1
    have hb := item_ok (Cbor.readUInt8_append (n := n.val.toNat) (by omega) rest)
    simp only [writeInteger, readInteger, hb, bind, Except.bind, pure, Except.pure]
    rw [Int.toNat_of_nonneg h0]
  | uint64 =>
    simp only [IntegerType.lo, IntegerType.hi] at h0 h1
    have hb := item_ok (Cbor.readUInt64_append (n := n.val.toNat) (by omega) rest)
    simp only [writeInteger, readInteger, hb, bind, Except.bind, pure, Except.pure]
    rw [Int.toNat_of_nonneg h0]

/-- A number of units is read back. -/
theorem readUnits_append (t : FixedType) (n : t.Num) (rest : Bytes) :
    readUnits t (writeUnits t n.val ++ rest) = .ok (n.val, rest) := by
  have h0 := n.lo_le
  have h1 := n.le_hi
  cases t with
  | fix64 =>
    simp only [FixedType.lo, FixedType.hi] at h0 h1
    exact item_ok (Cbor.readInt64_append h0 (by omega) rest)
  | ufix64 =>
    simp only [FixedType.lo, FixedType.hi] at h0 h1
    have hb := item_ok (Cbor.readUInt64_append (n := n.val.toNat) (by omega) rest)
    simp only [writeUnits, readUnits, hb, bind, Except.bind, pure, Except.pure]
    rw [Int.toNat_of_nonneg h0]

/-- An optional text is read back, and a missing one from null. -/
theorem readOptional_text {id : Option String}
    (h : ∀ s ∈ id, (Bytes.ofText s).length < 2 ^ 64) (rest : Bytes) :
    readOptional (item Cbor.readText) (writeOptionalText id ++ rest) = .ok (id, rest) := by
  cases id with
  | none => rfl
  | some s =>
    have hs := h s rfl
    have hn : Cbor.nextIsNull (Cbor.writeText s ++ rest) = .ok false := by
      rw [Cbor.writeText, List.append_assoc]
      exact Cbor.nextIsNull_head (by decide) (by decide) hs _
    simp [readOptional, writeOptionalText, hn, item_ok (Cbor.readText_append hs rest), bind,
      Except.bind, pure, Except.pure]

/-! ## Lists and pairs -/

/-- If a reader gives back what `write` writes of each item, then it does so of all of them. -/
theorem repeated_flatMap {α : Type} {read : Reader α} {write : α → Bytes} {items : List α}
    (h : ∀ a ∈ items, ∀ rest, read (write a ++ rest) = .ok (a, rest)) (rest : Bytes) :
    repeated read items.length (items.flatMap write ++ rest) = .ok (items, rest) := by
  induction items with
  | nil => rfl
  | cons a items ih =>
    have ha := h a List.mem_cons_self
    have hrest := ih fun b hb => h b (List.mem_cons_of_mem a hb)
    simp [repeated, ha, hrest, bind, Except.bind, pure, Except.pure]

/-- A list is read back if its items are. -/
theorem readList_append {α : Type} {read : Reader α} (write : α → Bytes) {items : List α}
    (hn : items.length < 2 ^ 64) (h : ∀ a ∈ items, ∀ rest, read (write a ++ rest) = .ok (a, rest))
    (rest : Bytes) :
    readList read (Cbor.writeArray items.length ++ (items.flatMap write ++ rest)) =
      .ok (items, rest) := by
  simp [readList, readLength_append hn, repeated_flatMap h, bind, Except.bind]

/-- A pair is read back if its parts are. -/
theorem readPair_append {α β : Type} {first : Reader α} {second : Reader β} {a : α} {b : β}
    {bytes₁ bytes₂ : Bytes} (h₁ : ∀ rest, first (bytes₁ ++ rest) = .ok (a, rest))
    (h₂ : ∀ rest, second (bytes₂ ++ rest) = .ok (b, rest)) (rest : Bytes) :
    readPair first second (Cbor.writeArray 2 ++ bytes₁ ++ bytes₂ ++ rest) =
      .ok ((a, b), rest) := by
  simp [readPair, expectLength_append (n := 2) (by decide), h₁, h₂, bind, Except.bind, pure,
    Except.pure]

/-- The bytes of an entry. -/
def writeEntry (e : Value × Value) : Bytes :=
  Cbor.writeArray 2 ++ write e.1 ++ write e.2

/-- The bytes of a field. -/
def writeField (f : String × Value) : Bytes :=
  Cbor.writeArray 2 ++ Cbor.writeText f.1 ++ write f.2

/-- Items are written one behind the other. -/
theorem writeItems_eq (items : List Value) : writeItems items = items.flatMap write := by
  induction items with
  | nil => rfl
  | cons v rest ih => rw [writeItems, ih, List.flatMap_cons]

/-- Entries are written one behind the other. -/
theorem writeEntries_eq (entries : List (Value × Value)) :
    writeEntries entries = entries.flatMap writeEntry := by
  induction entries with
  | nil => rfl
  | cons e rest ih => rw [writeEntries, ih, List.flatMap_cons, writeEntry]

/-- Fields are written one behind the other. -/
theorem writeFields_eq (fields : List (String × Value)) :
    writeFields fields = fields.flatMap writeField := by
  induction fields with
  | nil => rfl
  | cons f rest ih => rw [writeFields, ih, List.flatMap_cons, writeField]

/-! ## Values -/

/-- The array of a kind has at least its code, and its size fits a head. -/
theorem arity_bounds (k : Kind) : arity k ≠ 0 ∧ arity k < 2 ^ 64 := by
  unfold arity
  split <;> decide

/-- The code of a kind is a byte. -/
theorem code_lt (k : Kind) : k.code < 2 ^ 8 := by
  rcases k with _ | _ | _ | _ | _ | t | t | _ | _ | t | _ | _ <;> (try cases t) <;> decide

/-- Behind the array and the code of a kind, a value goes on with the kind's elements. -/
theorem readValue_writeKind (levels : Nat) (k : Kind) (rest : Bytes) :
    readValue (levels + 1) (writeKind k ++ rest) = readBody (readValue levels) k rest := by
  obtain ⟨h0, h1⟩ := arity_bounds k
  rw [writeKind, List.append_assoc, readValue]
  simp only [readLength_append h1, item_ok (Cbor.readUInt8_append (code_lt k) _), bind,
    Except.bind, h0, if_false, Kind.ofCode?_code, if_true]

/-- A value starts with the array and the code of its kind. -/
theorem write_eq (v : Value) : ∃ elements, write v = writeKind v.kind ++ elements := by
  cases v <;> simp only [write, Value.kind, List.append_assoc, List.append_cancel_left_eq,
    exists_eq']
  exact ⟨[], (List.append_nil _).symm⟩

/-- A value starts with an array, so it is not taken for null. -/
theorem nextIsNull_write (v : Value) (rest : Bytes) :
    Cbor.nextIsNull (write v ++ rest) = .ok false := by
  obtain ⟨elements, h⟩ := write_eq v
  rw [h, writeKind, List.append_assoc, List.append_assoc]
  exact Cbor.nextIsNull_head (by decide) (by decide) (arity_bounds _).2 _

/-- A value is read back from its bytes by a reader that may open as many levels as it has. -/
theorem readValue_write {v : Value} {levels : Nat} (hd : v.depth ≤ levels)
    (hf : v.LengthsBelow (2 ^ 64)) (rest : Bytes) :
    readValue levels (write v ++ rest) = .ok (v, rest) := by
  induction levels generalizing v rest with
  | zero => exact absurd hd (Nat.not_le.2 v.depth_pos)
  | succ levels ih =>
    cases v with
    | void =>
      rw [write, readValue_writeKind]
      rfl
    | absent =>
      rw [write, List.append_assoc, readValue_writeKind]
      rfl
    | present content =>
      simp only [Value.depth] at hd
      have hc := ih (v := content) (by omega) hf rest
      rw [write, List.append_assoc, readValue_writeKind]
      simp [readBody, readOptional, nextIsNull_write, hc, bind, Except.bind, pure, Except.pure]
    | bool b =>
      rw [write, List.append_assoc, readValue_writeKind]
      simp [readBody, item_ok (Cbor.readBool_append b rest), bind, Except.bind, pure, Except.pure]
    | text s =>
      rw [write, List.append_assoc, readValue_writeKind]
      simp [readBody, item_ok (Cbor.readText_append hf rest), bind, Except.bind, pure, Except.pure]
    | address a =>
      have ha := readSized_append .address a.size rest
      rw [write, List.append_assoc, readValue_writeKind]
      simp [readBody, ha, bind, Except.bind, pure, Except.pure]
    | integer t n =>
      rw [write, List.append_assoc, readValue_writeKind]
      simp [readBody, readInteger_append, Bounded.clamp_val, bind, Except.bind, pure, Except.pure]
    | fixed t n =>
      rw [write, List.append_assoc, readValue_writeKind]
      simp [readBody, readUnits_append, Bounded.clamp_val, bind, Except.bind, pure, Except.pure]
    | array items =>
      simp only [Value.depth, Nat.add_comm 1, Nat.add_le_add_iff_right,
        Value.depthOfItems_le] at hd
      obtain ⟨hn, hf⟩ := hf
      rw [Value.ItemsBelow_iff] at hf
      have hitems := readList_append write hn (fun v hv => ih (hd v hv) (hf v hv)) rest
      rw [write, writeItems_eq, List.append_assoc, List.append_assoc, readValue_writeKind]
      simp [readBody, hitems, bind, Except.bind, pure, Except.pure]
    | dictionary entries =>
      simp only [Value.depth, Nat.add_comm 1, Nat.add_le_add_iff_right,
        Value.depthOfEntries_le] at hd
      obtain ⟨hn, hf⟩ := hf
      rw [Value.EntriesBelow_iff] at hf
      have hentries := readList_append writeEntry hn (fun e he =>
        readPair_append (ih (hd e he).1 (hf e he).1) (ih (hd e he).2 (hf e he).2)) rest
      rw [write, writeEntries_eq, List.append_assoc, List.append_assoc, readValue_writeKind]
      simp [readBody, hentries, bind, Except.bind, pure, Except.pure]
    | composite k typeId fields =>
      simp only [Value.depth, Nat.add_comm 1, Nat.add_le_add_iff_right,
        Value.depthOfFields_le] at hd
      obtain ⟨ht, hn, hf⟩ := hf
      rw [Value.FieldsBelow_iff] at hf
      have hfields := readList_append writeField hn (fun f hm =>
        readPair_append (fun rest => item_ok (Cbor.readText_append (hf f hm).1 rest))
          (ih (hd f hm) (hf f hm).2)) rest
      rw [write, writeFields_eq, List.append_assoc, List.append_assoc, List.append_assoc,
        readValue_writeKind]
      simp [readBody, item_ok (Cbor.readText_append ht _), hfields, bind, Except.bind, pure,
        Except.pure]
    | path domain identifier =>
      rw [write, List.append_assoc, List.append_assoc, readValue_writeKind]
      simp [readBody, item_ok (Cbor.readText_append hf.1 _), item_ok (Cbor.readText_append hf.2 _),
        bind, Except.bind, pure, Except.pure]
    | type t =>
      rw [write, List.append_assoc, List.append_assoc, readValue_writeKind]
      simp [readBody, item_ok (Cbor.readText_append hf.1 _), readOptional_text hf.2, bind,
        Except.bind, pure, Except.pure]

/-! ## Payloads -/

/-- The header of a payload is read back. -/
theorem readHeader_append (rest : Bytes) : readHeader (header ++ rest) = .ok ((), rest) := by
  have ht : tag < 2 ^ 64 := by decide
  have hv : version < 2 ^ 64 := by decide
  rw [header, List.append_assoc, List.append_assoc]
  simp [readHeader, item_ok (Cbor.readTag_append ht _), expectLength_append (n := 2) (by decide),
    item_ok (Cbor.readUInt64_append hv rest), bind, Except.bind]

/-- The payload of a value decodes to the value. -/
theorem decode_write {v : Value} (hd : v.depth ≤ Value.maxDepth)
    (hf : v.LengthsBelow (2 ^ 64)) : decode (header ++ write v) = .ok v := by
  have hv := readValue_write hd hf []
  rw [List.append_nil] at hv
  have hne : (header ++ write v).isEmpty = false := rfl
  simp [decode, hne, readHeader_append, hv, bind, Except.bind, pure, Except.pure]

end LedgerFeed.Compact

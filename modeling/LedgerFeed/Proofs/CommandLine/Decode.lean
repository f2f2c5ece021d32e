import LedgerFeed.CommandLine.Run
import LedgerFeed.Proofs.Json.Lines
import LedgerFeed.Proofs.Text.Hex
import LedgerFeed.Proofs.Value.Plain

/-!
# Decoding a payload from the command line

The command fails for a text that shows no bytes and for bytes that have no value, and otherwise
writes a document with the value. Only a value with an integer beyond 64 bits cannot be written so:
the run is then aborted (`decode_run`).
-/

namespace LedgerFeed

/-! ## Integers in plain forms -/

namespace Json

/-- `allIntegersFit` in the per-item form. -/
theorem allIntegersFit_iff {items : List Json} :
    allIntegersFit items = true ↔ ∀ j ∈ items, j.integersFit = true := by
  induction items with
  | nil => simp [allIntegersFit]
  | cons j rest ih => simp only [allIntegersFit, Bool.and_eq_true, ih, List.forall_mem_cons]

/-- An integer fits a generic tree just if it has 64 bits at most. -/
theorem integersFit_int {n : Int} : (int n).integersFit = true ↔ Value.FitsGeneric n := by
  simp only [int, integersFit, Value.FitsGeneric, decide_eq_true_eq]
  split
  · simp only [decide_eq_true_eq]
    omega
  · simp only [decide_eq_true_eq]
    omega

/-- A pair fits just if both parts do. -/
theorem integersFit_pair {a b : Json} :
    (array [a, b]).integersFit = true ↔ a.integersFit = true ∧ b.integersFit = true := by
  simp [integersFit, allIntegersFit]

/-- A body fits with its kind just if it fits alone. -/
theorem integersFit_tagged {k : Kind} {body : Json} :
    (Value.tagged k body).integersFit = body.integersFit := by
  simp [Value.tagged, integersFit, memberIntegersFit]

end Json

/-- The integers of a value are those of its plain form. -/
theorem Value.integersFit_plain {v : Value} : v.plain.integersFit = true ↔ v.IntegersFit := by
  induction v with
  | void => exact iff_of_true rfl trivial
  | absent | bool | text | address | path => exact iff_of_true rfl trivial
  | present v ih => rw [plain, Json.integersFit_tagged, ih, IntegersFit]
  | integer t n => rw [plain, Json.integersFit_tagged, Json.integersFit_int, IntegersFit]
  | fixed t units =>
    rw [plain, Json.integersFit_tagged, Json.integersFit_int]
    exact iff_of_true (fitsGeneric_units units) trivial
  | array items ih =>
    rw [plain, Json.integersFit_tagged, Json.integersFit, Json.allIntegersFit_iff, plainItems_eq,
      List.forall_mem_map, IntegersFit, ItemsFit_iff]
    exact forall₂_congr ih
  | dictionary entries ih =>
    rw [plain, Json.integersFit_tagged, Json.integersFit, Json.allIntegersFit_iff, plainEntries_eq,
      List.forall_mem_map, IntegersFit, EntriesFit_iff]
    refine forall₂_congr fun e he => ?_
    rw [Json.integersFit_pair, (ih e he).1, (ih e he).2]
  | composite k typeId fields ih =>
    have hfields : (Json.array (plainFields fields)).integersFit = true ↔
        ∀ f ∈ fields, f.2.IntegersFit := by
      rw [Json.integersFit, Json.allIntegersFit_iff, plainFields_eq, List.forall_mem_map]
      refine forall₂_congr fun f hf => ?_
      rw [Json.integersFit_pair, ih f hf]
      exact and_iff_right rfl
    rw [plain, Json.integersFit_tagged, IntegersFit, FieldsFit_iff, ← hfields]
    simp [Json.integersFit, Json.memberIntegersFit]
  | type t =>
    obtain ⟨kind, _ | id⟩ := t <;> exact iff_of_true rfl trivial

namespace CommandLine

/-! ## Payloads as texts -/

/-- A text shows a byte string: blanks around it aside, by two digits of either case a byte, behind
`0x` or not. -/
def Shows (payload : String) (b : Bytes) : Prop :=
  ∃ ds : List Char, ds.map Char.toLower = Hex.digits b ∧
    (Text.trim payload.toList = ds ∨ Text.trim payload.toList = '0' :: 'x' :: ds)

/-- A text of an argument gives the bytes that it shows. -/
theorem payloadBytes_eq_ok_iff {payload : String} {b : Bytes} :
    payloadBytes payload = .ok b ↔ Shows payload b := by
  have hshows := Hex.decodeMarked_eq_ok_iff (s := String.ofList (Text.trim payload.toList)) (b := b)
  rw [String.toList_ofList] at hshows
  rw [Shows, ← hshows, payloadBytes]
  split <;> simp_all

/-! ## Runs -/

/-- The document of a value is written in full, if all integers fit. -/
theorem decoded?_of_fits {v : Value} (h : v.IntegersFit) (e : Encoding) :
    ∃ j, decoded? e v = some j ∧ j.IsWritable ∧
      j = .object [("encoding", .text e.name), ("value", v.plain.generic)] := by
  refine ⟨_, if_pos (Value.integersFit_plain.2 h), ?_, rfl⟩
  exact Value.isWritable_generic_members trivial (Value.isWritable_generic_plain h)

/-- A value with a wide integer has no output. -/
theorem decoded?_of_not_fits {v : Value} (h : ¬ v.IntegersFit) (e : Encoding) :
    decoded? e v = none :=
  if_neg fun hfits => h (Value.integersFit_plain.1 hfits)

section
variable {payload : String} {strict : Bool} {b : Bytes}

/-- An argument that shows no bytes ends in a report. -/
theorem decode_of_not_shows (h : ¬ ∃ b, Shows payload b) :
    ∃ r, decode payload strict = .ofReport r := by
  cases hbytes : payloadBytes payload with
  | error r => exact ⟨r, by rw [decode, hbytes]⟩
  | ok b => exact absurd ⟨b, payloadBytes_eq_ok_iff.1 hbytes⟩ h

/-- A payload that is refused ends in a report of the error. -/
theorem decode_of_error (hb : Shows payload b) {e : CodecError}
    (h : Codec.decode (if strict then .strict else .lenient) b = .error e) :
    decode payload strict = .ofReport (.ofText e.message) := by
  simp only [decode, payloadBytes_eq_ok_iff.2 hb, h]

/-- A value whose integers all fit is printed as a document that names the encoding and shows the
value. -/
theorem decode_of_fits (hb : Shows payload b) {v : Value}
    (h : Codec.decode (if strict then .strict else .lenient) b = .ok v) (hv : v.IntegersFit) :
    (decode payload strict).ending = .success ∧
      Json.parse? (decode payload strict).output = some (.object
        [("encoding", .text (Encoding.detect b).name), ("value", v.plain.generic)]) := by
  obtain ⟨j, hj, hwritable, rfl⟩ := decoded?_of_fits hv (Encoding.detect b)
  simp only [decode, payloadBytes_eq_ok_iff.2 hb, h, hj]
  exact ⟨rfl, Json.parse?_toLines hwritable⟩

/-- A value with a wide integer ends the command abruptly, with nothing printed. -/
theorem decode_of_not_fits (hb : Shows payload b) {v : Value}
    (h : Codec.decode (if strict then .strict else .lenient) b = .ok v) (hv : ¬ v.IntegersFit) :
    decode payload strict = ⟨"", .abort⟩ := by
  simp only [decode, payloadBytes_eq_ok_iff.2 hb, h, decoded?_of_not_fits hv]

end

/-- The command fails exactly if its text shows no bytes or the bytes have no value. Otherwise, if
the integers of the value have 64 bits, it writes one document, whose members are the encoding that
the mark of the bytes announces and the generic tree of the value's plain form; else it is aborted
and writes nothing. -/
theorem decode_run (payload : String) (strict : Bool) :
    let o : DecodeOptions := if strict then .strict else .lenient
    ((∃ r, decode payload strict = .ofReport r) ↔
      (¬ ∃ b, Shows payload b) ∨ ∃ b e, Shows payload b ∧ Codec.decode o b = .error e) ∧
    ∀ b v, Shows payload b → Codec.decode o b = .ok v →
      (v.IntegersFit → (decode payload strict).ending = .success ∧
        Json.parse? (decode payload strict).output = some (.object
          [("encoding", .text (Encoding.detect b).name), ("value", v.plain.generic)])) ∧
      (¬ v.IntegersFit → decode payload strict = ⟨"", .abort⟩) := by
  intro o
  refine ⟨⟨?_, ?_⟩, fun b v hb hv => ⟨decode_of_fits hb hv, decode_of_not_fits hb hv⟩⟩
  · rintro ⟨r, hr⟩
    by_cases hshows : ∃ b, Shows payload b
    · obtain ⟨b, hb⟩ := hshows
      cases hdecode : Codec.decode o b with
      | error e => exact .inr ⟨b, e, hb, hdecode⟩
      | ok v =>
        by_cases hv : v.IntegersFit
        · have hsuccess := (decode_of_fits hb hdecode hv).1
          rw [hr] at hsuccess
          cases hsuccess
        · have habort := decode_of_not_fits hb hdecode hv
          rw [hr] at habort
          cases habort
    · exact .inl hshows
  · rintro (hshows | ⟨b, e, hb, he⟩)
    · exact decode_of_not_shows hshows
    · exact ⟨_, decode_of_error hb he⟩

/-- The greatest integer of 64 bits, in a text with blanks, a marker and capital letters. -/
theorem decode_run_greatest :
    let payload := " 0xD88282008209500000000000000000FFFFFFFFFFFFFFFF\n"
    (decode payload true).ending = .success ∧
      Json.parse? (decode payload true).output = some (.object [("encoding", .text "compact"),
        ("value", .object [("type", .text "UInt"), ("value", .nat (2 ^ 64 - 1))])]) := by
  intro payload
  let b : Bytes := [0xd8, 0x82, 0x82, 0x00, 0x82, 0x09, 0x50, 0, 0, 0, 0, 0, 0, 0, 0,
    0xff, 0xff, 0xff, 0xff, 0xff, 0xff, 0xff, 0xff]
  let ds : List Char := "D88282008209500000000000000000FFFFFFFFFFFFFFFF".toList
  have hb : Shows payload b := ⟨ds, by decide +kernel, .inr (by decide +kernel)⟩
  have hv : Codec.decode .strict b = .ok (.integer .uint ⟨2 ^ 64 - 1, by decide, by decide⟩) := rfl
  have hfit : -(2 ^ 63) ≤ (2 ^ 64 - 1 : Int) ∧ (2 ^ 64 - 1 : Int) < 2 ^ 64 := by decide
  exact ((decode_run payload true).2 b _ hb hv).1 hfit

/-- The least integer of 65 bits has no place in a generic tree, although its payload decodes. -/
theorem decode_wide_integer :
    let payload := "d882820082055000000000000000010000000000000000"
    ∃ b v, Shows payload b ∧ Codec.decode .lenient b = .ok v ∧
      decode payload false = ⟨"", .abort⟩ := by
  intro payload
  let b : Bytes := [0xd8, 0x82, 0x82, 0x00, 0x82, 0x05, 0x50, 0, 0, 0, 0, 0, 0, 0, 1,
    0, 0, 0, 0, 0, 0, 0, 0]
  have hb : Shows payload b := ⟨payload.toList, by decide +kernel, .inl (by decide +kernel)⟩
  exact ⟨b, .integer .int ⟨2 ^ 64, by decide, by decide⟩, hb, rfl, by decide +kernel⟩

end CommandLine

end LedgerFeed

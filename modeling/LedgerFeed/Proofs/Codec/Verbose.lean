import LedgerFeed.Proofs.Codec.Encode
import LedgerFeed.Proofs.Verbose.RoundTrip

/-!
# Verbose payloads of values

The verbose encoding loses nothing, whatever texts and numbers a value holds, and what it writes is
read under strict options too: `verbose_roundTrip`.
-/

namespace LedgerFeed.Codec

/-- The text of an object does not start with the compact mark. -/
theorem detect_object (members : List (String × Json)) :
    Encoding.detect (Bytes.ofText (Json.object members).toText) = .verbose := by
  obtain ⟨rest, h⟩ := Verbose.ofText_object members
  rw [h]
  rfl

/-- The verbose payload of a value starts with a brace, so it is not taken for compact. -/
theorem detect_verbose_payload (v : Value) :
    Encoding.detect (payload .verbose v) = .verbose := by
  obtain ⟨members, h⟩ := Verbose.tree_eq_object v
  rw [payload, h, detect_object]

/-- The text of a tree without too many brackets is decoded as the tree. -/
theorem decodeVerbose_toText (o : DecodeOptions) {j : Json} (hj : j.IsWritable)
    (hn : j.nesting ≤ Verbose.maxBrackets) :
    decodeVerbose o (Bytes.ofText j.toText) =
      (Verbose.ofTree o Value.maxDepth j).mapError .verbose := by
  rw [decodeVerbose, Verbose.decode_toText o hj hn]
  cases Verbose.ofTree o Value.maxDepth j <;> rfl

/-- The payload of a value that is not too deep reads back. -/
theorem decodeVerbose_payload (o : DecodeOptions) {v : Value} (hd : v.depth ≤ Value.maxDepth) :
    decodeVerbose o (payload .verbose v) = .ok v := by
  simp only [decodeVerbose, payload, Verbose.decode_tree o hd]

/-- A verbose payload is decoded as one. -/
theorem decode_verbose_payload (o : DecodeOptions) (v : Value) :
    decode o (payload .verbose v) = decodeVerbose o (payload .verbose v) := by
  rw [decode, detect_verbose_payload]

/-- A value is encoded as verbose just if its depth is 64 at most. The payload is taken for verbose,
stays below the limit on brackets, and decodes to the value under all options. -/
theorem verbose_roundTrip (v : Value) :
    ((∃ b, encode .verbose v = .ok b) ↔ v.depth ≤ 64) ∧
      (64 < v.depth → encode .verbose v = .error (.unencodable .verbose)) ∧
      ∀ b, encode .verbose v = .ok b →
        Encoding.detect b = .verbose ∧ Json.bracketNesting b ≤ 260 ∧
          ∀ o, decodeVerbose o b = .ok v ∧ decode o b = .ok v := by
  refine ⟨encodes_iff, encode_of_lt_depth .verbose, ?_⟩
  intro b h
  obtain ⟨hd, rfl⟩ := encode_ok_iff.1 h
  have hnesting : Json.bracketNesting (payload .verbose v) ≤ 260 := by
    rw [payload, Json.bracketNesting_toText (Verbose.tree_isWritable v)]
    exact Verbose.nesting_tree_le hd
  refine ⟨detect_verbose_payload v, hnesting, ?_⟩
  intro o
  have hdecode := decodeVerbose_payload o hd
  exact ⟨hdecode, (decode_verbose_payload o v).trans hdecode⟩

/-- The round trip of an event whose texts need escapes, with the least number of its type and a
type without ID. -/
theorem verbose_roundTrip_event :
    let v : Value := .composite .event "A.Vault" [("\"\\\n\x01é", .present (.present .absent)),
      ("least", .integer .int ⟨-(2 ^ 127), by decide, by decide⟩),
      ("unit", .fixed .fix64 ⟨-1, by decide, by decide⟩), ("of", .type ⟨"Int", none⟩)]
    ∃ b, encode .verbose v = .ok b ∧ ∀ o, decode o b = .ok v := by
  intro v
  obtain ⟨b, hb⟩ := (verbose_roundTrip v).1.2 (by decide)
  exact ⟨b, hb, fun o => (((verbose_roundTrip v).2.2 b hb).2.2 o).2⟩

end LedgerFeed.Codec

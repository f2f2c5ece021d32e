import LedgerFeed.Proofs.Codec.Encode
import LedgerFeed.Proofs.Compact.Lengths

/-!
# Compact payloads of values

The compact encoding loses nothing: `compact_roundTrip`. Lengths are written with 64 bits at most,
so this is said of payloads whose length has 64 bits, as that of anything in memory has.
-/

namespace LedgerFeed.Codec

/-- What starts with the compact header is taken for compact. -/
theorem detect_header (rest : Bytes) : Encoding.detect (Compact.header ++ rest) = .compact := rfl

/-- The payload of a value that is not too deep reads back, if the lengths in the value have 64
bits. -/
theorem decodeCompact_payload {v : Value} (hd : v.depth ≤ Value.maxDepth)
    (hf : v.LengthsBelow (2 ^ 64)) : decodeCompact (payload .compact v) = .ok v := by
  simp only [decodeCompact, payload, Compact.decode_write hd hf]

/-- A compact payload is decoded as one, under all options. -/
theorem decode_compact_payload (o : DecodeOptions) (v : Value) :
    decode o (payload .compact v) = decodeCompact (payload .compact v) := by
  rw [decode, payload, detect_header]

/-- A value is encoded as compact just if its depth is 64 at most. The payload starts with the mark,
is taken for compact, and decodes to the value under all options. -/
theorem compact_roundTrip (v : Value) :
    ((∃ b, encode .compact v = .ok b) ↔ v.depth ≤ 64) ∧
      (64 < v.depth → encode .compact v = .error (.unencodable .compact)) ∧
      ∀ b, encode .compact v = .ok b →
        Encoding.compactMark <+: b ∧ Encoding.detect b = .compact ∧
          (b.length < 2 ^ 64 → decodeCompact b = .ok v ∧ ∀ o, decode o b = .ok v) := by
  refine ⟨encodes_iff, encode_of_lt_depth .compact, ?_⟩
  intro b h
  obtain ⟨hd, rfl⟩ := encode_ok_iff.1 h
  refine ⟨⟨_, rfl⟩, detect_header _, ?_⟩
  intro hb
  have hf : v.LengthsBelow (2 ^ 64) := by
    rw [payload, List.length_append] at hb
    exact Compact.lengthsBelow_of_write (by omega)
  have hdecode := decodeCompact_payload hd hf
  exact ⟨hdecode, fun o => (decode_compact_payload o v).trans hdecode⟩

/-- The round trip of a struct with an optional dictionary of wide numbers. -/
theorem compact_roundTrip_struct :
    let v : Value := .composite .struct "A.Vault" [("balances", .present (.dictionary
      [(.text "least", .integer .int ⟨-(2 ^ 127), by decide, by decide⟩),
        (.absent, .fixed .ufix64 ⟨2 ^ 64 - 1, by decide, by decide⟩)]))]
    ∃ b, encode .compact v = .ok b ∧ b.length < 2 ^ 64 ∧ ∀ o, decode o b = .ok v :=
  ⟨_, rfl, by decide +kernel, (((compact_roundTrip _).2.2 _ rfl).2.2 (by decide +kernel)).2⟩

end LedgerFeed.Codec

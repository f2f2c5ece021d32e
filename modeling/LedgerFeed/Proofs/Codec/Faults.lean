import LedgerFeed.Proofs.Codec.Sniffing

/-!
# Faults of decoding

A payload that has no value is malformed in the encoding that its first bytes announce, whichever
part of which decoder refuses it. With the mark of the compact encoding the options make no
difference, and no payload has a value for both decoders (`decode_faults`).
-/

namespace LedgerFeed

namespace CodecError

/-- A payload is malformed in an encoding, and the message says so. -/
structure Refuses (encoding : Encoding) (e : CodecError) : Prop where
  isMalformed : e.isMalformed = true
  encoding_eq : e.encoding = encoding
  message_eq : e.message = "malformed " ++ encoding.name ++ " payload: " ++ e.reason

/-- A fault of the compact decoder is one of a malformed compact payload. -/
theorem refuses_compact (size : Nat) (fault : Compact.Fault) :
    Refuses .compact (.compact size fault) :=
  ⟨rfl, rfl, rfl⟩

/-- A fault of the verbose decoder is one of a malformed verbose payload. -/
theorem refuses_verbose (fault : Verbose.Fault) : Refuses .verbose (.verbose fault) :=
  ⟨rfl, rfl, rfl⟩

end CodecError

namespace Codec

variable {o : DecodeOptions} {p : Bytes} {v w : Value} {e : CodecError}

/-- What compact decoding refuses is malformed as a compact payload. -/
theorem refuses_of_decodeCompact (h : decodeCompact p = .error e) : e.Refuses .compact := by
  unfold decodeCompact at h
  split at h
  · cases h
  · cases h
    exact CodecError.refuses_compact _ _

/-- What verbose decoding refuses is malformed as a verbose payload. -/
theorem refuses_of_decodeVerbose (h : decodeVerbose o p = .error e) : e.Refuses .verbose := by
  unfold decodeVerbose at h
  split at h
  · cases h
  · cases h
    exact CodecError.refuses_verbose _

/-- A payload that is refused is malformed in the encoding that is announced. -/
theorem refuses_of_decode (h : decode o p = .error e) : e.Refuses (Encoding.detect p) := by
  unfold decode at h
  split at h
  · next hcompact =>
    rw [hcompact]
    exact refuses_of_decodeCompact h
  · next hverbose =>
    rw [hverbose]
    exact refuses_of_decodeVerbose h

/-- The head of a tag has a byte that no document starts with. -/
theorem not_decodeVerbose_of_decodeCompact (h : decodeCompact p = .ok v) :
    decodeVerbose o p ≠ .ok w := by
  intro hverbose
  have hprefix := not_prefix_of_decodeVerbose hverbose
  rcases mark_or_wide_of_decodeCompact h with hmark | ⟨wide, hwide, hp⟩
  · exact hprefix _ List.mem_cons_self hmark
  · exact hprefix _ (List.mem_cons_of_mem _ hwide) hp

/-- Decoding gives a value, or the fault that the payload is malformed in the encoding that its
first bytes announce. With the mark of the compact encoding the options make no difference. No
payload is accepted by both decoders. -/
theorem decode_faults (o : DecodeOptions) (p : Bytes) :
    ((∃ v, decode o p = .ok v) ∨
      ∃ e, decode o p = .error e ∧ e.Refuses (Encoding.detect p)) ∧
    (Encoding.compactMark <+: p → ∀ o', decode o' p = decode o p) ∧
    ∀ v w, ¬ (decodeCompact p = .ok v ∧ decodeVerbose o p = .ok w) := by
  refine ⟨?_, fun hmark o' => ?_, fun v w ⟨hv, hw⟩ => ?_⟩
  · cases h : decode o p with
    | ok v => exact .inl ⟨v, rfl⟩
    | error e => exact .inr ⟨e, rfl, refuses_of_decode h⟩
  · rw [decode_of_mark o' hmark, decode_of_mark o hmark]
  · exact not_decodeVerbose_of_decodeCompact hv hw

/-- The mark with nothing behind it. -/
theorem decode_faults_mark :
    let p := Encoding.compactMark
    Encoding.compactMark <+: p ∧ decode .lenient p = decode .strict p ∧
      ∃ e, decode .strict p = .error e ∧ e.isMalformed = true ∧ e.encoding = .compact := by
  intro p
  have hmark : Encoding.compactMark <+: p := List.prefix_rfl
  obtain ⟨hcases, hoptions, -⟩ := decode_faults .strict p
  refine ⟨hmark, hoptions hmark .lenient, ?_⟩
  rcases hcases with ⟨v, hv⟩ | ⟨e, he, hrefuses⟩
  · cases hv
  · exact ⟨e, he, hrefuses.isMalformed, hrefuses.encoding_eq⟩

end Codec

end LedgerFeed

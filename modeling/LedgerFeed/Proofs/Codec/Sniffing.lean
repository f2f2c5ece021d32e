import LedgerFeed.Proofs.Compact.Acceptance
import LedgerFeed.Proofs.Text.Utf8
import LedgerFeed.Proofs.Verbose.Bounds

/-!
# Which decoder a payload is given to

The encoding of a payload is judged by two bytes, while the compact decoder reads the head of a tag,
which may have any width. So the two agree on the payloads whose head is the shortest
(`selects_decoder`); one with a wider head has a value for the compact decoder but is taken for
verbose and refused (`wide_head_without_mark`). A verbose payload is never taken for compact, since
it starts with a byte below `0x80`.
-/

namespace LedgerFeed

namespace Encoding

/-- The heads of tag 130 that are wider than the mark. -/
def wideMarks : List Bytes :=
  [[0xd9, 0, 0x82], [0xda, 0, 0, 0, 0x82], [0xdb, 0, 0, 0, 0, 0, 0, 0, 0x82]]

/-- A payload with the mark in front is taken for compact. -/
theorem detect_of_mark {p : Bytes} (h : compactMark <+: p) : detect p = .compact :=
  if_pos (List.isPrefixOf_iff_prefix.2 h)

/-- A payload without the mark in front is taken for verbose. -/
theorem detect_of_not_mark {p : Bytes} (h : ¬ compactMark <+: p) : detect p = .verbose :=
  if_neg (mt List.isPrefixOf_iff_prefix.1 h)

/-- The head of tag 130 is the mark or one of the wider ones. -/
theorem mark_or_wide_of_head {h : Bytes} (hh : Cbor.Head 6 130 h) :
    h = compactMark ∨ h ∈ wideMarks := by
  generalize hn : 130 = n at hh
  cases hh with
  | short hlt => omega
  | @long code digits hl =>
    have hdigits : digits = Bytes.ofNat digits.length 130 := by rw [hn, Bytes.ofNat_toNat]
    simp only [Cbor.longForms, List.mem_cons, Prod.mk.injEq, List.not_mem_nil, or_false] at hl
    rcases hl with ⟨rfl, hlen⟩ | ⟨rfl, hlen⟩ | ⟨rfl, hlen⟩ | ⟨rfl, hlen⟩ <;>
      rw [hlen] at hdigits <;> subst hdigits <;> decide

/-- What starts with the mark starts with no wider one. -/
theorem not_mark_of_wide {h p : Bytes} (hh : h ∈ wideMarks) (hp : h <+: p) :
    ¬ compactMark <+: p := by
  have hother : ∀ w ∈ wideMarks, ¬ (compactMark <+: w ∨ w <+: compactMark) := by decide
  intro hmark
  exact hother _ hh (List.prefix_or_prefix_of_prefix hmark hp)

end Encoding

namespace Verbose

/-- A verbose payload starts with a byte below `0x80`. -/
theorem lt_of_decode {o : DecodeOptions} {p : Bytes} {v : Value} (h : decode o p = .ok v) :
    ∃ x rest, p = x :: rest ∧ x < 0x80 := by
  obtain ⟨j, hj, -⟩ := exists_tree_of_decode h
  obtain ⟨s, rfl, hparse⟩ := parse_of_document? hj
  obtain ⟨c, rest, hs, hc⟩ := Json.toNat_lt_of_parse hparse
  have htext : Bytes.ofText s = UInt8.ofNat c.toNat :: rest.flatMap String.utf8EncodeChar := by
    rw [← String.ofList_toList (s := s), hs, Bytes.ofText_ofList, List.flatMap_cons,
      Bytes.utf8EncodeChar_ascii hc]
    rfl
  refine ⟨_, _, htext, ?_⟩
  rw [UInt8.lt_iff_toNat_lt, UInt8.toNat_ofNat']
  exact Nat.lt_of_le_of_lt (Nat.mod_le _ _) hc

end Verbose

namespace Codec

open Encoding

/-- Behind the mark, a payload is decoded as compact. -/
theorem decode_of_mark (o : DecodeOptions) {p : Bytes} (h : compactMark <+: p) :
    decode o p = decodeCompact p := by
  rw [decode, detect_of_mark h]

/-- Without the mark, a payload is decoded as verbose. -/
theorem decode_of_not_mark (o : DecodeOptions) {p : Bytes} (h : ¬ compactMark <+: p) :
    decode o p = decodeVerbose o p := by
  rw [decode, detect_of_not_mark h]

/-- Verbose decoding gives a value just if the decoder behind it does. -/
theorem decodeVerbose_eq_ok {o : DecodeOptions} {p : Bytes} {v : Value} :
    decodeVerbose o p = .ok v ↔ Verbose.decode o p = .ok v := by
  unfold decodeVerbose
  split
  · next h => simp [h]
  · next h => simp [h]

/-- A compact payload starts with the mark or a wider one. -/
theorem mark_or_wide_of_decodeCompact {p : Bytes} {v : Value} (h : decodeCompact p = .ok v) :
    compactMark <+: p ∨ ∃ w ∈ wideMarks, w <+: p := by
  obtain ⟨ht, -, -, -, -⟩ := Compact.decode_eq_ok_iff.1 (decodeCompact_eq_ok.1 h)
  have hprefix : ∀ {t q r s : Bytes}, t <+: t ++ q ++ r ++ s := by
    intro t q r s
    simp only [List.append_assoc]
    exact List.prefix_append _ _
  rcases mark_or_wide_of_head ht with rfl | hwide
  · exact .inl hprefix
  · exact .inr ⟨_, hwide, hprefix⟩

/-- What the verbose decoder accepts starts with neither the mark nor a wider one. -/
theorem not_prefix_of_decodeVerbose {o : DecodeOptions} {p : Bytes} {v : Value}
    (h : decodeVerbose o p = .ok v) : ∀ w ∈ compactMark :: wideMarks, ¬ w <+: p := by
  obtain ⟨x, rest, rfl, hx⟩ := Verbose.lt_of_decode (decodeVerbose_eq_ok.1 h)
  have hfirst : ∀ w ∈ compactMark :: wideMarks, ∃ y more, w = y :: more ∧ ¬ y < 0x80 := by
    simp only [compactMark, wideMarks, List.forall_mem_cons, List.cons.injEq]
    exact ⟨⟨_, _, ⟨rfl, rfl⟩, by decide⟩, ⟨_, _, ⟨rfl, rfl⟩, by decide⟩,
      ⟨_, _, ⟨rfl, rfl⟩, by decide⟩, ⟨_, _, ⟨rfl, rfl⟩, by decide⟩, List.forall_mem_nil _⟩
  intro w hw hp
  obtain ⟨y, more, rfl, hy⟩ := hfirst w hw
  obtain ⟨rfl, -⟩ := List.cons_prefix_cons.1 hp
  exact hy hx

/-- A compact payload that starts with the mark is taken for compact and decodes to its value under
all options; any other starts with a wider head, is taken for verbose, and is refused. A verbose
payload is taken for verbose and decodes to its value. So decoding accepts what the verbose decoder
accepts, and of what the compact decoder accepts the payloads that start with the mark. -/
theorem selects_decoder (o : DecodeOptions) (p : Bytes) (v : Value) :
    (decodeCompact p = .ok v →
      (compactMark <+: p ∧ detect p = .compact ∧ ∀ o', decode o' p = .ok v) ∨
      (∃ w ∈ wideMarks, w <+: p) ∧ detect p = .verbose ∧ ∀ o' v', decode o' p ≠ .ok v') ∧
    (decodeVerbose o p = .ok v → detect p = .verbose ∧ decode o p = .ok v) ∧
    (decode o p = .ok v ↔
      compactMark <+: p ∧ decodeCompact p = .ok v ∨ decodeVerbose o p = .ok v) := by
  have hverbose : decodeVerbose o p = .ok v → ¬ compactMark <+: p := by
    intro h
    exact not_prefix_of_decodeVerbose h _ List.mem_cons_self
  refine ⟨?_, ?_, ?_⟩
  · intro h
    rcases mark_or_wide_of_decodeCompact h with hmark | ⟨w, hw, hp⟩
    · left
      exact ⟨hmark, detect_of_mark hmark, fun o' => (decode_of_mark o' hmark).trans h⟩
    · right
      have hmark := not_mark_of_wide hw hp
      refine ⟨⟨w, hw, hp⟩, detect_of_not_mark hmark, ?_⟩
      intro o' v' hdecode
      rw [decode_of_not_mark o' hmark] at hdecode
      exact not_prefix_of_decodeVerbose hdecode w (List.mem_cons_of_mem _ hw) hp
  · intro h
    have hmark := hverbose h
    exact ⟨detect_of_not_mark hmark, (decode_of_not_mark o hmark).trans h⟩
  · constructor
    · intro h
      by_cases hmark : compactMark <+: p
      · exact .inl ⟨hmark, (decode_of_mark o hmark).symm.trans h⟩
      · exact .inr ((decode_of_not_mark o hmark).symm.trans h)
    · rintro (⟨hmark, h⟩ | h)
      · exact (decode_of_mark o hmark).trans h
      · exact (decode_of_not_mark o (hverbose h)).trans h

/-- The void value behind a head of three bytes. -/
theorem selects_decoder_wide :
    let p : Bytes := [0xd9, 0, 0x82, 0x82, 0, 0x81, 0]
    decodeCompact p = .ok .void ∧ detect p = .verbose ∧ ∀ o v, decode o p ≠ .ok v := by
  intro p
  have hp : decodeCompact p = .ok .void := rfl
  rcases (selects_decoder .lenient p .void).1 hp with ⟨hmark, -⟩ | ⟨-, hrest⟩
  · exact absurd hmark (by decide)
  · exact ⟨hp, hrest⟩

/-- A compact payload need not start with the mark, and then no decoder is found for it. -/
theorem wide_head_without_mark :
    ¬ ∀ p v, decodeCompact p = .ok v →
      compactMark <+: p ∧ detect p = .compact ∧ ∀ o, decode o p = .ok v := by
  intro h
  have hmark := (h [0xd9, 0, 0x82, 0x82, 0, 0x81, 0] .void rfl).1
  revert hmark
  decide

end Codec

end LedgerFeed

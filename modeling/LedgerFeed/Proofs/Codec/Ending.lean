import LedgerFeed.Proofs.Codec.Sniffing
import LedgerFeed.Proofs.Json.Ending
import LedgerFeed.Proofs.Verbose.RoundTrip

/-!
# Where a verbose payload ends

A verbose payload says by itself where it ends (`decodeVerbose_selfDelimiting`): with its last
closing brace. White space behind the brace makes no difference, anything else does, and no part of
the payload in front of the brace is a payload.
-/

namespace LedgerFeed

namespace Json

/-- The bytes of the white space that may stand between tokens. -/
def isSpaceByte (b : UInt8) : Bool :=
  b == 0x20 || b == 0x09 || b == 0x0a || b == 0x0d

/-- White space is written as bytes of white space, and nothing else is. -/
theorem isSpace_iff (c : Char) :
    isSpace c ↔ ∀ b ∈ String.utf8EncodeChar c, isSpaceByte b := by
  by_cases hc : c.toNat < 0x80
  · have hall : ∀ k < 0x80, isSpace (Char.ofNat k) ↔ isSpaceByte (UInt8.ofNat k) := by decide
    have hk := hall c.toNat hc
    rw [Char.ofNat_toNat] at hk
    rw [Bytes.utf8EncodeChar_ascii hc, List.forall_mem_singleton, hk]
  · constructor
    · intro hspace
      simp only [isSpace, Bool.or_eq_true, beq_iff_eq] at hspace
      rcases hspace with ((rfl | rfl) | rfl) | rfl <;> exact absurd (by decide) hc
    · intro hbytes
      obtain ⟨b, hb⟩ := List.exists_mem_of_ne_nil _ (String.utf8EncodeChar_ne_nil (c := c))
      have hle := Bytes.le_of_mem_utf8EncodeChar (Nat.le_of_not_lt hc) hb
      have hspace := hbytes b hb
      simp only [isSpaceByte, Bool.or_eq_true, beq_iff_eq] at hspace
      rcases hspace with ((rfl | rfl) | rfl) | rfl <;> exact absurd hle (by decide)

/-- A text is white space just if its bytes are. -/
theorem forall_isSpace_iff (s : String) :
    (∀ c ∈ s.toList, isSpace c) ↔ ∀ b ∈ Bytes.ofText s, isSpaceByte b := by
  rw [← String.ofList_toList (s := s), Bytes.ofText_ofList, String.toList_ofList]
  simp only [isSpace_iff, List.mem_flatMap]
  constructor
  · rintro h b ⟨c, hc, hb⟩
    exact h c hc b hb
  · intro h c hc b hb
    exact h b ⟨c, hc, hb⟩

/-- Bytes of white space are the form of a text. -/
theorem exists_ofText_of_space {b : Bytes} (h : ∀ x ∈ b, isSpaceByte x) :
    ∃ s, Bytes.ofText s = b := by
  induction b with
  | nil => exact ⟨"", rfl⟩
  | cons x b ih =>
    obtain ⟨hx, hb⟩ := List.forall_mem_cons.1 h
    obtain ⟨s, rfl⟩ := ih hb
    have hchar : ∃ t, Bytes.ofText t = [x] := by
      simp only [isSpaceByte, Bool.or_eq_true, beq_iff_eq] at hx
      rcases hx with ((rfl | rfl) | rfl) | rfl
      exacts [⟨" ", rfl⟩, ⟨"\t", rfl⟩, ⟨"\n", rfl⟩, ⟨"\r", rfl⟩]
    obtain ⟨t, ht⟩ := hchar
    exact ⟨t ++ s, by rw [Bytes.ofText_append, ht, List.singleton_append]⟩

/-- White space opens no brackets, wherever it stands. -/
theorem bracketNesting_append_space {p s : Bytes} (h : ∀ b ∈ s, isSpaceByte b) :
    bracketNesting (p ++ s) = bracketNesting p := by
  have hstep : ∀ (scan : Scan) (b : UInt8), isSpaceByte b →
      (scan.step b).deepest = scan.deepest := by
    intro scan b hb
    have hbracket : ¬ (b = 0x7b ∨ b = 0x5b) := by
      rintro (rfl | rfl) <;> cases hb
    unfold Scan.step
    grind
  have hrun : ∀ scan : Scan, (s.foldl Scan.step scan).deepest = scan.deepest := by
    induction s with
    | nil => exact fun _ => rfl
    | cons b s ih =>
      obtain ⟨hb, hs⟩ := List.forall_mem_cons.1 h
      intro scan
      rw [List.foldl_cons, ih hs, hstep scan b hb]
  rw [bracketNesting, List.foldl_append, hrun, bracketNesting]

end Json

namespace Verbose

variable {o : DecodeOptions} {p s : Bytes} {v w : Value}

/-- The document of a text is the tree that the reader of texts gives, if all of it is readable. -/
theorem document?_ofText_iff {t : String} {j : Json} :
    document? (Bytes.ofText t) = some j ↔ Json.parse none t.toList = .ok j ∧ j.isReadable := by
  rw [document?, Bytes.text?_ofText]
  change ((Json.parse none t.toList).toOption.bind _ = _) ↔ _
  cases Json.parse none t.toList with
  | error e => simp [Except.toOption]
  | ok k =>
    simp only [Except.toOption, Option.bind_some, Option.ite_none_right_eq_some, Option.some.injEq,
      Except.ok.injEq]
    constructor
    · rintro ⟨hk, rfl⟩
      exact ⟨rfl, hk⟩
    · rintro ⟨rfl, hk⟩
      exact ⟨hk, rfl⟩

/-- A value is read from an object. -/
theorem eq_object_of_ofTree {levels : Nat} {j : Json} (h : ofTree o levels j = .ok v) :
    ∃ members, j = .object members := by
  cases levels with
  | zero => cases h
  | succ levels =>
    obtain ⟨members, hmembers, -⟩ := bind_eq_ok.1 h
    exact ⟨members, membersOf_eq_ok.1 hmembers⟩

/-- A payload is the text of an object, without too many brackets. -/
theorem exists_object_of_decode (h : decode o p = .ok v) :
    ∃ t members, Bytes.ofText t = p ∧ Json.parse none t.toList = .ok (.object members) := by
  obtain ⟨j, hj, htree⟩ := exists_tree_of_decode h
  obtain ⟨t, ht, hparse⟩ := parse_of_document? hj
  obtain ⟨members, rfl⟩ := eq_object_of_ofTree htree
  exact ⟨t, members, ht, hparse⟩

/-- What follows a payload is read only if it is white space, and then it makes no difference. -/
theorem decode_append_iff (h : decode o p = .ok v) :
    decode o (p ++ s) = .ok w ↔ (∀ b ∈ s, Json.isSpaceByte b) ∧ w = v := by
  obtain ⟨hbrackets, j, hj, htree⟩ := decode_eq_ok_iff.1 h
  obtain ⟨t, rfl, hparse⟩ := parse_of_document? hj
  obtain ⟨members, rfl⟩ := eq_object_of_ofTree htree
  constructor
  · intro hw
    obtain ⟨k, hk, hwtree⟩ := exists_tree_of_decode hw
    obtain ⟨all, hall, hparseAll⟩ := parse_of_document? hk
    obtain ⟨u, rfl, rfl⟩ := Bytes.exists_ofText_of_append hall.symm
    rw [String.toList_append, Json.parse_append_iff hparse] at hparseAll
    obtain ⟨hspace, rfl⟩ := hparseAll
    exact ⟨(Json.forall_isSpace_iff u).1 hspace, Except.ok.inj (hwtree.symm.trans htree)⟩
  · rintro ⟨hspace, rfl⟩
    obtain ⟨u, rfl⟩ := Json.exists_ofText_of_space hspace
    have hparseAll : Json.parse none (t ++ u).toList = .ok (.object members) := by
      rw [String.toList_append]
      exact (Json.parse_append_iff hparse).2 ⟨(Json.forall_isSpace_iff u).2 hspace, rfl⟩
    have hreadable := (document?_ofText_iff.1 hj).2
    refine decode_eq_ok_iff.2 ⟨?_, _, ?_, htree⟩
    · rwa [Json.bracketNesting_append_space hspace]
    · rw [← Bytes.ofText_append]
      exact document?_ofText_iff.2 ⟨hparseAll, hreadable⟩

/-- A payload that is a payload without its end, too, lacks white space only. -/
theorem isSpaceByte_of_decode_append (h : decode o (p ++ s) = .ok v) (hp : decode o p = .ok w) :
    ∀ b ∈ s, Json.isSpaceByte b := by
  obtain ⟨all, members, hall, hparseAll⟩ := exists_object_of_decode h
  obtain ⟨t, _, rfl, hparse⟩ := exists_object_of_decode hp
  obtain ⟨u, rfl, rfl⟩ := Bytes.exists_ofText_of_append hall.symm
  rw [String.toList_append] at hparseAll
  exact (Json.forall_isSpace_iff u).1 (Json.isSpace_of_parse_append hparse hparseAll)

/-- A payload ends with a brace, white space apart. -/
theorem exists_brace_of_decode (h : decode o p = .ok v) :
    ∃ a z, p = a ++ 0x7d :: z ∧ ∀ b ∈ z, Json.isSpaceByte b := by
  obtain ⟨t, members, rfl, hparse⟩ := exists_object_of_decode h
  obtain ⟨u, w, ht, hspace⟩ := Json.exists_brace_of_parse hparse
  have hparts : t = String.ofList u ++ ("\x7d" ++ String.ofList w) := by
    rw [← String.toList_inj, ht]
    simp
  refine ⟨Bytes.ofText (String.ofList u), Bytes.ofText (String.ofList w), ?_, ?_⟩
  · rw [hparts, Bytes.ofText_append, Bytes.ofText_append]
    rfl
  · refine (Json.forall_isSpace_iff _).1 ?_
    rwa [String.toList_ofList]

end Verbose

namespace Codec

/-- A verbose payload ends with a closing brace, white space apart. With bytes behind it, it is
accepted just if they are white space, and then as the same value. What is left of it when the brace
is cut off is malformed. -/
theorem decodeVerbose_selfDelimiting {o : DecodeOptions} {p : Bytes} {v : Value}
    (h : decodeVerbose o p = .ok v) :
    (∀ s w, decodeVerbose o (p ++ s) = .ok w ↔ (∀ b ∈ s, Json.isSpaceByte b) ∧ w = v) ∧
    (∃ a z, p = a ++ 0x7d :: z ∧ ∀ b ∈ z, Json.isSpaceByte b) ∧
    ∀ q r, p = q ++ r → 0x7d ∈ r →
      ∃ e, decodeVerbose o q = .error e ∧ e.isMalformed ∧ e.encoding = .verbose := by
  have hp := decodeVerbose_eq_ok.1 h
  refine ⟨fun s w => ?_, Verbose.exists_brace_of_decode hp, ?_⟩
  · rw [decodeVerbose_eq_ok]
    exact Verbose.decode_append_iff hp
  · rintro q r rfl hr
    cases hq : Verbose.decode o q with
    | ok w =>
      have hspace := Verbose.isSpaceByte_of_decode_append hp hq _ hr
      cases hspace
    | error fault =>
      refine ⟨.verbose fault, ?_, rfl, rfl⟩
      rw [decodeVerbose, hq]

/-- A text that holds a brace and a quote mark: with a tab behind the payload, with a comma behind
it, and cut off inside of the text. -/
theorem decodeVerbose_selfDelimiting_text :
    let p := Bytes.ofText " \x7b\"value\":\"\x7d\\\"é\",\"type\":\"String\"\x7d\n"
    let v : Value := .text "\x7d\"é"
    decodeVerbose .strict p = .ok v ∧ decodeVerbose .strict (p ++ [0x09]) = .ok v ∧
      (∀ w, decodeVerbose .strict (p ++ [0x2c]) ≠ .ok w) ∧
      ∃ e, decodeVerbose .strict (p.take 13) = .error e ∧ e.isMalformed ∧
        e.encoding = .verbose := by
  intro p v
  have hj : Verbose.document? p =
      some (.object [("value", .text "\x7d\"é"), ("type", .text "String")]) :=
    Verbose.document?_ofText_iff.2 ⟨rfl, rfl⟩
  have hp : decodeVerbose .strict p = .ok v :=
    decodeVerbose_eq_ok.2 (Verbose.decode_eq_ok_iff.2 ⟨by decide +kernel, _, hj, rfl⟩)
  obtain ⟨happend, -, hcut⟩ := decodeVerbose_selfDelimiting hp
  refine ⟨hp, (happend _ _).2 ⟨List.forall_mem_singleton.2 rfl, rfl⟩, fun w hw => ?_, ?_⟩
  · exact absurd ((happend _ _).1 hw).1 (by decide)
  · exact hcut (p.take 13) (p.drop 13) (List.take_append_drop 13 p).symm (by decide +kernel)

end Codec

end LedgerFeed

import LedgerFeed.Json.Nesting
import LedgerFeed.Proofs.Json.Ending
import LedgerFeed.Proofs.Json.RoundTrip
import LedgerFeed.Proofs.Json.Spelling
import LedgerFeed.Proofs.Text.Utf8

/-!
# Brackets in a text

The scan for brackets keeps in step with the lexer, which it knows nothing of: it passes over what
stands in text literals, and outside of them it counts the brackets that are tokens
(`through_run`). So in a document it counts the arrays and objects that are open at once
(`bracketNesting_of_tree`).
-/

namespace LedgerFeed.Json

/-! ## Brackets among tokens -/

/-- How many brackets are open, and how many have been open at once. -/
structure Depth where
  opened : Nat
  deepest : Nat
  opened_le : opened ≤ deepest

namespace Depth

/-- Before the first token. -/
def start : Depth :=
  ⟨0, 0, Nat.le_refl 0⟩

/-- One more bracket is open. -/
def down (d : Depth) : Depth :=
  ⟨d.opened + 1, max d.deepest (d.opened + 1), Nat.le_max_right _ _⟩

/-- One bracket less is open, if there was one. -/
def up (d : Depth) : Depth :=
  ⟨d.opened - 1, d.deepest, Nat.le_trans (Nat.sub_le _ _) d.opened_le⟩

/-- The depth behind one more token. -/
def take (d : Depth) : Token → Depth
  | .openArray | .openObject => d.down
  | .closeArray | .closeObject => d.up
  | _ => d

/-- So many brackets more have been open, and are closed again. -/
def reach (d : Depth) (n : Nat) : Depth :=
  ⟨d.opened, max d.deepest (d.opened + n), Nat.le_trans d.opened_le (Nat.le_max_left _ _)⟩

/-- A depth is determined by what is open and what has been. -/
theorem eq_of {d e : Depth} (hopened : d.opened = e.opened) (hdeepest : d.deepest = e.deepest) :
    d = e := by
  cases d
  cases e
  cases hopened
  cases hdeepest
  rfl

/-- To reach no deeper changes nothing. -/
theorem reach_zero (d : Depth) : d.reach 0 = d :=
  eq_of rfl (Nat.max_eq_left d.opened_le)

/-- To reach twice is to reach the deeper of the two. -/
theorem reach_reach (d : Depth) (m n : Nat) : (d.reach m).reach n = d.reach (max m n) :=
  eq_of rfl (by simp only [reach]; omega)

/-- What is open in front of a bracket is open behind the one that closes it. -/
theorem up_reach_down (d : Depth) (n : Nat) : (d.down.reach n).up = d.reach (n + 1) :=
  eq_of rfl (by simp only [reach, down, up]; omega)

/-- A token does not undo how deep it has been. -/
theorem deepest_le_take (d : Depth) (t : Token) : d.deepest ≤ (d.take t).deepest := by
  cases t with
  | openArray | openObject => exact Nat.le_max_left _ _
  | _ => exact Nat.le_refl _

/-- Tokens do not undo how deep it has been. -/
theorem deepest_le_foldl (d : Depth) (ts : List Token) :
    d.deepest ≤ (ts.foldl take d).deepest := by
  induction ts generalizing d with
  | nil => exact Nat.le_refl _
  | cons t ts ih => exact Nat.le_trans (d.deepest_le_take t) (ih _)

end Depth

mutual

/-- Over the tokens of a tree, as many brackets are open at once as the tree opens. -/
theorem Grammar.Tree.foldl_take {ts rest : List Token} {j : Json} {n : Nat} (d : Depth) :
    Grammar.Tree ts j n rest → ts.foldl Depth.take d = rest.foldl Depth.take (d.reach n)
  | .scalar | .text => by rw [Depth.reach_zero]; rfl
  | .emptyArray | .emptyObject => by
    rw [← Nat.zero_add 1, ← Depth.up_reach_down, Depth.reach_zero]
    rfl
  | .array h => by
    rw [← Depth.up_reach_down]
    exact h.foldl_take d.down
  | .object h => by
    rw [← Depth.up_reach_down]
    exact h.foldl_take d.down

/-- The tokens of items close the array, at whose depth they have reached as deep as they nest. -/
theorem Grammar.Items.foldl_take {ts rest : List Token} {items : List Json} {n : Nat} (d : Depth) :
    Grammar.Items ts items n rest → ts.foldl Depth.take d = rest.foldl Depth.take (d.reach n).up
  | .last _ h => h.foldl_take d
  | .more _ h hmore => by
    rw [← Depth.reach_reach]
    exact (h.foldl_take d).trans (hmore.foldl_take _)

/-- The tokens of members close the object, at whose depth they have reached as deep as they nest.
-/
theorem Grammar.Members.foldl_take {ts rest : List Token} {members : List (Option String × Json)}
    {n : Nat} (d : Depth) :
    Grammar.Members ts members n rest → ts.foldl Depth.take d = rest.foldl Depth.take (d.reach n).up
  | .last _ _ h => h.foldl_take d
  | .more _ _ h hmore => by
    rw [← Depth.reach_reach]
    exact (h.foldl_take d).trans (hmore.foldl_take _)

end

/-! ## Brackets among characters -/

/-- The scan behind characters that have brought it to a depth. -/
def Scan.at (d : Depth) : Quoting → Scan
  | .outside => ⟨d.opened, d.deepest, false, false⟩
  | .inside => ⟨d.opened, d.deepest, true, false⟩
  | .escaped => ⟨d.opened, d.deepest, true, true⟩

/-- The scan after the UTF-8 form of characters. -/
def Scan.through (s : Scan) (cs : List Char) : Scan :=
  (cs.flatMap String.utf8EncodeChar).foldl Scan.step s

section
variable {s : Scan} {d : Depth} {c : Char}

/-- The scan goes through a text character by character. -/
theorem Scan.through_cons (c : Char) (cs : List Char) :
    s.through (c :: cs) = (s.through [c]).through cs := by
  simp [through]

/-- No byte of a character is that of another character below U+0080. -/
theorem ne_of_mem_utf8EncodeChar {c a : Char} (ha : a.toNat < 0x80) (h : c ≠ a) {b : UInt8}
    (hb : b ∈ String.utf8EncodeChar c) : b ≠ UInt8.ofNat a.toNat := by
  have htoNat : (UInt8.ofNat a.toNat).toNat = a.toNat :=
    UInt8.toNat_ofNat_of_lt' (Nat.lt_of_lt_of_le ha (by decide))
  intro he
  by_cases hc : c.toNat < 0x80
  · rw [Bytes.utf8EncodeChar_ascii hc, List.mem_singleton] at hb
    have hcNat : (UInt8.ofNat c.toNat).toNat = c.toNat :=
      UInt8.toNat_ofNat_of_lt' (Nat.lt_of_lt_of_le hc (by decide))
    exact h (Char.toNat_inj.1 (by rw [← hcNat, ← hb, he, htoNat]))
  · have hle := UInt8.le_iff_toNat_le.1 (Bytes.le_of_mem_utf8EncodeChar (Nat.not_lt.1 hc) hb)
    rw [he, htoNat] at hle
    exact absurd ha (Nat.not_lt.2 hle)

/-- Bytes that do not change a scan are passed over. -/
theorem foldl_step_eq {bytes : Bytes} (h : ∀ b ∈ bytes, s.step b = s) :
    bytes.foldl Scan.step s = s := by
  induction bytes with
  | nil => rfl
  | cons b bytes ih =>
    obtain ⟨hb, hbytes⟩ := List.forall_mem_cons.1 h
    rw [List.foldl_cons, hb, ih hbytes]

/-- The characters that a scan does not pass over outside of texts. -/
def scanned : List Char :=
  ['"', '\x7b', '[', '\x7d', ']']

/-- Outside of texts, only quote marks and brackets matter. -/
theorem Scan.through_plain (h : c ∉ scanned) :
    (Scan.at d .outside).through [c] = Scan.at d .outside := by
  simp only [scanned, List.mem_cons, List.not_mem_nil, or_false, not_or] at h
  obtain ⟨hquote, hbrace, hbracket, hclose, hend⟩ := h
  rw [through, List.flatMap_singleton]
  refine foldl_step_eq ?_
  intro b hb
  have h1 : b ≠ 0x22 := ne_of_mem_utf8EncodeChar (a := '"') (by decide) hquote hb
  have h2 : b ≠ 0x7b := ne_of_mem_utf8EncodeChar (a := '\x7b') (by decide) hbrace hb
  have h3 : b ≠ 0x5b := ne_of_mem_utf8EncodeChar (a := '[') (by decide) hbracket hb
  have h4 : b ≠ 0x7d := ne_of_mem_utf8EncodeChar (a := '\x7d') (by decide) hclose hb
  have h5 : b ≠ 0x5d := ne_of_mem_utf8EncodeChar (a := ']') (by decide) hend hb
  simp [step, Scan.at, h1, h2, h3, h4, h5]

/-- Inside of texts, only quote marks and backslashes matter. -/
theorem Scan.through_in_text (hquote : c ≠ '"') (hslash : c ≠ '\\') :
    (Scan.at d .inside).through [c] = Scan.at d .inside := by
  rw [through, List.flatMap_singleton]
  refine foldl_step_eq ?_
  intro b hb
  have h1 : b ≠ 0x22 := ne_of_mem_utf8EncodeChar (a := '"') (by decide) hquote hb
  have h2 : b ≠ 0x5c := ne_of_mem_utf8EncodeChar (a := '\\') (by decide) hslash hb
  simp [step, Scan.at, h1, h2]

end

/-! ## The lexer and the scan -/

namespace Lexer

variable {lexer next : Lexer} {made ts : List Token} {c : Char} {s : List Char} {d : Depth}

/-- The scan passes over what is left of a word. -/
def WordPlain : Lexer → Prop
  | .word rest _ => ∀ c ∈ rest, c ∉ scanned
  | _ => True

/-- The scan at a lexer keeps in step with it over a character that brings it to the next. -/
structure InStep (d : Depth) (q : Quoting) (c : Char) (next : Lexer) (made : List Token) :
    Prop where
  wordPlain : next.WordPlain
  through : (Scan.at d q).through [c] = Scan.at (made.foldl Depth.take d) next.quoting

/-- A character between tokens keeps the scan and the lexer in step. -/
theorem inStep_of_start (h : start c = some (next, made)) : InStep d .outside c next made := by
  unfold start at h
  split at h
  · next hspace =>
    cases h
    refine ⟨trivial, Scan.through_plain fun hc => ?_⟩
    simp only [scanned, List.mem_cons, List.not_mem_nil, or_false] at hc
    rcases hc with rfl | rfl | rfl | rfl | rfl <;> cases hspace
  split at h
  case h_12 =>
    split at h
    · cases h
    · next n hn =>
      cases h
      refine ⟨trivial, Scan.through_plain fun hc => ?_⟩
      simp only [scanned, List.mem_cons, List.not_mem_nil, or_false] at hc
      rcases hc with rfl | rfl | rfl | rfl | rfl <;> cases hn
  all_goals
    cases h
    exact ⟨by simp [WordPlain, scanned], rfl⟩

/-- No quote mark or bracket goes on with a number. -/
theorem notMem_scanned_of_continueNumber {part : NumberPart} {l : Literal}
    {r : NumberPart × Literal} (h : continueNumber part l c = some r) : c ∉ scanned := by
  intro hc
  simp only [scanned, List.mem_cons, List.not_mem_nil, or_false] at hc
  rcases hc with rfl | rfl | rfl | rfl | rfl <;> cases part <;> cases h

/-- Over each character that the lexer takes, the scan keeps in step with it. -/
theorem inStep_of_step (hlexer : lexer.WordPlain) (h : lexer.step c = some (next, made)) :
    InStep d lexer.quoting c next made := by
  cases lexer with
  | between => exact inStep_of_start h
  | word rest value =>
    cases rest with
    | nil => cases h
    | cons e rest =>
      obtain ⟨he, hrest⟩ := List.forall_mem_cons.1 hlexer
      rw [step] at h
      split at h
      · next hc =>
        subst hc
        split at h <;> cases h
        · exact ⟨trivial, Scan.through_plain he⟩
        · exact ⟨hrest, Scan.through_plain he⟩
      · cases h
  | text read =>
    rw [step] at h
    split_ifs at h with hquote hslash
    · cases h
      exact ⟨trivial, hquote ▸ rfl⟩
    · cases h
      exact ⟨trivial, hslash ▸ rfl⟩
    · cases h
      exact ⟨trivial, Scan.through_in_text hquote hslash⟩
  | escape read =>
    rw [step] at h
    split at h
    · next hu =>
      cases h
      exact ⟨trivial, hu ▸ rfl⟩
    · obtain ⟨e, he, hnext⟩ := Option.map_eq_some_iff.1 h
      cases hnext
      refine ⟨trivial, ?_⟩
      unfold escaped? at he
      split at he <;> first | rfl | cases he
  | unit read missing value =>
    obtain ⟨n, hn, hnext⟩ := Option.map_eq_some_iff.1 h
    have hquote : c ≠ '"' := by
      rintro rfl
      cases hn
    have hslash : c ≠ '\\' := by
      rintro rfl
      cases hn
    split at hnext <;> cases hnext <;> exact ⟨trivial, Scan.through_in_text hquote hslash⟩
  | number part l =>
    rcases step_number_cases h with ⟨_, _, hgoes, rfl, rfl⟩ | ⟨-, more, hstart, rfl⟩
    · exact ⟨trivial, Scan.through_plain (notMem_scanned_of_continueNumber hgoes)⟩
    · have hnext := inStep_of_start (d := d) hstart
      exact ⟨hnext.wordPlain, hnext.through⟩

/-- Behind a text that the lexer takes, the scan is where the lexer is, at the depth of the
tokens. -/
theorem through_run (hlexer : lexer.WordPlain) (h : lexer.run s = some (next, made)) :
    (Scan.at d lexer.quoting).through s = Scan.at (made.foldl Depth.take d) next.quoting := by
  induction s generalizing lexer made d with
  | nil =>
    cases h
    rfl
  | cons c s ih =>
    obtain ⟨mid, made, more, hstep, hrun, rfl⟩ := run_cons_eq_some_iff.1 h
    obtain ⟨hmid, hthrough⟩ := inStep_of_step hlexer hstep
    rw [Scan.through_cons, hthrough, ih hmid hrun, List.foldl_append]

/-- The end of a text completes no bracket. -/
theorem foldl_take_finish (h : lexer.finish = some made) : made.foldl Depth.take d = d := by
  rcases finish_cases h with ⟨-, rfl⟩ | ⟨_, _, -, rfl⟩ <;> rfl

/-- The scan goes as deep in a text as its tokens do. -/
theorem bracketNesting_of_tokens? (h : Lexer.between.tokens? s = some ts) :
    bracketNesting (Bytes.ofText (String.ofList s)) = (ts.foldl Depth.take .start).deepest := by
  obtain ⟨next, made, more, hrun, hfinish, rfl⟩ := tokens?_eq_some_iff.1 h
  have hthrough : (Scan.at .start between.quoting).through s =
      Scan.at (made.foldl Depth.take .start) next.quoting := through_run trivial hrun
  rw [List.foldl_append, foldl_take_finish hfinish, Bytes.ofText_ofList]
  exact (congrArg Scan.deepest hthrough).trans (by cases next.quoting <;> rfl)

end Lexer

/-- In a document, the scan counts the arrays and objects that are open at once. -/
theorem bracketNesting_of_tree {s : List Char} {ts : List Token} {j : Json} {n : Nat}
    (hts : Lexer.between.tokens? s = some ts) (h : Grammar.Tree ts j n []) :
    bracketNesting (Bytes.ofText (String.ofList s)) = n := by
  rw [Lexer.bracketNesting_of_tokens? hts, h.foldl_take]
  exact (Nat.zero_max _).trans (Nat.zero_add n)

/-- The brackets in the text of a tree are those of the tree. -/
theorem bracketNesting_toText {j : Json} (hj : j.IsWritable) :
    bracketNesting (Bytes.ofText j.toText) = j.nesting :=
  bracketNesting_of_tree (tokens?_render_eq hj) (tree_tokens hj)

/-- The text of a tree is read just if no more is open at once in the tree than may be. -/
theorem parse_render_eq_ok_iff {limit : Option Nat} {j k : Json} (hj : j.IsWritable) :
    parse limit (render j) = .ok k ↔ k = j ∧ Fits limit j.nesting := by
  constructor
  · intro h
    obtain ⟨ts, hts, hpush⟩ := parse_eq_ok_iff.1 h
    obtain ⟨n, htree, hfits⟩ := pushAll_eq_ok_iff.1 hpush
    -- the tokens are those of one tree, whatever may be open at once
    have hk : parse none (render j) = .ok k :=
      parse_eq_ok_iff.2 ⟨ts, hts, pushAll_eq_ok_iff.2 ⟨n, htree, fits_none n⟩⟩
    have hn := (bracketNesting_of_tree hts htree).symm.trans (bracketNesting_toText hj)
    rw [parse_render hj (fits_none _)] at hk
    exact ⟨(Except.ok.inj hk).symm, hn ▸ hfits⟩
  · rintro ⟨rfl, hfits⟩
    exact parse_render hj hfits

end LedgerFeed.Json

import Mathlib.Tactic.IntervalCases
import LedgerFeed.Proofs.Json.Numeral
import LedgerFeed.Proofs.Json.Spacing

/-!
# The spelling of tokens

Which characters a token is written with, and a text as tokens with white space between them
(`Cut`), apart from the lexer: it gives out just these tokens, unless two scalars stand side by side
(`tokens?_eq_some_iff_cut`).
-/

namespace LedgerFeed.Json

/-! ## Spelling -/

/-- The marks that are tokens by themselves. -/
def marks : List (Char × Token) :=
  [('[', .openArray), (']', .closeArray), ('\x7b', .openObject), ('\x7d', .closeObject),
    (',', .comma), (':', .colon)]

/-- The words, and what they stand for. -/
def words : List (List Char × Json) :=
  [(['n', 'u', 'l', 'l'], .null), (['t', 'r', 'u', 'e'], .bool true),
    (['f', 'a', 'l', 's', 'e'], .bool false)]

/-- The characters that a piece of a text literal is written with: a character stands for itself
unless it is a quote mark, a backslash or a control character. -/
inductive PieceSpelling : List Char → Piece → Prop
  | char {c : Char} : c ≠ '"' → c ≠ '\\' → 0x20 ≤ c.toNat → PieceSpelling [c] (.char c)
  | escape {c d : Char} : escaped? c = some d → PieceSpelling ['\\', c] (.char d)
  | unit {digits : List Char} {values : List Nat} : digits.length = 4 →
    digits.mapM hexDigit? = some values →
      PieceSpelling ('\\' :: 'u' :: digits) (.unit (values.foldl (16 * · + ·) 0))

/-- The characters between the quote marks of a text literal. -/
inductive PiecesSpelling : List Char → List Piece → Prop
  | nil : PiecesSpelling [] []
  | cons {u v : List Char} {p : Piece} {ps : List Piece} :
    PieceSpelling u p → PiecesSpelling v ps → PiecesSpelling (u ++ v) (p :: ps)

/-- The characters that a token is written with. -/
inductive Spelling : List Char → Token → Prop
  | mark {c : Char} {t : Token} : (c, t) ∈ marks → Spelling [c] t
  | word {s : List Char} {j : Json} : (s, j) ∈ words → Spelling s (.scalar j)
  | text {s : List Char} {ps : List Piece} :
    PiecesSpelling s ps → Spelling ('"' :: s ++ ['"']) (.text (textOf ps))
  | number {s : List Char} {l : Literal} : NumberSpelling s l → Spelling s (.scalar l.toJson)

/-- The text is made of the tokens, with white space before, between and behind them. -/
inductive Cut : List Char → List Token → Prop
  | done : Cut [] []
  | space {c : Char} {s : List Char} {ts : List Token} : isSpace c → Cut s ts → Cut (c :: s) ts
  | token {u s : List Char} {t : Token} {ts : List Token} :
    Spelling u t → Cut s ts → Cut (u ++ s) (t :: ts)

/-- A number opens no array or object. -/
theorem Literal.nesting_toJson (l : Literal) : l.toJson.nesting = 0 := by
  unfold Literal.toJson
  split
  · dsimp only
    split <;> rfl
  · cases l.toReal <;> rfl

/-- No scalar that is spelled holds an array or an object. -/
theorem Cut.nesting_scalar {s : List Char} {ts : List Token} (h : Cut s ts) :
    ∀ j, .scalar j ∈ ts → j.nesting = 0 := by
  induction h with
  | done => exact fun _ hj => absurd hj List.not_mem_nil
  | space _ _ ih => exact ih
  | token ht _ ih =>
    intro j hj
    rcases List.mem_cons.1 hj with rfl | hj
    · cases ht with
      | mark hmark => simp [marks] at hmark
      | word hword =>
        simp only [words, List.mem_cons, Prod.mk.injEq, List.not_mem_nil, or_false] at hword
        rcases hword with ⟨-, rfl⟩ | ⟨-, rfl⟩ | ⟨-, rfl⟩ <;> rfl
      | number => exact Literal.nesting_toJson _
    · exact ih j hj

/-! ## Spelled tokens are given out -/

/-- A mark ends numbers and is a token by itself. -/
theorem eq_mark {c : Char} {t : Token} (h : (c, t) ∈ marks) :
    EndsNumber c ∧ Lexer.start c = some (.between, [t]) := by
  simp only [marks, List.mem_cons, Prod.mk.injEq, List.not_mem_nil, or_false] at h
  rcases h with ⟨rfl, rfl⟩ | ⟨rfl, rfl⟩ | ⟨rfl, rfl⟩ | ⟨rfl, rfl⟩ | ⟨rfl, rfl⟩ | ⟨rfl, rfl⟩
  all_goals exact ⟨by simp [EndsNumber, decimalDigit?], rfl⟩

/-- White space ends numbers. -/
theorem endsNumber_space {c : Char} (h : isSpace c) : EndsNumber c := by
  simp only [isSpace, Bool.or_eq_true, beq_iff_eq] at h
  rcases h with ((rfl | rfl) | rfl) | rfl <;> simp [EndsNumber, decimalDigit?]

/-- A number ends in front of any token but a scalar. -/
theorem Cut.delimited {s : List Char} {ts : List Token} (h : Cut s ts)
    (hts : ∀ t ∈ ts.head?, t.isScalar = false) : Delimited s := by
  cases h with
  | done => exact fun _ h => nomatch h
  | space hc => exact delimited_cons (endsNumber_space hc) _
  | token ht =>
    cases ht with
    | mark hmark => exact delimited_cons (eq_mark hmark).1 _
    | text => exact delimited_cons (by simp [EndsNumber, decimalDigit?]) _
    | word | number => cases hts _ rfl

namespace Lexer

variable {read : List Piece} {u s : List Char} {p : Piece} {ps : List Piece} {t : Token}
  {ts : List Token}

/-- The digits of an escaped unit are read into its value. -/
theorem tokens?_digits {digits : List Char} {values : List Nat} {missing value : Nat}
    (hlength : digits.length = missing + 1) (h : digits.mapM hexDigit? = some values)
    (s : List Char) :
    (Lexer.unit read (missing + 1) value).tokens? (digits ++ s) =
      (Lexer.text (.unit (values.foldl (16 * · + ·) value) :: read)).tokens? s := by
  induction digits generalizing missing value values with
  | nil => cases hlength
  | cons c digits ih =>
    simp only [List.mapM_cons, Option.bind_eq_bind, Option.bind_eq_some_iff] at h
    obtain ⟨n, hn, rest, hrest, hvalues⟩ := h
    cases hvalues
    cases missing with
    | zero =>
      obtain rfl := List.length_eq_zero_iff.1 (Nat.succ.inj hlength)
      cases hrest
      exact tokens?_last_unit s hn
    | succ missing =>
      rw [List.cons_append, tokens?_unit _ hn (by omega)]
      exact ih (Nat.succ.inj hlength) hrest

/-- A piece of a text literal is read from its spelling. -/
theorem tokens?_piece (h : PieceSpelling u p) (s : List Char) :
    (Lexer.text read).tokens? (u ++ s) = (Lexer.text (p :: read)).tokens? s := by
  cases h with
  | char hquote hslash hcontrol =>
    refine tokens?_cons_silent ?_ s
    rw [step, if_neg hquote, if_neg hslash, if_neg (Nat.not_lt.2 hcontrol)]
  | escape hd =>
    refine tokens?_escaped s ?_ hd
    rintro rfl
    cases hd
  | unit hlength hvalues =>
    rw [List.cons_append, List.cons_append, tokens?_cons_silent rfl, tokens?_cons_silent rfl]
    exact tokens?_digits hlength hvalues s

/-- The pieces of a text literal are read from their spellings, in order. -/
theorem tokens?_pieces (h : PiecesSpelling u ps) (s : List Char) :
    (Lexer.text read).tokens? (u ++ s) = (Lexer.text (ps.reverse ++ read)).tokens? s := by
  induction h generalizing read with
  | nil => rfl
  | cons hp _ ih =>
    rw [List.append_assoc, tokens?_piece hp, ih, List.reverse_cons, List.append_assoc]
    rfl

/-- A number that comes to its end is given out where no character goes on with it. -/
theorem tokens?_ends {part : NumberPart} {l m : Literal} (h : part.Ends l u m) (hs : Delimited s) :
    (Lexer.number part l).tokens? (u ++ s) =
      (Lexer.between.tokens? s).map (.scalar m.toJson :: ·) := by
  induction u generalizing part l with
  | nil =>
    obtain ⟨hpart, rfl⟩ := h
    exact tokens?_end hpart m hs
  | cons c u ih =>
    obtain ⟨next, k, hc, hu⟩ := h
    have hstep : (Lexer.number part l).step c = some (.number next k, []) := by rw [step, hc]
    rw [List.cons_append, tokens?_cons_silent hstep, ih hu]

/-- The first digit of a number without sign is read as one behind a sign is. -/
theorem start_of_continueNumber {c : Char} {part : NumberPart} {l : Literal}
    (h : continueNumber .sign ⟨false, [], none, none⟩ c = some (part, l)) :
    start c = some (.number part l, []) := by
  obtain ⟨d, hd, hstart⟩ := Option.bind_eq_some_iff.1 h
  have hc : c = Char.ofNat c.toNat := (Char.ofNat_toNat c).symm
  unfold decimalDigit? at hd
  split at hd
  · next hdigit =>
    have hlo : 48 ≤ c.toNat := hdigit.1
    have hhi : c.toNat ≤ 57 := hdigit.2
    cases hd
    cases hstart
    generalize c.toNat = n at hc hlo hhi
    subst hc
    interval_cases n <;> rfl
  · cases hd

/-- A number is cut off as one scalar from its spelling, before what ends a number. -/
theorem tokens?_number_spelling {l : Literal} (h : NumberSpelling u l) (hs : Delimited s) :
    Lexer.between.tokens? (u ++ s) = (Lexer.between.tokens? s).map (.scalar l.toJson :: ·) := by
  cases h with
  | negative hmagnitude =>
    rw [List.cons_append, tokens?_cons_silent rfl]
    exact tokens?_ends hmagnitude.ends hs
  | unsigned hmagnitude =>
    have hends := hmagnitude.ends
    cases u with
    | nil => cases hends.1
    | cons c u =>
      obtain ⟨next, k, hc, hu⟩ := hends
      have hstep : Lexer.between.step c = some (.number next k, []) := start_of_continueNumber hc
      rw [List.cons_append, tokens?_cons_silent hstep]
      exact tokens?_ends hu hs

/-- A token is given out where its characters stand, if what follows does not go on with it. -/
theorem tokens?_spelling (h : Spelling u t) (hs : t.isScalar → Delimited s) :
    Lexer.between.tokens? (u ++ s) = (Lexer.between.tokens? s).map (t :: ·) := by
  cases h with
  | mark hmark =>
    have hstep : Lexer.between.step _ = some (.between, [t]) := (eq_mark hmark).2
    exact tokens?_cons hstep s
  | word hword =>
    simp only [words, List.mem_cons, Prod.mk.injEq, List.not_mem_nil, or_false] at hword
    rcases hword with ⟨rfl, rfl⟩ | ⟨rfl, rfl⟩ | ⟨rfl, rfl⟩
    · exact tokens?_null s
    · exact tokens?_true s
    · exact tokens?_false s
  | @text _ ps hpieces =>
    rw [List.cons_append, List.cons_append, tokens?_cons_silent rfl, List.append_assoc,
      tokens?_pieces hpieces, List.append_nil]
    have hquote : (Lexer.text ps.reverse).step '"' =
        some (.between, [.text (textOf ps)]) := by rw [step, if_pos rfl, List.reverse_reverse]
    exact tokens?_cons hquote s
  | number hnumber => exact tokens?_number_spelling hnumber (hs rfl)

/-- A text that is cut into tokens gives these tokens, if no scalars stand side by side. -/
theorem tokens?_of_cut (h : Cut s ts) (hts : Apart ts) : Lexer.between.tokens? s = some ts := by
  induction h with
  | done => rfl
  | space hc _ ih =>
    have hstart : Lexer.between.step _ = some (.between, []) := if_pos hc
    rw [tokens?_cons_silent hstart, ih hts]
  | token ht hrest ih =>
    obtain ⟨hhead, htail⟩ := List.isChain_cons.1 hts
    rw [tokens?_spelling ht fun hscalar => hrest.delimited fun t ht => hhead t ht hscalar,
      ih htail]
    rfl

/-! ## Tokens that are given out are spelled -/

/-- The text goes on with the rest of a text literal of which some pieces have been read. -/
def GoesOnWithText (read : List Piece) (s : List Char) (ts : List Token) : Prop :=
  ∃ u ps rest more, PiecesSpelling u ps ∧ s = u ++ '"' :: rest ∧
    ts = .text (textOf (read.reverse ++ ps)) :: more ∧ Cut rest more

/-- A text literal goes on with a piece and then with what follows it. -/
theorem goesOnWithText_of_piece (hp : PieceSpelling u p) (h : GoesOnWithText (p :: read) s ts) :
    GoesOnWithText read (u ++ s) ts := by
  obtain ⟨v, ps, rest, more, hv, rfl, rfl, hmore⟩ := h
  refine ⟨u ++ v, p :: ps, rest, more, .cons hp hv, (List.append_assoc _ _ _).symm, ?_, hmore⟩
  rw [List.reverse_cons, List.append_assoc]
  rfl

/-- What a text goes on with when a lexer has read some of a token and gives out these tokens. -/
def GoesOn : Lexer → List Char → List Token → Prop
  | .between, s, ts => Cut s ts
  | .word letters value, s, ts =>
    ∃ rest more, s = letters ++ rest ∧ ts = .scalar value :: more ∧ Cut rest more
  | .text read, s, ts => GoesOnWithText read s ts
  | .escape read, s, ts =>
    ∃ u p rest, PieceSpelling ('\\' :: u) p ∧ s = u ++ rest ∧ GoesOnWithText (p :: read) rest ts
  | .unit read missing value, s, ts =>
    ∃ digits values rest, digits.length = max 1 missing ∧
      digits.mapM hexDigit? = some values ∧ s = digits ++ rest ∧
      GoesOnWithText (.unit (values.foldl (16 * · + ·) value) :: read) rest ts
  | .number part l, s, ts =>
    ∃ u m rest more, part.Ends l u m ∧ s = u ++ rest ∧ ts = .scalar m.toJson :: more ∧
      Cut rest more

/-- A text whose first character starts something is cut as that token goes on. -/
theorem goesOn_of_start {c : Char} {next : Lexer} {made : List Token}
    (h : start c = some (next, made)) (hs : next.GoesOn s ts) : Cut (c :: s) (made ++ ts) := by
  have hmark : ∀ {t}, (c, t) ∈ marks → Cut s ts → Cut (c :: s) (t :: ts) :=
    fun ht hs => .token (.mark ht) hs
  have hword : ∀ {letters j}, (c :: letters, j) ∈ words → (Lexer.word letters j).GoesOn s ts →
      Cut (c :: s) ts := by
    rintro letters j hj ⟨rest, more, rfl, rfl, hmore⟩
    exact .token (.word hj) hmore
  unfold start at h
  split at h
  · next hspace =>
    cases h
    exact .space hspace hs
  split at h
  case h_7 =>
    cases h
    obtain ⟨u, ps, rest, more, hu, rfl, rfl, hcut⟩ := hs
    have htext := Cut.token (.text hu) hcut
    rwa [List.append_assoc, List.cons_append] at htext
  case h_8 | h_9 | h_10 =>
    cases h
    exact hword (by simp [words]) hs
  case h_11 =>
    cases h
    obtain ⟨u, l, rest, more, hu, rfl, rfl, hcut⟩ := hs
    exact .token (.number (.negative (magnitudeSpelling_iff.2 hu))) hcut
  case h_12 =>
    split at h
    · cases h
    · next d hd =>
      cases h
      obtain ⟨u, l, rest, more, hu, rfl, rfl, hcut⟩ := hs
      have hends : NumberPart.sign.Ends ⟨false, [], none, none⟩ (c :: u) l :=
        (ends_cons (continueNumber_first hd)).2 hu
      exact .token (.number (.unsigned (magnitudeSpelling_iff.2 hends))) hcut
  all_goals
    cases h
    exact hmark (by simp [marks]) hs

/-- What a text goes on with behind a character, it goes on with from the character on. -/
theorem goesOn_of_step {lexer next : Lexer} {c : Char} {made : List Token}
    (h : lexer.step c = some (next, made)) (hs : next.GoesOn s ts) :
    lexer.GoesOn (c :: s) (made ++ ts) := by
  cases lexer with
  | between => exact goesOn_of_start h hs
  | word letters value =>
    cases letters with
    | nil => cases h
    | cons d letters =>
      rw [step] at h
      split at h
      · next hc =>
        split at h
        · next hletters =>
          cases h
          exact ⟨s, ts, by rw [hc, hletters]; rfl, rfl, hs⟩
        · cases h
          obtain ⟨rest, more, rfl, rfl, hcut⟩ := hs
          exact ⟨rest, more, by rw [hc]; rfl, rfl, hcut⟩
      · cases h
  | text read =>
    rw [step] at h
    split_ifs at h with hquote hslash hcontrol
    · cases h
      exact ⟨[], [], s, ts, .nil, by rw [hquote]; rfl, by rw [List.append_nil]; rfl, hs⟩
    · cases h
      obtain ⟨u, p, rest, hp, rfl, hrest⟩ := hs
      rw [hslash]
      exact goesOnWithText_of_piece hp hrest
    · cases h
      exact goesOnWithText_of_piece (.char hquote hslash (Nat.not_lt.1 hcontrol)) hs
  | escape read =>
    rw [step] at h
    split at h
    · next hu =>
      cases h
      obtain ⟨digits, values, rest, hlength, hvalues, rfl, hrest⟩ := hs
      exact ⟨c :: digits, _, rest, hu ▸ .unit hlength hvalues, rfl, hrest⟩
    · obtain ⟨d, hd, hchar⟩ := Option.map_eq_some_iff.1 h
      cases hchar
      exact ⟨[c], .char d, s, .escape hd, rfl, hs⟩
  | unit read missing value =>
    obtain ⟨d, hd, hchar⟩ := Option.map_eq_some_iff.1 h
    split at hchar
    · next hlast =>
      cases hchar
      exact ⟨[c], [d], s, by simp; omega, by simp [hd], rfl, hs⟩
    · next hmissing =>
      cases hchar
      obtain ⟨digits, values, rest, hlength, hvalues, rfl, hrest⟩ := hs
      refine ⟨c :: digits, d :: values, rest, ?_, ?_, rfl, hrest⟩
      · rw [List.length_cons, hlength]
        omega
      · simp [hd, hvalues]
  | number part l =>
    rcases step_number_cases h with ⟨part', l', hgoes, rfl, rfl⟩ | ⟨hend, more', hstart, rfl⟩
    · obtain ⟨u, m, rest, more, hu, rfl, rfl, hcut⟩ := hs
      exact ⟨c :: u, m, rest, more, ⟨part', l', hgoes, hu⟩, rfl, rfl, hcut⟩
    · exact ⟨[], l, c :: s, more' ++ ts, ⟨hend, rfl⟩, rfl, rfl, goesOn_of_start hstart hs⟩

/-- At the end of a text, nothing is left of the last token. -/
theorem goesOn_of_finish {lexer : Lexer} (h : lexer.finish = some ts) : lexer.GoesOn [] ts := by
  cases lexer with
  | between =>
    cases h
    exact .done
  | number part l =>
    rw [finish] at h
    split at h
    · next hend =>
      cases h
      exact ⟨[], l, [], [], ⟨hend, rfl⟩, rfl, rfl, .done⟩
    · cases h
  | word | text | escape | unit => cases h

/-- The tokens that a lexer gives out are those that the text goes on with. -/
theorem goesOn_of_tokens? {lexer : Lexer} (h : lexer.tokens? s = some ts) : lexer.GoesOn s ts := by
  induction s generalizing lexer ts with
  | nil => exact goesOn_of_finish h
  | cons c s ih =>
    obtain ⟨next, made, more, hstep, hmore, rfl⟩ := tokens?_cons_eq_some_iff.1 h
    exact goesOn_of_step hstep (ih hmore)

end Lexer

/-- A text gives out tokens, no two scalars side by side, just if it is made of them. -/
theorem tokens?_eq_some_iff_cut {s : List Char} {ts : List Token} (hts : Apart ts) :
    Lexer.between.tokens? s = some ts ↔ Cut s ts :=
  ⟨Lexer.goesOn_of_tokens?, fun h => Lexer.tokens?_of_cut h hts⟩

end LedgerFeed.Json

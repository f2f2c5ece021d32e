import LedgerFeed.Proofs.Json.Spacing

/-!
# Where a document ends

The text of an object ends with the last brace in it, behind which there is only white space
(`exists_brace_of_parse`). So such a text says by itself where it ends: what follows it is read only
if it is white space (`parse_append_iff`), and a text that is cut off in front of the brace is not
read (`isSpace_of_parse_append`).
-/

namespace LedgerFeed.Json

/-! ## The lexer behind a text -/

namespace Lexer

variable {lexer next : Lexer} {made ts : List Token} {c : Char} {s t : List Char}

/-- The lexer behind a text, and the tokens that the text completes. -/
def run (lexer : Lexer) : List Char → Option (Lexer × List Token)
  | [] => some (lexer, [])
  | c :: s => (lexer.step c).bind fun (next, made) =>
    (next.run s).map fun (last, more) => (last, made ++ more)

/-- A run goes character by character, and the tokens of the characters follow each other. -/
theorem run_cons_eq_some_iff :
    lexer.run (c :: s) = some (next, ts) ↔
      ∃ mid made more, lexer.step c = some (mid, made) ∧ mid.run s = some (next, more) ∧
        made ++ more = ts := by
  simp only [run, Option.bind_eq_some_iff, Option.map_eq_some_iff, Prod.exists, Prod.mk.injEq]
  constructor
  · rintro ⟨mid, made, h, next, more, hmore, rfl, rfl⟩
    exact ⟨mid, made, more, h, hmore, rfl⟩
  · rintro ⟨mid, made, more, h, hmore, rfl⟩
    exact ⟨mid, made, h, next, more, hmore, rfl, rfl⟩

/-- The tokens of two texts on end: those that the first completes, and those that the second makes
behind it. -/
theorem tokens?_append_eq_some_iff :
    lexer.tokens? (s ++ t) = some ts ↔
      ∃ next made more, lexer.run s = some (next, made) ∧ next.tokens? t = some more ∧
        made ++ more = ts := by
  induction s generalizing lexer ts with
  | nil =>
    constructor
    · intro h
      exact ⟨lexer, [], ts, rfl, h, rfl⟩
    · rintro ⟨_, _, _, ⟨⟩, h, rfl⟩
      exact h
  | cons c s ih =>
    rw [List.cons_append, tokens?_cons_eq_some_iff]
    constructor
    · rintro ⟨mid, made, more, hstep, hmore, rfl⟩
      obtain ⟨next, made', more', hrun, ht, rfl⟩ := ih.1 hmore
      refine ⟨next, made ++ made', more', ?_, ht, List.append_assoc _ _ _⟩
      exact run_cons_eq_some_iff.2 ⟨mid, made, made', hstep, hrun, rfl⟩
    · rintro ⟨next, made, more, hrun, ht, rfl⟩
      obtain ⟨mid, made', more', hstep, hmore, rfl⟩ := run_cons_eq_some_iff.1 hrun
      refine ⟨mid, made', more' ++ more, hstep, ?_, (List.append_assoc _ _ _).symm⟩
      exact ih.2 ⟨next, more', more, hmore, ht, rfl⟩

/-- A text is cut into the tokens that the run over it completes and those that its end does. -/
theorem tokens?_eq_some_iff :
    lexer.tokens? s = some ts ↔
      ∃ next made more, lexer.run s = some (next, made) ∧ next.finish = some more ∧
        made ++ more = ts := by
  have h : lexer.tokens? (s ++ []) = some ts ↔ _ := tokens?_append_eq_some_iff
  rwa [List.append_nil] at h

/-- A text ends between tokens or behind a number. -/
theorem finish_cases (h : lexer.finish = some made) :
    lexer = .between ∧ made = [] ∨
      ∃ part l, lexer = .number part l ∧ made = [.scalar l.toJson] := by
  cases lexer with
  | between =>
    cases h
    exact .inl ⟨rfl, rfl⟩
  | number part l =>
    rw [finish] at h
    split at h
    · cases h
      exact .inr ⟨part, l, rfl, rfl⟩
    · cases h
  | word | text | escape | unit => cases h

/-! ## White space -/

/-- What starts nothing and makes no token is white space. -/
theorem isSpace_of_start (h : start c = some (.between, [])) : isSpace c := by
  unfold start at h
  split at h
  · assumption
  split at h
  case h_12 =>
    split at h <;> cases h
  all_goals cases h

/-- A character that completes no token and starts none is white space between tokens. -/
theorem space_of_step (h : lexer.step c = some (.between, [])) :
    lexer = .between ∧ isSpace c := by
  cases lexer with
  | between => exact ⟨rfl, isSpace_of_start h⟩
  | word rest value =>
    cases rest with
    | nil => cases h
    | cons d rest =>
      rw [step] at h
      split at h
      · split at h <;> cases h
      · cases h
  | text read =>
    rw [step] at h
    split_ifs at h <;> cases h
  | escape read =>
    rw [step] at h
    split at h
    · cases h
    · obtain ⟨_, -, hnext⟩ := Option.map_eq_some_iff.1 h
      cases hnext
  | unit read missing value =>
    obtain ⟨_, -, hnext⟩ := Option.map_eq_some_iff.1 h
    split at hnext <;> cases hnext
  | number part l =>
    rcases step_number_cases h with ⟨_, _, -, hnext, -⟩ | ⟨-, _, -, hmade⟩
    · cases hnext
    · cases hmade

/-- Only white space between tokens makes no token. -/
theorem tokens?_eq_nil_iff :
    lexer.tokens? s = some [] ↔ lexer = .between ∧ ∀ c ∈ s, isSpace c := by
  induction s generalizing lexer with
  | nil =>
    constructor
    · intro h
      rcases finish_cases h with ⟨rfl, -⟩ | ⟨_, _, -, hmade⟩
      · exact ⟨rfl, List.forall_mem_nil _⟩
      · cases hmade
    · rintro ⟨rfl, -⟩
      rfl
  | cons c s ih =>
    rw [List.forall_mem_cons]
    constructor
    · intro h
      obtain ⟨next, made, more, hstep, hmore, hnil⟩ := tokens?_cons_eq_some_iff.1 h
      obtain ⟨rfl, rfl⟩ := List.append_eq_nil_iff.1 hnil
      obtain ⟨rfl, hs⟩ := ih.1 hmore
      obtain ⟨rfl, hc⟩ := space_of_step hstep
      exact ⟨rfl, hc, hs⟩
    · rintro ⟨rfl, hc, hs⟩
      have hstart : Lexer.between.step c = some (.between, []) := if_pos hc
      exact tokens?_cons_eq_some_iff.2 ⟨_, _, _, hstart, ih.2 ⟨rfl, hs⟩, rfl⟩

/-! ## Braces -/

end Lexer

/-- A number is no object. -/
theorem Literal.toJson_ne_object (l : Literal) (members : List (String × Json)) :
    l.toJson ≠ .object members := by
  unfold toJson
  split
  · dsimp only
    split <;> exact nofun
  · cases l.toReal <;> exact nofun

/-- The token, if it is a scalar, is no object. -/
def Token.IsFlat (t : Token) : Prop :=
  ∀ members, t ≠ .scalar (.object members)

/-- The token of a number is flat. -/
theorem Literal.isFlat_scalar (l : Literal) : Token.IsFlat (.scalar l.toJson) :=
  fun members hobject => l.toJson_ne_object members (Token.scalar.inj hobject)

/-- The word at hand, if there is one, stands for no object. -/
def Lexer.IsFlat (lexer : Lexer) : Prop :=
  ∀ rest members, lexer ≠ .word rest (.object members)

namespace Lexer

variable {lexer next : Lexer} {made ts : List Token} {c : Char} {s t : List Char}

@[simp] theorem isFlat_between : Lexer.between.IsFlat := nofun

@[simp] theorem isFlat_text (read : List Piece) : (Lexer.text read).IsFlat := nofun

@[simp] theorem isFlat_escape (read : List Piece) : (Lexer.escape read).IsFlat := nofun

@[simp] theorem isFlat_unit (read : List Piece) (missing value : Nat) :
    (Lexer.unit read missing value).IsFlat := nofun

@[simp] theorem isFlat_number (part : NumberPart) (read : Literal) :
    (Lexer.number part read).IsFlat := nofun

/-- What a character does to a lexer with flat words: all words and scalars stay flat, and only a
brace closes an object. -/
structure Braces (next : Lexer) (made : List Token) (c : Char) : Prop where
  lexer : next.IsFlat
  tokens : ∀ t ∈ made, t.IsFlat
  close : .closeObject ∈ made → c = '\x7d'

/-- A character that makes no token closes no object. -/
theorem braces_nil (h : next.IsFlat) : Braces next [] c :=
  ⟨h, List.forall_mem_nil _, fun hclose => absurd hclose List.not_mem_nil⟩

/-- A character that starts something closes an object only if it is a brace. -/
theorem braces_of_start (h : start c = some (next, made)) : Braces next made c := by
  unfold start at h
  split at h
  · cases h
    exact braces_nil isFlat_between
  split at h
  case h_12 =>
    split at h
    · cases h
    · cases h
      exact braces_nil (isFlat_number _ _)
  case h_4 =>
    cases h
    exact ⟨isFlat_between, by simp [Token.IsFlat], fun _ => rfl⟩
  all_goals
    cases h
    exact ⟨by simp [IsFlat], by simp [Token.IsFlat], by simp⟩

/-- One step of a lexer with flat words makes an object end only on a brace. -/
theorem IsFlat.step (hlexer : lexer.IsFlat) (h : lexer.step c = some (next, made)) :
    Braces next made c := by
  cases lexer with
  | between => exact braces_of_start h
  | word rest value =>
    cases rest with
    | nil => cases h
    | cons d rest =>
      have hvalue : ∀ members, value ≠ .object members := by
        rintro members rfl
        exact hlexer _ _ rfl
      rw [Lexer.step] at h
      split at h
      · split at h
        · cases h
          exact ⟨isFlat_between, by simpa [Token.IsFlat] using hvalue, by simp⟩
        · cases h
          refine braces_nil fun _ members hword => ?_
          exact hvalue members (Lexer.word.inj hword).2
      · cases h
  | text read =>
    rw [Lexer.step] at h
    split_ifs at h <;> cases h <;> exact ⟨by simp, by simp [Token.IsFlat], by simp⟩
  | escape read =>
    rw [Lexer.step] at h
    split at h
    · cases h
      exact braces_nil (isFlat_unit _ _ _)
    · obtain ⟨_, -, hnext⟩ := Option.map_eq_some_iff.1 h
      cases hnext
      exact braces_nil (isFlat_text _)
  | unit read missing value =>
    obtain ⟨_, -, hnext⟩ := Option.map_eq_some_iff.1 h
    split at hnext <;> cases hnext <;> exact braces_nil (by simp)
  | number part l =>
    rcases step_number_cases h with ⟨_, _, -, rfl, rfl⟩ | ⟨-, more, hstart, rfl⟩
    · exact braces_nil (isFlat_number _ _)
    · have hmore := braces_of_start hstart
      refine ⟨hmore.lexer, List.forall_mem_cons.2 ⟨l.isFlat_scalar, hmore.tokens⟩, ?_⟩
      intro hclose
      rcases List.mem_cons.1 hclose with hscalar | hclose
      · cases hscalar
      · exact hmore.close hclose

/-- No scalar in a text is an object. -/
theorem IsFlat.tokens? (hlexer : lexer.IsFlat) (h : lexer.tokens? s = some ts) :
    ∀ t ∈ ts, t.IsFlat := by
  induction s generalizing lexer ts with
  | nil =>
    rcases finish_cases h with ⟨-, rfl⟩ | ⟨_, l, -, rfl⟩
    · exact List.forall_mem_nil _
    · exact List.forall_mem_singleton.2 l.isFlat_scalar
  | cons c s ih =>
    obtain ⟨next, made, more, hstep, hmore, rfl⟩ := tokens?_cons_eq_some_iff.1 h
    have hbraces := hlexer.step hstep
    exact List.forall_mem_append.2 ⟨hbraces.tokens, ih hbraces.lexer hmore⟩

/-- Where the last token closes an object, the last character is a brace, white space apart. -/
theorem IsFlat.exists_brace (hlexer : lexer.IsFlat)
    (h : lexer.tokens? s = some (ts ++ [.closeObject])) :
    ∃ u w, s = u ++ '\x7d' :: w ∧ ∀ c ∈ w, isSpace c := by
  induction s generalizing lexer ts with
  | nil =>
    rcases finish_cases h with ⟨-, hmade⟩ | ⟨_, _, -, hmade⟩
    · simp at hmade
    · rw [← List.nil_append [Token.scalar _]] at hmade
      cases (List.append_inj' hmade rfl).2
  | cons c s ih =>
    obtain ⟨next, made, more, hstep, hmore, hts⟩ := tokens?_cons_eq_some_iff.1 h
    have hbraces := hlexer.step hstep
    rcases List.eq_nil_or_concat more with rfl | ⟨more, t, rfl⟩
    · -- the brace is `c`, and nothing behind it makes a token
      rw [List.append_nil] at hts
      have hc := hbraces.close (hts ▸ List.mem_concat_self)
      obtain ⟨-, hs⟩ := tokens?_eq_nil_iff.1 hmore
      exact ⟨[], s, by rw [hc, List.nil_append], hs⟩
    · rw [List.concat_eq_append, ← List.append_assoc] at hts
      obtain ⟨-, ht⟩ := List.append_inj' hts rfl
      cases ht
      rw [List.concat_eq_append] at hmore
      obtain ⟨u, w, rfl, hw⟩ := ih hbraces.lexer hmore
      exact ⟨c :: u, w, rfl, hw⟩

end Lexer

/-! ## Documents -/

section
variable {limit : Option Nat} {builder : Builder} {stack : List Frame} {i j k : Json}
  {members : List (String × Json)} {t : Token} {ts : List Token} {s u : List Char}

/-- Where one scalar is the whole tree, any other one would be, too. -/
theorem push_scalar_top (h : builder.push limit (.scalar i) = .ok (.after [] k)) (j : Json) :
    builder.push limit (.scalar j) = .ok (.after [] j) := by
  cases builder with
  | valueDue stack =>
    cases h
    rfl
  | itemDue stack => cases h
  | nameDue stack read => cases read <;> cases h
  | colonDue stack read name => cases h
  | after stack value => rcases stack with - | ⟨_ | _, _⟩ <;> cases h

/-- An object is finished by its closing brace, if scalars are no objects. -/
theorem eq_closeObject_of_push (ht : t.IsFlat)
    (h : builder.push limit t = .ok (.after stack (.object members))) : t = .closeObject := by
  have hvalue : ∀ outer,
      Builder.pushValue limit outer t ≠ .ok (.after stack (.object members)) := by
    intro outer hpush
    cases t with
    | scalar j =>
      cases hpush
      exact ht members rfl
    | text s => cases s <;> cases hpush
    | openArray | openObject =>
      rw [Builder.pushValue] at hpush
      split at hpush <;> cases hpush
    | _ => cases hpush
  unfold Builder.push at h
  split at h
  case h_1 => exact absurd h (hvalue _)
  case h_3 => exact absurd h (hvalue _)
  all_goals first | rfl | cases h

/-- So the last of the tokens that make an object is its closing brace. -/
theorem eq_closeObject_of_pushAll (ht : t.IsFlat)
    (h : builder.pushAll limit (ts ++ [t]) = .ok (.after stack (.object members))) :
    t = .closeObject := by
  rw [Builder.pushAll_append] at h
  obtain ⟨before, -, hlast⟩ := bind_eq_ok.1 h
  rw [Builder.pushAll_cons] at hlast
  obtain ⟨after, hlast, hnil⟩ := bind_eq_ok.1 hlast
  cases hnil
  exact eq_closeObject_of_push ht hlast

/-- The text of an object ends with a brace, white space apart. -/
theorem exists_brace_of_parse (h : parse limit s = .ok (.object members)) :
    ∃ u w, s = u ++ '\x7d' :: w ∧ ∀ c ∈ w, isSpace c := by
  obtain ⟨ts, hts, hpush⟩ := parse_eq_ok_iff.1 h
  rcases List.eq_nil_or_concat ts with rfl | ⟨ts, t, rfl⟩
  · cases hpush
  rw [List.concat_eq_append] at hts hpush
  have hflat := Lexer.isFlat_between.tokens? hts t List.mem_concat_self
  cases eq_closeObject_of_pushAll hflat hpush
  exact Lexer.isFlat_between.exists_brace hts

/-- What follows the text of an object is read only if it is white space, and then it makes no
difference. -/
theorem parse_append_iff (h : parse limit s = .ok (.object members)) :
    parse limit (s ++ u) = .ok k ↔ (∀ c ∈ u, isSpace c) ∧ k = .object members := by
  obtain ⟨ts, hts, hpush⟩ := parse_eq_ok_iff.1 h
  obtain ⟨next, made, more, hrun, hfinish, rfl⟩ := Lexer.tokens?_eq_some_iff.1 hts
  -- no number is left unfinished, since it would be the last token of the object
  obtain ⟨rfl, rfl⟩ : next = .between ∧ more = [] := by
    rcases Lexer.finish_cases hfinish with hdone | ⟨part, l, -, rfl⟩
    · exact hdone
    · cases eq_closeObject_of_pushAll l.isFlat_scalar hpush
  rw [List.append_nil] at hpush
  rw [parse_eq_ok_iff]
  constructor
  · rintro ⟨ts, hts, hall⟩
    obtain ⟨next, made', more, hrun', hu, rfl⟩ := Lexer.tokens?_append_eq_some_iff.1 hts
    cases hrun.symm.trans hrun'
    rw [Builder.pushAll_append_of_ok hpush] at hall
    obtain ⟨rfl, hk⟩ := pushAll_finished_iff.1 hall
    cases hk
    exact ⟨(Lexer.tokens?_eq_nil_iff.1 hu).2, rfl⟩
  · rintro ⟨hu, rfl⟩
    have hnone := Lexer.tokens?_eq_nil_iff.2 ⟨rfl, hu⟩
    refine ⟨made ++ [], ?_, by rwa [List.append_nil]⟩
    exact Lexer.tokens?_append_eq_some_iff.2 ⟨_, made, [], hrun, hnone, rfl⟩

/-- A text that is read, and with more behind it as an object, lacks white space only. -/
theorem isSpace_of_parse_append (hs : parse limit s = .ok k)
    (h : parse limit (s ++ u) = .ok (.object members)) : ∀ c ∈ u, isSpace c := by
  obtain ⟨ts, hts, hpush⟩ := parse_eq_ok_iff.1 hs
  obtain ⟨next, made, more, hrun, hfinish, rfl⟩ := Lexer.tokens?_eq_some_iff.1 hts
  obtain ⟨all, hall, hpushAll⟩ := parse_eq_ok_iff.1 h
  obtain ⟨next', made', behind, hrun', hu, rfl⟩ := Lexer.tokens?_append_eq_some_iff.1 hall
  cases hrun.symm.trans hrun'
  rw [Builder.pushAll_append] at hpush hpushAll
  obtain ⟨builder, hmade, hlast⟩ := bind_eq_ok.1 hpush
  obtain ⟨builder', hmade', hbehind⟩ := bind_eq_ok.1 hpushAll
  cases hmade.symm.trans hmade'
  rcases Lexer.finish_cases hfinish with ⟨rfl, rfl⟩ | ⟨part, l, rfl, rfl⟩
  · cases hlast
    obtain ⟨rfl, -⟩ := pushAll_finished_iff.1 hbehind
    exact (Lexer.tokens?_eq_nil_iff.1 hu).2
  · -- the text is a number, and so it is with more behind it
    obtain ⟨j, rest, rfl⟩ := Lexer.tokens?_number hu
    rw [Builder.pushAll_cons] at hlast hbehind
    obtain ⟨_, hlast, hnil⟩ := bind_eq_ok.1 hlast
    cases hnil
    rw [push_scalar_top hlast j] at hbehind
    obtain ⟨rfl, hobject⟩ := pushAll_finished_iff.1 hbehind
    cases hobject
    have hflat := Lexer.isFlat_between.tokens? hall _ (List.mem_append_right _ List.mem_cons_self)
    exact absurd rfl (hflat members)

end

end LedgerFeed.Json

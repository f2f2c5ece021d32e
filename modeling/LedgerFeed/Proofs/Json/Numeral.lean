import Mathlib.Tactic.SplitIfs
import LedgerFeed.Json.Lexer

/-!
# The spelling of numbers

A number is a minus sign or none, digits, a fraction and an exponent (`NumberSpelling`). It is read
one character at a time, and all that is kept is its parts and which of them comes last; just the
numbers that are spelled so are read to their ends (`magnitudeSpelling_iff`).
-/

namespace LedgerFeed.Json

/-! ## Spelling -/

/-- The characters are decimal digits, at least one. -/
structure DigitsSpelling (s : List Char) (ds : List Nat) : Prop where
  digits : s.mapM decimalDigit? = some ds
  ne_nil : ds ≠ []

/-- The characters of a fraction, if there is one: a point and digits. -/
inductive FractionSpelling : List Char → Option (List Nat) → Prop
  | absent : FractionSpelling [] none
  | digits {s : List Char} {ds : List Nat} :
    DigitsSpelling s ds → FractionSpelling ('.' :: s) (some ds.reverse)

/-- The signs of an exponent, and whether they make it negative. -/
def exponentSigns : List (List Char × Bool) :=
  [([], false), (['+'], false), (['-'], true)]

/-- The characters of an exponent, if there is one: a letter, a sign or none, and digits. -/
inductive ExponentSpelling : List Char → Option (Bool × List Nat) → Prop
  | absent : ExponentSpelling [] none
  | digits {c : Char} {sign s : List Char} {negative : Bool} {ds : List Nat} :
    c = 'e' ∨ c = 'E' → (sign, negative) ∈ exponentSigns → DigitsSpelling s ds →
      ExponentSpelling (c :: sign ++ s) (some (negative, ds.reverse))

/-- The characters of a number behind its sign. Its whole part starts with zero only if it is
zero. -/
inductive MagnitudeSpelling (negative : Bool) : List Char → Literal → Prop
  | parts {s f e : List Char} {ds : List Nat} {fraction : Option (List Nat)}
    {exponent : Option (Bool × List Nat)} :
    DigitsSpelling s ds → (ds.head? = some 0 → ds = [0]) → FractionSpelling f fraction →
      ExponentSpelling e exponent →
      MagnitudeSpelling negative (s ++ (f ++ e)) ⟨negative, ds.reverse, fraction, exponent⟩

/-- The characters of a number. -/
inductive NumberSpelling : List Char → Literal → Prop
  | unsigned {s : List Char} {l : Literal} : MagnitudeSpelling false s l → NumberSpelling s l
  | negative {s : List Char} {l : Literal} :
    MagnitudeSpelling true s l → NumberSpelling ('-' :: s) l

/-! ## Reading to the end -/

/-- With these characters a number comes to its end behind a part. -/
def NumberPart.Ends (part : NumberPart) (l : Literal) : List Char → Literal → Prop
  | [], m => part.isEnd ∧ m = l
  | c :: u, m => ∃ next k, continueNumber part l c = some (next, k) ∧ next.Ends k u m

section
variable {part next loop : NumberPart} {push : List Nat → Literal} {k l m : Literal} {c : Char}
  {d : Nat} {s u v : List Char} {ds read : List Nat} {negative : Bool} {whole : List Nat}
  {fraction : Option (List Nat)} {exponent : Option (Bool × List Nat)}

/-- A number comes to its end in one character and the rest, just if the character goes on with it
and the rest ends it. -/
theorem ends_cons (h : continueNumber part l c = some (next, k)) :
    part.Ends l (c :: u) m ↔ next.Ends k u m := by
  rw [NumberPart.Ends, h]
  constructor
  · rintro ⟨_, _, ⟨⟩, hu⟩
    exact hu
  · exact fun hu => ⟨next, k, rfl, hu⟩

/-- Characters are digits just if the first one is and the others are. -/
theorem mapM_digit_cons :
    (c :: s).mapM decimalDigit? = some ds ↔
      ∃ d es, decimalDigit? c = some d ∧ s.mapM decimalDigit? = some es ∧ ds = d :: es := by
  simp only [List.mapM_cons, Option.bind_eq_bind, Option.bind_eq_some_iff, Option.pure_def,
    Option.some.injEq, exists_and_left, eq_comm (a := ds)]

/-- Digits start with a digit. -/
theorem DigitsSpelling.exists_cons (h : DigitsSpelling s ds) :
    ∃ c t d es, s = c :: t ∧ ds = d :: es ∧ decimalDigit? c = some d ∧
      t.mapM decimalDigit? = some es := by
  cases s with
  | nil => exact absurd (Option.some.inj h.digits).symm h.ne_nil
  | cons c t =>
    obtain ⟨d, es, hd, hes, rfl⟩ := mapM_digit_cons.1 h.digits
    exact ⟨c, t, d, es, rfl, rfl, hd, hes⟩

/-- A text is digits and something behind them that does not start with a digit. -/
theorem exists_digits_append (u : List Char) :
    ∃ s ds v, u = s ++ v ∧ s.mapM decimalDigit? = some ds ∧
      ∀ c ∈ v.head?, decimalDigit? c = none := by
  induction u with
  | nil => exact ⟨[], [], [], rfl, rfl, nofun⟩
  | cons c u ih =>
    cases hc : decimalDigit? c with
    | none =>
      refine ⟨[], [], c :: u, rfl, rfl, ?_⟩
      rintro _ ⟨⟩
      exact hc
    | some d =>
      obtain ⟨s, ds, v, rfl, hs, hv⟩ := ih
      exact ⟨c :: s, d :: ds, v, rfl, mapM_digit_cons.2 ⟨d, ds, hc, hs, rfl⟩, hv⟩

/-- A part of a number that digits go on with. -/
def TakesDigits (loop : NumberPart) (push : List Nat → Literal) : Prop :=
  ∀ read c d, read ≠ [] → decimalDigit? c = some d →
    continueNumber loop (push read) c = some (loop, push (d :: read))

/-- Digits are read one by one. -/
theorem TakesDigits.ends_append (hloop : TakesDigits loop push)
    (hs : s.mapM decimalDigit? = some ds) (hread : read ≠ []) :
    loop.Ends (push read) (s ++ v) m ↔ loop.Ends (push (ds.reverse ++ read)) v m := by
  induction s generalizing ds read with
  | nil =>
    cases hs
    rfl
  | cons c s ih =>
    obtain ⟨d, es, hd, hes, rfl⟩ := mapM_digit_cons.1 hs
    rw [List.cons_append, ends_cons (hloop read c d hread hd), ih hes (List.cons_ne_nil d read),
      List.reverse_cons, List.append_assoc]
    rfl

/-- Where a digit is due, digits are read, and what is behind them. -/
theorem ends_digits (hloop : TakesDigits loop push)
    (hfirst : ∀ c d, decimalDigit? c = some d → continueNumber part l c = some (loop, push [d]))
    (hs : DigitsSpelling s ds) (hv : loop.Ends (push ds.reverse) v m) :
    part.Ends l (s ++ v) m := by
  obtain ⟨c, t, d, es, rfl, rfl, hd, hes⟩ := hs.exists_cons
  rw [List.cons_append, ends_cons (hfirst c d hd),
    hloop.ends_append hes (List.cons_ne_nil d []), ← List.reverse_cons]
  exact hv

/-- What goes on with a digit starts with digits, and goes on behind all of them. -/
theorem TakesDigits.exists_digits (hloop : TakesDigits loop push) (hd : decimalDigit? c = some d)
    (h : loop.Ends (push [d]) u m) :
    ∃ s ds v, c :: u = s ++ v ∧ DigitsSpelling s (d :: ds) ∧
      (∀ c ∈ v.head?, decimalDigit? c = none) ∧ loop.Ends (push (d :: ds).reverse) v m := by
  obtain ⟨s, ds, v, rfl, hs, hv⟩ := exists_digits_append u
  rw [hloop.ends_append hs (List.cons_ne_nil d []), ← List.reverse_cons] at h
  exact ⟨c :: s, ds, v, rfl, ⟨mapM_digit_cons.2 ⟨d, ds, hd, hs, rfl⟩, List.cons_ne_nil d ds⟩, hv, h⟩

/-- Where only a digit may stand, there are digits. -/
theorem exists_digits_of_ends (hloop : TakesDigits loop push) (hpart : part.isEnd = false)
    (hfirst : ∀ c, continueNumber part l c =
      (decimalDigit? c).bind fun d => some (loop, push [d])) (h : part.Ends l u m) :
    ∃ s ds v, u = s ++ v ∧ DigitsSpelling s ds ∧
      (∀ c ∈ v.head?, decimalDigit? c = none) ∧ loop.Ends (push ds.reverse) v m := by
  cases u with
  | nil => exact absurd h.1 (by simp [hpart])
  | cons c u =>
    obtain ⟨next, k, hgoes, hu⟩ := h
    obtain ⟨d, hd, hnext⟩ := Option.bind_eq_some_iff.1 ((hfirst c).symm.trans hgoes)
    cases hnext
    obtain ⟨s, ds, v, hsv, hs, hv, hend⟩ := hloop.exists_digits hd hu
    exact ⟨s, d :: ds, v, hsv, hs, hv, hend⟩

/-! ## Exponents -/

/-- Digits go on with an exponent. -/
theorem takesDigits_exponent (negative : Bool) (whole : List Nat) (fraction : Option (List Nat))
    (sign : Bool) :
    TakesDigits .exponent fun read => ⟨negative, whole, fraction, some (sign, read)⟩ := by
  intro read c d _ hd
  simp [continueNumber, hd]

/-- A sign and digits behind the letter end a number with an exponent. -/
theorem ends_mark {sign : List Char} {down : Bool} (hsign : (sign, down) ∈ exponentSigns)
    (hs : DigitsSpelling s ds) :
    NumberPart.mark.Ends ⟨negative, whole, fraction, none⟩ (sign ++ s)
      ⟨negative, whole, fraction, some (down, ds.reverse)⟩ := by
  have hread : ∀ {part l}, (∀ c d, decimalDigit? c = some d →
      continueNumber part l c =
        some (.exponent, ⟨negative, whole, fraction, some (down, [d])⟩)) →
      part.Ends l s ⟨negative, whole, fraction, some (down, ds.reverse)⟩ := by
    intro part l hfirst
    have hdigits := takesDigits_exponent negative whole fraction down
    rw [← List.append_nil s]
    exact ends_digits hdigits hfirst hs ⟨rfl, rfl⟩
  simp only [exponentSigns, List.mem_cons, Prod.mk.injEq, List.not_mem_nil, or_false] at hsign
  rcases hsign with ⟨rfl, rfl⟩ | ⟨rfl, rfl⟩ | ⟨rfl, rfl⟩
  · refine hread fun c d hd => ?_
    have hplus : c ≠ '+' := by rintro rfl; cases hd
    have hminus : c ≠ '-' := by rintro rfl; cases hd
    simp [continueNumber, hd, hplus, hminus]
  · refine (ends_cons rfl).2 (hread fun c d hd => ?_)
    simp [continueNumber, hd]
  · refine (ends_cons rfl).2 (hread fun c d hd => ?_)
    simp [continueNumber, hd]

/-- What ends a number behind the sign of its exponent is digits. -/
theorem exists_of_ends_exponentSign {down : Bool}
    (h : NumberPart.exponentSign.Ends ⟨negative, whole, fraction, some (down, [])⟩ u m) :
    ∃ ds, DigitsSpelling u ds ∧ m = ⟨negative, whole, fraction, some (down, ds.reverse)⟩ := by
  obtain ⟨s, ds, v, rfl, hs, hv, hend⟩ := exists_digits_of_ends
    (takesDigits_exponent negative whole fraction down) rfl (fun c => rfl) h
  cases v with
  | nil =>
    rw [List.append_nil]
    exact ⟨ds, hs, hend.2⟩
  | cons c v =>
    obtain ⟨_, _, hgoes, -⟩ := hend
    simp [continueNumber, hv c rfl] at hgoes

/-- What ends a number from the letter on is an exponent. -/
theorem exists_of_ends_mark (hc : c = 'e' ∨ c = 'E')
    (h : NumberPart.mark.Ends ⟨negative, whole, fraction, none⟩ u m) :
    ∃ exponent, ExponentSpelling (c :: u) exponent ∧ m = ⟨negative, whole, fraction, exponent⟩ := by
  cases u with
  | nil => cases h.1
  | cons b u =>
    have hsigned : ∀ sign down v, (sign, down) ∈ exponentSigns →
        NumberPart.exponentSign.Ends ⟨negative, whole, fraction, some (down, [])⟩ v m →
          ∃ exponent, ExponentSpelling (c :: (sign ++ v)) exponent ∧
            m = ⟨negative, whole, fraction, exponent⟩ := by
      intro sign down v hsign hv
      obtain ⟨ds, hds, hm⟩ := exists_of_ends_exponentSign hv
      exact ⟨_, .digits hc hsign hds, hm⟩
    by_cases hplus : b = '+'
    · subst hplus
      exact hsigned ['+'] false u (by simp [exponentSigns]) ((ends_cons rfl).1 h)
    by_cases hminus : b = '-'
    · subst hminus
      exact hsigned ['-'] true u (by simp [exponentSigns]) ((ends_cons rfl).1 h)
    · -- without a sign, the first digit is read as one behind a plus sign is
      obtain ⟨next, k, hgoes, hu⟩ := h
      refine hsigned [] false (b :: u) (by simp [exponentSigns]) ⟨next, k, ?_, hu⟩
      simpa [continueNumber, hplus, hminus] using hgoes

/-- What has no exponent yet ends with one. -/
theorem ends_exponent {e : List Char} (hpart : part = .zero ∨ part = .whole ∨ part = .fraction)
    (he : ExponentSpelling e exponent) :
    part.Ends ⟨negative, whole, fraction, none⟩ e ⟨negative, whole, fraction, exponent⟩ := by
  cases he with
  | absent => rcases hpart with rfl | rfl | rfl <;> exact ⟨rfl, rfl⟩
  | digits hc hsign hs =>
    refine (ends_cons ?_).2 (ends_mark hsign hs)
    rcases hc with rfl | rfl <;> rcases hpart with rfl | rfl | rfl <;> rfl

/-! ## Fractions -/

/-- Digits go on with a fraction. -/
theorem takesDigits_fraction (negative : Bool) (whole : List Nat) :
    TakesDigits .fraction fun read => ⟨negative, whole, some read, none⟩ := by
  intro read c d _ hd
  simp [continueNumber, hd]

/-- A whole part ends with a fraction and an exponent. -/
theorem ends_fraction {f e : List Char} (hpart : part = .zero ∨ part = .whole)
    (hf : FractionSpelling f fraction) (he : ExponentSpelling e exponent) :
    part.Ends ⟨negative, whole, none, none⟩ (f ++ e) ⟨negative, whole, fraction, exponent⟩ := by
  cases hf with
  | absent => exact ends_exponent (hpart.imp_right .inl) he
  | digits hs =>
    have hpoint : continueNumber part ⟨negative, whole, none, none⟩ '.' =
        some (.point, ⟨negative, whole, none, none⟩) := by
      rcases hpart with rfl | rfl <;> rfl
    refine (ends_cons hpoint).2 ?_
    refine ends_digits (takesDigits_fraction negative whole) (fun c d hd => ?_) hs
      (ends_exponent (.inr (.inr rfl)) he)
    simp [continueNumber, hd]

/-- What ends a number behind the digits of its fraction is an exponent or nothing. -/
theorem exists_of_ends_fraction (hu : ∀ c ∈ u.head?, decimalDigit? c = none)
    (h : NumberPart.fraction.Ends ⟨negative, whole, fraction, none⟩ u m) :
    ∃ exponent, ExponentSpelling u exponent ∧ m = ⟨negative, whole, fraction, exponent⟩ := by
  cases u with
  | nil => exact ⟨none, .absent, h.2⟩
  | cons c u =>
    obtain ⟨next, k, hgoes, hrest⟩ := h
    by_cases hc : c = 'e' ∨ c = 'E'
    · simp only [continueNumber, hu c rfl, hc, if_true] at hgoes
      cases hgoes
      exact exists_of_ends_mark hc hrest
    · simp [continueNumber, hu c rfl, hc] at hgoes

/-- What ends a number behind its point is the digits of a fraction and then an exponent or nothing.
-/
theorem exists_of_ends_point
    (h : NumberPart.point.Ends ⟨negative, whole, none, none⟩ u m) :
    ∃ s ds e exponent, u = s ++ e ∧ DigitsSpelling s ds ∧ ExponentSpelling e exponent ∧
      m = ⟨negative, whole, some ds.reverse, exponent⟩ := by
  obtain ⟨s, ds, v, hu, hs, hv, hend⟩ := exists_digits_of_ends
    (takesDigits_fraction negative whole) rfl (fun c => rfl) h
  obtain ⟨exponent, he, hm⟩ := exists_of_ends_fraction hv hend
  exact ⟨s, ds, v, exponent, hu, hs, he, hm⟩

/-- What goes on with a whole part behind its digits is a fraction and an exponent. -/
theorem exists_of_ends_whole
    (hpart : part = .zero ∨ part = .whole ∧ ∀ c ∈ u.head?, decimalDigit? c = none)
    (h : part.Ends ⟨negative, whole, none, none⟩ u m) :
    ∃ f e fraction exponent, u = f ++ e ∧ FractionSpelling f fraction ∧
      ExponentSpelling e exponent ∧ m = ⟨negative, whole, fraction, exponent⟩ := by
  cases u with
  | nil => exact ⟨[], [], none, none, rfl, .absent, .absent, h.2⟩
  | cons c u =>
    obtain ⟨next, k, hgoes, hrest⟩ := h
    have hgoes : (if c = '.' then some (NumberPart.point, (⟨negative, whole, none, none⟩ : Literal))
        else if c = 'e' ∨ c = 'E' then some (.mark, ⟨negative, whole, none, none⟩) else none) =
          some (next, k) := by
      rw [← hgoes]
      rcases hpart with rfl | ⟨rfl, hu⟩
      · simp only [continueNumber]
        split <;> rfl
      · simp only [continueNumber, hu c rfl]
        split <;> rfl
    split_ifs at hgoes with hpoint hc
    · cases hgoes
      obtain ⟨s, ds, e, exponent, rfl, hs, he, hm⟩ := exists_of_ends_point hrest
      exact ⟨'.' :: s, e, some ds.reverse, exponent, by rw [hpoint]; rfl, .digits hs, he, hm⟩
    · cases hgoes
      obtain ⟨exponent, he, hm⟩ := exists_of_ends_mark hc hrest
      exact ⟨[], c :: u, none, exponent, rfl, .absent, he, hm⟩

/-! ## Numbers -/

/-- Digits go on with a whole part. -/
theorem takesDigits_whole (negative : Bool) :
    TakesDigits .whole fun read => ⟨negative, read, none, none⟩ := by
  intro read c d hread hd
  simp [continueNumber, hd, hread]

/-- The first digit of a number is zero or starts its whole part. -/
theorem continueNumber_first (hd : decimalDigit? c = some d) :
    continueNumber .sign ⟨negative, [], none, none⟩ c =
      some (if d = 0 then .zero else .whole, ⟨negative, [d], none, none⟩) := by
  simp [continueNumber, hd]

/-- The spelling of a magnitude ends a number behind its sign. -/
theorem MagnitudeSpelling.ends (h : MagnitudeSpelling negative u l) :
    NumberPart.sign.Ends ⟨negative, [], none, none⟩ u l := by
  obtain ⟨hs, hzero, hf, he⟩ := h
  obtain ⟨c, t, d, es, rfl, rfl, hd, hes⟩ := hs.exists_cons
  rw [List.cons_append, ends_cons (continueNumber_first hd)]
  by_cases hd0 : d = 0
  · obtain rfl : es = [] := (List.cons.inj (hzero (congrArg some hd0))).2
    have hnil : t = [] := by
      cases t with
      | nil => rfl
      | cons =>
        obtain ⟨_, _, -, -, hcons⟩ := mapM_digit_cons.1 hes
        cases hcons
    rw [if_pos hd0, hnil, List.nil_append]
    exact ends_fraction (.inl rfl) hf he
  · rw [if_neg hd0, (takesDigits_whole negative).ends_append hes (List.cons_ne_nil d []),
      ← List.reverse_cons]
    exact ends_fraction (.inr rfl) hf he

/-- What ends a number behind its sign spells a magnitude. -/
theorem magnitudeSpelling_of_ends (h : NumberPart.sign.Ends ⟨negative, [], none, none⟩ u l) :
    MagnitudeSpelling negative u l := by
  cases u with
  | nil => cases h.1
  | cons c u =>
    obtain ⟨next, k, hgoes, hu⟩ := h
    obtain ⟨d, hd, hnext⟩ := Option.bind_eq_some_iff.1 hgoes
    cases hnext
    by_cases hzero : d = 0
    · subst hzero
      obtain ⟨f, e, fraction, exponent, rfl, hf, he, rfl⟩ := exists_of_ends_whole (.inl rfl) hu
      have hs : DigitsSpelling [c] [0] := ⟨mapM_digit_cons.2 ⟨0, [], hd, rfl, rfl⟩, by simp⟩
      exact .parts hs (fun _ => rfl) hf he
    · simp only [hzero, false_and, if_false] at hu
      obtain ⟨s, ds, v, hsv, hs, hv, hend⟩ := (takesDigits_whole negative).exists_digits hd hu
      obtain ⟨f, e, fraction, exponent, rfl, hf, he, rfl⟩ :=
        exists_of_ends_whole (.inr ⟨rfl, hv⟩) hend
      rw [hsv]
      exact .parts hs (fun h => absurd (Option.some.inj h) hzero) hf he

/-- A number comes to its end behind its sign with just the characters that spell it. -/
theorem magnitudeSpelling_iff :
    MagnitudeSpelling negative u l ↔ NumberPart.sign.Ends ⟨negative, [], none, none⟩ u l :=
  ⟨MagnitudeSpelling.ends, magnitudeSpelling_of_ends⟩

end

end LedgerFeed.Json

import Mathlib.Algebra.Order.Field.Rat
import Mathlib.Data.List.Induction
import Mathlib.Data.Rat.Cast.Order
import Mathlib.Tactic.Linarith
import LedgerFeed.Proofs.Text.Decimal

/-!
# What fixed-point texts stand for

A fixed-point text denotes a rational: digits, behind them a point and up to 8 more digits or not,
and a minus sign in front or not (`Denotes`). It is read as that many units of `10 ^ -8`, exactly
(`parse_eq_some_iff`): no text is too long to be read, and none wraps.
-/

namespace LedgerFeed.Fixed

/-! ## The grammar -/

/-- Digits, and behind a point up to 8 more of them, stand for a rational. -/
inductive Magnitude : List Char → ℚ → Prop
  | whole {w : List Char} (hne : w ≠ []) (hw : ∀ c ∈ w, c.isDigit) :
    Magnitude w (Nat.ofDigitChars 10 w 0)
  | point {w f : List Char} (hne : w ≠ []) (hw : ∀ c ∈ w, c.isDigit) (hf : ∀ c ∈ f, c.isDigit)
      (hlen : f.length ≤ 8) :
    Magnitude (w ++ '.' :: f) (Nat.ofDigitChars 10 w 0 + Nat.ofDigitChars 10 f 0 / 10 ^ f.length)

/-- A text without a sign or behind a minus sign stands for a rational. -/
inductive Denotes : List Char → ℚ → Prop
  | plain {s : List Char} {x : ℚ} (h : Magnitude s x) : Denotes s x
  | minus {s : List Char} {x : ℚ} (h : Magnitude s x) : Denotes ('-' :: s) (-x)

/-- A magnitude starts with a digit, so with no sign. -/
theorem Magnitude.ne_minus {s rest : List Char} {x : ℚ} (h : Magnitude s x) : s ≠ '-' :: rest := by
  rintro rfl
  have hfirst : ∀ {w : List Char} (more : List Char), w ≠ [] → (∀ c ∈ w, c.isDigit) →
      w ++ more ≠ '-' :: rest := by
    intro w more hne hw he
    obtain ⟨c, w, rfl⟩ := List.exists_cons_of_ne_nil hne
    rw [List.cons_append, List.cons.injEq] at he
    have hc := hw c List.mem_cons_self
    rw [he.1] at hc
    revert hc
    decide
  generalize hs : '-' :: rest = s at h
  cases h with
  | whole hne hw => exact hfirst [] hne hw (by rw [List.append_nil, hs])
  | point hne hw _ _ => exact hfirst _ hne hw hs.symm

/-! ## Units -/

/-- The units of the digits before and behind a point. -/
def unitsOf (w f : List Char) : Nat :=
  Nat.ofDigitChars 10 w 0 * unitsOfOne + Nat.ofDigitChars 10 f 0 * 10 ^ (8 - f.length)

/-- The units of digits are the rational they stand for, `10 ^ 8` times. -/
theorem unitsOf_eq (w : List Char) {f : List Char} (hlen : f.length ≤ 8) :
    (unitsOf w f : ℚ) =
      (Nat.ofDigitChars 10 w 0 + Nat.ofDigitChars 10 f 0 / 10 ^ f.length) * 10 ^ 8 := by
  have hpow : (10 : ℚ) ^ 8 = 10 ^ f.length * 10 ^ (8 - f.length) := by
    rw [← pow_add, Nat.add_sub_cancel' hlen]
  have hfraction : (Nat.ofDigitChars 10 f 0 : ℚ) / 10 ^ f.length * 10 ^ 8 =
      Nat.ofDigitChars 10 f 0 * 10 ^ (8 - f.length) := by
    rw [hpow, ← mul_assoc, div_mul_cancel₀ _ (pow_ne_zero _ (by norm_num))]
  rw [add_mul, hfraction, unitsOf, unitsOfOne]
  push_cast
  rfl

/-- Without digits behind a point, a number has whole units alone. -/
theorem unitsOf_nil (w : List Char) : (unitsOf w [] : ℚ) = Nat.ofDigitChars 10 w 0 * 10 ^ 8 := by
  have h := unitsOf_eq w (f := []) (Nat.zero_le 8)
  simpa using h

/-- A text without points has nothing behind one. -/
theorem splitPoint_of_notMem {s : List Char} (h : '.' ∉ s) : splitPoint s = (s, []) := by
  induction s with
  | nil => rfl
  | cons c s ih =>
    rw [List.mem_cons, not_or] at h
    rw [splitPoint, if_neg (Ne.symm h.1), ih h.2]

/-- There is no point among digits. -/
theorem notMem_of_isDigit {s : List Char} (h : ∀ c ∈ s, c.isDigit) : '.' ∉ s :=
  fun hmem => absurd (h _ hmem) (by decide)

/-- A magnitude is a whole number of units, that of the digits around its first point. -/
theorem Magnitude.units {s : List Char} {x : ℚ} (h : Magnitude s x) :
    (unitsOf (splitPoint s).1 (splitPoint s).2 : ℚ) = x * 10 ^ 8 := by
  cases h with
  | whole hne hw =>
    rw [splitPoint_of_notMem (notMem_of_isDigit hw)]
    exact unitsOf_nil s
  | @point w f hne hw hf hlen =>
    rw [splitPoint_append (notMem_of_isDigit hw)]
    exact unitsOf_eq w hlen

/-- The digits of a number stand for one rational. -/
theorem Magnitude.unique {s : List Char} {x y : ℚ} (hx : Magnitude s x) (hy : Magnitude s y) :
    x = y :=
  mul_right_cancel₀ (by norm_num) (hx.units.symm.trans hy.units)

/-- A text stands for one rational at most. -/
theorem Denotes.unique {s : List Char} {x y : ℚ} (hx : Denotes s x) (hy : Denotes s y) : x = y := by
  cases hx with
  | plain hx =>
    cases hy with
    | plain hy => exact hx.unique hy
    | minus => exact absurd rfl hx.ne_minus
  | minus hx =>
    generalize hs : '-' :: _ = s at hy
    cases hy with
    | plain hy => exact absurd hs.symm hy.ne_minus
    | minus hy =>
      cases hs
      rw [hx.unique hy]

/-- A text stands for a whole number of units. -/
theorem Denotes.exists_units {s : List Char} {x : ℚ} (h : Denotes s x) :
    ∃ n : Int, (n : ℚ) = x * 10 ^ 8 := by
  cases h with
  | plain h => exact ⟨_, by rw [← h.units, Int.cast_natCast]⟩
  | minus h => exact ⟨-_, by rw [neg_mul, ← h.units, Int.cast_neg, Int.cast_natCast]⟩

/-! ## The reader -/

/-- A character is the digit of a number just if it is a decimal digit and the number is its
distance from zero. -/
theorem digit?_eq_some_iff {c : Char} {d : Nat} :
    Integer.digit? c = some d ↔ c.isDigit ∧ d = c.toNat - '0'.toNat := by
  constructor
  · intro h
    have hc : c.isDigit := by
      unfold Integer.digit? at h
      split at h
      · next hc => simpa [Char.isDigit, Char.le_def] using hc
      · cases h
    rw [Integer.digit?_of_isDigit hc] at h
    exact ⟨hc, (Option.some.inj h).symm⟩
  · rintro ⟨hc, rfl⟩
    exact Integer.digit?_of_isDigit hc

/-- A text is read as a number if all its characters are digits. -/
theorem isDigit_of_digits? {s : List Char} {n : Nat} (h : digits? s = some n) :
    ∀ c ∈ s, c.isDigit := by
  induction s using List.reverseRecOn generalizing n with
  | nil => exact List.forall_mem_nil _
  | append_singleton s c ih =>
    rw [digits?, List.foldl_append, List.foldl_cons, List.foldl_nil, ← digits?] at h
    obtain ⟨m, hm, h⟩ := Option.bind_eq_some_iff.1 h
    obtain ⟨d, hd, -⟩ := Option.map_eq_some_iff.1 h
    exact List.forall_mem_append.2
      ⟨ih hm, List.forall_mem_singleton.2 (digit?_eq_some_iff.1 hd).1⟩

/-- Characters are read as the number that their digits make, just if all are decimal digits. -/
theorem digits?_eq_some_iff {s : List Char} {n : Nat} :
    digits? s = some n ↔ (∀ c ∈ s, c.isDigit) ∧ n = Nat.ofDigitChars 10 s 0 := by
  constructor
  · intro h
    have hs := isDigit_of_digits? h
    rw [digits?_eq hs] at h
    exact ⟨hs, (Option.some.inj h).symm⟩
  · rintro ⟨hs, rfl⟩
    exact digits?_eq hs

/-- A text is read as the units of the digits before and behind its first point. -/
theorem parseMagnitude_eq {s w f : List Char} (h : splitPoint s = (w, f)) {n : Nat} :
    parseMagnitude s = some n ↔
      w ≠ [] ∧ f.length ≤ 8 ∧ (∀ c ∈ w, c.isDigit) ∧ (∀ c ∈ f, c.isDigit) ∧
        n = unitsOf w f ∧ n ≤ most := by
  have hguard : (w.isEmpty = true ∨ 8 < f.length) ↔ ¬ (w ≠ [] ∧ f.length ≤ 8) := by
    rw [List.isEmpty_iff, not_and_or, not_not, not_le]
  rw [parseMagnitude, h]
  simp only [hguard, ite_not]
  split
  · next hshape =>
    simp only [Option.bind_eq_bind, Option.bind_eq_some_iff, digits?_eq_some_iff]
    constructor
    · rintro ⟨_, ⟨hw, rfl⟩, _, ⟨hf, rfl⟩, hn⟩
      split at hn
      · next hmost =>
        cases hn
        exact ⟨hshape.1, hshape.2, hw, hf, rfl, hmost⟩
      · cases hn
    · rintro ⟨-, -, hw, hf, rfl, hmost⟩
      exact ⟨_, ⟨hw, rfl⟩, _, ⟨hf, rfl⟩, if_pos hmost⟩
  · next hshape =>
    constructor
    · intro h
      cases h
    · rintro ⟨hne, hlen, -⟩
      exact absurd ⟨hne, hlen⟩ hshape

/-- A text is read as a magnitude if it stands for one, unless there are too many units. -/
theorem parseMagnitude_eq_some_iff {s : List Char} {n : Nat} :
    parseMagnitude s = some n ↔ (∃ x, Magnitude s x ∧ (n : ℚ) = x * 10 ^ 8) ∧ n ≤ most := by
  constructor
  · intro h
    by_cases hs : '.' ∈ s
    · obtain ⟨w, f, rfl, hpoint⟩ := List.eq_append_cons_of_mem hs
      obtain ⟨hne, hlen, hw, hf, rfl, hmost⟩ := (parseMagnitude_eq (splitPoint_append hpoint f)).1 h
      exact ⟨⟨_, .point hne hw hf hlen, unitsOf_eq w hlen⟩, hmost⟩
    · obtain ⟨hne, -, hw, -, rfl, hmost⟩ := (parseMagnitude_eq (splitPoint_of_notMem hs)).1 h
      exact ⟨⟨_, .whole hne hw, unitsOf_nil s⟩, hmost⟩
  · rintro ⟨⟨x, hx, hn⟩, hmost⟩
    cases hx with
    | whole hne hw =>
      rw [← unitsOf_nil, Nat.cast_inj] at hn
      exact (parseMagnitude_eq (splitPoint_of_notMem (notMem_of_isDigit hw))).2
        ⟨hne, Nat.zero_le 8, hw, List.forall_mem_nil _, hn, hmost⟩
    | @point w f hne hw hf hlen =>
      rw [← unitsOf_eq w hlen, Nat.cast_inj] at hn
      exact (parseMagnitude_eq (splitPoint_append (notMem_of_isDigit hw) f)).2
        ⟨hne, hlen, hw, hf, hn, hmost⟩

/-- Behind a minus sign, the negative of the magnitude is read. -/
theorem parse_minus (s : List Char) :
    parse ('-' :: s) = (parseMagnitude s).map fun n : Nat => -(n : Int) := by
  rw [parse]
  cases parseMagnitude s <;> rfl

/-- Without a minus sign in front, the magnitude is read. -/
theorem parse_plain {s : List Char} (h : ∀ rest, s ≠ '-' :: rest) :
    parse s = (parseMagnitude s).map fun n : Nat => (n : Int) := by
  unfold parse
  split
  · next rest => exact absurd rfl (h rest)
  · cases parseMagnitude s <;> rfl

/-- A text is read as the units that it denotes, exactly, unless there are too many. -/
theorem parse_eq_some_iff {s : List Char} {n : Int} :
    parse s = some n ↔ (∃ x, Denotes s x ∧ (n : ℚ) = x * 10 ^ 8) ∧ n.natAbs ≤ most := by
  constructor
  · intro h
    by_cases hs : ∃ rest, s = '-' :: rest
    · obtain ⟨rest, rfl⟩ := hs
      rw [parse_minus] at h
      obtain ⟨m, hm, rfl⟩ := Option.map_eq_some_iff.1 h
      obtain ⟨⟨x, hx, hmx⟩, hmost⟩ := parseMagnitude_eq_some_iff.1 hm
      refine ⟨⟨-x, .minus hx, ?_⟩, by omega⟩
      rw [neg_mul, ← hmx, Int.cast_neg, Int.cast_natCast]
    · rw [parse_plain (not_exists.1 hs)] at h
      obtain ⟨m, hm, rfl⟩ := Option.map_eq_some_iff.1 h
      obtain ⟨⟨x, hx, hmx⟩, hmost⟩ := parseMagnitude_eq_some_iff.1 hm
      exact ⟨⟨x, .plain hx, by rw [← hmx, Int.cast_natCast]⟩, by omega⟩
  · rintro ⟨⟨x, hx, hn⟩, hmost⟩
    cases hx with
    | plain hx =>
      obtain ⟨m, hm⟩ : ∃ m : Nat, (m : ℚ) = x * 10 ^ 8 := ⟨_, hx.units⟩
      have hnat : n = (m : Int) := by
        rw [← hm] at hn
        exact_mod_cast hn
      rw [parse_plain fun rest => hx.ne_minus,
        parseMagnitude_eq_some_iff.2 ⟨⟨x, hx, hm⟩, by omega⟩, Option.map_some, hnat]
    | @minus rest x hx =>
      obtain ⟨m, hm⟩ : ∃ m : Nat, (m : ℚ) = x * 10 ^ 8 := ⟨_, hx.units⟩
      have hneg : n = -(m : Int) := by
        rw [neg_mul, ← hm] at hn
        exact_mod_cast hn
      rw [parse_minus, parseMagnitude_eq_some_iff.2 ⟨⟨x, hx, hm⟩, by omega⟩, Option.map_some, hneg]

/-! ## The printer -/

/-- A number of units is written with 8 digits behind the point. -/
theorem render_eq (n : Int) :
    ∃ whole fraction, render n = whole ++ '.' :: fraction ∧ '.' ∉ whole ∧ fraction.length = 8 ∧
      ∀ c ∈ fraction, c.isDigit := by
  have hlen : (Integer.padded 8 (n.natAbs % unitsOfOne)).length = 8 :=
    Integer.length_padded (by decide) (Nat.mod_lt _ (by decide))
  refine ⟨(if n < 0 then ['-'] else []) ++ Integer.digits (n.natAbs / unitsOfOne), _, rfl, ?_, hlen,
    Integer.isDigit_of_mem_padded⟩
  rw [List.mem_append, not_or]
  refine ⟨?_, notMem_of_isDigit Integer.isDigit_of_mem_digits⟩
  split <;> decide

/-- The digits of a number of units, around the point, stand for it. -/
theorem magnitude_render (n : Nat) :
    Magnitude (Integer.digits (n / unitsOfOne) ++ '.' :: Integer.padded 8 (n % unitsOfOne))
      (n / 10 ^ 8) := by
  have hlen : (Integer.padded 8 (n % unitsOfOne)).length = 8 :=
    Integer.length_padded (by decide) (Nat.mod_lt n (by decide))
  have hunits :
      unitsOf (Integer.digits (n / unitsOfOne)) (Integer.padded 8 (n % unitsOfOne)) = n := by
    rw [unitsOf, hlen, Integer.ofDigitChars_padded, Integer.digits, Nat.ofDigitChars_ten_toDigits,
      Nat.sub_self, Nat.pow_zero, Nat.mul_one, Nat.div_add_mod']
  have hx := unitsOf_eq (Integer.digits (n / unitsOfOne)) (Nat.le_of_eq hlen)
  rw [hunits] at hx
  rw [hx, mul_div_cancel_right₀ _ (by norm_num)]
  exact .point Nat.toDigits_ne_nil Integer.isDigit_of_mem_digits Integer.isDigit_of_mem_padded
    (Nat.le_of_eq hlen)

/-- The text of a number of units stands for them. -/
theorem denotes_render (n : Int) : Denotes (render n) (n / 10 ^ 8) := by
  have hx := magnitude_render n.natAbs
  unfold render
  split
  · next hn =>
    have hneg : (n : ℚ) / 10 ^ 8 = -(n.natAbs / 10 ^ 8) := by
      rw [← neg_div, ← Int.cast_natCast, Int.ofNat_natAbs_of_nonpos (by omega)]
      push_cast
      rw [neg_neg]
    rw [hneg]
    exact .minus hx
  · next hn =>
    have hnat : (n : ℚ) / 10 ^ 8 = n.natAbs / 10 ^ 8 := by
      rw [← Int.cast_natCast, Int.natAbs_of_nonneg (by omega)]
    rw [hnat]
    exact .plain hx

/-- The text of a number of units is read back, unless there are too many. -/
theorem parse_render_eq (n : Int) :
    parse (render n) = if n.natAbs ≤ most then some n else none := by
  split
  · next hmost => exact parse_render hmost
  · next hmost =>
    refine Option.eq_none_iff_forall_ne_some.2 fun m hm => ?_
    obtain ⟨⟨x, hx, hmx⟩, hle⟩ := parse_eq_some_iff.1 hm
    rw [hx.unique (denotes_render n), div_mul_cancel₀ _ (by norm_num), Int.cast_inj] at hmx
    rw [hmx] at hle
    exact hmost hle

end LedgerFeed.Fixed

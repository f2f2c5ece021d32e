import LedgerFeed.Json.Number

/-!
# Integers that have a double

An integer has a double unless it is far beyond 128 bits: rounding adds little to a fraction
(`fraction_le_of_ofFraction`), so the products that integers are read by stay below the largest
double (`narrow_isSome`).
-/

namespace LedgerFeed

namespace Binary64

variable {num den : Nat} {x y : Binary64}

/-- The nearest integer is at most one above the quotient. -/
theorem nearest_le (num den : Nat) : nearest num den ≤ num / den + 1 := by
  simp only [nearest]
  split
  · omega
  split <;> omega

/-- The exponent of a fraction is no more than the binary logarithm of its numerator. -/
theorem exponentOf_le (num den : Nat) : exponentOf num den ≤ num.log2 := by
  simp only [exponentOf]
  split <;> omega

/-- An integer loses no more than 53 places. -/
theorem le_exponentOf_one (num : Nat) : -53 ≤ exponentOf num 1 := by
  have hone : Nat.log2 1 = 0 := rfl
  simp only [exponentOf, hone]
  split <;> omega

/-- A fraction has a number if its numerator is not too large. -/
theorem ofFraction_isSome (h : num.log2 ≤ 970) : (ofFraction num den).isSome := by
  have hle := exponentOf_le num den
  simp only [ofFraction]
  split
  · rfl
  · split <;> rw [if_neg (by omega)] <;> rfl

/-- The numerator of the magnitude of a number. -/
theorem fraction_fst (x : Binary64) : x.fraction.1 = x.mantissa * 2 ^ x.exponent.toNat := by
  unfold fraction
  split
  · rfl
  · next h =>
    have hzero : x.exponent.toNat = 0 := by omega
    rw [hzero, Nat.pow_zero, Nat.mul_one]

/-- Rounded at its exponent, an integer grows by 54 places at most. -/
theorem nearest_scaled_le (h : num ≠ 0) :
    nearest (scaled num 1 (exponentOf num 1)).1 (scaled num 1 (exponentOf num 1)).2
      * 2 ^ (exponentOf num 1).toNat ≤ num * 2 ^ 54 := by
  have hlow := le_exponentOf_one num
  have hhigh := exponentOf_le num 1
  generalize exponentOf num 1 = e at *
  by_cases he : 0 ≤ e
  · have hpow : 2 ^ e.toNat ≤ num :=
      Nat.le_trans (Nat.pow_le_pow_right (by decide) (by omega)) (Nat.log2_self_le h)
    rw [scaled, if_pos he, Nat.one_mul]
    calc nearest num (2 ^ e.toNat) * 2 ^ e.toNat
        ≤ (num / 2 ^ e.toNat + 1) * 2 ^ e.toNat := Nat.mul_le_mul_right _ (nearest_le _ _)
      _ = num / 2 ^ e.toNat * 2 ^ e.toNat + 2 ^ e.toNat := Nat.succ_mul _ _
      _ ≤ num + num := Nat.add_le_add (Nat.div_mul_le_self _ _) hpow
      _ ≤ num * 2 ^ 54 := by omega
  · have hzero : e.toNat = 0 := by omega
    have hpow : 2 ^ (-e).toNat ≤ 2 ^ 53 := Nat.pow_le_pow_right (by decide) (by omega)
    rw [scaled, if_neg he, hzero, Nat.pow_zero, Nat.mul_one]
    calc nearest (num * 2 ^ (-e).toNat) 1
        ≤ num * 2 ^ (-e).toNat / 1 + 1 := nearest_le _ _
      _ = num * 2 ^ (-e).toNat + 1 := by rw [Nat.div_one]
      _ ≤ num * 2 ^ 53 + 1 := Nat.add_le_add_right (Nat.mul_le_mul_left _ hpow) _
      _ ≤ num * 2 ^ 54 := by omega

/-- The number nearest to an integer is not much larger. -/
theorem fraction_le_of_ofFraction (h : ofFraction num 1 = some x) :
    x.fraction.1 ≤ num * 2 ^ 54 := by
  rw [fraction_fst]
  by_cases hzero : num = 0
  · rw [ofFraction, if_pos hzero] at h
    cases h
    exact Nat.le_of_eq (by rw [hzero]; rfl)
  have hle := nearest_scaled_le hzero
  simp only [ofFraction, if_neg hzero] at h
  generalize exponentOf num 1 = e at *
  generalize nearest (scaled num 1 e).1 (scaled num 1 e).2 = m at *
  by_cases hm : m = 2 ^ 53
  · -- the mantissa is halved, and the exponent makes up for it
    simp only [if_pos hm] at h
    split at h
    · cases h
    cases h
    have hpow : 2 ^ (e + 1).toNat ≤ 2 ^ (e.toNat + 1) :=
      Nat.pow_le_pow_right (by decide) (by omega)
    have hmul := Nat.mul_le_mul_left (2 ^ 52) hpow
    rw [hm] at hle
    simp only [Nat.pow_succ 2 e.toNat] at hmul
    show 2 ^ 52 * 2 ^ (e + 1).toNat ≤ _
    omega
  · simp only [if_neg hm] at h
    split at h
    · cases h
    cases h
    exact hle

/-- The binary logarithm of a number is bounded by the exponent of a power above it. -/
theorem log2_le {m k : Nat} (h : m ≤ 2 ^ k) : m.log2 ≤ k := by
  by_cases hzero : m = 0
  · rw [hzero]
    exact Nat.zero_le k
  · have hpow : 2 ^ k < 2 ^ (k + 1) := Nat.pow_lt_pow_right (by decide) (Nat.lt_succ_self k)
    exact Nat.le_of_lt_succ ((Nat.log2_lt hzero).2 (Nat.lt_of_le_of_lt h hpow))

/-- The product of numbers near to integers is a number if the integers are not too large. -/
theorem mul_isSome {m n j k : Nat} (hm : m ≤ 2 ^ j) (hn : n ≤ 2 ^ k) (hjk : j + k ≤ 800)
    (hx : ofFraction m 1 = some x) (hy : ofFraction n 1 = some y) : (x.mul y).isSome := by
  have hproduct : x.fraction.1 * y.fraction.1 ≤ 2 ^ (j + 54 + (k + 54)) := by
    rw [Nat.pow_add 2 (j + 54), Nat.pow_add 2 j, Nat.pow_add 2 k]
    exact Nat.mul_le_mul
      (Nat.le_trans (fraction_le_of_ofFraction hx) (Nat.mul_le_mul_right _ hm))
      (Nat.le_trans (fraction_le_of_ofFraction hy) (Nat.mul_le_mul_right _ hn))
  have hlog := log2_le hproduct
  exact ofFraction_isSome (Nat.le_trans hlog (by omega))

end Binary64

namespace Json

/-- Only as many digits are taken into a significand as fit 64 bits. -/
theorem significand_bounds {n : Nat} (h : n < 2 ^ 64) (digits : List Nat) :
    (significand n digits).1 < 2 ^ 64 ∧ (significand n digits).2.length ≤ digits.length := by
  induction digits generalizing n with
  | nil => exact ⟨h, Nat.le_refl _⟩
  | cons d digits ih =>
    unfold significand
    split
    · next hd =>
      obtain ⟨hlt, hle⟩ := ih hd
      exact ⟨hlt, Nat.le_succ_of_le hle⟩
    · exact ⟨h, Nat.le_refl _⟩

/-- A significand of 64 bits with a few zeros behind it has a number. -/
theorem scale_isSome {n k : Nat} (hn : n < 2 ^ 64) (hk : k ≤ 39) : (scale n k).isSome := by
  have hn : n ≤ 2 ^ 64 := Nat.le_of_lt hn
  have hpower : 10 ^ k ≤ 2 ^ 130 :=
    Nat.le_trans (Nat.pow_le_pow_right (by decide) hk) (by decide)
  have hsome : ∀ {m j : Nat}, m ≤ 2 ^ j → j ≤ 970 → ∃ x, Binary64.ofFraction m 1 = some x :=
    fun hm hj => Option.isSome_iff_exists.1
      (Binary64.ofFraction_isSome (Nat.le_trans (Binary64.log2_le hm) hj))
  obtain ⟨x, hx⟩ := hsome hn (by decide)
  obtain ⟨y, hy⟩ := hsome hpower (by decide)
  have hsmall : (k : Int) ≤ 308 := by omega
  rw [scale, hx, Option.bind_some, if_neg (by omega), if_pos hsmall, Int.natAbs_natCast, powerOfTen,
    hy, Option.bind_some]
  exact Binary64.mul_isSome hn hpower (by decide) hx hy

/-- An integer of 128 bits can be read from its digits, as it is or as a double. -/
theorem narrow_isSome (negative : Bool) {n : Nat} (h : n < 2 ^ 128) :
    (Number.integer negative n).narrow.isSome := by
  have hlength : (Nat.toDigits 10 n).length ≤ 39 :=
    (Nat.length_toDigits_le_iff (by decide) (by decide)).2 (Nat.lt_trans h (by decide))
  obtain ⟨hlt, hle⟩ := significand_bounds (n := 0) (by decide)
    ((Nat.toDigits 10 n).map fun c => c.toNat - 48)
  rw [List.length_map] at hle
  have hscale := scale_isSome hlt (Nat.le_trans hle hlength)
  rw [Number.narrow]
  split
  · rfl
  · rw [Option.isSome_map, roundInteger, Option.isSome_map]
    exact hscale

end Json

end LedgerFeed

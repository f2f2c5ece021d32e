import LedgerFeed.Text.Fixed

/-!
# Decimal text reads back

The text of an integer is read as the integer by a reader whose range has it (`parse_render`), and
the text of a fixed-point number as its units. Both readers fold over the digits, which stand for
`Nat.ofDigitChars`.
-/

namespace LedgerFeed.Integer

variable {lo hi : Int}

/-- A character that is a digit has its place behind `0` as value. -/
theorem digit?_of_isDigit {c : Char} (h : c.isDigit) : digit? c = some (c.toNat - '0'.toNat) := by
  have hc : '0' ≤ c ∧ c ≤ '9' := by simpa [Char.isDigit, Char.le_def] using h
  rw [digit?, if_pos hc]
  rfl

/-- Digits make a number no smaller. -/
theorem le_ofDigitChars (n : Nat) (s : List Char) : n ≤ Nat.ofDigitChars 10 s n := by
  have hp : 0 < 10 ^ s.length := Nat.pow_pos (by decide)
  have hn := Nat.le_mul_of_pos_left n hp
  rw [Nat.ofDigitChars_eq_ofDigitChars_zero]
  omega

/-- Digits are read as their number if it is not above the range. -/
theorem readUp_eq {s : List Char} (hs : ∀ c ∈ s, c.isDigit) {n : Nat}
    (h : (Nat.ofDigitChars 10 s n : Int) ≤ hi) :
    readUp hi n s = .ok (Nat.ofDigitChars 10 s n : Int) := by
  induction s generalizing n with
  | nil => simp [readUp]
  | cons c s ih =>
    obtain ⟨hc, hs⟩ := List.forall_mem_cons.1 hs
    rw [Nat.ofDigitChars_cons] at h ⊢
    have hle := le_ofDigitChars (10 * n + (c.toNat - '0'.toNat)) s
    have hrest := ih hs h
    have hstep : 10 * (n : Int) + (c.toNat - '0'.toNat : Nat) =
        (10 * n + (c.toNat - '0'.toNat) : Nat) := by omega
    rw [readUp, digit?_of_isDigit hc]
    simp only [hstep]
    rw [if_pos (by omega)]
    exact hrest

/-- Digits behind a minus sign are read as their number if that is not below the range. -/
theorem readDown_eq {s : List Char} (hs : ∀ c ∈ s, c.isDigit) {n : Nat}
    (h : lo ≤ -(Nat.ofDigitChars 10 s n : Int)) :
    readDown lo (-n) s = .ok (-(Nat.ofDigitChars 10 s n : Int)) := by
  induction s generalizing n with
  | nil => simp [readDown]
  | cons c s ih =>
    obtain ⟨hc, hs⟩ := List.forall_mem_cons.1 hs
    rw [Nat.ofDigitChars_cons] at h ⊢
    have hle := le_ofDigitChars (10 * n + (c.toNat - '0'.toNat)) s
    have hrest := ih hs h
    have hstep : 10 * -(n : Int) - (c.toNat - '0'.toNat : Nat) =
        -((10 * n + (c.toNat - '0'.toNat) : Nat) : Int) := by omega
    rw [readDown, digit?_of_isDigit hc]
    simp only [hstep]
    rw [if_pos (by omega)]
    exact hrest

/-- The digits of a number are decimal digits. -/
theorem isDigit_of_mem_digits {n : Nat} : ∀ c ∈ digits n, c.isDigit :=
  fun _ => Nat.isDigit_of_mem_toDigits (by decide) (by decide)

/-- A number of at most `width` digits is padded to `width` digits. -/
theorem length_padded {width n : Nat} (hw : 0 < width) (h : n < 10 ^ width) :
    (padded width n).length = width := by
  have hle : (digits n).length ≤ width := (Nat.length_toDigits_le_iff (by decide) hw).2 h
  simp [padded, hle]

/-- Padding does not change the number that digits stand for. -/
theorem ofDigitChars_padded (width n : Nat) :
    Nat.ofDigitChars 10 (padded width n) 0 = n := by
  simp [padded, digits, Nat.ofDigitChars_append]

/-- Padded digits are decimal digits. -/
theorem isDigit_of_mem_padded {width n : Nat} : ∀ c ∈ padded width n, c.isDigit := by
  intro c hc
  rcases List.mem_append.1 hc with hzero | hdigit
  · rw [List.eq_of_mem_replicate hzero]
    rfl
  · exact isDigit_of_mem_digits c hdigit

/-- A padded number has a first digit. -/
theorem padded_eq_cons (width n : Nat) : ∃ c rest, padded width n = c :: rest ∧ c.isDigit := by
  have hne : padded width n ≠ [] := fun h => Nat.toDigits_ne_nil (List.append_eq_nil_iff.1 h).2
  obtain ⟨c, rest, h⟩ := List.exists_cons_of_ne_nil hne
  exact ⟨c, rest, h, isDigit_of_mem_padded c (by rw [h]; exact List.mem_cons_self)⟩

/-- The digits of a number start with a digit, so with no sign. -/
theorem digits_eq_cons (n : Nat) : ∃ c rest, digits n = c :: rest ∧ c ≠ '+' ∧ c ≠ '-' := by
  obtain ⟨c, rest, h⟩ := List.exists_cons_of_ne_nil (Nat.toDigits_ne_nil (n := n) (b := 10))
  have hc : c.isDigit := isDigit_of_mem_digits c (by rw [digits, h]; exact List.mem_cons_self)
  exact ⟨c, rest, h, fun he => by simp [he] at hc, fun he => by simp [he] at hc⟩

/-- A text without a sign is read upwards. -/
theorem parse_of_no_sign {c : Char} (rest : List Char) (hplus : c ≠ '+') (hminus : c ≠ '-') :
    parse lo hi (c :: rest) = readUp hi 0 (c :: rest) := by
  unfold parse
  split
  case h_6 => rfl
  all_goals simp_all

/-- The text of an integer of the range stands for it. -/
theorem parse_render {n : Int} (h0 : lo ≤ n) (h1 : n ≤ hi) : parse lo hi (render n) = .ok n := by
  have hv : Nat.ofDigitChars 10 (digits n.natAbs) 0 = n.natAbs := Nat.ofDigitChars_ten_toDigits
  obtain ⟨c, rest, hd, hplus, hminus⟩ := digits_eq_cons n.natAbs
  unfold render
  split
  · next hn =>
    have hread : readDown lo (-(0 : Nat)) (digits n.natAbs) = _ :=
      readDown_eq isDigit_of_mem_digits (by omega)
    have hlo : lo < 0 := by omega
    have hneg : -(n.natAbs : Int) = n := by omega
    rw [hv, hd, hneg] at hread
    rw [hd]
    simp only [parse, if_pos hlo]
    exact hread
  · next hn =>
    have hread : readUp hi (0 : Nat) (digits n.natAbs) = _ :=
      readUp_eq isDigit_of_mem_digits (by omega)
    have hc : (n.natAbs : Int) = n := by omega
    rw [hv, hd, hc] at hread
    rw [hd, parse_of_no_sign rest hplus hminus]
    exact hread

end LedgerFeed.Integer

namespace LedgerFeed.Fixed

/-- Digits stand for their number. -/
theorem digits?_eq {s : List Char} (hs : ∀ c ∈ s, c.isDigit) :
    digits? s = some (Nat.ofDigitChars 10 s 0) := by
  have hfold : ∀ n, s.foldl (fun n c => n.bind fun n =>
      (Integer.digit? c).map fun d => 10 * n + d) (some n) = some (Nat.ofDigitChars 10 s n) := by
    induction s with
    | nil => intro n; simp
    | cons c s ih =>
      obtain ⟨hc, hs⟩ := List.forall_mem_cons.1 hs
      intro n
      rw [List.foldl_cons, Nat.ofDigitChars_cons, ← ih hs]
      simp [Integer.digit?_of_isDigit hc]
  exact hfold 0

/-- A text without points is split off at the first point behind it. -/
theorem splitPoint_append {before : List Char} (h : '.' ∉ before) (behind : List Char) :
    splitPoint (before ++ '.' :: behind) = (before, behind) := by
  induction before with
  | nil => rfl
  | cons c before ih =>
    have hc : c ≠ '.' := fun he => h (he ▸ List.mem_cons_self)
    have hb : '.' ∉ before := fun hb => h (List.mem_cons_of_mem c hb)
    rw [List.cons_append, splitPoint, if_neg hc, ih hb]

/-- The digits around the point stand for the number of units. -/
theorem parseMagnitude_render {n : Nat} (h : n ≤ most) :
    parseMagnitude (Integer.digits (n / unitsOfOne) ++ '.' :: Integer.padded 8 (n % unitsOfOne)) =
      some n := by
  have hpoint : '.' ∉ Integer.digits (n / unitsOfOne) :=
    fun hmem => absurd (Integer.isDigit_of_mem_digits _ hmem) (by decide)
  have hne : Integer.digits (n / unitsOfOne) ≠ [] := Nat.toDigits_ne_nil
  have hlen : (Integer.padded 8 (n % unitsOfOne)).length = 8 :=
    Integer.length_padded (by decide) (Nat.mod_lt n (by decide))
  have hwhole : Nat.ofDigitChars 10 (Integer.digits (n / unitsOfOne)) 0 = n / unitsOfOne :=
    Nat.ofDigitChars_ten_toDigits
  have hsum : n / unitsOfOne * unitsOfOne + n % unitsOfOne * 10 ^ (8 - 8) = n := by
    rw [Nat.sub_self, Nat.pow_zero, Nat.mul_one, Nat.div_add_mod']
  rw [parseMagnitude, splitPoint_append hpoint]
  simp only [hlen, digits?_eq Integer.isDigit_of_mem_digits,
    digits?_eq Integer.isDigit_of_mem_padded, hwhole, Integer.ofDigitChars_padded]
  rw [if_neg (by simp [hne])]
  rw [Option.bind_eq_bind, Option.bind_some, Option.bind_some, hsum, if_pos h]

/-- A text without a minus sign is read as a magnitude. -/
theorem parse_of_no_sign {c : Char} {rest : List Char} (h : c ≠ '-') {n : Nat}
    (hn : parseMagnitude (c :: rest) = some n) : parse (c :: rest) = some (n : Int) := by
  unfold parse
  split
  · simp_all
  · rw [hn]
    rfl

/-- The text of a number of units stands for it. -/
theorem parse_render {n : Int} (h : n.natAbs ≤ most) : parse (render n) = some n := by
  have hread := parseMagnitude_render h
  obtain ⟨c, rest, hd, -, hminus⟩ := Integer.digits_eq_cons (n.natAbs / unitsOfOne)
  unfold render
  split
  · next hn =>
    have hneg : -(n.natAbs : Int) = n := by omega
    simp only [List.cons_append, List.nil_append, parse, hread]
    exact congrArg some hneg
  · next hn =>
    have hc : (n.natAbs : Int) = n := by omega
    rw [hd, List.cons_append] at hread
    simp only [List.nil_append, hd, List.cons_append, parse_of_no_sign hminus hread, hc]

end LedgerFeed.Fixed

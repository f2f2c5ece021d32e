import LedgerFeed.Proofs.Text.Decimal
import LedgerFeed.Timestamp.Text

/-!
# Timestamps read back

The text of a timestamp stands for the timestamp (`parse_render`), whatever the year, the fraction
and the second. Every part of the text is padded to a width that its reader takes at once, or ends
where something else than a digit comes.
-/

namespace LedgerFeed.Timestamp

open LedgerFeed.Text

/-! ## Numbers -/

/-- What follows a number does not continue it. -/
def EndsDigits (s : List Char) : Prop :=
  ∀ c ∈ s.head?, Integer.digit? c = none

/-- Digits are split off up to the most that are taken, or up to what ends them. -/
theorem splitDigits_append {s rest : List Char} {most : Nat} (hs : ∀ c ∈ s, c.isDigit)
    (hlen : s.length ≤ most) (hend : s.length = most ∨ EndsDigits rest) :
    splitDigits most (s ++ rest) = (s.map fun c => c.toNat - '0'.toNat, rest) := by
  induction s generalizing most with
  | nil =>
    cases most with
    | zero => rfl
    | succ most =>
      have hrest := hend.resolve_left (by simp)
      cases rest with
      | nil => rfl
      | cons c rest =>
        have hc := hrest c rfl
        simp [splitDigits, hc]
  | cons c s ih =>
    obtain ⟨hc, hs⟩ := List.forall_mem_cons.1 hs
    rw [List.length_cons] at hlen hend
    cases most with
    | zero => omega
    | succ most =>
      have hrest := ih hs (Nat.le_of_succ_le_succ hlen) (hend.imp_left Nat.succ.inj)
      simp [splitDigits, Integer.digit?_of_isDigit hc, hrest]

/-- Digits have the value of the number that they are written for. -/
theorem valueOf_map (s : List Char) :
    valueOf (s.map fun c => c.toNat - '0'.toNat) = Nat.ofDigitChars 10 s 0 := by
  rw [valueOf, List.foldl_map]
  rfl

/-- A number is read from its digits, if these are as many as it may have or no digit follows. -/
theorem readNumber_append {s rest : List Char} {most : Nat} (hs : ∀ c ∈ s, c.isDigit)
    (hne : s ≠ []) (hlen : s.length ≤ most) (hend : s.length = most ∨ EndsDigits rest) :
    readNumber most (s ++ rest) = some (Nat.ofDigitChars 10 s 0, rest) := by
  rw [readNumber, splitDigits_append hs hlen hend, ← valueOf_map]
  cases s with
  | nil => exact absurd rfl hne
  | cons c s => rfl

/-- A padded number is read back if it is taken as a whole, and ends there. -/
theorem readNumber_padded {width n most : Nat} {rest : List Char}
    (hlen : (Integer.padded width n).length ≤ most)
    (hend : (Integer.padded width n).length = most ∨ EndsDigits rest) :
    readNumber most (Integer.padded width n ++ rest) = some (n, rest) := by
  obtain ⟨c, s, h, -⟩ := Integer.padded_eq_cons width n
  have hne : Integer.padded width n ≠ [] := by simp [h]
  rw [readNumber_append Integer.isDigit_of_mem_padded hne hlen hend, Integer.ofDigitChars_padded]

/-- A digit is not blank. -/
theorem isBlank_of_isDigit {c : Char} (h : c.isDigit) : isBlank c = false := by
  have hc : 48 ≤ c.toNat ∧ c.toNat ≤ 57 := by
    simpa [Char.isDigit, Char.le_def, UInt32.le_iff_toNat_le] using h
  simp only [isBlank, Bool.or_eq_false_iff, Bool.and_eq_false_imp, decide_eq_true_eq,
    decide_eq_false_iff_not, beq_eq_false_iff_ne]
  omega

/-- There are no blanks in front of a padded number. -/
theorem trimStart_padded (width n : Nat) (rest : List Char) :
    trimStart (Integer.padded width n ++ rest) = Integer.padded width n ++ rest := by
  obtain ⟨c, s, h, hc⟩ := Integer.padded_eq_cons width n
  simp [trimStart, h, isBlank_of_isDigit hc]

/-- A number of two digits is read back, whatever follows. -/
theorem readPart_padded {n : Nat} (h : n < 100) (rest : List Char) :
    readPart (Integer.padded 2 n ++ rest) = some (n, rest) := by
  have hlen : (Integer.padded 2 n).length = 2 := Integer.length_padded (by decide) h
  rw [readPart, trimStart_padded]
  exact readNumber_padded (Nat.le_of_eq hlen) (.inl hlen)

/-! ## Dates -/

/-- A character that is no digit ends a number. -/
theorem endsDigits_cons {c : Char} (h : Integer.digit? c = none) (rest : List Char) :
    EndsDigits (c :: rest) := by
  intro d hd
  cases hd
  exact h

/-- A year without a sign has four digits at most. -/
theorem readYear_of_isDigit {c : Char} (h : c.isDigit) (s : List Char) :
    readYear (c :: s) = (readNumber 4 (c :: s)).map fun (n, rest) => ((n : Int), rest) := by
  unfold readYear
  split
  case h_3 => rfl
  all_goals
    next hs =>
    rw [(List.cons.inj hs).1] at h
    exact absurd h (by decide)

/-- A year is read back from its text, in four digits or behind a sign. -/
theorem readYear_renderYear (year : Int) (rest : List Char) :
    readYear (renderYear year ++ '-' :: rest) = some (year, '-' :: rest) := by
  have hend : EndsDigits ('-' :: rest) := endsDigits_cons (by decide) rest
  -- behind a sign a year has as many digits as there are, so it ends at the mark behind it
  have hsigned : readNumber (Integer.padded 4 year.natAbs ++ '-' :: rest).length
      (Integer.padded 4 year.natAbs ++ '-' :: rest) = some (year.natAbs, '-' :: rest) :=
    readNumber_padded (by rw [List.length_append]; omega) (.inr hend)
  unfold renderYear
  split
  · next hneg =>
    have hyear : -(year.natAbs : Int) = year := by omega
    simp only [List.cons_append, List.nil_append, readYear, hsigned, Option.map_some, hyear]
  split
  · next hneg _ =>
    have hyear : (year.natAbs : Int) = year := by omega
    simp only [List.cons_append, List.nil_append, readYear, hsigned, Option.map_some, hyear]
  · next hneg hfour =>
    have hyear : (year.natAbs : Int) = year := by omega
    have hlen : (Integer.padded 4 year.natAbs).length = 4 :=
      Integer.length_padded (by decide) (by omega)
    have hread : readNumber 4 (Integer.padded 4 year.natAbs ++ '-' :: rest) = _ :=
      readNumber_padded (Nat.le_of_eq hlen) (.inl hlen)
    obtain ⟨c, s, h, hc⟩ := Integer.padded_eq_cons 4 year.natAbs
    rw [h, List.cons_append] at hread
    simp only [List.nil_append, h, List.cons_append, readYear_of_isDigit hc, hread,
      Option.map_some, hyear]

/-- There are no blanks in front of a year. -/
theorem trimStart_renderYear (year : Int) (rest : List Char) :
    trimStart (renderYear year ++ rest) = renderYear year ++ rest := by
  unfold renderYear
  split
  · rfl
  split
  · rfl
  · exact trimStart_padded 4 year.natAbs rest

/-- No month has more than 31 days. -/
theorem daysInMonth_le (year : Int) (month : Nat) : daysInMonth year month ≤ 31 := by
  unfold daysInMonth
  split
  · split <;> decide
  all_goals decide

/-- A mark is read where it stands, unless it is a blank. -/
theorem readMark_cons {mark : Char} (h : isBlank mark = false) (rest : List Char) :
    readMark mark (mark :: rest) = some rest := by
  simp [readMark, trimStart, h]

/-- A date reads back, whatever follows. -/
theorem readDate_renderDate {d : Date} (h : d.IsValid) (rest : List Char) :
    readDate (renderDate d ++ rest) = some (d, rest) := by
  obtain ⟨-, -, -, hmonth, -, hday⟩ := h
  have hdays := daysInMonth_le d.year d.month
  have hdash : ∀ s, readMark '-' ('-' :: s) = some s := readMark_cons (by decide)
  have hmonth := readPart_padded (n := d.month) (by omega)
  have hday := readPart_padded (n := d.day) (by omega)
  rw [renderDate, List.append_assoc, List.append_assoc, readDate, trimStart_renderYear]
  simp only [List.cons_append, readYear_renderYear, hdash, hmonth, hday, Option.bind_eq_bind,
    Option.bind_some, Option.pure_def]

/-! ## Times -/

/-- Digits of a fraction are read back as so many nanoseconds. -/
theorem readFraction_padded {width n : Nat} {rest : List Char} (hw : 0 < width) (h9 : width ≤ 9)
    (hn : n < 10 ^ width) (hend : EndsDigits rest) :
    readFraction (Integer.padded width n ++ rest) = some (n * 10 ^ (9 - width), rest) := by
  have hlen : (Integer.padded width n).length = width := Integer.length_padded hw hn
  have hsplit : splitDigits 9 (Integer.padded width n ++ rest) = _ :=
    splitDigits_append Integer.isDigit_of_mem_padded (by omega) (.inr hend)
  have hrest : rest.dropWhile (Integer.digit? · |>.isSome) = rest := by
    cases rest with
    | nil => rfl
    | cons c rest =>
      have hc := hend c rfl
      simp [hc]
  obtain ⟨c, s, h, -⟩ := Integer.padded_eq_cons width n
  have hvalue := valueOf_map (Integer.padded width n)
  rw [Integer.ofDigitChars_padded] at hvalue
  rw [readFraction, hsplit]
  rw [h] at hvalue hlen ⊢
  simp only [List.map_cons, hrest]
  rw [List.map_cons] at hvalue
  rw [hvalue, List.length_cons, List.length_map, ← List.length_cons, hlen]

/-- The fraction of a second is read back, in none, three, six or nine digits. -/
theorem readNanosecond_renderFraction {n : Nat} (h : n < 10 ^ 9) {rest : List Char}
    (hend : EndsDigits rest) (hpoint : rest.head? ≠ some '.') :
    readNanosecond (renderFraction n ++ rest) = some (n, rest) := by
  unfold renderFraction
  split
  · next hzero =>
    rw [hzero, List.nil_append]
    unfold readNanosecond
    split
    · exact absurd rfl hpoint
    · rfl
  split
  · next hmod =>
    have hn : n / 10 ^ 6 * 10 ^ (9 - 3) = n := Nat.div_mul_cancel (Nat.dvd_of_mod_eq_zero hmod)
    rw [List.cons_append, readNanosecond,
      readFraction_padded (by decide) (by decide) (by omega) hend, hn]
  split
  · next hmod =>
    have hn : n / 10 ^ 3 * 10 ^ (9 - 6) = n := Nat.div_mul_cancel (Nat.dvd_of_mod_eq_zero hmod)
    rw [List.cons_append, readNanosecond,
      readFraction_padded (by decide) (by decide) (by omega) hend, hn]
  · rw [List.cons_append, readNanosecond,
      readFraction_padded (by decide) (by decide) h hend, Nat.sub_self, Nat.pow_zero, Nat.mul_one]

/-- A time of day reads back, whatever follows that does not go on with its fraction. -/
theorem readTime_renderTime {t : TimeOfDay} (h : t.IsValid) {rest : List Char}
    (hend : EndsDigits rest) (hpoint : rest.head? ≠ some '.') :
    readTime (renderTime t ++ rest) = some (t, rest) := by
  obtain ⟨hhour, hminute, hsecond, hnano⟩ := h
  have hcolon : ∀ s, readMark ':' (':' :: s) = some s := readMark_cons (by decide)
  have hhour := readPart_padded (n := t.hour) (by omega)
  have hminute := readPart_padded (n := t.minute) (by omega)
  have hsecond := readPart_padded (n := t.second) (by omega)
  have hnano := readNanosecond_renderFraction hnano hend hpoint
  rw [renderTime]
  simp only [List.append_assoc, List.cons_append, readTime, hhour, hcolon, hminute, hsecond, hnano,
    Option.bind_eq_bind, Option.bind_some, Option.pure_def]

/-! ## Moments -/

/-- Where clocks show universal time, a moment is the one that is shown. -/
theorem ofLocal?_zero (t : Timestamp) : ofLocal? t.date t.time 0 = some t := by
  obtain ⟨d, ⟨hour, minute, second, nanosecond⟩, hd, ht⟩ := t
  have hhour : hour < 24 := ht.1
  have hminute : minute < 60 := ht.2.1
  have hlow : ¬ (60 * (hour : Int) + minute - 0 < 0) := by omega
  have hhigh : 60 * (hour : Int) + minute - 0 < 1440 := by omega
  have hmod : ((60 * (hour : Int) + minute - 0) % 1440).toNat = 60 * hour + minute := by omega
  have hh : (60 * hour + minute) / 60 = hour := by omega
  have hm : (60 * hour + minute) % 60 = minute := by omega
  rw [ofLocal?, if_pos ⟨hd, ht⟩]
  simp only [hlow, hhigh, if_true, if_false, hmod, hh, hm, ofParts?]
  exact dif_pos ⟨hd, ht⟩

/-- The text of a timestamp stands for it. -/
theorem parse_render (t : Timestamp) : parse t.render = some t := by
  have hdate := readDate_renderDate t.date_valid
  have htime : readTime (renderTime t.time ++ ['Z']) = some (t.time, ['Z']) :=
    readTime_renderTime t.time_valid (endsDigits_cons (by decide) []) (by decide)
  have hoffset : readOffset (trimStart ['Z']) = some (0, []) := rfl
  rw [render, List.append_assoc, parse]
  simp only [hdate, List.cons_append, readSeparator, true_or, if_true, htime, hoffset,
    Option.bind_eq_bind, Option.bind_some, ofLocal?_zero]
  rfl

/-- A timestamp is read back from its text in a document. -/
theorem ofJson?_toJson (t : Timestamp) : ofJson? t.toJson = some t := by
  simp [ofJson?, toJson, Json.asText, parse_render]

end LedgerFeed.Timestamp

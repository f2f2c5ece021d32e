import LedgerFeed.Proofs.Codec.Sniffing
import LedgerFeed.Proofs.Codec.Verbose
import LedgerFeed.Proofs.Text.FixedPoint

/-!
# Fixed-point numbers in verbose payloads

A verbose payload has a fixed-point value just if its text denotes a rational whose units are in the
range of the type, and the value is that many units (`decode_fixed_exact`). The printer's texts
denote the units they are printed from.
-/

namespace LedgerFeed.Verbose

variable {t : FixedType} {s : String}

/-- The tree of a fixed-point number whose text may be any text. -/
def fixedTree (t : FixedType) (s : String) : Json :=
  tagged (.fixed t) (.text s)

/-- A text is read as the number of units that it denotes, if that is in the range. -/
theorem readFixed_eq_ok_iff {n : t.Num} :
    readFixed t (.text s) = .ok n ↔
      ∃ x, Fixed.Denotes s.toList x ∧ (n.val : ℚ) = x * 10 ^ 8 := by
  have hparse : readFixed t (.text s) = .ok n ↔ Fixed.parse s.toList = some n.val := by
    simp only [readFixed, decimalText, bind, Except.bind]
    cases Fixed.parse s.toList with
    | none => simp
    | some m =>
      by_cases hm : t.lo ≤ m ∧ m ≤ t.hi
      · simp only [Bounded.ofInt?, dif_pos hm, Except.ok.injEq, Option.some.injEq]
        constructor
        · rintro rfl
          rfl
        · rintro rfl
          rfl
      · simp only [Bounded.ofInt?, dif_neg hm, Option.some.injEq]
        constructor
        · intro h
          cases h
        · rintro rfl
          exact absurd ⟨n.lo_le, n.le_hi⟩ hm
  rw [hparse, Fixed.parse_eq_some_iff]
  exact and_iff_left (natAbs_le_most n)

/-- At every level of a value, a fixed-point number is what its text denotes. -/
theorem ofTree_fixedTree_eq_ok_iff (o : DecodeOptions) (levels : Nat) {v : Value} :
    ofTree o (levels + 1) (fixedTree t s) = .ok v ↔
      ∃ n : t.Num, v = .fixed t n ∧ ∃ x, Fixed.Denotes s.toList x ∧ (n.val : ℚ) = x * 10 ^ 8 := by
  rw [fixedTree, ofTree_tagged levels (by simp), readBody, map_eq_ok]
  simp only [readFixed_eq_ok_iff]
  exact exists_congr fun n => and_comm.trans (and_congr_left fun _ => eq_comm)

/-- The range of a type is a range of rationals. -/
theorem exists_num_iff {x : ℚ} (hx : ∃ n : Int, (n : ℚ) = x * 10 ^ 8) :
    (∃ n : t.Num, (n.val : ℚ) = x * 10 ^ 8) ↔ (t.lo : ℚ) ≤ x * 10 ^ 8 ∧ x * 10 ^ 8 ≤ t.hi := by
  obtain ⟨m, hm⟩ := hx
  simp only [← hm, Int.cast_inj, Int.cast_le]
  constructor
  · rintro ⟨n, rfl⟩
    exact ⟨n.lo_le, n.le_hi⟩
  · rintro ⟨hlo, hhi⟩
    exact ⟨⟨m, hlo, hhi⟩, rfl⟩

end LedgerFeed.Verbose

namespace LedgerFeed.Codec

open Verbose

/-- The payload of a fixed-point number is decoded as its tree is read, for the text of the tree is
a document within the limits. -/
theorem decodeVerbose_fixedTree (o : DecodeOptions) (t : FixedType) (s : String) {v : Value} :
    decodeVerbose o (Bytes.ofText (fixedTree t s).toText) = .ok v ↔
      ofTree o Value.maxDepth (fixedTree t s) = .ok v := by
  have hwritable : (fixedTree t s).IsWritable := tagged_isWritable trivial
  have hnesting : (fixedTree t s).nesting ≤ maxBrackets := by
    rw [fixedTree, nesting_tagged, Json.nesting]
    decide
  rw [decodeVerbose_eq_ok, decode_toText o hwritable hnesting]

/-- A text is accepted as a number of a fixed-point type, at any level of a value and as a payload
of its own, just if it denotes a rational whose units are in the range of the type, and the number
is that many units. What the printer makes of an integer of 128 bits has 8 digits behind the point,
denotes that many units, and is read back, the least integer excepted, whose digits are more than
the reader of any type takes. -/
theorem decode_fixed_exact (o : DecodeOptions) (t : FixedType) (s : String)
    (raw : IntegerType.int.Num) :
    (∀ v, decodeVerbose o (Bytes.ofText (fixedTree t s).toText) = .ok v ↔
      ∃ n : t.Num, v = .fixed t n ∧ ∃ x, Fixed.Denotes s.toList x ∧ (n.val : ℚ) = x * 10 ^ 8) ∧
    (∀ levels v, ofTree o (levels + 1) (fixedTree t s) = .ok v ↔
      ∃ n : t.Num, v = .fixed t n ∧ ∃ x, Fixed.Denotes s.toList x ∧ (n.val : ℚ) = x * 10 ^ 8) ∧
    ((∃ v, decodeVerbose o (Bytes.ofText (fixedTree t s).toText) = .ok v) ↔
      ∃ x, Fixed.Denotes s.toList x ∧ (t.lo : ℚ) ≤ x * 10 ^ 8 ∧ x * 10 ^ 8 ≤ t.hi) ∧
    (∃ whole fraction, Fixed.render raw.val = whole ++ '.' :: fraction ∧ '.' ∉ whole ∧
      fraction.length = 8 ∧ ∀ c ∈ fraction, c.isDigit) ∧
    Fixed.Denotes (Fixed.render raw.val) (raw.val / 10 ^ 8) ∧
    Fixed.parse (Fixed.render raw.val) = if raw.val = -(2 ^ 127) then none else some raw.val := by
  have hpayload : ∀ v, decodeVerbose o (Bytes.ofText (fixedTree t s).toText) = .ok v ↔
      ∃ n : t.Num, v = .fixed t n ∧ ∃ x, Fixed.Denotes s.toList x ∧ (n.val : ℚ) = x * 10 ^ 8 := by
    intro v
    rw [decodeVerbose_fixedTree]
    exact ofTree_fixedTree_eq_ok_iff o 63
  refine ⟨hpayload, fun levels v => ofTree_fixedTree_eq_ok_iff o levels, ?_, Fixed.render_eq _,
    Fixed.denotes_render _, ?_⟩
  · simp only [hpayload]
    constructor
    · rintro ⟨v, n, rfl, x, hx, hn⟩
      exact ⟨x, hx, (exists_num_iff hx.exists_units).1 ⟨n, hn⟩⟩
    · rintro ⟨x, hx, hrange⟩
      obtain ⟨n, hn⟩ := (exists_num_iff hx.exists_units).2 hrange
      exact ⟨_, n, rfl, x, hx, hn⟩
  · have hlo : -(2 ^ 127) ≤ raw.val := raw.lo_le
    have hhi : raw.val ≤ 2 ^ 127 - 1 := raw.le_hi
    have hmost : raw.val.natAbs ≤ Fixed.most ↔ raw.val ≠ -(2 ^ 127) := by
      rw [Fixed.most]
      omega
    simp only [Fixed.parse_render_eq, hmost, ite_not]

/-- Texts at the ends of both ranges, with leading zeros, a bare point and a negative zero; one unit
more is too much. -/
example : Fixed.parse "-00092233720368.54775808".toList = some FixedType.fix64.lo ∧
    Fixed.parse "184467440737.09551616".toList = some (FixedType.ufix64.hi + 1) ∧
    Fixed.parse "7.".toList = some 700000000 ∧ Fixed.parse "-0".toList = some 0 := by
  decide +kernel

end LedgerFeed.Codec

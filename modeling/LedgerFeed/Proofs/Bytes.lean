import Mathlib.Data.List.Induction
import LedgerFeed.Bytes

/-!
# Numbers as bytes

The bytes of a number to base 256 give the number back, as far as it fits: `toNat_ofNat` for numbers
without sign and `toInt_ofInt` for two's complement.
-/

namespace LedgerFeed.Bytes

@[simp] theorem length_ofNat (k n : Nat) : (ofNat k n).length = k := by
  induction k generalizing n with
  | zero => rfl
  | succ k ih => simp [ofNat, ih]

/-- One more byte behind a byte string is one more digit, the lowest. -/
theorem toNat_concat (b : Bytes) (x : UInt8) : toNat (b ++ [x]) = 256 * toNat b + x.toNat := by
  simp [toNat]

/-- The `k` lowest digits stand for the number modulo `256 ^ k`. -/
theorem toNat_ofNat (k n : Nat) : toNat (ofNat k n) = n % 256 ^ k := by
  induction k generalizing n with
  | zero => simp [ofNat, toNat, Nat.mod_one]
  | succ k ih =>
    have hp : 256 ^ (k + 1) = 256 * 256 ^ k := Nat.pow_succ'
    rw [ofNat, toNat_concat, ih, UInt8.toNat_ofNat', hp, Nat.mod_mul]
    omega

/-- A number of `k` digits is below `256 ^ k`. -/
theorem toNat_lt (b : Bytes) : toNat b < 256 ^ b.length := by
  induction b using List.reverseRecOn with
  | nil => simp [toNat]
  | append_singleton b x ih =>
    have hx : x.toNat < 256 := x.toNat_lt
    have hp : 256 ^ (b.length + 1) = 256 * 256 ^ b.length := Nat.pow_succ'
    rw [toNat_concat, List.length_append, List.length_singleton, hp]
    omega

/-- A byte string is told by its length and its number. -/
theorem ofNat_toNat (b : Bytes) : ofNat b.length (toNat b) = b := by
  induction b using List.reverseRecOn with
  | nil => rfl
  | append_singleton b x ih =>
    have hx : x.toNat < 256 := x.toNat_lt
    have hhigh : (256 * toNat b + x.toNat) / 256 = toNat b := by omega
    have hlow : UInt8.ofNat (256 * toNat b + x.toNat) = x := by
      rw [← UInt8.toNat_inj, UInt8.toNat_ofNat']
      omega
    rw [toNat_concat, List.length_append, List.length_singleton, ofNat, hhigh, hlow, ih]

/-- A two's complement number of `k` digits fits in `k` digits with a sign. -/
theorem toInt_bounds (b : Bytes) :
    -(256 ^ b.length : Nat) ≤ 2 * toInt b ∧ 2 * toInt b < (256 ^ b.length : Nat) := by
  have hlt := toNat_lt b
  unfold toInt
  split <;> omega

@[simp] theorem length_ofInt (k : Nat) (n : Int) : (ofInt k n).length = k :=
  length_ofNat _ _

/-- The bytes of a number in two's complement stand for it modulo `256 ^ k`. -/
theorem toNat_ofInt (k : Nat) (n : Int) : (toNat (ofInt k n) : Int) = n % (256 ^ k : Nat) := by
  have hpos : (0 : Int) < (256 ^ k : Nat) := by exact_mod_cast Nat.pow_pos (by decide)
  have h0 : 0 ≤ n % (256 ^ k : Nat) := Int.emod_nonneg _ (by omega)
  have h1 : n % (256 ^ k : Nat) < (256 ^ k : Nat) := Int.emod_lt_of_pos _ hpos
  rw [ofInt, toNat_ofNat, Nat.mod_eq_of_lt (by omega), Int.toNat_of_nonneg h0]

/-- A byte string is told by its length and its number without sign, also in two's complement. -/
theorem ofInt_toNat (b : Bytes) : ofInt b.length (toNat b) = b := by
  have hlt := toNat_lt b
  have hmod : (toNat b : Int) % (256 ^ b.length : Nat) = toNat b :=
    Int.emod_eq_of_lt (by omega) (by omega)
  rw [ofInt, hmod, Int.toNat_natCast, ofNat_toNat]

/-- A byte string is told by its length and its number in two's complement. -/
theorem ofInt_toInt (b : Bytes) : ofInt b.length (toInt b) = b := by
  have hmod : toInt b % (256 ^ b.length : Nat) = toNat b % (256 ^ b.length : Nat) := by
    unfold toInt
    split
    · rfl
    · exact Int.sub_emod_right _ _
  rw [ofInt, hmod]
  exact ofInt_toNat b

/-- A number without sign that fits in `k` bytes reads back from its two's complement. -/
theorem toNat_ofInt_of_nonneg {k : Nat} {n : Int} (h0 : 0 ≤ n) (h1 : n < (256 ^ k : Nat)) :
    (toNat (ofInt k n) : Int) = n := by
  rw [toNat_ofInt, Int.emod_eq_of_lt h0 h1]

/-- A number that fits in `k` bytes with a sign reads back from its two's complement. -/
theorem toInt_ofInt {k : Nat} {n : Int} (h0 : -(256 ^ k : Nat) ≤ 2 * n)
    (h1 : 2 * n < (256 ^ k : Nat)) : toInt (ofInt k n) = n := by
  have hn := toNat_ofInt k n
  rw [toInt, length_ofInt]
  rcases Int.lt_or_le n 0 with hneg | hpos
  · have hm : n % (256 ^ k : Nat) = n + (256 ^ k : Nat) := by
      rw [← Int.add_emod_right, Int.emod_eq_of_lt (by omega) (by omega)]
    rw [if_neg (by omega)]
    omega
  · have hm : n % (256 ^ k : Nat) = n := Int.emod_eq_of_lt hpos (by omega)
    rw [if_pos (by omega)]
    omega

end LedgerFeed.Bytes

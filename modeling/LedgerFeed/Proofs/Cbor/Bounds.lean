import LedgerFeed.Cbor.Reader
import LedgerFeed.Proofs.Bytes
import LedgerFeed.Proofs.Result

/-!
# Bounds on CBOR items

The argument of an item has 64 bits at most, whatever bytes it is read from. So have the lengths of
arrays and of texts.
-/

namespace LedgerFeed.Cbor

/-- What is taken has the length that was asked for. -/
theorem length_of_take {n : Nat} {b digits rest : Bytes} (h : take n b = .ok (digits, rest)) :
    digits.length = n := by
  induction n generalizing b digits rest with
  | zero =>
    cases h
    rfl
  | succ n ih =>
    cases b with
    | nil => cases h
    | cons x b =>
      rw [take] at h
      split at h
      · next digits' rest' hrest =>
        cases h
        rw [List.length_cons, ih hrest]
      · cases h

/-- A number of some bytes is below the power of 256 that does not fit into them. -/
theorem number_lt {k : Nat} {b rest : Bytes} {n : Nat} (h : number k b = .ok (n, rest)) :
    n < 256 ^ k := by
  obtain ⟨⟨digits, rest'⟩, htake, hn⟩ := bind_eq_ok.1 h
  cases hn
  rw [← length_of_take htake]
  exact Bytes.toNat_lt digits

/-- A mismatch is never a success. -/
theorem mismatch_ne_ok {α : Type} {n : Nat} {b : Bytes} {expected : Expected} {a : α} :
    mismatch n b expected ≠ .ok a := by
  intro h
  obtain ⟨_, -, h⟩ := bind_eq_ok.1 h
  cases h

/-- No argument has more than 64 bits. -/
theorem argument_lt {code : Nat} {b rest : Bytes} {n : Nat}
    (h : argument code b = .ok (n, rest)) : n < 2 ^ 64 := by
  unfold argument at h
  split at h
  · cases h
    omega
  split at h
  · exact Nat.lt_trans (number_lt h) (by decide)
  split at h
  · exact Nat.lt_trans (number_lt h) (by decide)
  split at h
  · exact Nat.lt_trans (number_lt h) (by decide)
  split at h
  · exact number_lt h
  · exact absurd h mismatch_ne_ok

/-- The declared size of an array has 64 bits at most. -/
theorem readArray_lt {b rest : Bytes} {n : Nat} (h : readArray b = .ok (some n, rest)) :
    n < 2 ^ 64 := by
  obtain ⟨⟨head, behind⟩, -, h⟩ := bind_eq_ok.1 h
  dsimp only at h
  split at h
  · split at h
    · cases h
    · obtain ⟨⟨size, rest'⟩, hsize, h⟩ := bind_eq_ok.1 h
      cases h
      exact argument_lt hsize
  · exact absurd h mismatch_ne_ok

/-- The length of a text that is read has 64 bits at most, because its head announces it. -/
theorem readText_lt {b rest : Bytes} {s : String} (h : readText b = .ok (s, rest)) :
    (Bytes.ofText s).length < 2 ^ 64 := by
  obtain ⟨⟨head, behind⟩, -, h⟩ := bind_eq_ok.1 h
  dsimp only at h
  split at h
  · obtain ⟨⟨size, rest'⟩, hsize, h⟩ := bind_eq_ok.1 h
    obtain ⟨⟨content, rest''⟩, hcontent, h⟩ := bind_eq_ok.1 h
    dsimp only at h
    split at h
    · next text htext =>
      cases h
      rw [Bytes.ofText_of_text? htext, length_of_take hcontent]
      exact argument_lt hsize
    · cases h
  · exact absurd h mismatch_ne_ok

end LedgerFeed.Cbor

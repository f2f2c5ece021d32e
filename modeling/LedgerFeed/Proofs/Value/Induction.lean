import LedgerFeed.Value.Basic

/-!
# Induction on values

A value holds other values in lists and in pairs. Induction gives the hypothesis for each member of
such a list, and the depth of a list is bounded if the depth of each member is.
-/

namespace LedgerFeed.Value

/-- Induction on values, with a hypothesis for each item, each key and value, each field. -/
@[elab_as_elim, induction_eliminator]
theorem induction {P : Value → Prop} (void : P .void) (absent : P .absent)
    (present : ∀ content, P content → P (.present content)) (bool : ∀ b, P (.bool b))
    (text : ∀ s, P (.text s)) (address : ∀ a, P (.address a))
    (integer : ∀ t n, P (.integer t n)) (fixed : ∀ t units, P (.fixed t units))
    (array : ∀ items, (∀ v ∈ items, P v) → P (.array items))
    (dictionary : ∀ entries, (∀ e ∈ entries, P e.1 ∧ P e.2) → P (.dictionary entries))
    (composite : ∀ k typeId fields, (∀ f ∈ fields, P f.2) → P (.composite k typeId fields))
    (path : ∀ domain identifier, P (.path domain identifier)) (type : ∀ t, P (.type t))
    (v : Value) : P v :=
  @Value.rec P (fun items => ∀ v ∈ items, P v) (fun entries => ∀ e ∈ entries, P e.1 ∧ P e.2)
    (fun fields => ∀ f ∈ fields, P f.2) (fun e => P e.1 ∧ P e.2) (fun f => P f.2)
    void absent present bool text address integer fixed array dictionary composite path type
    (fun _ h => nomatch h) (fun _ _ hv hrest => List.forall_mem_cons.2 ⟨hv, hrest⟩)
    (fun _ h => nomatch h) (fun _ _ he hrest => List.forall_mem_cons.2 ⟨he, hrest⟩)
    (fun _ h => nomatch h) (fun _ _ hf hrest => List.forall_mem_cons.2 ⟨hf, hrest⟩)
    (fun _ _ hk hv => ⟨hk, hv⟩) (fun _ _ hv => hv) v

/-- No value is without depth. -/
theorem depth_pos (v : Value) : 0 < v.depth := by
  cases v <;> simp only [depth] <;> omega

/-- `depthOfItems` in the per-item form. -/
theorem depthOfItems_le {items : List Value} {n : Nat} :
    depthOfItems items ≤ n ↔ ∀ v ∈ items, v.depth ≤ n := by
  induction items with
  | nil => simp [depthOfItems]
  | cons v rest ih => simp only [depthOfItems, Nat.max_le, ih, List.forall_mem_cons]

/-- `depthOfEntries` in the per-entry form. -/
theorem depthOfEntries_le {entries : List (Value × Value)} {n : Nat} :
    depthOfEntries entries ≤ n ↔ ∀ e ∈ entries, e.1.depth ≤ n ∧ e.2.depth ≤ n := by
  induction entries with
  | nil => simp [depthOfEntries]
  | cons e rest ih => simp only [depthOfEntries, Nat.max_le, ih, List.forall_mem_cons]

/-- `depthOfFields` in the per-field form. -/
theorem depthOfFields_le {fields : List (String × Value)} {n : Nat} :
    depthOfFields fields ≤ n ↔ ∀ f ∈ fields, f.2.depth ≤ n := by
  induction fields with
  | nil => simp [depthOfFields]
  | cons f rest ih => simp only [depthOfFields, Nat.max_le, ih, List.forall_mem_cons]

end LedgerFeed.Value

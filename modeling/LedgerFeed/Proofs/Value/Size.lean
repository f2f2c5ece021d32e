import Mathlib.Algebra.GroupWithZero.Nat
import LedgerFeed.Value.Basic

/-!
# How many values a value is made of

The count that decoding has to pay for: one for a value, and the count of every value inside it.
-/

namespace LedgerFeed.Value

mutual

/-- The value and all values inside it: contents, items, keys, and the values of entries and
fields. -/
def nodes : Value → Nat
  | .present v => 1 + nodes v
  | .array items => 1 + nodesOfItems items
  | .dictionary entries => 1 + nodesOfEntries entries
  | .composite _ _ fields => 1 + nodesOfFields fields
  | _ => 1

/-- `nodes` over items. -/
def nodesOfItems : List Value → Nat
  | [] => 0
  | v :: rest => nodes v + nodesOfItems rest

/-- `nodes` over keys and values. -/
def nodesOfEntries : List (Value × Value) → Nat
  | [] => 0
  | (k, v) :: rest => nodes k + nodes v + nodesOfEntries rest

/-- `nodes` over fields. -/
def nodesOfFields : List (String × Value) → Nat
  | [] => 0
  | (_, v) :: rest => nodes v + nodesOfFields rest

end

/-- `nodesOfItems` in the per-item form. -/
theorem nodesOfItems_eq (items : List Value) : nodesOfItems items = (items.map nodes).sum := by
  induction items with
  | nil => rfl
  | cons v rest ih => rw [nodesOfItems, ih, List.map_cons, List.sum_cons]

/-- `nodesOfEntries` in the per-entry form. -/
theorem nodesOfEntries_eq (entries : List (Value × Value)) :
    nodesOfEntries entries = (entries.map fun e => nodes e.1 + nodes e.2).sum := by
  induction entries with
  | nil => rfl
  | cons e rest ih => rw [nodesOfEntries, ih, List.map_cons, List.sum_cons]

/-- `nodesOfFields` in the per-field form. -/
theorem nodesOfFields_eq (fields : List (String × Value)) :
    nodesOfFields fields = (fields.map fun f => nodes f.2).sum := by
  induction fields with
  | nil => rfl
  | cons f rest ih => rw [nodesOfFields, ih, List.map_cons, List.sum_cons]

end LedgerFeed.Value

/-!
# Results of readers

A computation with a fault succeeds just if each of its parts does, and fails as the first part that
fails.
-/

namespace LedgerFeed

variable {ε α β : Type}

/-- A sequence of two parts succeeds just if the first does and the second does on its result. -/
theorem bind_eq_ok {x : Except ε α} {f : α → Except ε β} {b : β} :
    (x >>= f) = .ok b ↔ ∃ a, x = .ok a ∧ f a = .ok b := by
  cases x <;> simp [bind, Except.bind]

/-- A sequence of two parts fails just if the first fails, or the second does on the result of the
first. -/
theorem bind_eq_error {x : Except ε α} {f : α → Except ε β} {e : ε} :
    (x >>= f) = .error e ↔ x = .error e ∨ ∃ a, x = .ok a ∧ f a = .error e := by
  cases x <;> simp [bind, Except.bind]

/-- A mapped result is a success just if it is the image of one. -/
theorem map_eq_ok {x : Except ε α} {f : α → β} {b : β} :
    x.map f = .ok b ↔ ∃ a, x = .ok a ∧ f a = b := by
  cases x <;> simp [Except.map]

/-- What follows a computation matters only on the result that the computation gives. -/
theorem bind_congr_of_ok {x : Except ε α} {f g : α → Except ε β}
    (hfg : ∀ a, x = .ok a → f a = g a) : x >>= f = x >>= g := by
  cases x with
  | error e => rfl
  | ok a => exact hfg a rfl

/-- What is kept of a sequence of computations depends on what is kept of its parts. -/
theorem map_bind_congr {α' β' : Type} {x y : Except ε α} {f g : α → Except ε β} {p : α → α'}
    {q : β → β'} (hx : x.map p = y.map p)
    (hfg : ∀ a b, p a = p b → (f a).map q = (g b).map q) :
    (x >>= f).map q = (y >>= g).map q := by
  cases x with
  | error e =>
    cases y with
    | error e' => exact congrArg Except.error (Except.error.inj hx)
    | ok b => cases hx
  | ok a =>
    cases y with
    | error e' => cases hx
    | ok b => exact hfg a b (Except.ok.inj hx)

/-- Two continuations that look the same through a map still do so behind the same computation. -/
theorem map_bind_congr_right {β' : Type} {x : Except ε α} {f g : α → Except ε β} {q : β → β'}
    (hfg : ∀ a, (f a).map q = (g a).map q) : (x >>= f).map q = (x >>= g).map q := by
  cases x with
  | error e => rfl
  | ok a => exact hfg a

end LedgerFeed

import LedgerFeed.Proofs.Session.Run

/-!
# Who is cancelled in a session

A subscription is cancelled with all the others or alone. `turn_isCancelled` says this of one turn
and `after_isCancelled` of a run: what has been cancelled alone has been so at some turn, and once
all subscriptions are cancelled, each of them is.
-/

namespace LedgerFeed.Session

section
variable (s : Session)

/-- The subscription with a number is cancelled. -/
def isCancelled (n : Nat) : Bool :=
  s.subscriptions[n]?.any fun h => h.subscription.cancelled

/-- A turn cancels all subscriptions. -/
def cancelsParent (t : Turn) : Bool :=
  (s.deed t).cancelsParent

/-- A turn cancels the subscription with a number alone. -/
def cancels (n : Nat) (t : Turn) : Bool :=
  s.subscriptions[n]?.any fun h => (s.deed t).cancels n h.holding

end

/-- At some turn of a run it is as `p` says. -/
def happens (p : Session → Turn → Bool) : Session → List Turn → Bool
  | _, [] => false
  | s, t :: ts => p s t || happens p (s.turn t) ts

/-- If all subscriptions are cancelled, each of them is. -/
def ReachesAll (s : Session) : Prop :=
  s.cancelled = true → ∀ n, n < s.subscriptions.length → s.isCancelled n = true

variable {s : Session}

/-- A subscription that there is is cancelled just if its token is. -/
theorem isCancelled_of_getElem? {n : Nat} {h : Held} (hn : s.subscriptions[n]? = some h) :
    s.isCancelled n = h.subscription.cancelled := by
  rw [isCancelled, hn]
  rfl

/-- A subscription that there is not is not cancelled. -/
theorem isCancelled_of_le {n : Nat} (hn : s.subscriptions.length ≤ n) :
    s.isCancelled n = false := by
  rw [isCancelled, List.getElem?_eq_none hn]
  rfl

/-- No turn cancels a subscription that there is not. -/
theorem cancels_of_le {n : Nat} (hn : s.subscriptions.length ≤ n) (t : Turn) :
    s.cancels n t = false := by
  rw [cancels, List.getElem?_eq_none hn]
  rfl

/-- A turn leaves a subscription cancelled, or cancels it alone or with all the others. -/
theorem turn_isCancelled (hs : s.IsCalm) (t : Turn) {n : Nat} (hn : n < s.subscriptions.length) :
    (s.turn t).isCancelled n = (s.isCancelled n || s.cancels n t || s.cancelsParent t) := by
  obtain ⟨h, hh⟩ : ∃ h, s.subscriptions[n]? = some h := ⟨_, List.getElem?_eq_getElem hn⟩
  have hturn := (turnsInto hs t).getElem?_eq_some.2 (.inl ⟨h, hh, rfl⟩)
  have heffect := (s.deed t).effect_becomes n (hs.subscriptions h (List.mem_of_getElem? hh))
  rw [isCancelled_of_getElem? hturn, heffect.cancelled, isCancelled_of_getElem? hh, cancels, hh,
    Bool.or_assoc]
  rfl

/-- A subscription that is not there before a turn is not cancelled after it, and nor is it by
it. -/
theorem turn_isCancelled_of_le (hs : s.IsCalm) (t : Turn) {n : Nat}
    (hn : s.subscriptions.length ≤ n) : (s.turn t).isCancelled n = false := by
  rw [isCancelled]
  cases hafter : (s.turn t).subscriptions[n]? with
  | none => rfl
  | some h =>
    rcases (turnsInto hs t).getElem?_eq_some.1 hafter with ⟨before, hbefore, -⟩ | ⟨-, ho⟩
    · rw [List.getElem?_eq_none hn] at hbefore
      cases hbefore
    · exact (deed_opened ho).2.2.1

/-- All subscriptions are cancelled after a turn just if they were or the turn cancels them. -/
theorem turn_cancelled (hs : s.IsCalm) (t : Turn) :
    (s.turn t).cancelled = (s.cancelled || s.cancelsParent t) :=
  (turnsInto hs t).cancelled

/-- What cancels all subscriptions reaches each of them, those that a turn opens too. -/
theorem turn_reachesAll (hs : s.IsCalm) (hr : s.ReachesAll) (t : Turn) :
    (s.turn t).ReachesAll := by
  intro hc n hn
  rw [turn_cancelled hs, Bool.or_eq_true] at hc
  by_cases hold : n < s.subscriptions.length
  · rw [turn_isCancelled hs t hold]
    rcases hc with hc | hc
    · simp [hr hc n hold]
    · simp [hc]
  · -- The subscription has just been opened, so nothing has been cancelled.
    have hafter := List.getElem?_eq_getElem hn
    rcases (turnsInto hs t).getElem?_eq_some.1 hafter with ⟨before, hbefore, -⟩ | ⟨-, ho⟩
    · exact absurd (List.getElem?_eq_some_iff.1 hbefore).1 hold
    · obtain ⟨hcancelled, hparent, -, -⟩ := deed_opened ho
      rcases hc with hc | hc
      · rw [hcancelled] at hc
        cases hc
      · rw [cancelsParent, hparent] at hc
        cases hc

/-- All subscriptions have been cancelled at the end of a run just if they were before it or
something has cancelled them. -/
theorem after_cancelled (hs : s.IsCalm) (ts : List Turn) :
    (s.after ts).cancelled = (s.cancelled || happens cancelsParent s ts) := by
  induction ts generalizing s with
  | nil => exact (Bool.or_false _).symm
  | cons t ts ih => rw [after, ih (turn_isCalm hs t), turn_cancelled hs, happens, Bool.or_assoc]

/-- A subscription is cancelled at the end of a run just if all are, or it was before the run, or
some turn has cancelled it alone. -/
theorem after_isCancelled (hs : s.IsCalm) (hr : s.ReachesAll) (ts : List Turn) {n : Nat}
    (hn : n < (s.after ts).subscriptions.length) :
    (s.after ts).isCancelled n =
      ((s.after ts).cancelled || (s.isCancelled n || happens (·.cancels n) s ts)) := by
  induction ts generalizing s with
  | nil =>
    cases hc : s.cancelled with
    | true => simp [after, hr hc n hn, hc]
    | false => simp [after, happens, hc]
  | cons t ts ih =>
    have hcalm := turn_isCalm hs t
    rw [after, ih hcalm (turn_reachesAll hs hr t) hn, happens]
    by_cases hold : n < s.subscriptions.length
    · rw [turn_isCancelled hs t hold]
      cases hp : s.cancelsParent t with
      | false => simp only [Bool.or_false, Bool.or_assoc]
      | true =>
        have hparent : ((s.turn t).after ts).cancelled = true := by
          rw [after_cancelled hcalm, turn_cancelled hs, hp, Bool.or_true, Bool.true_or]
        simp [hparent]
    · have hold := Nat.le_of_not_lt hold
      rw [turn_isCancelled_of_le hs t hold, isCancelled_of_le hold, cancels_of_le hold,
        Bool.false_or, Bool.false_or]

end LedgerFeed.Session

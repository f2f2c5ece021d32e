import LedgerFeed.Proofs.Socket.Meaning

/-!
# How handshakes end

A handshake passes over what means nothing to its subscription and is decided by the first event
that means something. If there is none, it depends on whether the socket stays open.
-/

namespace LedgerFeed.Handshake
variable {id : String} {silent : Bool} {events rest : List SocketEvent} {h : Handshake}

/-- The rules for how a handshake over what arrives for the subscription with an ID ends. -/
inductive Ends (id : String) (silent : Bool) : List SocketEvent → Handshake → Prop
  | decided {passed rest : List SocketEvent} {e : SocketEvent} {m : Meaning} {h : Handshake}
      (hp : ∀ x ∈ passed, Means id x .nothing) (hm : Means id e m)
      (hd : m.decision rest = some h) : Ends id silent (passed ++ e :: rest) h
  | closed {events : List SocketEvent} (hp : ∀ x ∈ events, Means id x .nothing)
      (hs : silent = false) : Ends id silent events (.refused (.transport .closed))
  | unanswered {events : List SocketEvent} (hp : ∀ x ∈ events, Means id x .nothing)
      (hs : silent = true) : Ends id silent events .unanswered

/-- Nothing but `nothing` leaves a handshake undecided. -/
theorem decision_eq_none_iff {m : Meaning} : m.decision rest = none ↔ m = .nothing := by
  cases m <;> simp [Meaning.decision]

/-- An event that means nothing is passed over. -/
theorem run_cons_of_nothing {e : SocketEvent} (he : Means id e .nothing) :
    run id silent (e :: rest) = run id silent rest := by
  rw [run_cons, meaning_eq_iff.2 he]
  rfl

/-- An event that decides a handshake ends it. -/
theorem run_cons_of_decision {e : SocketEvent} {m : Meaning} (he : Means id e m)
    (hd : m.decision rest = some h) : run id silent (e :: rest) = h := by
  rw [run_cons, meaning_eq_iff.2 he, hd]
  rfl

/-- Any events that mean nothing are passed over. -/
theorem run_append_of_nothing {passed : List SocketEvent}
    (hp : ∀ x ∈ passed, Means id x .nothing) :
    run id silent (passed ++ events) = run id silent events := by
  induction passed with
  | nil => rfl
  | cons e passed ih =>
    rw [List.cons_append, run_cons_of_nothing (hp e List.mem_cons_self)]
    exact ih fun x hx => hp x (List.mem_cons_of_mem e hx)

/-- What means nothing may stand in front. -/
theorem Ends.cons {e : SocketEvent} (he : Means id e .nothing) (h' : Ends id silent events h) :
    Ends id silent (e :: events) h := by
  cases h' with
  | decided hp hm hd => exact .decided (List.forall_mem_cons.2 ⟨he, hp⟩) hm hd
  | closed hp hs => exact .closed (List.forall_mem_cons.2 ⟨he, hp⟩) hs
  | unanswered hp hs => exact .unanswered (List.forall_mem_cons.2 ⟨he, hp⟩) hs

/-- A handshake ends by the rules. -/
theorem ends_run (id : String) (silent : Bool) (events : List SocketEvent) :
    Ends id silent events (run id silent events) := by
  induction events with
  | nil =>
    cases silent with
    | true => exact .unanswered nofun rfl
    | false => exact .closed nofun rfl
  | cons e rest ih =>
    have he := means_meaning id e
    cases hd : (e.meaning id).decision rest with
    | none =>
      rw [decision_eq_none_iff.1 hd] at he
      rw [run_cons_of_nothing he]
      exact ih.cons he
    | some h =>
      rw [run_cons_of_decision he hd]
      rw [← List.nil_append (e :: rest)]
      exact .decided nofun he hd

/-- The rules allow no other end. -/
theorem Ends.run_eq (h' : Ends id silent events h) : run id silent events = h := by
  cases h' with
  | decided hp hm hd => rw [run_append_of_nothing hp, run_cons_of_decision hm hd]
  | closed hp hs =>
    rw [← List.append_nil events, run_append_of_nothing hp, hs]
    rfl
  | unanswered hp hs =>
    rw [← List.append_nil events, run_append_of_nothing hp, hs]
    rfl

/-- A handshake ends just as the rules say. -/
theorem run_eq_iff : run id silent events = h ↔ Ends id silent events h := by
  constructor
  · rintro rfl
    exact ends_run id silent events
  · exact Ends.run_eq

end LedgerFeed.Handshake

import LedgerFeed.Proofs.Subscription.Delivery

/-!
# The log of a worker

What is noticed of a worker from outside: that it asks the feed, that it puts a record in its
place, and that it puts a fault in its place. The log of a run is read off the subscription before
and after each turn of the worker, not off the conditions on which the worker acts.

`move_cases` says that phase and numbers change only by steps of the worker, and `deeds_cases` is
the one inversion of what a move adds to the log: what it is, and where that can happen.
`run_conserves` ties the log to the reader: whatever the reader takes has been put in its place.
-/

namespace LedgerFeed

/-- What is noticed of a worker. -/
inductive Deed (t : Topic)
  /-- It asks the feed, and has the answer or begins to wait for it. -/
  | asks
  | places (r : t.Record)
  | reports (e : StreamError)

namespace Deed
variable {t : Topic}

/-- The record that is put in its place. -/
def record? : Deed t → Option t.Record
  | .places r => some r
  | .asks | .reports _ => none

/-- The fault that is put in its place. -/
def fault? : Deed t → Option StreamError
  | .reports e => some e
  | .asks | .places _ => none

end Deed

/-- What is in a place now and was not there when the place was free. -/
def brought {α : Type} : Option α → Option α → List α
  | none, some a => [a]
  | _, _ => []

@[simp] theorem brought_of_free {α : Type} (b : Option α) : brought none b = b.toList := by
  cases b <;> rfl

@[simp] theorem brought_of_taken {α : Type} (a : α) (b : Option α) : brought (some a) b = [] := rfl

@[simp] theorem brought_self {α : Type} (a : Option α) : brought a a = [] := by
  cases a <;> rfl

/-- A place that is not emptied holds what was there, followed by what was brought. -/
theorem toList_append_brought {α : Type} {a b : Option α} (h : a = none ∨ b = a) :
    a.toList ++ brought a b = b.toList := by
  rcases h with rfl | rfl
  · simp
  · simp

namespace Subscription
variable {t : Topic} {s s' : Subscription t}

/-- In a turn of the worker the feed is asked: the worker comes to it, and goes from it with an
answer or to wait for one. -/
def asksFeed (s s' : Subscription t) : Bool :=
  match s.phase, s'.phase with
  | .asking, .answered _ | .asking, .waiting => true
  | _, _ => false

/-- What is noticed of a turn of the worker that leads from one state to another. -/
def deedsTo (s s' : Subscription t) : List (Deed t) :=
  (if s.asksFeed s' then [.asks] else []) ++ (brought s.record s'.record).map .places
    ++ (brought s.fault s'.fault).map .reports

/-- What is noticed of the worker in a move. -/
def deeds (s : Subscription t) : Move → List (Deed t)
  | .work => s.deedsTo (s.move .work).2
  | _ => []

/-- What is noticed of the worker in a run, in order. -/
def log (s : Subscription t) : List Move → List (Deed t)
  | [] => []
  | m :: ms => s.deeds m ++ (s.move m).2.log ms

/-- The log of two runs, one after the other. -/
theorem log_append (s : Subscription t) (ms ns : List Move) :
    s.log (ms ++ ns) = s.log ms ++ (s.after ms).log ns := by
  induction ms generalizing s with
  | nil => rfl
  | cons m ms ih => simp only [List.cons_append, log, after, ih, List.append_assoc]

/-- Nothing is noticed of the worker but in its own turns. -/
theorem deeds_of_ne_work {m : Move} (h : m ≠ .work) : s.deeds m = [] := by
  cases m with
  | work => exact (h rfl).elim
  | next | recv | error | cancel | cancelAll | closeRecords | closeFaults | drop => rfl

/-! ## Records and faults of a log -/

/-- The records that are put in place. -/
def placedIn (ds : List (Deed t)) : List t.Record :=
  ds.filterMap Deed.record?

/-- The faults that are put in place. -/
def reportedIn (ds : List (Deed t)) : List StreamError :=
  ds.filterMap Deed.fault?

/-- The records of two logs, one after the other. -/
theorem placedIn_append (ds es : List (Deed t)) :
    placedIn (ds ++ es) = placedIn ds ++ placedIn es :=
  List.filterMap_append

/-- The faults of two logs, one after the other. -/
theorem reportedIn_append (ds es : List (Deed t)) :
    reportedIn (ds ++ es) = reportedIn ds ++ reportedIn es :=
  List.filterMap_append

/-- What begins a log begins with the same records. -/
theorem placedIn_mono {ds es : List (Deed t)} (h : ds <+: es) : placedIn ds <+: placedIn es :=
  h.filterMap _

/-- What begins a log begins with the same faults. -/
theorem reportedIn_mono {ds es : List (Deed t)} (h : ds <+: es) :
    reportedIn ds <+: reportedIn es :=
  h.filterMap _

/-- A turn puts those records in place that are there after it and were not before. -/
theorem placedIn_deedsTo (s s' : Subscription t) :
    placedIn (s.deedsTo s') = brought s.record s'.record := by
  unfold deedsTo placedIn
  split <;> simp [List.filterMap_map, List.filterMap_cons, Function.comp_def, Deed.record?]

/-- A turn reports those faults that are in place after it and were not before. -/
theorem reportedIn_deedsTo (s s' : Subscription t) :
    reportedIn (s.deedsTo s') = brought s.fault s'.fault := by
  unfold deedsTo reportedIn
  split <;> simp [List.filterMap_map, List.filterMap_cons, Function.comp_def, Deed.fault?]

/-! ## What only the worker changes -/

/-- The worker has done nothing: its phase, the numbers and the feed are as before. A cancellation
stays, and a fault may have gone from its place. -/
structure Untouched (s s' : Subscription t) : Prop where
  phase : s'.phase = s.phase
  stats : s'.stats = s.stats
  feed : s'.feed = s.feed
  cancelled : s.cancelled = true → s'.cancelled = true
  fault : s'.fault = s.fault ∨ s'.fault = none

/-- Who does nothing leaves all untouched. -/
theorem Untouched.refl (s : Subscription t) : s.Untouched s :=
  ⟨rfl, rfl, rfl, id, .inl rfl⟩

/-- Only the turns of the worker are its doing. -/
theorem move_untouched {m : Move} (h : m ≠ .work) : s.Untouched (s.move m).2 := by
  by_cases hm : m.IsReading
  · rcases reading_cases s hm with h' | ⟨r, -, h'⟩ | ⟨e, -, -, h'⟩ <;> rw [h']
    · exact .refl s
    · exact ⟨rfl, rfl, rfl, id, .inl rfl⟩
    · exact ⟨rfl, rfl, rfl, id, .inr rfl⟩
  cases m with
  | work => exact (h rfl).elim
  | next | recv | error => exact (hm trivial).elim
  | cancel | cancelAll => exact ⟨rfl, rfl, rfl, fun _ => rfl, .inl rfl⟩
  | closeRecords => exact ⟨rfl, rfl, rfl, id, .inl rfl⟩
  | closeFaults => exact ⟨rfl, rfl, rfl, id, .inr rfl⟩
  | drop => exact ⟨rfl, rfl, rfl, fun _ => rfl, .inr rfl⟩

/-- A move is a step of the worker or none of its doing. -/
theorem move_cases (s : Subscription t) (m : Move) :
    Step s (s.move m).2 ∨ s.Untouched (s.move m).2 := by
  by_cases hm : m = .work
  · subst hm
    cases h : s.step with
    | none => right; simpa [move, h] using Untouched.refl s
    | some s' => left; simpa [move, h] using Step.of_step h
  · exact .inr (move_untouched hm)

/-! ## What a move adds to the log -/

/-- A worker that only goes on to another phase adds nothing to the log, unless it has asked the
feed. -/
theorem Enters.deedsTo_eq {p : Phase t} (h : s.Enters p) :
    s.deedsTo (s.enter p) = [] ∨ (s.deedsTo (s.enter p) = [.asks] ∧ s.phase = .asking) := by
  cases h with
  | wait hp => exact .inr ⟨by simp [deedsTo, asksFeed, enter, hp], hp⟩
  | stop hp | ask hp | stopWaiting hp | stopAtFault hp | meet hp | complete hp | refuse hp
  | stopOffering hp | send hp | giveUp hp | block hp | stopBlocked hp | wake hp | withhold hp
  | post hp | leave hp => left; simp [deedsTo, asksFeed, enter, hp]

/-- What a step of the worker adds to the log, and from where. -/
theorem Step.deeds_cases (h : Step s s') :
    s.deedsTo s' = [] ∨
    (s.deedsTo s' = [.asks] ∧ s.phase = .asking) ∨
    (∃ r, s.deedsTo s' = [.places r] ∧ s.phase = .sending r ∧ s.recordsOpen = true) ∨
    (∃ e, s.deedsTo s' = [.reports e] ∧ s.phase = .posting e ∧ s.faultsOpen = true) := by
  cases h with
  | enter h =>
    rcases h.deedsTo_eq with hd | hd
    · exact .inl hd
    · exact .inr (.inl hd)
  | message hp | fault hp | ended hp =>
    exact .inr (.inl ⟨by simp [deedsTo, asksFeed, answer, hp], hp⟩)
  | place hp ho hr =>
    exact .inr (.inr (.inl ⟨_, by simp [deedsTo, asksFeed, hp, hr], hp, ho⟩))
  | report hp =>
    cases ho : s.faultsOpen with
    | false => left; simp [deedsTo, asksFeed, hp]
    | true =>
      cases hf : s.fault with
      | some e => left; simp [deedsTo, asksFeed, hp, hf]
      | none =>
        exact .inr (.inr (.inr ⟨_, by simp [deedsTo, asksFeed, hp, hf], hp, rfl⟩))
  | receive hp => left; simp [deedsTo, asksFeed, Subscription.receive, hp]
  | convert hp | count hp | fail hp | finish hp => left; simp [deedsTo, asksFeed, hp]

/-- What a move adds to the log, and from where. -/
theorem deeds_cases (s : Subscription t) (m : Move) :
    s.deeds m = [] ∨
    (s.deeds m = [.asks] ∧ s.phase = .asking) ∨
    (∃ r, s.deeds m = [.places r] ∧ s.phase = .sending r ∧ s.recordsOpen = true) ∨
    (∃ e, s.deeds m = [.reports e] ∧ s.phase = .posting e ∧ s.faultsOpen = true) := by
  by_cases hm : m = .work
  · subst hm
    cases h : s.step with
    | some s' => simpa [deeds, move, h] using (Step.of_step h).deeds_cases
    | none =>
      left
      -- a worker that waits or is gone does nothing
      simp only [deeds, move, h, Option.getD_none]
      rcases waiting_cases h with ⟨hp, -⟩ | ⟨r, hp, -⟩ | hp <;> simp [deedsTo, asksFeed, hp]
  · exact .inl (deeds_of_ne_work hm)

/-! ## Invariants of runs -/

/-- What holds at the start of a run and is kept by every move holds at the end of the run. -/
theorem after_induction {P : Subscription t → Prop} (keeps : ∀ s m, P s → P (s.move m).2)
    (h : P s) (ms : List Move) : P (s.after ms) := by
  induction ms generalizing s with
  | nil => exact h
  | cons m ms ih => exact ih (keeps s m h)

/-- What is logged in states that have a property which every move keeps. -/
theorem log_induction {P : Subscription t → Prop} {D : Deed t → Prop}
    (keeps : ∀ s m, P s → P (s.move m).2) (logs : ∀ s m, P s → ∀ d ∈ s.deeds m, D d) (h : P s)
    (ms : List Move) : ∀ d ∈ s.log ms, D d := by
  induction ms generalizing s with
  | nil => exact fun _ hd => nomatch hd
  | cons m ms ih =>
    intro d hd
    rcases List.mem_append.1 hd with hd | hd
    · exact logs s m h d hd
    · exact ih (keeps s m h) d hd

/-- Nothing is logged in states that have a property which every move keeps and in which no move is
noticed. -/
theorem log_eq_nil {P : Subscription t → Prop} (keeps : ∀ s m, P s → P (s.move m).2)
    (logs : ∀ s m, P s → s.deeds m = []) (h : P s) (ms : List Move) : s.log ms = [] :=
  List.eq_nil_iff_forall_not_mem.2
    (log_induction (D := fun _ => False) keeps
      (fun s m hs d hd => by rw [logs s m hs] at hd; cases hd) h ms)

/-! ## The end of a log -/

/-- Who is gone is in the last phase. -/
theorem hasExited_iff (s : Subscription t) : s.hasExited = true ↔ s.phase = .exited := by
  unfold hasExited
  split
  · next h => simp [h]
  · next h => simpa using h

/-- Who has nothing left to do is in one of the last two phases. -/
theorem isLeaving_iff (s : Subscription t) :
    s.isLeaving = true ↔ s.phase = .leaving ∨ s.phase = .exited := by
  unfold isLeaving
  split
  · next h => simp [h]
  · next h => simp [h]
  · next h1 h2 => simpa using ⟨h1, h2⟩

/-- A worker with nothing left to do gets nothing more to do. -/
theorem move_isLeaving (m : Move) (h : s.isLeaving = true) : (s.move m).2.isLeaving = true := by
  by_cases hm : m = .work
  · subst hm
    rw [isLeaving_iff] at h
    rcases h with hp | hp <;> simp [move, step, enter, isLeaving, hp]
  · rw [isLeaving_iff] at h ⊢
    rwa [(move_untouched hm).phase]

/-- Nothing is noticed of a worker that has nothing left to do. -/
theorem log_of_isLeaving (h : s.isLeaving = true) (ms : List Move) : s.log ms = [] := by
  refine log_eq_nil (P := (·.isLeaving = true)) (fun _ m => move_isLeaving m) ?_ h ms
  intro s m hs
  rw [isLeaving_iff] at hs
  rcases deeds_cases s m with h | ⟨-, hp⟩ | ⟨r, -, hp, -⟩ | ⟨e, -, hp, -⟩
  · exact h
  · simp [hp] at hs
  · simp [hp] at hs
  · simp [hp] at hs

/-- What leads to a worker with nothing left to do: its turn, in which it gives up a report because
of a cancellation, puts a fault in its place, or records another outcome. -/
theorem leaving_cases {m : Move} (hn : s.isLeaving = false) (h : (s.move m).2.isLeaving = true) :
    m = .work ∧
      ((∃ e, s.phase = .reporting e ∧ s.cancelled = true ∧ (s.move m).2 = s.enter .leaving) ∨
        (∃ e, s.phase = .posting e ∧ (s.move m).2 = { s with
          phase := .leaving, fault := if s.faultsOpen then some e else s.fault }) ∨
        (∃ o, s.phase = .finishing o ∧ (s.move m).2 = { s with
          phase := .leaving, stats := { s.stats with outcome := o } })) := by
  have hp : ¬ (s.phase = .leaving ∨ s.phase = .exited) := by
    rw [← isLeaving_iff, hn]
    exact Bool.false_ne_true
  rw [isLeaving_iff] at h
  by_cases hm : m = .work
  · subst hm
    refine ⟨rfl, ?_⟩
    rcases move_cases s .work with hs | hu
    · generalize (s.move .work).2 = s' at h hs ⊢
      cases hs with
      | enter he =>
        cases he with
        | withhold hp hc => exact .inl ⟨_, hp, hc, rfl⟩
        | leave hl => exact (hp (.inl hl)).elim
        | stop | ask | wait | stopWaiting | stopAtFault | meet | complete | refuse | stopOffering
        | send | giveUp | block | stopBlocked | wake | post => simp [enter] at h
      | report hp => exact .inr (.inl ⟨_, hp, rfl⟩)
      | finish hp => exact .inr (.inr ⟨_, hp, rfl⟩)
      | message | fault | ended | receive | convert | place | count | fail =>
        simp [answer, Subscription.receive] at h
    · rw [hu.phase] at h
      exact (hp h).elim
  · rw [(move_untouched hm).phase] at h
    exact (hp h).elim

/-- A worker that reports a fault has nothing left to do then. -/
theorem isLeaving_of_reports {m : Move} {e : StreamError} (h : s.deeds m = [.reports e]) :
    (s.move m).2.isLeaving = true := by
  by_cases hm : m = .work
  · subst hm
    rcases deeds_cases s .work with h' | ⟨h', -⟩ | ⟨r, h', -⟩ | ⟨e', -, hp, -⟩
    · simp [h] at h'
    · simp [h] at h'
    · simp [h] at h'
    · simp [move, step, hp, isLeaving]
  · rw [deeds_of_ne_work hm] at h
    cases h

/-- A move reports nothing as long as the worker has something left to do after it. -/
theorem reportedIn_deeds {m : Move} (h : (s.move m).2.isLeaving = false) :
    reportedIn (s.deeds m) = [] := by
  rcases deeds_cases s m with h' | ⟨h', -⟩ | ⟨r, h', -⟩ | ⟨e, h', -⟩
  · rw [h']; rfl
  · rw [h']; rfl
  · rw [h']; rfl
  · rw [isLeaving_of_reports h'] at h; cases h

/-- Nothing has been reported as long as the worker has something left to do. -/
theorem reportedIn_log {ms : List Move} (h : (s.after ms).isLeaving = false) :
    reportedIn (s.log ms) = [] := by
  induction ms generalizing s with
  | nil => rfl
  | cons m ms ih =>
    cases hm : (s.move m).2.isLeaving with
    | false =>
      rw [log, reportedIn_append, reportedIn_deeds hm, ih h]
      rfl
    | true =>
      have hx : (s.after (m :: ms)).isLeaving = true :=
        after_induction (P := (·.isLeaving = true)) (fun _ m => move_isLeaving m) hm ms
      rw [h] at hx
      cases hx

/-- One fault is reported at most. -/
theorem length_reportedIn_log (s : Subscription t) (ms : List Move) :
    (reportedIn (s.log ms)).length ≤ 1 := by
  induction ms generalizing s with
  | nil => exact Nat.zero_le _
  | cons m ms ih =>
    rw [log, reportedIn_append]
    cases hx : (s.move m).2.isLeaving with
    | false => rw [reportedIn_deeds hx]; exact ih _
    | true =>
      rw [log_of_isLeaving hx]
      rcases deeds_cases s m with h | ⟨h, -⟩ | ⟨r, h, -⟩ | ⟨e, h, -⟩ <;> rw [h]
      · exact Nat.zero_le _
      · exact Nat.zero_le _
      · exact Nat.zero_le _
      · exact Nat.le_refl _

/-! ## What the reader takes

What the reader takes from a place was there or has been put there, and if nobody closes the side of
that place, the rest of it is still there.
-/

/-- The moves that leave the side of the records open. -/
def Move.keepsRecords : Move → Bool
  | .closeRecords | .drop => false
  | _ => true

/-- The moves that leave the side of the faults open. -/
def Move.keepsFaults : Move → Bool
  | .closeFaults | .drop => false
  | _ => true

/-- A step of the worker leaves a record that is in its place. -/
theorem Step.record_kept (h : Step s s') : s.record = none ∨ s'.record = s.record := by
  cases h with
  | place _ _ hr => exact .inl hr
  | enter | message | fault | ended | receive | convert | count | fail | report | finish =>
    exact .inr rfl

/-- A step of the worker leaves a fault that is in its place. -/
theorem Step.fault_kept (h : Step s s') (hl : s.FaultIsLast) :
    s.fault = none ∨ s'.fault = s.fault := by
  cases h with
  | report hp => exact .inl (hl (by simp [isLeaving, hp]))
  | enter | message | fault | ended | receive | convert | place | count | fail | finish =>
    exact .inr rfl

/-- Which sides are open after a move. -/
theorem move_sides (s : Subscription t) (m : Move) :
    (s.move m).2.recordsOpen = (s.recordsOpen && m.keepsRecords) ∧
      (s.move m).2.faultsOpen = (s.faultsOpen && m.keepsFaults) := by
  by_cases hm : m.IsReading
  · have hk : m.keepsRecords = true ∧ m.keepsFaults = true := by cases m <;> trivial
    rcases reading_cases s hm with h | ⟨r, -, h⟩ | ⟨e, -, -, h⟩ <;> simp [h, hk]
  cases m with
  | work =>
    cases h : s.step with
    | none => simp [move, h, Move.keepsRecords, Move.keepsFaults]
    | some s' =>
      have hs : s'.recordsOpen = s.recordsOpen ∧ s'.faultsOpen = s.faultsOpen := by
        cases Step.of_step h <;> exact ⟨rfl, rfl⟩
      simp [move, h, hs, Move.keepsRecords, Move.keepsFaults]
  | next | recv | error => exact (hm trivial).elim
  | cancel | cancelAll => exact ⟨(Bool.and_true _).symm, (Bool.and_true _).symm⟩
  | closeRecords => exact ⟨(Bool.and_false _).symm, (Bool.and_true _).symm⟩
  | closeFaults => exact ⟨(Bool.and_true _).symm, (Bool.and_false _).symm⟩
  | drop => exact ⟨(Bool.and_false _).symm, (Bool.and_false _).symm⟩

/-- Nothing is put in a place whose side is closed. -/
theorem log_of_closed (ms : List Move) :
    (s.recordsOpen = false → placedIn (s.log ms) = []) ∧
      (s.faultsOpen = false → reportedIn (s.log ms) = []) := by
  constructor
  · intro h
    refine List.filterMap_eq_nil_iff.2 (log_induction (P := (·.recordsOpen = false))
      (fun s m hs => by rw [(move_sides s m).1, hs]; rfl) ?_ h ms)
    intro s m hs d hd
    rcases deeds_cases s m with h | ⟨h, -⟩ | ⟨r, -, -, ho⟩ | ⟨e, h, -⟩
    · simp [h] at hd
    · simp only [h, List.mem_singleton] at hd; subst hd; rfl
    · simp [hs] at ho
    · simp only [h, List.mem_singleton] at hd; subst hd; rfl
  · intro h
    refine List.filterMap_eq_nil_iff.2 (log_induction (P := (·.faultsOpen = false))
      (fun s m hs => by rw [(move_sides s m).2, hs]; rfl) ?_ h ms)
    intro s m hs d hd
    rcases deeds_cases s m with h | ⟨h, -⟩ | ⟨r, h, -⟩ | ⟨e, -, -, ho⟩
    · simp [h] at hd
    · simp only [h, List.mem_singleton] at hd; subst hd; rfl
    · simp only [h, List.mem_singleton] at hd; subst hd; rfl
    · simp [hs] at ho

/-- What a move takes from an open place, and what is there after it, was there or is put there. -/
theorem move_conserves (hl : s.FaultIsLast) (m : Move) :
    (m.keepsRecords = true → recordsOf (s.move m).1.toList ++ (s.move m).2.record.toList =
        s.record.toList ++ placedIn (s.deeds m)) ∧
      (m.keepsFaults = true → faultsOf (s.move m).1.toList ++ (s.move m).2.fault.toList =
        s.fault.toList ++ reportedIn (s.deeds m)) := by
  by_cases hm : m.IsReading
  · have hd : s.deeds m = [] := deeds_of_ne_work (by rintro rfl; exact hm)
    rw [hd]
    rcases reading_cases s hm with h | ⟨r, hr, h⟩ | ⟨e, hf, -, h⟩
    · simp [h, recordsOf, faultsOf, placedIn, reportedIn]
    · simp [h, hr, recordsOf, faultsOf, placedIn, reportedIn, Item.record?, Item.fault?]
    · simp [h, hf, recordsOf, faultsOf, placedIn, reportedIn, Item.record?, Item.fault?]
  cases m with
  | work =>
    rw [deeds, placedIn_deedsTo, reportedIn_deedsTo]
    cases h : s.step with
    | none => simp [move, h, recordsOf, faultsOf]
    | some s' =>
      have hr := toList_append_brought (Step.of_step h).record_kept
      have hf := toList_append_brought ((Step.of_step h).fault_kept hl)
      simp [move, h, hr, hf, recordsOf, faultsOf]
  | next | recv | error => exact (hm trivial).elim
  | cancel | cancelAll =>
    exact ⟨fun _ => (List.append_nil _).symm, fun _ => (List.append_nil _).symm⟩
  | closeRecords =>
    refine ⟨?_, fun _ => (List.append_nil _).symm⟩
    intro h
    cases h
  | closeFaults =>
    refine ⟨fun _ => (List.append_nil _).symm, ?_⟩
    intro h
    cases h
  | drop =>
    constructor <;>
    · intro h
      cases h

/-- A move that closes a side takes nothing from its place and leaves nothing there. -/
theorem move_closes (s : Subscription t) (m : Move) :
    (m.keepsRecords = false → (s.move m).1 = none ∧ (s.move m).2.record = none) ∧
      (m.keepsFaults = false → (s.move m).1 = none ∧ (s.move m).2.fault = none) := by
  cases m with
  | work | next | recv | error | cancel | cancelAll => exact ⟨nofun, nofun⟩
  | closeRecords => exact ⟨fun _ => ⟨rfl, rfl⟩, nofun⟩
  | closeFaults => exact ⟨nofun, fun _ => ⟨rfl, rfl⟩⟩
  | drop => exact ⟨fun _ => ⟨rfl, rfl⟩, fun _ => ⟨rfl, rfl⟩⟩

/-- In a run that leaves a side open, what is taken from its place, and what is there at the end,
was there or has been put there. -/
theorem run_conserves (hl : s.FaultIsLast) (ms : List Move) :
    ((∀ m ∈ ms, m.keepsRecords = true) → recordsOf (s.taken ms) ++ (s.after ms).record.toList =
        s.record.toList ++ placedIn (s.log ms)) ∧
      ((∀ m ∈ ms, m.keepsFaults = true) → faultsOf (s.taken ms) ++ (s.after ms).fault.toList =
        s.fault.toList ++ reportedIn (s.log ms)) := by
  induction ms generalizing s with
  | nil => exact ⟨fun _ => (List.append_nil _).symm, fun _ => (List.append_nil _).symm⟩
  | cons m ms ih =>
    obtain ⟨ihr, ihf⟩ := ih (move_faultIsLast hl m)
    obtain ⟨hr, hf⟩ := move_conserves hl m
    simp only [taken, after, log, recordsOf_append, faultsOf_append, placedIn_append,
      reportedIn_append, List.append_assoc, List.forall_mem_cons]
    constructor
    · rintro ⟨hm, hms⟩
      rw [ihr hms, ← List.append_assoc, hr hm, List.append_assoc]
    · rintro ⟨hm, hms⟩
      rw [ihf hms, ← List.append_assoc, hf hm, List.append_assoc]

/-- What is taken in a run was there or has been put there. -/
theorem taken_prefix_log (hl : s.FaultIsLast) (ms : List Move) :
    recordsOf (s.taken ms) <+: s.record.toList ++ placedIn (s.log ms) ∧
      faultsOf (s.taken ms) <+: s.fault.toList ++ reportedIn (s.log ms) := by
  induction ms generalizing s with
  | nil => exact ⟨List.nil_prefix, List.nil_prefix⟩
  | cons m ms ih =>
    obtain ⟨ihr, ihf⟩ := ih (move_faultIsLast hl m)
    obtain ⟨hr, hf⟩ := move_conserves hl m
    obtain ⟨hr', hf'⟩ := move_closes s m
    obtain ⟨hcr, hcf⟩ := log_of_closed (s := (s.move m).2) ms
    obtain ⟨hor, hof⟩ := move_sides s m
    simp only [taken, log, recordsOf_append, faultsOf_append, placedIn_append, reportedIn_append,
      ← List.append_assoc]
    constructor
    · cases hm : m.keepsRecords with
      | true => rw [← hr hm, List.append_assoc]; exact (List.prefix_append_right_inj _).2 ihr
      | false =>
        obtain ⟨h1, h2⟩ := hr' hm
        rw [h2, hcr (by simp [hor, hm])] at ihr
        rw [h1, List.prefix_nil.1 ihr]
        exact List.nil_prefix
    · cases hm : m.keepsFaults with
      | true => rw [← hf hm, List.append_assoc]; exact (List.prefix_append_right_inj _).2 ihf
      | false =>
        obtain ⟨h1, h2⟩ := hf' hm
        rw [h2, hcf (by simp [hof, hm])] at ihf
        rw [h1, List.prefix_nil.1 ihf]
        exact List.nil_prefix

end Subscription

end LedgerFeed

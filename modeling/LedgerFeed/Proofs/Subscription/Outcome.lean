import LedgerFeed.Proofs.Subscription.Log

/-!
# The outcome of a subscription

A subscription comes to an outcome once. From then on the outcome stays, the worker neither asks the
feed nor puts a record in its place, and the only thing that may still be noticed of it is the
report of the fault that made it fail. The invariant is `Coherent`: the phase of the worker says
what the outcome can be, and a fault in its place belongs to a worker that has failed.
-/

namespace LedgerFeed

/-- The outcomes that go with a phase. -/
def Phase.Agrees {t : Topic} : Phase t → Outcome → Prop
  | .reporting _, o | .posting _, o => o = .failed
  | .finishing o', o => o = .running ∧ (o' = .completed ∨ o' = .cancelled)
  | .leaving, o | .exited, o => o ≠ .running
  | .receiving, o | .asking, o | .waiting, o | .answered _, o | .handling _, o | .offering _, o
  | .sending _, o | .blocked _, o | .placed, o | .failing _, o => o = .running

namespace Subscription
variable {t : Topic} {s s' : Subscription t}

/-- The outcome goes with the phase, and a fault in its place with a worker that has failed. -/
structure Coherent (s : Subscription t) : Prop where
  agrees : s.phase.Agrees s.stats.outcome
  fault : s.fault ≠ none → s.isLeaving = true ∧ s.stats.outcome = .failed

/-- A new subscription is running and has no fault in its place. -/
theorem coherent_ofFeed (c : SubscribeSettings) (feed : Feed t.Message) :
    (ofFeed c feed).Coherent := ⟨rfl, fun h => (h rfl).elim⟩

/-- A fault is in its place only when the worker has nothing left to do. -/
theorem Coherent.faultIsLast (hs : s.Coherent) : s.FaultIsLast := by
  intro hx
  cases hf : s.fault with
  | none => rfl
  | some e =>
    have h := (hs.fault (by simp [hf])).1
    rw [hx] at h
    cases h

/-- A worker that has nothing left to do has an outcome. -/
theorem Coherent.ended_of_isLeaving (hs : s.Coherent) (h : s.isLeaving = true) :
    s.stats.outcome ≠ .running := by
  have ha := hs.agrees
  rcases (isLeaving_iff s).1 h with hp | hp <;> rwa [hp] at ha

/-- The outcome goes with the phase to which the worker goes on. -/
theorem Enters.agrees {p : Phase t} {o : Outcome} (h : s.Enters p) (ha : s.phase.Agrees o) :
    p.Agrees o := by
  cases h with
  | ask hp | wait hp | meet hp | refuse hp | send hp | block hp | wake hp | post hp | leave hp =>
    rwa [hp] at ha
  | stop hp | stopWaiting hp | stopAtFault hp | stopOffering hp | giveUp hp | stopBlocked hp =>
    rw [hp] at ha
    exact ⟨ha, .inr rfl⟩
  | complete hp =>
    rw [hp] at ha
    exact ⟨ha, .inl rfl⟩
  | withhold hp =>
    rw [hp] at ha
    obtain rfl : o = .failed := ha
    exact nofun

/-- A step of the worker keeps phase, outcome and fault together. -/
theorem Step.coherent (h : Step s s') (hs : s.Coherent) : s'.Coherent := by
  have ha := hs.agrees
  have hf : s.isLeaving = false → s.fault = none := hs.faultIsLast
  cases h with
  | enter h =>
    refine ⟨h.agrees ha, fun hfault => ?_⟩
    obtain ⟨hl, ho⟩ := hs.fault hfault
    exact ⟨h.isLeaving hl, ho⟩
  | message hp | fault hp | ended hp | receive hp | convert hp | place hp | count hp =>
    rw [hp] at ha
    exact ⟨ha, fun h => (h (hf (by rw [isLeaving, hp]))).elim⟩
  | fail hp => exact ⟨rfl, fun h => (h (hf (by rw [isLeaving, hp]))).elim⟩
  | report hp =>
    rw [hp] at ha
    exact ⟨fun h => by simp [show s.stats.outcome = .failed from ha] at h, fun _ => ⟨rfl, ha⟩⟩
  | finish hp =>
    rw [hp] at ha
    refine ⟨?_, fun h => (h (hf (by rw [isLeaving, hp]))).elim⟩
    rcases ha.2 with rfl | rfl <;>
    · intro h
      cases h

/-- Every move keeps phase, outcome and fault together. -/
theorem move_coherent (m : Move) (hs : s.Coherent) : (s.move m).2.Coherent := by
  rcases move_cases s m with h | hu
  · exact h.coherent hs
  · refine ⟨by rw [hu.phase, hu.stats]; exact hs.agrees, fun hf => ?_⟩
    rw [isLeaving_iff, hu.phase, hu.stats, ← isLeaving_iff]
    rcases hu.fault with h | h
    · exact hs.fault (h ▸ hf)
    · exact (hf h).elim

/-- Phase, outcome and fault go together in every state that a subscription can come to. -/
theorem run_coherent (c : SubscribeSettings) (feed : Feed t.Message) (ms : List Move) :
    ((ofFeed c feed).after ms).Coherent :=
  after_induction (fun _ m => move_coherent m) (coherent_ofFeed c feed) ms

/-! ## After the outcome -/

/-- A subscription with an outcome keeps it. -/
theorem move_outcome (m : Move) (hs : s.Coherent) (ho : s.stats.outcome ≠ .running) :
    (s.move m).2.stats.outcome = s.stats.outcome := by
  have ha := hs.agrees
  rcases move_cases s m with h | hu
  · generalize (s.move m).2 = s' at h
    cases h with
    | fail hp => rw [hp] at ha; exact (ho ha).elim
    | finish hp => rw [hp] at ha; exact (ho ha.1).elim
    | enter | message | fault | ended | receive | convert | place | count | report => rfl
  · rw [hu.stats]

/-- A subscription that has come to an outcome, together with the outcome. -/
structure HasOutcome (s : Subscription t) (o : Outcome) : Prop where
  coherent : s.Coherent
  outcome : s.stats.outcome = o
  ended : o ≠ .running

/-- No move takes an outcome away. -/
theorem move_hasOutcome {o : Outcome} (m : Move) (h : s.HasOutcome o) :
    (s.move m).2.HasOutcome o where
  coherent := move_coherent m h.coherent
  outcome := (move_outcome m h.coherent (h.outcome ▸ h.ended)).trans h.outcome
  ended := h.ended

/-- An outcome stays to the end of a run. -/
theorem HasOutcome.after {o : Outcome} (h : s.HasOutcome o) (ms : List Move) :
    (s.after ms).HasOutcome o :=
  after_induction (P := (·.HasOutcome o)) (fun _ m => move_hasOutcome m) h ms

/-- A fault is reported only by a worker that has recorded its failure. -/
theorem failed_of_reports {m : Move} {e : StreamError} (hs : s.Coherent)
    (h : .reports e ∈ s.deeds m) : s.stats.outcome = .failed := by
  have ha := hs.agrees
  rcases deeds_cases s m with h' | ⟨h', -⟩ | ⟨r, h', -⟩ | ⟨e', -, hp, -⟩
  · simp [h'] at h
  · simp [h'] at h
  · simp [h'] at h
  · rw [hp] at ha
    exact ha

/-- After the outcome nothing but a report is noticed of the worker. -/
theorem HasOutcome.log {o : Outcome} (h : s.HasOutcome o) (ms : List Move) :
    ∀ d ∈ s.log ms, ∃ e, d = .reports e := by
  refine log_induction (P := (·.HasOutcome o)) (fun _ m => move_hasOutcome m) ?_ h ms
  intro s m hs d hd
  have ha := hs.coherent.agrees
  rw [hs.outcome] at ha
  rcases deeds_cases s m with h | ⟨-, hp⟩ | ⟨r, -, hp, -⟩ | ⟨e, h, -⟩
  · simp [h] at hd
  · rw [hp] at ha; exact (hs.ended ha).elim
  · rw [hp] at ha; exact (hs.ended ha).elim
  · exact ⟨e, by simpa [h] using hd⟩

/-- Who has not failed by the end of a run has reported nothing in it. -/
theorem reportedIn_of_ne_failed {ms : List Move} (hs : s.Coherent)
    (hn : (s.after ms).stats.outcome ≠ .failed) : reportedIn (s.log ms) = [] := by
  induction ms generalizing s with
  | nil => rfl
  | cons m ms ih =>
    have hm : reportedIn (s.deeds m) = [] := by
      refine List.filterMap_eq_nil_iff.2 fun d hd => ?_
      cases d with
      | asks | places => rfl
      | reports e =>
        have hout : s.HasOutcome .failed := ⟨hs, failed_of_reports hs hd, nofun⟩
        exact (hn (hout.after (m :: ms)).outcome).elim
    rw [log, reportedIn_append, hm, ih (move_coherent m hs) hn]
    rfl

/-- There is no fault in its place unless the worker has failed. -/
theorem Coherent.fault_eq_none (hs : s.Coherent) (hn : s.stats.outcome ≠ .failed) :
    s.fault = none := by
  cases hf : s.fault with
  | none => rfl
  | some e => exact (hn (hs.fault (by simp [hf])).2).elim

/-! ## The law of the outcome -/

/-- In every state that a subscription can come to: an outcome that is not `running` stays for good,
and from then on no record is put in its place and the feed is not asked; one fault is reported at
most, at a moment when the outcome is `failed`, which it then stays; with the outcome `completed` or
`cancelled` no fault has been reported or ever will be, and none is in its place; and who is told
that the records have ended finds an outcome. -/
theorem ends_once (t : Topic) (c : SubscribeSettings) (feed : Feed t.Message) (ms : List Move)
    (s : Subscription t) (hs : (ofFeed c feed).after ms = s) :
    (s.stats.outcome ≠ .running → ∀ ns,
      (s.after ns).stats.outcome = s.stats.outcome ∧ ∀ d ∈ s.log ns, ∃ e, d = .reports e) ∧
    (reportedIn ((ofFeed c feed).log ms)).length ≤ 1 ∧
    (∀ m e, .reports e ∈ s.deeds m → s.stats.outcome = .failed) ∧
    (reportedIn ((ofFeed c feed).log ms) ≠ [] → s.stats.outcome = .failed) ∧
    (s.stats.outcome = .completed ∨ s.stats.outcome = .cancelled → ∀ ns,
      reportedIn ((ofFeed c feed).log (ms ++ ns)) = [] ∧ (s.after ns).fault = none) ∧
    (s.next.1 = .ended → s.stats.outcome ≠ .running) := by
  subst hs
  have hc := run_coherent c feed ms
  refine ⟨?_, length_reportedIn_log _ ms, fun m e => failed_of_reports hc, ?_, ?_, ?_⟩
  · intro ho ns
    have h : ((ofFeed c feed).after ms).HasOutcome _ := ⟨hc, rfl, ho⟩
    exact ⟨(h.after ns).outcome, h.log ns⟩
  · intro hr
    exact Decidable.byContradiction fun hn =>
      hr (reportedIn_of_ne_failed (coherent_ofFeed c feed) hn)
  · intro ho ns
    have h : ((ofFeed c feed).after ms).HasOutcome _ :=
      ⟨hc, rfl, fun hr => by rcases ho with ho | ho <;> rw [hr] at ho <;> cases ho⟩
    -- the outcome is still the same after `ns`, so it is not `failed` there
    have hn : (((ofFeed c feed).after ms).after ns).stats.outcome ≠ .failed := by
      rw [(h.after ns).outcome]
      rcases ho with ho | ho <;> rw [ho] <;> exact nofun
    refine ⟨reportedIn_of_ne_failed (coherent_ofFeed c feed) ?_,
      (h.after ns).coherent.fault_eq_none hn⟩
    rwa [after_append]
  · intro hn
    exact hc.ended_of_isLeaving (isLeaving_of_hasExited ((next_ended_iff _).1 hn).2)

/-- A feed fails: after four turns of the worker the outcome is there, and two more report the fault
and do not change the outcome. -/
theorem ends_once_at_fault :
    ∃ s : Subscription .blocks,
      (ofFeed .default (.fault .closed false)).after (List.replicate 4 .work) = s ∧
      s.stats.outcome ≠ .running ∧
      s.log [.work, .work] = [.reports (.transport .blocks .closed)] ∧
      (s.after [.work, .work]).stats.outcome = s.stats.outcome := by
  have h := ends_once .blocks .default (.fault .closed false) (List.replicate 4 .work) _ rfl
  exact ⟨_, rfl, nofun, rfl, (h.1 nofun [.work, .work]).1⟩

end Subscription

end LedgerFeed

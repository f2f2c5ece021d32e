import LedgerFeed.Proofs.Subscription.Draining
import LedgerFeed.Proofs.Subscription.Log

/-!
# Cancellation

The worker looks for a cancellation before it asks the feed, puts a record in its place or reports a
fault, but looking and acting are two steps. So when a subscription is cancelled, what the worker is
just about to do (`underWay`) may still be done, and nothing after it: `log_prefix_underWay`. The
reader still gets the record that is in its place and the one that was being put there, and then is
told that the records have ended. A fault with which the feed answers while the subscription is
being cancelled is never reported.

The worker of a cancelled subscription is never stuck, and each of its turns lowers the number of
turns that it has left (`Phase.turnsLeft`).
-/

namespace LedgerFeed

/-- The turns that are left to the worker of a cancelled subscription, at most. -/
def Phase.turnsLeft {t : Topic} : Phase t → Nat
  | .exited => 0
  | .leaving => 1
  | .finishing _ | .reporting _ | .posting _ => 2
  | .receiving | .waiting | .offering _ | .blocked _ | .failing _ => 3
  | .answered (.fault _) | .answered .ended => 3
  | .handling _ | .placed => 4
  | .sending _ | .answered (.message _) => 5
  | .asking => 6

namespace Subscription
variable {t : Topic} {s s' : Subscription t}

/-- A subscription that is cancelled stays so. -/
theorem move_cancelled (m : Move) (h : s.cancelled = true) : (s.move m).2.cancelled = true := by
  rcases move_cases s m with hs | hu
  · generalize (s.move m).2 = s' at hs
    cases hs with
    | message | fault | ended => simp [answer, h]
    | enter | receive | convert | place | count | fail | report | finish => exact h
  · exact hu.cancelled h

/-! ## What is under way -/

/-- What the worker does in its next turn even if it is cancelled before: it has looked for a
cancellation already. -/
def underWay (s : Subscription t) : Option (Deed t) :=
  match s.phase with
  | .asking => some .asks
  | .sending r => some (.places r)
  | .posting e => some (.reports e)
  | _ => none

/-- Nothing is noticed in any move but what was under way. -/
theorem deeds_prefix_underWay (s : Subscription t) (m : Move) :
    s.deeds m <+: s.underWay.toList := by
  rcases deeds_cases s m with h | ⟨h, hp⟩ | ⟨r, h, hp, -⟩ | ⟨e, h, hp, -⟩
  · rw [h]; exact List.nil_prefix
  · rw [h, underWay, hp]; exact List.prefix_refl _
  · rw [h, underWay, hp]; exact List.prefix_refl _
  · rw [h, underWay, hp]; exact List.prefix_refl _

/-- The worker of a cancelled subscription has nothing under way after a step. -/
theorem Step.underWay_eq_none (h : Step s s') (hc : s.cancelled = true) : s'.underWay = none := by
  cases h with
  | enter h =>
    cases h with
    | ask _ hn | send _ hn | wake _ hn | post _ hn => simp [hc] at hn
    | stop | wait | stopWaiting | stopAtFault | meet | complete | refuse | stopOffering | giveUp
    | block | stopBlocked | withhold | leave => rfl
  | message | fault | ended | receive | convert | place | count | fail | report | finish => rfl

/-- The worker of a cancelled subscription has nothing under way after a turn. -/
theorem underWay_work (hc : s.cancelled = true) : (s.move .work).2.underWay = none := by
  cases h : s.step with
  | some s' => simpa [move, h] using (Step.of_step h).underWay_eq_none hc
  | none =>
    rcases waiting_cases h with ⟨-, hn⟩ | ⟨r, -, hn, -⟩ | hp
    · simp [hc] at hn
    · simp [hc] at hn
    · simp [move, h, underWay, hp]

/-- Of the worker of a cancelled subscription nothing is noticed but what was under way, once. -/
theorem log_prefix_underWay (hc : s.cancelled = true) (ms : List Move) :
    s.log ms <+: s.underWay.toList := by
  induction ms generalizing s with
  | nil => exact List.nil_prefix
  | cons m ms ih =>
    have hrest := ih (move_cancelled m hc)
    rw [log]
    by_cases hm : m = .work
    · subst hm
      rw [underWay_work hc] at hrest
      rw [List.prefix_nil.1 hrest, List.append_nil]
      exact deeds_prefix_underWay s .work
    · have hsame : (s.move m).2.underWay = s.underWay := by
        rw [underWay, underWay, (move_untouched hm).phase]
      rw [deeds_of_ne_work hm, List.nil_append, ← hsame]
      exact hrest

/-! ## The end of the worker -/

/-- No phase leaves more than six turns. -/
theorem turnsLeft_le (p : Phase t) : p.turnsLeft ≤ 6 := by
  cases p with
  | answered a => cases a <;> simp [Phase.turnsLeft]
  | receiving | asking | waiting | handling | offering | sending | blocked | placed | failing
  | reporting | posting | finishing | leaving | exited => simp [Phase.turnsLeft]

/-- Who has no turn left is gone. -/
theorem hasExited_of_turnsLeft (h : s.phase.turnsLeft = 0) : s.hasExited = true := by
  rw [hasExited_iff]
  cases hp : s.phase with
  | exited => rfl
  | answered a => rw [hp] at h; cases a <;> cases h
  | receiving | asking | waiting | handling | offering | sending | blocked | placed | failing
  | reporting | posting | finishing | leaving => rw [hp] at h; cases h

/-- Each step of the worker of a cancelled subscription leaves it fewer turns. -/
theorem Step.turnsLeft_lt (h : Step s s') (hc : s.cancelled = true) :
    s'.phase.turnsLeft < s.phase.turnsLeft := by
  cases h with
  | enter h =>
    cases h with
    -- these ways are open only where the token was not set when the worker looked
    | ask _ hn | send _ hn | wake _ hn | post _ hn | meet _ hn => simp [hc] at hn
    | stop hp | wait hp | stopWaiting hp | stopAtFault hp | complete hp | refuse hp
    | stopOffering hp | giveUp hp | block hp | stopBlocked hp | withhold hp | leave hp =>
      simp [hp, Phase.turnsLeft]
  | message hp | fault hp | ended hp => simp [answer, hp, Phase.turnsLeft]
  | receive hp => simp [Subscription.receive, hp, Phase.turnsLeft]
  | convert hp | place hp | count hp | fail hp | report hp | finish hp =>
    simp [hp, Phase.turnsLeft]

/-- A turn of the worker of a cancelled subscription is one fewer, unless it is gone already. -/
theorem turnsLeft_work (h : s.cancelled = true) :
    (s.move .work).2.phase.turnsLeft ≤ s.phase.turnsLeft - 1 := by
  cases hs : s.step with
  | some s' =>
    have hlt := (Step.of_step hs).turnsLeft_lt h
    simp only [move, hs, Option.getD_some]
    omega
  | none =>
    simp only [move, hs, Option.getD_none]
    rcases waiting_cases hs with ⟨-, hc⟩ | ⟨r, -, hc, -⟩ | hp
    · simp [h] at hc
    · simp [h] at hc
    · simp [hp, Phase.turnsLeft]

/-- The turns of the worker of a cancelled subscription use up those that are left, whatever happens
between them. -/
theorem turnsLeft_after (h : s.cancelled = true) (ms : List Move) :
    (s.after ms).phase.turnsLeft ≤ s.phase.turnsLeft - ms.count .work := by
  induction ms generalizing s with
  | nil => exact Nat.le_refl _
  | cons m ms ih =>
    have hih := ih (move_cancelled m h)
    rw [after, List.count_cons]
    by_cases hm : m = .work
    · subst hm
      have hw := turnsLeft_work h
      simp only [beq_self_eq_true, if_true]
      omega
    · rw [(move_untouched hm).phase] at hih
      simpa [hm] using hih

/-- The worker of a cancelled subscription is gone after the turns that are left to it. -/
theorem exited_of_cancelled (h : s.cancelled = true) {ms : List Move}
    (hn : s.phase.turnsLeft ≤ ms.count .work) : (s.after ms).hasExited = true := by
  apply hasExited_of_turnsLeft
  have hr := turnsLeft_after h ms
  omega

/-- Once the worker is gone, the reader gets the record in its place and no other. -/
theorem next_of_exited (h : s.hasExited = true) :
    (s.record = none → s.next.1 = .ended) ∧ s.next.2.next.1 = .ended := by
  have hn : s.record = none → s.next.1 = .ended := fun hr => s.next_ended_iff.2 ⟨hr, h⟩
  refine ⟨hn, ?_⟩
  rcases next_cases s with ⟨r, -, hs⟩ | ⟨-, hx, -⟩ | ⟨hr, -, hs⟩
  · rw [hs]
    exact (next_ended_iff _).2 ⟨rfl, h⟩
  · simp [h] at hx
  · rw [hs]
    exact hn hr

/-! ## A fault that comes with a cancellation -/

/-- The feed fails while the worker is with it: it is about to answer with a fault, or just has. -/
def FailsNow (s : Subscription t) : Prop :=
  (s.phase = .asking ∧ ∃ e c, s.feed = .fault e c) ∨ ∃ e, s.phase = .answered (.fault e)

/-- The subscription is cancelled, and its worker makes nothing else of the answer of the feed than
to end. -/
structure EndsCancelled (s : Subscription t) : Prop where
  cancelled : s.cancelled = true
  phase : s.FailsNow ∨ s.phase = .finishing .cancelled ∨
    (s.isLeaving = true ∧ s.stats.outcome = .cancelled)

/-- What ends cancelled goes on to do so. -/
theorem move_endsCancelled (m : Move) (h : s.EndsCancelled) : (s.move m).2.EndsCancelled := by
  refine ⟨move_cancelled m h.cancelled, ?_⟩
  by_cases hm : m = .work
  · subst hm
    have hc := h.cancelled
    rcases h.phase with (⟨hp, e, c, hf⟩ | ⟨e, hp⟩) | hp | ⟨hp, ho⟩
    · exact .inl (.inr ⟨e, by simp [move, step, answer, hp, hf]⟩)
    · right; left; simp [move, step, hp, hc]
    · right; right; simp [move, step, isLeaving, hp]
    · refine .inr (.inr ⟨move_isLeaving .work hp, ?_⟩)
      rw [isLeaving_iff] at hp
      rcases hp with hp | hp <;> simp [move, step, enter, hp, ho]
  · have hu := move_untouched (s := s) hm
    rw [FailsNow, isLeaving_iff, hu.phase, hu.stats, hu.feed, ← isLeaving_iff]
    exact h.phase

/-- A worker that ends cancelled has recorded so when it is gone. -/
theorem EndsCancelled.outcome (h : s.EndsCancelled) (hx : s.hasExited = true) :
    s.stats.outcome = .cancelled := by
  have hp := (hasExited_iff s).1 hx
  rcases h.phase with (⟨ha, -⟩ | ⟨e, ha⟩) | ha | ⟨-, ho⟩
  · rw [hp] at ha; cases ha
  · rw [hp] at ha; cases ha
  · rw [hp] at ha; cases ha
  · exact ho

/-- A feed that fails now has the worker neither put a record nor a fault in its place. -/
theorem FailsNow.reportedIn_underWay (h : s.FailsNow) : reportedIn s.underWay.toList = [] := by
  rcases h with ⟨hp, -⟩ | ⟨e, hp⟩ <;> rw [underWay, hp] <;> rfl

/-! ## The law of cancellation -/

/-- From the moment a subscription is cancelled, at whatever point its worker is, nothing is noticed
of the worker but what was under way: it asks the feed, or puts a record or a fault in its place, if
it had found no cancellation just before, and only in its next turn. The reader gets no records but
the one in its place and the one under way, and no fault but such a one; after six turns the worker
is gone, whatever happens between them, and the reader is told that the records have ended, at once
if there is none in its place. If the feed fails while the subscription is being cancelled, no fault
is ever reported or read, and the outcome is `cancelled`. -/
theorem quiet_after_cancellation (t : Topic) (c : SubscribeSettings) (feed : Feed t.Message)
    (ms ns : List Move) (s : Subscription t) (hs : (ofFeed c feed).after ms = s)
    (hc : s.cancelled = true) :
    s.log ns <+: s.underWay.toList ∧
    (s.move .work).2.log ns = [] ∧
    recordsOf (s.taken ns) <+: s.record.toList ++ placedIn s.underWay.toList ∧
    faultsOf (s.taken ns) <+: s.fault.toList ++ reportedIn s.underWay.toList ∧
    (6 ≤ ns.count .work → (s.after ns).hasExited = true ∧
      ((s.after ns).record = none → (s.after ns).next.1 = .ended) ∧
      (s.after ns).next.2.next.1 = .ended) ∧
    (s.FailsNow →
      reportedIn ((ofFeed c feed).log (ms ++ ns)) = [] ∧
      faultsOf ((ofFeed c feed).taken (ms ++ ns)) = [] ∧
      ((s.after ns).hasExited = true → (s.after ns).stats.outcome = .cancelled)) := by
  have hl : s.FaultIsLast := hs ▸ run_faultIsLast (faultIsLast_ofFeed c feed) ms
  have hlog : s.log ns <+: s.underWay.toList := log_prefix_underWay hc ns
  obtain ⟨hrecords, hfaults⟩ := taken_prefix_log hl ns
  refine ⟨hlog, ?_, ?_, ?_, ?_, ?_⟩
  · have h := log_prefix_underWay (move_cancelled .work hc) ns
    rw [underWay_work hc] at h
    exact List.prefix_nil.1 h
  · exact hrecords.trans ((List.prefix_append_right_inj _).2 (placedIn_mono hlog))
  · exact hfaults.trans ((List.prefix_append_right_inj _).2 (reportedIn_mono hlog))
  · intro hn
    have hx := exited_of_cancelled hc (Nat.le_trans (turnsLeft_le s.phase) hn)
    exact ⟨hx, next_of_exited hx⟩
  · intro hf
    have hreported : reportedIn ((ofFeed c feed).log (ms ++ ns)) = [] := by
      have hn : ((ofFeed c feed).after ms).isLeaving = false := by
        rcases hf with ⟨hp, -⟩ | ⟨e, hp⟩ <;> rw [hs, isLeaving, hp]
      have hrest := reportedIn_mono hlog
      rw [hf.reportedIn_underWay] at hrest
      rw [log_append, reportedIn_append, reportedIn_log hn, hs]
      exact List.prefix_nil.1 hrest
    refine ⟨hreported, ?_, ?_⟩
    · have h := (taken_prefix_log (faultIsLast_ofFeed c feed) (ms ++ ns)).2
      rw [hreported] at h
      exact List.prefix_nil.1 h
    · have hends : s.EndsCancelled := ⟨hc, .inl hf⟩
      exact (after_induction (fun _ m => move_endsCancelled m) hends ns).outcome

/-- A feed fails while all subscriptions are being cancelled: the worker ends, with that outcome and
without a report. -/
theorem quiet_after_cancellation_at_fault :
    ∃ s : Subscription .blocks, (ofFeed .default (.fault .closed true)).after [.work, .work] = s ∧
      s.cancelled = true ∧ s.FailsNow ∧ 6 ≤ (List.replicate 6 Move.work).count .work ∧
      s.log (List.replicate 6 .work) = [] ∧
      (s.after (List.replicate 6 .work)).stats.outcome = .cancelled := by
  obtain ⟨hlog, -, -, -, hends, hfault⟩ := quiet_after_cancellation .blocks .default
    (.fault .closed true) [.work, .work] (List.replicate 6 .work) _ rfl rfl
  have hx := hends (by decide)
  exact ⟨_, rfl, rfl, .inr ⟨_, rfl⟩, by decide, List.prefix_nil.1 hlog,
    (hfault (.inr ⟨_, rfl⟩)).2.2 hx.1⟩

/-- A cancellation does not cut off what is under way, nor what is in its place already. While the
second of two records is being sent, the subscription is cancelled and the first record is read: the
second is put in its place after that, and is read too. And a fault that was reported before the
cancellation is read after it. -/
theorem read_after_cancellation :
    (let feed : Feed Topic.accountStatuses.Message :=
        .message (bareStatus 0) false (.message (bareStatus 1) false .silent)
      let s := (ofFeed .default feed).after (List.replicate 12 .work ++ [.cancel])
      s.cancelled = true ∧ s.log [.next, .work] ≠ [] ∧
        (recordsOf (s.taken [.next, .work, .next])).length = 2) ∧
    (let feed : Feed Topic.blockDigests.Message := .fault (.connection "") false
      let s := (ofFeed .default feed).after (List.replicate 8 .work ++ [.cancel])
      s.cancelled = true ∧ s.record = none ∧
        faultsOf (s.taken [.recv]) = [.transport .blockDigests (.connection "")]) := by
  refine ⟨⟨rfl, ?_, rfl⟩, rfl, rfl, rfl⟩
  exact List.cons_ne_nil _ _

end Subscription

end LedgerFeed

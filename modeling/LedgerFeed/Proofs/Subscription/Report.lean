import LedgerFeed.Proofs.Subscription.Cancellation
import LedgerFeed.Proofs.Subscription.Outcome

/-!
# Reports

A worker that fails records its outcome first and reports its fault then, unless it finds the
subscription cancelled when it is about to. So with the side of the faults open, exactly one fault
is reported just if the outcome is `failed` and the worker has not withheld the report, which it
does only when the subscription is cancelled before the worker is gone. The converse does not hold:
a cancellation can come between looking for one and reporting, or between reporting and going.
-/

namespace LedgerFeed.Subscription
variable {t : Topic} {s : Subscription t}

/-- At some moment of a run the subscription is cancelled and its worker is not gone. -/
def CancelledInTime (s : Subscription t) (ms : List Move) : Prop :=
  ∃ ns, ns <+: ms ∧ (s.after ns).cancelled = true ∧ (s.after ns).hasExited = false

/-- The subscription is cancelled while its worker is about to report a fault. -/
def IsWithholding (s : Subscription t) : Prop :=
  s.cancelled = true ∧ ∃ e, s.phase = .reporting e

/-- A worker that is not about to report a fault does not withhold one. -/
theorem not_isWithholding (h : ∀ e, s.phase ≠ .reporting e) : ¬ s.IsWithholding := by
  rintro ⟨-, e, hp⟩
  exact h e hp

/-- At some moment of a run the worker has its turn when it is about to report a fault and the
subscription is cancelled. -/
def Withholds (s : Subscription t) (ms : List Move) : Prop :=
  ∃ ns, ns ++ [.work] <+: ms ∧ (s.after ns).IsWithholding

/-- A report is withheld only for a cancellation that comes before the worker is gone. -/
theorem Withholds.cancelledInTime {ms : List Move} (h : s.Withholds ms) : s.CancelledInTime ms := by
  obtain ⟨ns, hns, hc, e, hp⟩ := h
  exact ⟨ns, (List.prefix_append _ _).trans hns, hc, by rw [hasExited, hp]⟩

/-- A report is withheld in the first move of a run or in the others. -/
theorem withholds_cons (m : Move) (ms : List Move) :
    s.Withholds (m :: ms) ↔ (m = .work ∧ s.IsWithholding) ∨ (s.move m).2.Withholds ms := by
  constructor
  · rintro ⟨ns, hns, h⟩
    cases ns with
    | nil =>
      obtain ⟨rfl, -⟩ := List.cons_prefix_cons.1 hns
      exact .inl ⟨rfl, h⟩
    | cons n ns =>
      obtain ⟨rfl, htail⟩ := List.cons_prefix_cons.1 hns
      exact .inr ⟨ns, htail, h⟩
  · rintro (⟨rfl, h⟩ | ⟨ns, hns, h⟩)
    · exact ⟨[], List.cons_prefix_cons.2 ⟨rfl, List.nil_prefix⟩, h⟩
    · exact ⟨m :: ns, List.cons_prefix_cons.2 ⟨rfl, hns⟩, h⟩

/-- A worker that has nothing left to do withholds nothing. -/
theorem not_withholds (hl : s.isLeaving = true) (ms : List Move) : ¬ s.Withholds ms := by
  rintro ⟨ns, -, -, e, hp⟩
  have h := after_induction (P := (·.isLeaving = true)) (fun _ m => move_isLeaving m) hl ns
  rw [isLeaving, hp] at h
  cases h

/-- The move after which the worker has nothing left to do: it reports its fault and has failed, or
withholds the report and has failed, or has not failed and reports nothing. -/
theorem leaving_reports {m : Move} (hs : s.Coherent) (ho : s.faultsOpen = true)
    (hn : s.isLeaving = false) (hl : (s.move m).2.isLeaving = true) :
    ((s.move m).2.stats.outcome = .failed ∧ ¬ (m = .work ∧ s.IsWithholding) ∧
        ∃ e, reportedIn (s.deeds m) = [e]) ∨
      (((s.move m).2.stats.outcome = .failed ↔ m = .work ∧ s.IsWithholding) ∧
        reportedIn (s.deeds m) = []) := by
  have ha := hs.agrees
  have hf := hs.faultIsLast hn
  obtain ⟨rfl, ⟨e, hp, hc, h⟩ | ⟨e, hp, h⟩ | ⟨o, hp, h⟩⟩ := leaving_cases hn hl
  · rw [hp] at ha
    rw [deeds, reportedIn_deedsTo, hf, brought_of_free, h]
    exact .inr ⟨⟨fun _ => ⟨rfl, hc, e, hp⟩, fun _ => ha⟩, by simp [enter, hf]⟩
  · have hw : ¬ s.IsWithholding := not_isWithholding fun e' => by simp [hp]
    rw [hp] at ha
    rw [deeds, reportedIn_deedsTo, hf, brought_of_free, h]
    exact .inl ⟨ha, fun hm => hw hm.2, e, by simp [ho]⟩
  · have hw : ¬ s.IsWithholding := not_isWithholding fun e' => by simp [hp]
    rw [hp] at ha
    rw [deeds, reportedIn_deedsTo, hf, brought_of_free, h]
    refine .inr ⟨⟨fun hfail => ?_, fun hm => absurd hm.2 hw⟩, by simp [hf]⟩
    rcases ha.2 with rfl | rfl <;> cases hfail

/-- In a run that ends the worker and leaves the side of the faults open, the worker fails without
withholding its report and reports one fault, or it reports none, and has failed just if it has
withheld the report. -/
theorem run_reports {ms : List Move} (hs : s.Coherent) (ho : s.faultsOpen = true)
    (hn : s.isLeaving = false) (hk : ∀ m ∈ ms, m.keepsFaults = true)
    (hl : (s.after ms).isLeaving = true) :
    ((s.after ms).stats.outcome = .failed ∧ ¬ s.Withholds ms ∧
        ∃ e, reportedIn (s.log ms) = [e]) ∨
      (((s.after ms).stats.outcome = .failed ↔ s.Withholds ms) ∧
        reportedIn (s.log ms) = []) := by
  induction ms generalizing s with
  | nil => rw [after, hn] at hl; cases hl
  | cons m ms ih =>
    have hs' := move_coherent m hs
    obtain ⟨hm, hk⟩ := List.forall_mem_cons.1 hk
    rw [withholds_cons, log, reportedIn_append, after]
    cases hml : (s.move m).2.isLeaving with
    | true =>
      -- nothing is left to do after this move: nothing that follows matters
      have hout : (s.move m).2.HasOutcome _ := ⟨hs', rfl, hs'.ended_of_isLeaving hml⟩
      have hw := not_withholds hml ms
      rw [(hout.after ms).outcome, log_of_isLeaving hml]
      simp only [hw, or_false, reportedIn, List.filterMap_nil, List.append_nil]
      exact leaving_reports hs ho hn hml
    | false =>
      -- a report that were withheld in this move would leave nothing to do
      have hw : ¬ (m = .work ∧ s.IsWithholding) := by
        rintro ⟨rfl, hc, e, hp⟩
        simp [move, step, enter, isLeaving, hc, hp] at hml
      simp only [hw, false_or]
      rw [reportedIn_deeds hml, List.nil_append]
      exact ih hs' (by rw [(move_sides s m).2, ho, hm]; rfl) hml hk hl

/-! ## The law of reports -/

/-- When the worker is gone and the side of the faults has stayed open: exactly one fault was
reported just if the outcome is `failed` and the worker has not withheld the report; none was
reported just if the outcome is `completed` or `cancelled`, or `failed` and the worker has withheld
the report. It withholds a report only for a cancellation that comes before it is gone. And what was
reported is what the reader has got as faults, followed by what is still in its place. -/
theorem reports_iff_failed (t : Topic) (c : SubscribeSettings) (feed : Feed t.Message)
    (ms : List Move) (hk : ∀ m ∈ ms, m.keepsFaults = true)
    (hx : ((ofFeed c feed).after ms).hasExited = true) :
    ((∃ e, reportedIn ((ofFeed c feed).log ms) = [e]) ↔
      ((ofFeed c feed).after ms).stats.outcome = .failed ∧ ¬ (ofFeed c feed).Withholds ms) ∧
    (reportedIn ((ofFeed c feed).log ms) = [] ↔
      ((ofFeed c feed).after ms).stats.outcome = .completed ∨
      ((ofFeed c feed).after ms).stats.outcome = .cancelled ∨
      ((ofFeed c feed).after ms).stats.outcome = .failed ∧ (ofFeed c feed).Withholds ms) ∧
    ((ofFeed c feed).Withholds ms → (ofFeed c feed).CancelledInTime ms) ∧
    faultsOf ((ofFeed c feed).taken ms) ++ ((ofFeed c feed).after ms).fault.toList =
      reportedIn ((ofFeed c feed).log ms) := by
  have hconserved := (run_conserves (faultIsLast_ofFeed c feed) ms).2 hk
  have hl := isLeaving_of_hasExited hx
  have hended := (run_coherent c feed ms).ended_of_isLeaving hl
  rcases run_reports (coherent_ofFeed c feed) rfl rfl hk hl with ⟨ho, hw, e, hr⟩ | ⟨ho, hr⟩
  · rw [hr] at hconserved ⊢
    refine ⟨⟨fun _ => ⟨ho, hw⟩, fun _ => ⟨e, rfl⟩⟩, ?_, Withholds.cancelledInTime, hconserved⟩
    simp [ho, hw]
  · rw [hr] at hconserved ⊢
    refine ⟨?_, ?_, Withholds.cancelledInTime, hconserved⟩
    · simp [ho]
    · revert hended ho
      cases ((ofFeed c feed).after ms).stats.outcome <;> simp

/-- A feed whose only message has no header. -/
def headless (cancels : Bool) : Feed Topic.blockHeaders.Message :=
  .message (HeaderMessage.mk none) cancels .silent

/-- A message without a header, which comes without a cancellation: the worker fails, and the reader
can get the one fault that it has reported. -/
theorem reports_iff_failed_headless :
    (∀ m ∈ List.replicate 8 Move.work, m.keepsFaults = true) ∧
    ((ofFeed .default (headless false)).after (List.replicate 8 .work)).hasExited = true ∧
    ((ofFeed .default (headless false)).after (List.replicate 8 .work)).stats.outcome = .failed ∧
    ∃ e, reportedIn ((ofFeed .default (headless false)).log (List.replicate 8 .work)) = [e] := by
  have h := reports_iff_failed .blockHeaders .default (headless false) (List.replicate 8 .work)
    (by decide) rfl
  have hw : ¬ (ofFeed .default (headless false)).Withholds (List.replicate 8 .work) :=
    fun hw => nomatch h.2.1.2 (.inr (.inr ⟨rfl, hw⟩))
  exact ⟨by decide, rfl, rfl, h.1.2 ⟨rfl, hw⟩⟩

/-- A failure can go without a report: if all subscriptions are cancelled while the feed answers
with a message that has no header, the outcome is `failed` although nothing is reported. -/
theorem failed_without_report :
    ¬ ∀ (t : Topic) (c : SubscribeSettings) (feed : Feed t.Message) (ms : List Move),
      (∀ m ∈ ms, m.keepsRecords = true ∧ m.keepsFaults = true) →
      ((ofFeed c feed).after ms).hasExited = true →
      (((ofFeed c feed).after ms).stats.outcome = .failed ↔
        ∃ e, reportedIn ((ofFeed c feed).log ms) = [e]) ∧
      (((ofFeed c feed).after ms).stats.outcome = .completed ∨
        ((ofFeed c feed).after ms).stats.outcome = .cancelled ↔
          reportedIn ((ofFeed c feed).log ms) = []) := by
  intro h
  obtain ⟨e, he⟩ := (h .blockHeaders .default (headless true) (List.replicate 8 .work)
    (by decide) rfl).1.1 rfl
  cases he

end LedgerFeed.Subscription

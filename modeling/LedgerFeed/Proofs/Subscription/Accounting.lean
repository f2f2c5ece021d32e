import Mathlib.Data.List.Induction
import LedgerFeed.Proofs.Subscription.Draining
import LedgerFeed.Proofs.Subscription.Outcome

/-!
# Accounting

Messages received, records delivered and records read keep within one of each other wherever the
worker can be kept waiting. Three accounts carry this: every record put in its place is counted, one
turn later (`run_delivered`); the reader has read all of them but one at most, which is in its place
or was thrown away there (`placed_le`); and each phase says how many messages have been counted as
received and not as delivered (`Balanced`). Neither count exceeds the number of messages of the feed
(`received_le_size`), so counters of 64 bits would count the same.
-/

namespace LedgerFeed

/-- The messages that were received for a fault: none for a fault of the feed, and otherwise the one
at fault. -/
def StreamError.messages : StreamError → Nat
  | .transport _ _ => 0
  | .conversion _ _ _ | .ordering _ _ _ => 1

/-- No fault stands for more than one message. -/
theorem StreamError.messages_le (e : StreamError) : e.messages ≤ 1 := by
  cases e <;> simp [messages]

namespace Phase
variable {t : Topic}

/-- The worker is at a point where it can be kept waiting, or is gone. -/
def IsRest : Phase t → Prop
  | .receiving | .asking | .waiting | .offering _ | .sending _ | .blocked _ | .reporting _
  | .posting _ | .exited => True
  | .answered _ | .handling _ | .placed | .failing _ | .finishing _ | .leaving => False

/-- The records that have been put in place and are not counted yet. -/
def uncounted : Phase t → Nat
  | .placed => 1
  | _ => 0

/-- The messages that the feed has given and that are not counted yet. -/
def unreceived : Phase t → Nat
  | .answered (.message _) => 1
  | _ => 0

/-- In this phase, with this outcome, `n` messages are counted as received and not as delivered. -/
def Holds (n : Nat) : Phase t → Outcome → Prop
  | .receiving, _ | .asking, _ | .waiting, _ | .answered _, _ => n = 0
  | .handling _, _ | .offering _, _ | .sending _, _ | .blocked _, _ | .placed, _ => n = 1
  | .failing e, _ | .reporting e, _ | .posting e, _ => n = e.messages
  | .finishing o, _ | .leaving, o | .exited, o => n ≤ 1 ∧ (o = .completed → n = 0)

/-- Every record in its place is counted where the worker can be kept waiting. -/
theorem uncounted_of_isRest {p : Phase t} (h : p.IsRest) : p.uncounted = 0 := by
  cases p with
  | placed => exact h.elim
  | receiving | asking | waiting | answered | handling | offering | sending | blocked | failing
  | reporting | posting | finishing | leaving | exited => rfl

/-- No phase holds more than one message. -/
theorem le_one_of_holds {p : Phase t} {n : Nat} {o : Outcome} (h : p.Holds n o) : n ≤ 1 := by
  cases p with
  | receiving | asking | waiting | answered | handling | offering | sending | blocked | placed =>
    simp only [Holds] at h; omega
  | failing e | reporting e | posting e =>
    have he := e.messages_le
    simp only [Holds] at h
    omega
  | finishing | leaving | exited => exact h.1

end Phase

namespace Subscription
variable {t : Topic} {s s' : Subscription t}

/-- A worker without a next step is at rest. -/
theorem isRest_of_step_eq_none (h : s.step = none) : s.phase.IsRest := by
  rcases waiting_cases h with ⟨hp, -⟩ | ⟨r, hp, -⟩ | hp <;> rw [hp] <;> trivial

/-! ## Records delivered -/

/-- Going on to another phase, the worker counts nothing and leaves nothing to be counted. -/
theorem Enters.uncounted_eq {p : Phase t} (h : s.Enters p) :
    p.uncounted = s.phase.uncounted ∧ p.unreceived = s.phase.unreceived := by
  cases h with
  | stop hp | ask hp | wait hp | stopWaiting hp | stopAtFault hp | meet hp | complete hp | refuse hp
  | stopOffering hp | send hp | giveUp hp | block hp | stopBlocked hp | wake hp | withhold hp
  | post hp | leave hp => rw [hp]; exact ⟨rfl, rfl⟩

/-- A step of the worker puts a record in its place, or counts the one that it has put there, or
leaves both as they are. -/
theorem Step.delivered (h : Step s s') :
    s'.stats.delivered + s'.phase.uncounted =
      s.stats.delivered + s.phase.uncounted + (brought s.record s'.record).length := by
  cases h with
  | enter h => simpa [Subscription.enter] using h.uncounted_eq.1
  | place hp _ hr => simp [hp, hr, Phase.uncounted]
  | count hp => simp [hp, Phase.uncounted]
  | message hp | fault hp | ended hp => simp [answer, hp, Phase.uncounted]
  | receive hp => simp [Subscription.receive, hp, Phase.uncounted]
  | convert hp | fail hp | report hp | finish hp => simp [hp, Phase.uncounted]

/-- A move puts a record in its place, or counts the one that has been put there, or leaves both as
they are. -/
theorem move_delivered (s : Subscription t) (m : Move) :
    (s.move m).2.stats.delivered + (s.move m).2.phase.uncounted =
      s.stats.delivered + s.phase.uncounted + (placedIn (s.deeds m)).length := by
  by_cases hm : m = .work
  · subst hm
    rw [deeds, placedIn_deedsTo]
    cases h : s.step with
    | none => simp [move, h]
    | some s' => simpa [move, h] using (Step.of_step h).delivered
  · rw [deeds_of_ne_work hm, (move_untouched hm).phase, (move_untouched hm).stats]
    rfl

/-- Every record that is put in its place in a run is counted, the last one after the next turn of
the worker. -/
theorem run_delivered (s : Subscription t) (ms : List Move) :
    (s.after ms).stats.delivered + (s.after ms).phase.uncounted =
      s.stats.delivered + s.phase.uncounted + (placedIn (s.log ms)).length := by
  induction ms generalizing s with
  | nil => rfl
  | cons m ms ih =>
    have hm := move_delivered s m
    rw [after, log, placedIn_append, List.length_append, ih]
    omega

/-! ## Records read -/

/-- Of the records that were in place or have been put there, the reader has read all but one. -/
theorem placed_le (hl : s.FaultIsLast) (ms : List Move) :
    s.record.toList.length + (placedIn (s.log ms)).length ≤
      (recordsOf (s.taken ms)).length + 1 := by
  have hplace : ∀ s : Subscription t, s.record.toList.length ≤ 1 := fun s => by
    cases s.record <;> simp
  induction ms generalizing s with
  | nil => exact Nat.le_trans (hplace s) (Nat.le_add_left _ _)
  | cons m ms ih =>
    rw [log, taken, placedIn_append, recordsOf_append, List.length_append, List.length_append]
    cases hm : m.keepsRecords with
    | true =>
      have hc := congrArg List.length ((move_conserves hl m).1 hm)
      have hrest := ih (move_faultIsLast hl m)
      simp only [List.length_append] at hc
      omega
    | false =>
      -- what was in place is thrown away, and nothing is put there any more
      have hw : m ≠ .work := by rintro rfl; cases hm
      have hclosed : (s.move m).2.recordsOpen = false := by
        rw [(move_sides s m).1, hm, Bool.and_false]
      have hs := hplace s
      rw [deeds_of_ne_work hw, (log_of_closed ms).1 hclosed]
      simp only [placedIn, List.filterMap_nil, List.length_nil]
      omega

/-! ## Messages received -/

/-- The messages that are received and not delivered are those that the phase holds. -/
def Balanced (s : Subscription t) : Prop :=
  ∃ n, s.stats.received = s.stats.delivered + n ∧ s.phase.Holds n s.stats.outcome

/-- A new subscription has counted nothing. -/
theorem balanced_ofFeed (c : SubscribeSettings) (feed : Feed t.Message) :
    (ofFeed c feed).Balanced := ⟨0, rfl, rfl⟩

/-- What is wrong with a message is its number or its content. -/
theorem handle_eq_error {o : DecodeOptions} {q : Option Sequence} {m : t.Message}
    {e : StreamError} (h : handle o q m = .error e) :
    (∃ x, e = .ordering t (Topic.Message.height t m) x) ∨
      ∃ x, e = .conversion t (Topic.Message.height t m) x := by
  unfold handle at h
  cases hq : checkIndex q m with
  | error e' =>
    rw [hq] at h
    cases h
    unfold checkIndex at hq
    split at hq
    · split at hq <;> cases hq
      exact .inl ⟨_, rfl⟩
    · cases hq
  | ok q' =>
    cases hr : Topic.Message.convert t o m with
    | error x =>
      simp only [hq, convert, hr, bind, Except.bind] at h
      cases h
      exact .inr ⟨x, rfl⟩
    | ok r => simp [hq, convert, hr, bind, Except.bind, pure, Except.pure] at h

/-- Going on to another phase, the worker holds the messages that it has held. -/
theorem Enters.holds {p : Phase t} {n : Nat} {o : Outcome} (h : s.Enters p)
    (hn : s.phase.Holds n o) (ha : s.phase.Agrees o) : p.Holds n o := by
  cases h with
  | ask hp | wait hp | meet hp | send hp | block hp | wake hp | post hp | leave hp =>
    rwa [hp] at hn
  | refuse hp hh =>
    rw [hp] at hn
    refine hn.trans ?_
    rcases handle_eq_error hh with ⟨x, rfl⟩ | ⟨x, rfl⟩ <;> rfl
  | stop hp | stopWaiting hp | stopAtFault hp | stopOffering hp | giveUp hp | stopBlocked hp =>
    exact ⟨Phase.le_one_of_holds hn, nofun⟩
  | complete hp =>
    refine ⟨Phase.le_one_of_holds hn, fun _ => ?_⟩
    rwa [hp] at hn
  | withhold hp =>
    rw [hp] at ha
    obtain rfl : o = .failed := ha
    exact ⟨Phase.le_one_of_holds hn, nofun⟩

/-- A step of the worker keeps the balance. -/
theorem Step.balanced (h : Step s s') (hc : s.Coherent) (hs : s.Balanced) : s'.Balanced := by
  obtain ⟨n, hn, hp'⟩ := hs
  have ha := hc.agrees
  cases h with
  | enter h => exact ⟨n, hn, h.holds hp' ha⟩
  | message hp | fault hp | ended hp | convert hp | place hp | fail hp | finish hp =>
    rw [hp] at hp'
    exact ⟨n, hn, hp'⟩
  | receive hp =>
    rw [hp] at hp'
    obtain rfl : n = 0 := hp'
    exact ⟨1, congrArg (· + 1) hn, rfl⟩
  | count hp =>
    rw [hp] at hp'
    obtain rfl : n = 1 := hp'
    exact ⟨0, hn, rfl⟩
  | report hp =>
    rw [hp] at hp' ha
    have ho : s.stats.outcome = .failed := ha
    exact ⟨n, hn, Phase.le_one_of_holds hp', by simp [ho]⟩

/-- A move keeps the balance. -/
theorem move_balanced (m : Move) (h : s.Coherent ∧ s.Balanced) :
    (s.move m).2.Coherent ∧ (s.move m).2.Balanced := by
  refine ⟨move_coherent m h.1, ?_⟩
  rcases move_cases s m with hs | hu
  · exact hs.balanced h.1 h.2
  · rw [Balanced, hu.phase, hu.stats]
    exact h.2

/-- The messages are in balance in every state that a subscription can come to. -/
theorem run_balanced (c : SubscribeSettings) (feed : Feed t.Message) (ms : List Move) :
    ((ofFeed c feed).after ms).Balanced :=
  (after_induction (P := fun s => s.Coherent ∧ s.Balanced) (fun _ m => move_balanced m)
    ⟨coherent_ofFeed c feed, balanced_ofFeed c feed⟩ ms).2

/-! ## Messages of the feed -/

/-- A step of the worker takes a message from the feed, or counts the one that it has taken, or
leaves both as they are. -/
theorem Step.received (h : Step s s') :
    s'.stats.received + s'.phase.unreceived + s'.feed.size =
      s.stats.received + s.phase.unreceived + s.feed.size := by
  cases h with
  | enter h => simpa [Subscription.enter] using h.uncounted_eq.2
  | message hp hf => simp [answer, hp, hf, Phase.unreceived, Feed.size]; omega
  | fault hp | ended hp => simp [answer, hp, Phase.unreceived]
  | receive hp => simp [Subscription.receive, hp, Phase.unreceived]
  | convert hp | place hp | count hp | fail hp | report hp | finish hp =>
    simp [hp, Phase.unreceived]

/-- In every state that a subscription can come to, the messages counted as received, the one that
is not counted yet and those that the feed still has are the messages of the feed. -/
theorem run_received (s : Subscription t) (ms : List Move) :
    (s.after ms).stats.received + (s.after ms).phase.unreceived + (s.after ms).feed.size =
      s.stats.received + s.phase.unreceived + s.feed.size := by
  induction ms generalizing s with
  | nil => rfl
  | cons m ms ih =>
    rw [after, ih]
    rcases move_cases s m with h | hu
    · exact h.received
    · rw [hu.phase, hu.stats, hu.feed]

/-- No more messages are counted as received than the feed has, and no more as delivered. -/
theorem received_le_size (c : SubscribeSettings) (feed : Feed t.Message) (ms : List Move) :
    ((ofFeed c feed).after ms).stats.received ≤ feed.size ∧
      ((ofFeed c feed).after ms).stats.delivered ≤ feed.size := by
  have hsize := run_received (ofFeed c feed) ms
  have hstart : (ofFeed c feed).stats.received + (ofFeed c feed).phase.unreceived +
      (ofFeed c feed).feed.size = feed.size := by simp [ofFeed, Stats.zero, Phase.unreceived]
  obtain ⟨n, hn, -⟩ := run_balanced c feed ms
  constructor <;> omega

/-! ## The fault that ends a run -/

/-- At some moment of a run the worker has met a fault. -/
def Meets (s : Subscription t) (ms : List Move) (e : StreamError) : Prop :=
  ∃ ns, ns <+: ms ∧ (s.after ns).phase = .failing e

/-- A fault that has been met in a run has been met in every longer run. -/
theorem Meets.concat {ms : List Move} {e : StreamError} (h : s.Meets ms e) (m : Move) :
    s.Meets (ms ++ [m]) e := by
  obtain ⟨ns, hns, hp⟩ := h
  exact ⟨ns, hns.trans (List.prefix_append _ _), hp⟩

/-- The worker does nothing more but report a fault, and the messages received for the fault are
those that are not delivered. -/
structure FailedWith (s : Subscription t) (e : StreamError) : Prop where
  phase : s.phase = .failing e ∨ s.phase = .reporting e ∨ s.phase = .posting e ∨ s.isLeaving = true
  received : s.stats.received = s.stats.delivered + e.messages

/-- What has met a fault goes on with it. -/
theorem move_failedWith {e : StreamError} (m : Move) (h : s.FailedWith e) :
    (s.move m).2.FailedWith e := by
  by_cases hm : m = .work
  · subst hm
    have hr := h.received
    rcases h.phase with hp | hp | hp | hp
    · exact ⟨.inr (.inl (by simp [move, step, hp])), by simp [move, step, hp, hr]⟩
    · cases hc : s.cancelled with
      | true =>
        exact ⟨.inr (.inr (.inr (by simp [move, step, enter, isLeaving, hp, hc]))),
          by simp [move, step, enter, hp, hr]⟩
      | false =>
        exact ⟨.inr (.inr (.inl (by simp [move, step, hp, hc]))),
          by simp [move, step, enter, hp, hr]⟩
    · exact ⟨.inr (.inr (.inr (by simp [move, step, isLeaving, hp]))),
        by simp [move, step, hp, hr]⟩
    · refine ⟨.inr (.inr (.inr (move_isLeaving .work hp))), ?_⟩
      rcases (isLeaving_iff s).1 hp with hp | hp <;> simp [move, step, enter, hp, hr]
  · have hu := move_untouched (s := s) hm
    refine ⟨?_, by rw [hu.stats]; exact h.received⟩
    rw [isLeaving_iff, hu.phase, ← isLeaving_iff]
    exact h.phase

/-- A fault that has been met stays the fault of the worker. -/
theorem Meets.failedWith {c : SubscribeSettings} {feed : Feed t.Message} {ms : List Move}
    {e : StreamError} (h : (ofFeed c feed).Meets ms e) :
    ((ofFeed c feed).after ms).FailedWith e := by
  obtain ⟨ns, ⟨ks, rfl⟩, hp⟩ := h
  obtain ⟨n, hn, hholds⟩ := run_balanced c feed ns
  rw [hp] at hholds
  obtain rfl : n = e.messages := hholds
  rw [after_append]
  exact after_induction (P := (·.FailedWith e)) (fun _ m => move_failedWith m) ⟨.inl hp, hn⟩ ks

/-- A worker that has failed has met a fault. -/
theorem meets_of_failed {c : SubscribeSettings} {feed : Feed t.Message} {ms : List Move}
    (h : ((ofFeed c feed).after ms).stats.outcome = .failed) :
    ∃ e, (ofFeed c feed).Meets ms e := by
  induction ms using List.reverseRecOn with
  | nil => cases h
  | append_singleton ms m ih =>
    have ha := (run_coherent c feed ms).agrees
    by_cases ho : ((ofFeed c feed).after ms).stats.outcome = .failed
    · obtain ⟨e, he⟩ := ih ho
      exact ⟨e, he.concat m⟩
    rw [after_concat] at h
    rcases move_cases ((ofFeed c feed).after ms) m with hs | hu
    · generalize (((ofFeed c feed).after ms).move m).2 = s' at h hs
      cases hs with
      | fail hp => exact ⟨_, ms, List.prefix_append _ _, hp⟩
      | finish hp =>
        rw [hp] at ha
        obtain rfl : _ = Outcome.failed := h
        rcases ha.2 with hn | hn <;> cases hn
      | enter | message | fault | ended | receive | convert | place | count | report =>
        exact (ho h).elim
    · rw [hu.stats] at h
      exact (ho h).elim

/-- A fault that is about to be reported has been met. -/
theorem meets_of_reporting {c : SubscribeSettings} {feed : Feed t.Message} {ms : List Move}
    {e : StreamError} (h : ((ofFeed c feed).after ms).phase = .reporting e ∨
      ((ofFeed c feed).after ms).phase = .posting e) : (ofFeed c feed).Meets ms e := by
  induction ms using List.reverseRecOn with
  | nil => rcases h with h | h <;> cases h
  | append_singleton ms m ih =>
    rw [after_concat] at h
    rcases move_cases ((ofFeed c feed).after ms) m with hs | hu
    · generalize (((ofFeed c feed).after ms).move m).2 = s' at h hs
      cases hs with
      | @fail e' hp =>
        obtain rfl : e' = e := by simpa using h
        exact ⟨ms, List.prefix_append _ _, hp⟩
      | enter he =>
        cases he with
        | @post e' hp =>
          obtain rfl : e' = e := by simpa using h
          exact (ih (.inl hp)).concat m
        | stop | ask | wait | stopWaiting | stopAtFault | meet | complete | refuse | stopOffering
        | send | giveUp | block | stopBlocked | wake | withhold | leave => simp at h
      | message | fault | ended | receive | convert | place | count | report | finish =>
        simp [answer, Subscription.receive] at h
    · rw [hu.phase] at h
      exact (ih h).concat m

/-- Every fault that has been reported has been met. -/
theorem meets_of_reported {c : SubscribeSettings} {feed : Feed t.Message} {ms : List Move}
    {e : StreamError} (h : e ∈ reportedIn ((ofFeed c feed).log ms)) :
    (ofFeed c feed).Meets ms e := by
  induction ms using List.reverseRecOn with
  | nil => cases h
  | append_singleton ms m ih =>
    rw [log_append, reportedIn_append, List.mem_append] at h
    rcases h with h | h
    · exact (ih h).concat m
    · simp only [log, List.append_nil] at h
      rcases deeds_cases ((ofFeed c feed).after ms) m with
        hd | ⟨hd, -⟩ | ⟨r, hd, -⟩ | ⟨e', hd, hp, -⟩
      · simp [hd, reportedIn] at h
      · simp [hd, reportedIn, Deed.fault?] at h
      · simp [hd, reportedIn, Deed.fault?] at h
      · obtain rfl : e = e' := by simpa [hd, reportedIn, Deed.fault?] using h
        exact (meets_of_reporting (.inr hp)).concat m

/-! ## The law of the counts -/

/-- In every state that a subscription can come to: wherever the worker waits or is gone, the reader
has taken as many records as are counted as delivered or one fewer, and as many are counted as
delivered as messages are counted as received or one fewer, so that the worker is two messages ahead
of the reader at most. A worker that has completed has delivered all that it received. One that has
failed has met a fault, the one that it reports if it reports any, and has delivered all that it
received but for the message at fault, if the fault is not one of the feed. And whoever keeps the
side of the records open and is told that they have ended has got all that are counted as
delivered. -/
theorem counts_keep_pace (t : Topic) (c : SubscribeSettings) (feed : Feed t.Message)
    (ms : List Move) (s : Subscription t) (hs : (ofFeed c feed).after ms = s)
    (read : Nat) (hread : (recordsOf ((ofFeed c feed).taken ms)).length = read) :
    (s.step = none → s.phase.IsRest) ∧
    (s.phase.IsRest →
      read ≤ s.stats.delivered ∧ s.stats.delivered ≤ read + 1 ∧
      s.stats.delivered ≤ s.stats.received ∧ s.stats.received ≤ s.stats.delivered + 1 ∧
      s.stats.received ≤ read + 2) ∧
    (s.hasExited = true → s.stats.outcome = .completed →
      s.stats.received = s.stats.delivered) ∧
    (s.stats.outcome = .failed → ∃ e, (ofFeed c feed).Meets ms e) ∧
    (∀ e ∈ reportedIn ((ofFeed c feed).log ms), (ofFeed c feed).Meets ms e) ∧
    (∀ e, (ofFeed c feed).Meets ms e → s.stats.received = s.stats.delivered + e.messages) ∧
    ((∀ m ∈ ms, m.keepsRecords = true) → s.next.1 = .ended → read = s.stats.delivered) := by
  subst hs hread
  have hl := faultIsLast_ofFeed c feed
  have hdelivered := run_delivered (ofFeed c feed) ms
  have hplaced := placed_le hl ms
  have hread := (taken_prefix_log hl ms).1.length_le
  have hfree : (ofFeed c feed).record = none := rfl
  have hzero : (ofFeed c feed).stats.delivered + (ofFeed c feed).phase.uncounted = 0 := rfl
  rw [hfree, List.length_append] at hread
  rw [hfree] at hplaced
  simp only [Option.toList_none, List.length_nil, Nat.zero_add] at hread hplaced
  obtain ⟨n, hn, hholds⟩ := run_balanced c feed ms
  have hle := Phase.le_one_of_holds hholds
  refine ⟨isRest_of_step_eq_none, ?_, ?_, meets_of_failed, fun e => meets_of_reported,
    fun e he => he.failedWith.received, ?_⟩
  · intro hrest
    have := Phase.uncounted_of_isRest hrest
    omega
  · intro hx ho
    rw [(hasExited_iff _).1 hx] at hholds
    have := hholds.2 ho
    omega
  · intro hk hended
    obtain ⟨hr, hx⟩ := (next_ended_iff _).1 hended
    have hconserved := (run_conserves hl ms).1 hk
    rw [hr, hfree] at hconserved
    simp only [Option.toList_none, List.append_nil, List.nil_append] at hconserved
    have hu : ((ofFeed c feed).after ms).phase.uncounted = 0 := by
      rw [(hasExited_iff _).1 hx]
      rfl
    rw [hconserved]
    omega

/-- After index 5 comes 7: one record is put in its place, counted and read, and the second message
is received for the fault. -/
theorem counts_keep_pace_at_gap :
    ∃ s read, (ofFeed { SubscribeSettings.default with firstIndex := 5 }
        (.message (bareStatus 5) false (.message (bareStatus 7) false .silent))).after
          (List.replicate 7 .work ++ .next :: List.replicate 8 .work) = s ∧
      (recordsOf ((ofFeed { SubscribeSettings.default with firstIndex := 5 }
        (.message (bareStatus 5) false (.message (bareStatus 7) false .silent))).taken
          (List.replicate 7 .work ++ .next :: List.replicate 8 .work))).length = read ∧
      (∀ m ∈ List.replicate 7 Move.work ++ .next :: List.replicate 8 .work,
        m.keepsRecords = true) ∧
      s.step = none ∧ s.next.1 = .ended ∧ read = s.stats.delivered ∧
      s.stats.received = s.stats.delivered + 1 := by
  obtain ⟨-, -, -, -, -, hmeets, hread⟩ := counts_keep_pace .accountStatuses
    { SubscribeSettings.default with firstIndex := 5 }
    (.message (bareStatus 5) false (.message (bareStatus 7) false .silent))
    (List.replicate 7 .work ++ .next :: List.replicate 8 .work) _ rfl _ rfl
  have hmet := hmeets (.ordering .accountStatuses 9 (.outOfOrder 6 7))
    ⟨List.replicate 7 .work ++ .next :: List.replicate 4 .work, by decide, rfl⟩
  exact ⟨_, _, rfl, rfl, by decide, rfl, rfl, hread (by decide) rfl, hmet⟩

end Subscription

end LedgerFeed

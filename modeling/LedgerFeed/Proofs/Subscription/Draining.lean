import Mathlib.Order.WellFounded
import LedgerFeed.Proofs.Subscription.Delivery

/-!
# Draining a subscription

An endless run drains a calm subscription if the worker always gets another turn and the reader
always asks again. A move that changes anything lowers `work`, so from some moment on nothing
changes; a state that neither a turn of the worker nor a question of the reader changes has nothing
ahead (`itemsAhead_of_idle`). So the reader has got everything by then. For the same reason `drain`
does not stop before there is nothing to read (`drain_reads_all`).
-/

namespace LedgerFeed.Subscription
variable {t : Topic} {s s' : Subscription t}

/-- Taking the record lowers the work, also where a worker is blocked that has room then. -/
theorem work_without_record {r : t.Record} (h : s.record = some r) :
    { s with record := none }.work < s.work := by
  have hrank : { s with record := none }.rank ≤ s.rank + 2 := by
    cases hp : s.phase with
    | blocked r =>
      simp only [rank, hp]
      split <;> split <;> omega
    | answered a => cases a <;> simp [rank, hp]
    | receiving | asking | waiting | handling | offering | sending | placed | failing | reporting
    | posting | finishing | leaving | exited => simp [rank, hp]
  simp only [work, h, Option.toList_none, Option.toList_some, List.length_nil,
    List.length_singleton]
  omega

/-- Taking the fault lowers the work. -/
theorem work_without_fault {e : StreamError} (h : s.fault = some e) :
    { s with fault := none }.work < s.work := by
  have hrank : { s with fault := none }.rank = s.rank := rfl
  simp only [work, hrank, h, Option.toList_none, Option.toList_some, List.length_nil,
    List.length_singleton]
  omega

/-- A reading is in vain or lowers the work. -/
theorem reading_eq_or_work_lt {m : Move} (hm : m.IsReading) :
    s.move m = (none, s) ∨ (s.move m).2.work < s.work := by
  rcases reading_cases s hm with h | ⟨r, hr, h⟩ | ⟨e, hf, -, h⟩
  · exact .inl h
  · exact .inr (by rw [h]; exact work_without_record hr)
  · exact .inr (by rw [h]; exact work_without_fault hf)

/-- An orderly move is in vain or lowers the work. -/
theorem move_eq_or_work_lt {m : Move} (hm : m.IsOrderly s) :
    s.move m = (none, s) ∨ (s.move m).2.work < s.work := by
  by_cases hr : m.IsReading
  · exact reading_eq_or_work_lt hr
  cases m with
  | work =>
    cases h : s.step with
    | none => left; simp [move, h]
    | some s' => right; simpa [move, h] using (Step.of_step h).work_lt
  | next | recv | error => exact (hr trivial).elim
  | cancel | cancelAll | closeRecords | closeFaults | drop => exact hm.elim

/-- The worker that goes on as far as it can has no more work than before. -/
theorem work_advance_le (n : Nat) (s : Subscription t) : (advance n s).work ≤ s.work := by
  induction n generalizing s with
  | zero => exact Nat.le_refl _
  | succ n ih =>
    unfold advance
    cases h : s.step with
    | none => exact Nat.le_refl _
    | some s' => exact Nat.le_trans (ih s') (Nat.le_of_lt (Step.of_step h).work_lt)

/-- A reading in vain changes nothing. -/
theorem recv_of_in_vain (h : s.recv.1.item? = none) : s.recv.2 = s := by
  rcases recv_cases s with ⟨r, -, hr⟩ | ⟨-, -, hr⟩ | ⟨e, -, -, -, hr⟩ | ⟨-, -, -, hr⟩
  · rw [hr] at h; cases h
  · rw [hr]
  · rw [hr] at h; cases h
  · rw [hr]

/-- With more readings than there is work, all is read: there is nothing in place for the next one,
and the worker has to wait or is gone. -/
theorem drainWithin_reads_all {n : Nat} (h : s.work < n) :
    (drainWithin n s).2.2.step = none ∧ (drainWithin n s).2.2.recv.1.item? = none := by
  induction n generalizing s with
  | zero => omega
  | succ n ih =>
    have hvain : s.settle.recv.1.item? = none →
        s.settle.recv.2.step = none ∧ s.settle.recv.2.recv.1.item? = none := by
      intro hn
      rw [recv_of_in_vain hn]
      exact ⟨step_settle s, hn⟩
    have hle : s.settle.work ≤ s.work := work_advance_le _ s
    have hrecv := reading_eq_or_work_lt (s := s.settle) (m := .recv) trivial
    simp only [move, Prod.mk.injEq] at hrecv
    rw [drainWithin]
    split
    · next a s' hr =>
      -- what has been read weighs more than nothing, so there is less work than before
      rw [hr] at hrecv
      rcases hrecv with ⟨hn, -⟩ | hlt
      · cases hn
      · exact ih (by dsimp only at hlt; omega)
    · next s' hr => rw [hr] at hvain; exact hvain rfl
    · next s' hr => rw [hr] at hvain; exact hvain rfl

/-- Whoever drains a subscription reads all that there is to read. -/
theorem drain_reads_all (s : Subscription t) :
    s.drain.2.2.step = none ∧ s.drain.2.2.recv.1.item? = none :=
  drainWithin_reads_all (Nat.lt_succ_self _)

/-- The reader asks for a record, or for a fault, that it may still get. -/
def Move.Asks (s : Subscription t) : Move → Prop
  | .recv => True
  | .next => s.next.1 ≠ .ended
  | .error => s.next.1 = .ended
  | _ => False

/-- A question in vain finds no record in its place, and no fault either if the worker is gone. -/
theorem places_of_asks_in_vain {m : Move} (hm : m.Asks s) (h : s.move m = (none, s)) :
    s.record = none ∧ (s.hasExited = true → s.fault = none) := by
  have hi : (s.move m).1 = none := by rw [h]
  cases m with
  | recv =>
    rcases recv_cases s with ⟨r, -, h⟩ | ⟨hr, hx, -⟩ | ⟨e, -, -, -, h⟩ | ⟨hr, -, hf, -⟩
    · simp [move, h, Reading.item?] at hi
    · exact ⟨hr, fun hx' => by simp [hx] at hx'⟩
    · simp [move, h, Reading.item?] at hi
    · exact ⟨hr, fun _ => hf⟩
  | next =>
    rcases next_cases s with ⟨r, -, h⟩ | ⟨hr, hx, -⟩ | ⟨-, -, h⟩
    · simp [move, h, Reading.item?] at hi
    · exact ⟨hr, fun hx' => by simp [hx] at hx'⟩
    · exact (hm (by rw [h])).elim
  | error =>
    rcases error_cases s with ⟨e, -, h⟩ | ⟨hf, -⟩
    · simp [move, h, Reading.item?] at hi
    · exact ⟨(s.next_ended_iff.1 hm).1, fun _ => hf⟩
  | work | cancel | cancelAll | closeRecords | closeFaults | drop => exact hm.elim

/-- The worker of a subscription with a free place waits only for a silent feed. -/
theorem exited_or_silent (hr : s.record = none) (h : s.step = none) :
    s.hasExited = true ∨ s.due = .only .silent := by
  rcases waiting_cases h with ⟨hp, -⟩ | ⟨r, -, -, -, hn⟩ | hp
  · right; simp [due, hp]
  · exact (hn hr).elim
  · left; simp [hasExited, hp]

/-- Nothing lies ahead where neither the worker nor the reader can change anything, and the reader
is told so unless the feed is silent. -/
theorem itemsAhead_of_idle (hl : s.FaultIsLast) (hstep : s.step = none)
    (hr : s.record = none) (hf : s.hasExited = true → s.fault = none) :
    s.itemsAhead = [] ∧ (s.due.ending ≠ .silent → s.recv.1 = .ended) := by
  rcases exited_or_silent hr hstep with hx | hd
  · have h := s.recv_ended_iff.2 ⟨hr, hx, hf hx⟩
    exact ⟨itemsAhead_of_ended h, fun _ => h⟩
  · refine ⟨?_, fun hn => (hn (by rw [hd]; rfl)).elim⟩
    have hn : s.fault = none := by
      refine hl ?_
      cases hx : s.isLeaving with
      | true => rw [due_of_isLeaving hx] at hd; cases hd
      | false => rfl
    rw [itemsAhead, recordsAhead, faultsAhead, hd, hr, hn]
    simp

/-! ## Endless runs -/

/-- The first moves of an endless run. -/
def upTo (σ : Nat → Move) (n : Nat) : List Move :=
  (List.range n).map σ

/-- The first moves of a schedule are those before the last of them and that one. -/
theorem upTo_succ (σ : Nat → Move) (n : Nat) : upTo σ (n + 1) = upTo σ n ++ [σ n] := by
  simp [upTo, List.range_succ]

/-- An endless run in which the reader does nothing but read, through `recv`, or through `next`
until the records have ended and then through `error`; the worker always gets another turn, and the
reader always asks again. -/
structure Drains (s : Subscription t) (σ : Nat → Move) : Prop where
  orderly : ∀ n, s.IsOrderly (upTo σ n)
  works : ∀ n, ∃ m, n ≤ m ∧ σ m = .work
  asks : ∀ n, ∃ m, n ≤ m ∧ (σ m).Asks (s.after (upTo σ m))

/-- A run in two parts is orderly just if both parts are where they start. -/
theorem isOrderly_append {ms ns : List Move} :
    s.IsOrderly (ms ++ ns) ↔ s.IsOrderly ms ∧ (s.after ms).IsOrderly ns := by
  induction ms generalizing s with
  | nil => simp [IsOrderly, after]
  | cons m ms ih => simp only [List.cons_append, IsOrderly, after, ih, and_assoc]

/-- Every move of an endless orderly run is orderly. -/
theorem Drains.move {σ : Nat → Move} (hd : s.Drains σ) (n : Nat) :
    (σ n).IsOrderly (s.after (upTo σ n)) := by
  have h := hd.orderly (n + 1)
  rw [upTo_succ, isOrderly_append] at h
  exact h.2.1

/-- An endless orderly run comes to a moment from which on no move changes anything: the one at
which the work is least. -/
theorem Drains.idle {σ : Nat → Move} (hd : s.Drains σ) :
    ∃ n, ∀ m, n ≤ m → s.after (upTo σ m) = s.after (upTo σ n) ∧
      (s.after (upTo σ m)).move (σ m) = (none, s.after (upTo σ m)) := by
  let f (n : Nat) : Nat := (s.after (upTo σ n)).work
  obtain ⟨n, hn⟩ : ∃ n, ∀ m, f n ≤ f m := by
    obtain ⟨n, hn⟩ := WellFounded.has_min (InvImage.wf f Nat.lt_wfRel.wf) Set.univ ⟨0, trivial⟩
    exact ⟨n, fun m => Nat.le_of_not_lt (hn.2 m trivial)⟩
  have hidle : ∀ m, s.after (upTo σ m) = s.after (upTo σ n) →
      (s.after (upTo σ m)).move (σ m) = (none, s.after (upTo σ m)) := by
    intro m hm
    rcases move_eq_or_work_lt (hd.move m) with h | h
    · exact h
    · rw [← after_concat, ← upTo_succ] at h
      have : f (m + 1) < f n := by rw [hm] at h; exact h
      exact absurd (hn (m + 1)) (by omega)
  refine ⟨n, ?_⟩
  intro m hm
  suffices h : s.after (upTo σ m) = s.after (upTo σ n) from ⟨h, hidle m h⟩
  induction m, hm using Nat.le_induction with
  | base => rfl
  | succ m _ ih => rw [upTo_succ, after_concat, hidle m ih]; exact ih

/-- A run in which the reader uses `recv` alone is orderly. -/
theorem isOrderly_of_recv {ms : List Move} (h : ∀ m ∈ ms, m = .work ∨ m = .recv) :
    s.IsOrderly ms := by
  induction ms generalizing s with
  | nil => trivial
  | cons m ms ih =>
    refine ⟨?_, ih fun m' hm' => h m' (.tail _ hm')⟩
    rcases h m (.head _) with rfl | rfl <;> trivial

/-- Whoever keeps using `recv` drains the subscription. -/
theorem drains_of_recv {σ : Nat → Move} (h : ∀ n, σ n = .work ∨ σ n = .recv)
    (hw : ∀ n, ∃ m, n ≤ m ∧ σ m = .work) (hr : ∀ n, ∃ m, n ≤ m ∧ σ m = .recv) : s.Drains σ where
  orderly n := isOrderly_of_recv fun m hm => by
    obtain ⟨i, -, rfl⟩ := List.mem_map.1 hm
    exact h i
  works := hw
  asks n := by
    obtain ⟨m, hm, h⟩ := hr n
    exact ⟨m, hm, by rw [h]; trivial⟩

/-- A reader who drains a calm subscription has got everything from some moment on, and is told so
unless the feed falls silent. -/
theorem Drains.taken {σ : Nat → Move} (hl : s.FaultIsLast) (hs : s.IsCalm) (hd : s.Drains σ) :
    ∃ n, ∀ m, n ≤ m → s.taken (upTo σ m) = s.itemsAhead ∧
      (s.due.ending ≠ .silent → (s.after (upTo σ m)).recv.1 = .ended) := by
  obtain ⟨n, hn⟩ := hd.idle
  obtain ⟨w, hnw, hw⟩ := hd.works n
  obtain ⟨a, hna, ha⟩ := hd.asks n
  have hstep : (s.after (upTo σ n)).step = none := by
    obtain ⟨he, hm⟩ := hn w hnw
    rw [hw, he] at hm
    cases h : (s.after (upTo σ n)).step with
    | none => rfl
    | some s' =>
      have hlt := (Step.of_step h).work_lt
      simp only [Subscription.move, h, Option.getD_some, Prod.mk.injEq, true_and] at hm
      rw [hm] at hlt
      exact absurd hlt (Nat.lt_irrefl _)
  obtain ⟨hr, hf⟩ : (s.after (upTo σ n)).record = none ∧
      ((s.after (upTo σ n)).hasExited = true → (s.after (upTo σ n)).fault = none) := by
    obtain ⟨he, hm⟩ := hn a hna
    rw [he] at hm ha
    exact places_of_asks_in_vain ha hm
  obtain ⟨hi, hended⟩ := itemsAhead_of_idle (run_faultIsLast hl _) hstep hr hf
  refine ⟨n, ?_⟩
  intro m hm
  rw [(hn m hm).1]
  refine ⟨?_, fun hy => hended (mt (run_silent_iff hs (hd.orderly n)).1 hy)⟩
  have h := run_itemsAhead hl hs (hd.orderly m)
  rwa [(hn m hm).1, hi, List.append_nil] at h

/-! ## The law of delivery -/

/-- Whatever happens to a subscription, its reader gets, in order, a prefix of the records that its
feed yields, and no fault but the one at the end. If nothing cancels the subscription or closes a
side, the reader gets the yield item by item, has all records when `next` says that they have ended,
and has all items when `recv` says so; and if the worker gets its turns and the reader keeps asking,
the reader gets all, in any order of their moves. -/
theorem delivers (t : Topic) (c : SubscribeSettings) (feed : Feed t.Message) :
    (∀ ms : List Move,
      recordsOf ((ofFeed c feed).taken ms) <+:
          (Yield.ofFeed c.decode c.firstIndex.toNat feed).records ∧
        faultsOf ((ofFeed c feed).taken ms) <+:
          (Yield.ofFeed c.decode c.firstIndex.toNat feed).faults) ∧
    (feed.IsCalm → ∀ ms : List Move, (ofFeed c feed).IsOrderly ms →
      (ofFeed c feed).taken ms <+: (Yield.ofFeed c.decode c.firstIndex.toNat feed).items ∧
        (((ofFeed c feed).after ms).next.1 = .ended →
          recordsOf ((ofFeed c feed).taken ms) =
            (Yield.ofFeed c.decode c.firstIndex.toNat feed).records) ∧
        (((ofFeed c feed).after ms).recv.1 = .ended →
          (ofFeed c feed).taken ms = (Yield.ofFeed c.decode c.firstIndex.toNat feed).items)) ∧
    (feed.IsCalm → ∀ σ : Nat → Move, (ofFeed c feed).Drains σ →
      ∃ n, ∀ m, n ≤ m →
        (ofFeed c feed).taken (upTo σ m) =
            (Yield.ofFeed c.decode c.firstIndex.toNat feed).items ∧
          ((Yield.ofFeed c.decode c.firstIndex.toNat feed).ending ≠ .silent →
            ((ofFeed c feed).after (upTo σ m)).recv.1 = .ended)) := by
  have hl := faultIsLast_ofFeed c feed
  refine ⟨?_, ?_, ?_⟩
  · intro ms
    obtain ⟨hr, hf⟩ := run_ahead hl ms
    rw [recordsAhead_ofFeed] at hr
    rw [faultsAhead_ofFeed] at hf
    exact ⟨(List.prefix_append _ _).trans hr, (List.prefix_append _ _).trans hf⟩
  · intro hfeed ms hm
    have h := run_itemsAhead hl (isCalm_ofFeed c hfeed) hm
    rw [itemsAhead_ofFeed] at h
    refine ⟨⟨_, h⟩, ?_, ?_⟩
    · intro hn
      have hr := congrArg recordsOf h
      rw [recordsOf_append, itemsAhead, recordsOf_items, recordsAhead_of_ended hn, List.append_nil,
        Yield.items, recordsOf_items] at hr
      exact hr
    · intro hn
      rwa [itemsAhead_of_ended hn, List.append_nil] at h
  · intro hfeed σ hd
    rw [← itemsAhead_ofFeed, ← due_ofFeed]
    exact hd.taken hl (isCalm_ofFeed c hfeed)

/-- The worker and the reader take turns. -/
def turns (n : Nat) : Move :=
  if n % 2 = 0 then .work else .recv

/-- Taking turns drains every subscription. -/
theorem drains_turns (s : Subscription t) : s.Drains turns := by
  refine drains_of_recv ?_ ?_ ?_
  · intro n
    unfold turns
    split
    · exact .inl rfl
    · exact .inr rfl
  · intro n
    refine ⟨2 * n, by omega, ?_⟩
    rw [turns, if_pos (by omega)]
  · intro n
    refine ⟨2 * n + 1, by omega, ?_⟩
    rw [turns, if_neg (by omega)]

/-- The message of an account topic that has no results. -/
def bareStatus (index : UInt64) : Topic.accountStatuses.Message :=
  AccountMessage.mk (List.replicate 32 0) 9 index []

/-- After index 5 comes 7: the reader gets one record and the fault that names both indices, though
the feed does not end. -/
theorem delivers_up_to_gap :
    (Feed.message (bareStatus 5) false (.message (bareStatus 7) false .silent)).IsCalm ∧
    ∃ n, ∀ m, n ≤ m →
      (ofFeed { SubscribeSettings.default with firstIndex := 5 }
        (.message (bareStatus 5) false (.message (bareStatus 7) false .silent))).taken
          (upTo turns m) =
        [.ok (AccountStatus.mk ⟨List.replicate 32 0, rfl⟩ 9 5 []),
          .error (.ordering .accountStatuses 9 (.outOfOrder 6 7))] := by
  have hcalm : (Feed.message (bareStatus 5) false (.message (bareStatus 7) false .silent)).IsCalm :=
    ⟨rfl, rfl, trivial⟩
  refine ⟨hcalm, ?_⟩
  obtain ⟨n, hn⟩ := (delivers .accountStatuses { SubscribeSettings.default with firstIndex := 5 }
    (.message (bareStatus 5) false (.message (bareStatus 7) false .silent))).2.2 hcalm turns
      (drains_turns _)
  exact ⟨n, fun m hm => (hn m hm).1⟩

end LedgerFeed.Subscription

import LedgerFeed.Proofs.Subscription.Ahead

/-!
# Delivery

Whatever happens to a subscription, the reader gets a prefix of the yield of its feed; and a reader
of a calm subscription loses nothing. Both are inductions on the run: `move_ahead` is the law of any
move, `move_itemsAhead` that of a move which neither cancels nor closes anything.
-/

namespace LedgerFeed.Subscription
variable {t : Topic} {s : Subscription t}

/-! ## Any run -/

/-- The records among items. -/
def recordsOf (items : List (Item t)) : List t.Record :=
  items.filterMap Item.record?

/-- The faults among items. -/
def faultsOf (items : List (Item t)) : List StreamError :=
  items.filterMap Item.fault?

/-- The records of two parts follow each other. -/
theorem recordsOf_append (xs ys : List (Item t)) :
    recordsOf (xs ++ ys) = recordsOf xs ++ recordsOf ys :=
  List.filterMap_append

/-- The faults of two parts follow each other. -/
theorem faultsOf_append (xs ys : List (Item t)) :
    faultsOf (xs ++ ys) = faultsOf xs ++ faultsOf ys :=
  List.filterMap_append

/-- The records among records and faults. -/
theorem recordsOf_items (rs : List t.Record) (fs : List StreamError) :
    recordsOf (rs.map .ok ++ fs.map .error) = rs := by
  have hr : recordsOf (rs.map .ok) = rs := by
    rw [recordsOf, List.filterMap_map]
    exact List.filterMap_some
  have hf : recordsOf (t := t) (fs.map .error) = [] := by
    rw [recordsOf, List.filterMap_map]
    exact List.filterMap_eq_nil_iff.2 fun _ _ => rfl
  rw [recordsOf_append, hr, hf, List.append_nil]

/-- The records and faults that a reading gives, and what lies ahead after it, lay ahead before. -/
theorem reading_ahead (s : Subscription t) {m : Move} (hm : m.IsReading) :
    recordsOf (s.move m).1.toList ++ (s.move m).2.recordsAhead = s.recordsAhead ∧
      faultsOf (s.move m).1.toList ++ (s.move m).2.faultsAhead = s.faultsAhead := by
  rcases reading_cases s hm with h | ⟨r, hr, h⟩ | ⟨e, hf, -, h⟩
  · rw [h]; exact ⟨rfl, rfl⟩
  · rw [h, recordsAhead_of_record hr]; exact ⟨rfl, rfl⟩
  · rw [h, faultsAhead_of_fault hf]; exact ⟨rfl, rfl⟩

/-- Whatever a move is: the records and faults that it gives, and what lies ahead after it, are a
prefix of what lay ahead before. -/
theorem move_ahead (hs : s.FaultIsLast) (m : Move) :
    recordsOf (s.move m).1.toList ++ (s.move m).2.recordsAhead <+: s.recordsAhead ∧
      faultsOf (s.move m).1.toList ++ (s.move m).2.faultsAhead <+: s.faultsAhead := by
  by_cases hm : m.IsReading
  · obtain ⟨h1, h2⟩ := reading_ahead s hm
    exact ⟨h1 ▸ List.prefix_refl _, h2 ▸ List.prefix_refl _⟩
  cases m with
  | work =>
    cases h : s.step with
    | none => simp [move, h, recordsOf, faultsOf]
    | some s' =>
      have h' : s'.recordsAhead <+: s.recordsAhead ∧ s'.faultsAhead <+: s.faultsAhead := by
        rcases (Step.of_step h).ahead hs with ⟨h1, h2⟩ | ⟨-, h1, h2⟩
        · exact ⟨h1 ▸ List.prefix_refl _, h2 ▸ List.prefix_refl _⟩
        · exact ⟨h1, h2⟩
      simpa [move, h, recordsOf, faultsOf] using h'
  | next | recv | error => exact (hm trivial).elim
  | cancel | cancelAll => exact ⟨List.prefix_refl _, List.prefix_refl _⟩
  | closeRecords => exact ⟨List.nil_prefix, List.prefix_refl _⟩
  | closeFaults => exact ⟨List.prefix_refl _, List.nil_prefix⟩
  | drop => exact ⟨List.nil_prefix, List.nil_prefix⟩

/-- A fault stays the last whatever happens. -/
theorem move_faultIsLast (hs : s.FaultIsLast) (m : Move) : (s.move m).2.FaultIsLast := by
  by_cases hm : m.IsReading
  · rcases reading_cases s hm with h | ⟨r, -, h⟩ | ⟨e, -, -, h⟩
    · rw [h]; exact hs
    · rw [h]; exact hs
    · rw [h]; exact fun _ => rfl
  cases m with
  | work =>
    cases h : s.step with
    | none => simpa [move, h] using hs
    | some s' => simpa [move, h] using (Step.of_step h).faultIsLast hs
  | next | recv | error => exact (hm trivial).elim
  | cancel | cancelAll | closeRecords => exact hs
  | closeFaults | drop => exact fun _ => rfl

/-- What the reader gets in a run, and what lies ahead at its end, lay ahead at its start. -/
theorem run_ahead (hs : s.FaultIsLast) (ms : List Move) :
    recordsOf (s.taken ms) ++ (s.after ms).recordsAhead <+: s.recordsAhead ∧
      faultsOf (s.taken ms) ++ (s.after ms).faultsAhead <+: s.faultsAhead := by
  induction ms generalizing s with
  | nil => exact ⟨List.prefix_refl _, List.prefix_refl _⟩
  | cons m ms ih =>
    obtain ⟨hr, hf⟩ := ih (move_faultIsLast hs m)
    obtain ⟨hr', hf'⟩ := move_ahead hs m
    rw [taken, after, recordsOf_append, faultsOf_append, List.append_assoc, List.append_assoc]
    exact ⟨((List.prefix_append_right_inj _).2 hr).trans hr',
      ((List.prefix_append_right_inj _).2 hf).trans hf'⟩

/-! ## Calm runs -/

/-- The reader does nothing but read, and asks for a fault alone only after the records. -/
def Move.IsOrderly (s : Subscription t) : Move → Prop
  | .work | .next | .recv => True
  | .error => s.next.1 = .ended
  | .cancel | .cancelAll | .closeRecords | .closeFaults | .drop => False

/-- Every move of a run is orderly where it happens. -/
def IsOrderly (s : Subscription t) : List Move → Prop
  | [] => True
  | m :: ms => m.IsOrderly s ∧ (s.move m).2.IsOrderly ms

/-- The state of a calm run: nothing has stopped it, and a fault is the last. -/
theorem move_isCalm (hs : s.IsCalm) {m : Move} (hm : m.IsOrderly s) : (s.move m).2.IsCalm := by
  by_cases hr : m.IsReading
  · obtain ⟨hc, ho, hf, hfeed⟩ := hs
    rcases reading_cases s hr with h | ⟨r, -, h⟩ | ⟨e, -, -, h⟩ <;> rw [h] <;>
      exact ⟨hc, ho, hf, hfeed⟩
  cases m with
  | work =>
    cases h : s.step with
    | none => simpa [move, h] using hs
    | some s' => simpa [move, h] using (Step.of_step h).isCalm hs
  | next | recv | error => exact (hr trivial).elim
  | cancel | cancelAll | closeRecords | closeFaults | drop => exact hm.elim

/-- The item that an orderly move gives is the next one that lay ahead, and nothing is lost. -/
theorem move_itemsAhead (hl : s.FaultIsLast) (hs : s.IsCalm) {m : Move} (hm : m.IsOrderly s) :
    (s.move m).1.toList ++ (s.move m).2.itemsAhead = s.itemsAhead := by
  by_cases hr : m.IsReading
  · rcases reading_cases s hr with h | ⟨r, hr, h⟩ | ⟨e, hf, he, h⟩
    · rw [h]; rfl
    · rw [h, itemsAhead_of_record hr]; rfl
    · -- a fault is the next item because no record lies ahead of it
      have hn : s.next.1 = .ended := by
        cases m with
        | recv => exact he rfl
        | error => exact hm
        | next =>
          rcases next_cases s with ⟨_, _, hn⟩ | ⟨_, _, hn⟩ | ⟨_, _, hn⟩ <;>
            simp [move, hn, Reading.item?] at h
        | work | cancel | cancelAll | closeRecords | closeFaults | drop => exact hr.elim
      rw [h, itemsAhead_of_fault hf (recordsAhead_of_ended hn)]
      rfl
  cases m with
  | work =>
    cases h : s.step with
    | none => simp [move, h]
    | some s' =>
      obtain ⟨h1, h2⟩ := (Step.of_step h).ahead_of_isCalm hl hs
      simp [move, h, itemsAhead, h1, h2]
  | next | recv | error => exact (hr trivial).elim
  | cancel | cancelAll | closeRecords | closeFaults | drop => exact hm.elim

/-- In a calm run nothing is lost: what the reader gets in it, followed by what lies ahead at its
end, is what lay ahead at its start. -/
theorem run_itemsAhead (hl : s.FaultIsLast) (hs : s.IsCalm) {ms : List Move}
    (hm : s.IsOrderly ms) : s.taken ms ++ (s.after ms).itemsAhead = s.itemsAhead := by
  induction ms generalizing s with
  | nil => rfl
  | cons m ms ih =>
    obtain ⟨h1, h2⟩ := hm
    rw [taken, after, List.append_assoc, ih (move_faultIsLast hl m) (move_isCalm hs h1) h2,
      move_itemsAhead hl hs h1]

/-- A run keeps the fault last. -/
theorem run_faultIsLast (hl : s.FaultIsLast) (ms : List Move) : (s.after ms).FaultIsLast := by
  induction ms generalizing s with
  | nil => exact hl
  | cons m ms ih => exact ih (move_faultIsLast hl m)

/-- An orderly move does not decide whether the feed falls silent. -/
theorem move_silent_iff (hs : s.IsCalm) {m : Move} (hm : m.IsOrderly s) :
    (s.move m).2.due.ending = .silent ↔ s.due.ending = .silent := by
  by_cases hr : m.IsReading
  · rcases reading_cases s hr with h | ⟨r, -, h⟩ | ⟨e, -, -, h⟩ <;> rw [h] <;> exact Iff.rfl
  cases m with
  | work =>
    cases h : s.step with
    | none => simp [move, h]
    | some s' => simpa [move, h] using (Step.of_step h).silent_iff hs
  | next | recv | error => exact (hr trivial).elim
  | cancel | cancelAll | closeRecords | closeFaults | drop => exact hm.elim

/-- Over an orderly run of a calm subscription, what is due stays as silent at its end as it was. -/
theorem run_silent_iff (hs : s.IsCalm) {ms : List Move} (hm : s.IsOrderly ms) :
    (s.after ms).due.ending = .silent ↔ s.due.ending = .silent := by
  induction ms generalizing s with
  | nil => exact Iff.rfl
  | cons m ms ih => exact (ih (move_isCalm hs hm.1) hm.2).trans (move_silent_iff hs hm.1)

/-! ## From the start -/

/-- What the worker of a new subscription will make of the feed is the yield of the feed. -/
theorem due_ofFeed (c : SubscribeSettings) (feed : Feed t.Message) :
    (ofFeed c feed).due = .ofFeed c.decode c.firstIndex.toNat feed := by
  have hq : (ofFeed c feed).sequence = Yield.sequenceAt t c.firstIndex.toNat := by
    simp [ofFeed, Yield.sequenceAt, Sequence.ofStart, c.firstIndex.toNat_lt]
  rw [← Yield.walk_eq_ofFeed, ← hq]
  rfl

/-- Ahead of a subscription that starts are the records of the yield of its feed. -/
theorem recordsAhead_ofFeed (c : SubscribeSettings) (feed : Feed t.Message) :
    (ofFeed c feed).recordsAhead = (Yield.ofFeed c.decode c.firstIndex.toNat feed).records := by
  rw [← due_ofFeed]; rfl

/-- Ahead of a subscription that starts are the faults of the yield of its feed. -/
theorem faultsAhead_ofFeed (c : SubscribeSettings) (feed : Feed t.Message) :
    (ofFeed c feed).faultsAhead = (Yield.ofFeed c.decode c.firstIndex.toNat feed).faults := by
  rw [← due_ofFeed]; rfl

/-- Ahead of a subscription that starts are the items of the yield of its feed. -/
theorem itemsAhead_ofFeed (c : SubscribeSettings) (feed : Feed t.Message) :
    (ofFeed c feed).itemsAhead = (Yield.ofFeed c.decode c.firstIndex.toNat feed).items := by
  rw [itemsAhead, recordsAhead_ofFeed, faultsAhead_ofFeed]; rfl

/-- In what a subscription starts with, the fault is last. -/
theorem faultIsLast_ofFeed (c : SubscribeSettings) (feed : Feed t.Message) :
    (ofFeed c feed).FaultIsLast := fun _ => rfl

/-- A subscription to a calm feed starts calm. -/
theorem isCalm_ofFeed (c : SubscribeSettings) {feed : Feed t.Message} (h : feed.IsCalm) :
    (ofFeed c feed).IsCalm := ⟨rfl, rfl, rfl, h⟩

end LedgerFeed.Subscription

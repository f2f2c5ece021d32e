import LedgerFeed.Proofs.Subscription.Yield

/-!
# What lies ahead of a reader

The records and faults that a reader may still get (`recordsAhead`, `faultsAhead`): what is in
place, and what the worker will make of the rest of the feed if nothing stops it. The law of every
move is that what the reader gets, followed by what lies ahead then, is a prefix of what lay ahead
before; nothing is lost unless somebody cancels or closes a side.
-/

namespace LedgerFeed.Subscription
variable {t : Topic} {s s' : Subscription t}

/-- The yield of what the worker has not put in place yet, the message at hand included. -/
def due (s : Subscription t) : Yield t :=
  match s.phase with
  | .receiving | .asking | .placed => .walk s.decode s.sequence s.feed
  | .waiting => .only .silent
  | .answered (.message m) | .handling m => .walk s.decode s.sequence (.message m false s.feed)
  | .answered (.fault e) => .only (.failed (.transport t e))
  | .answered .ended => .only .clean
  | .offering r | .sending r | .blocked r => (Yield.walk s.decode s.sequence s.feed).cons r
  | .failing e | .reporting e | .posting e => .only (.failed e)
  | .finishing _ | .leaving | .exited => .only .clean

/-- The records that the reader may still get. -/
def recordsAhead (s : Subscription t) : List t.Record :=
  s.record.toList ++ if s.recordsOpen then s.due.records else []

/-- The faults that the reader may still get. -/
def faultsAhead (s : Subscription t) : List StreamError :=
  s.fault.toList ++ if s.faultsOpen then s.due.faults else []

/-- The items that the reader may still get, the fault last. -/
def itemsAhead (s : Subscription t) : List (Item t) :=
  s.recordsAhead.map .ok ++ s.faultsAhead.map .error

/-- The worker has nothing left to do, or is gone. -/
def isLeaving (s : Subscription t) : Bool :=
  match s.phase with
  | .leaving | .exited => true
  | _ => false

/-- A fault is in its place only when the worker has nothing left to do. -/
def FaultIsLast (s : Subscription t) : Prop :=
  s.isLeaving = false → s.fault = none

/-- Nothing has stopped the subscription, and nothing in the feed will. -/
structure IsCalm (s : Subscription t) : Prop where
  cancelled : s.cancelled = false
  recordsOpen : s.recordsOpen = true
  faultsOpen : s.faultsOpen = true
  feed : s.feed.IsCalm

/-- A worker that is gone has nothing left to do. -/
theorem isLeaving_of_hasExited (h : s.hasExited = true) : s.isLeaving = true := by
  unfold hasExited at h
  split at h
  · next hp => rw [isLeaving, hp]
  · cases h

/-- Nothing is due when the worker has nothing left to do. -/
theorem due_of_isLeaving (h : s.isLeaving = true) : s.due = .only .clean := by
  unfold isLeaving at h
  split at h
  · next hp => rw [due, hp]
  · next hp => rw [due, hp]
  · cases h

/-! ## Steps of the worker -/

/-- A worker with nothing left to do goes on to nothing else. -/
theorem Enters.isLeaving {p : Phase t} (h : s.Enters p) (hl : s.isLeaving = true) :
    (s.enter p).isLeaving = true := by
  cases h with
  | leave => rfl
  | stop hp | ask hp | wait hp | stopWaiting hp | stopAtFault hp | meet hp | complete hp | refuse hp
  | stopOffering hp | send hp | giveUp hp | block hp | stopBlocked hp | wake hp | withhold hp
  | post hp => simp [Subscription.isLeaving, hp] at hl

/-- A worker with nothing left to do finds nothing more to do, so a fault stays the last. -/
theorem Step.faultIsLast (h : Step s s') (hs : s.FaultIsLast) : s'.FaultIsLast := by
  intro hn
  cases h with
  | enter h =>
    refine hs ?_
    cases hl : s.isLeaving with
    | false => rfl
    | true => rw [h.isLeaving hl] at hn; cases hn
  | message hp | fault hp | ended hp | receive hp | convert hp | place hp | count hp | fail hp =>
    exact hs (by rw [isLeaving, hp])
  | report | finish => cases hn

/-- What lies ahead depends on what is in place, on what is due and on which sides are open. -/
theorem ahead_congr (hr : s'.record = s.record) (hf : s'.fault = s.fault)
    (hro : s'.recordsOpen = s.recordsOpen) (hfo : s'.faultsOpen = s.faultsOpen)
    (hd : s'.due = s.due) :
    s'.recordsAhead = s.recordsAhead ∧ s'.faultsAhead = s.faultsAhead := by
  simp only [recordsAhead, faultsAhead, hr, hf, hro, hfo, hd]
  exact ⟨trivial, trivial⟩

/-- A worker that goes on to a phase in which nothing is due leaves what is in place. -/
theorem enter_ahead {p : Phase t} (h : (s.enter p).due = .only .clean) :
    (s.enter p).recordsAhead <+: s.recordsAhead ∧ (s.enter p).faultsAhead <+: s.faultsAhead := by
  have hr : (s.enter p).recordsAhead = s.record.toList := by
    rw [recordsAhead, h, Yield.only_records, ite_self, List.append_nil]; rfl
  have hf : (s.enter p).faultsAhead = s.fault.toList := by
    rw [faultsAhead, h, Yield.only_clean_faults, ite_self, List.append_nil]; rfl
  rw [hr, hf]
  exact ⟨List.prefix_append _ _, List.prefix_append _ _⟩

/-- A worker that goes on to another phase leaves what is due, unless the subscription is cancelled
or nobody will take its records: then nothing is due any more. -/
theorem Enters.due_cases {p : Phase t} (h : s.Enters p) :
    (s.enter p).due = s.due ∨
      ((s.cancelled = true ∨ s.recordsOpen = false) ∧ (s.enter p).due = .only .clean) := by
  cases h with
  | stop _ hc | stopWaiting _ hc | stopAtFault _ hc | stopOffering _ hc | stopBlocked _ hc
  | withhold _ hc => exact .inr ⟨.inl hc, rfl⟩
  | giveUp _ ho => exact .inr ⟨.inr ho, rfl⟩
  | wait hp hf => left; simp [due, enter, hp, hf, Yield.walk]
  | refuse hp hh => left; simp [due, enter, hp, hh, Yield.walk]
  | ask hp | meet hp | complete hp | send hp | block hp | wake hp | post hp | leave hp =>
    left; simp [due, enter, hp]

/-- A step of the worker changes nothing about what lies ahead, unless the subscription is
cancelled or a side is closed: then it may cut it off. -/
theorem Step.ahead (h : Step s s') (hs : s.FaultIsLast) :
    (s'.recordsAhead = s.recordsAhead ∧ s'.faultsAhead = s.faultsAhead) ∨
      ((s.cancelled = true ∨ s.recordsOpen = false ∨ s.faultsOpen = false) ∧
        s'.recordsAhead <+: s.recordsAhead ∧ s'.faultsAhead <+: s.faultsAhead) := by
  cases h with
  | enter h =>
    rcases h.due_cases with hd | ⟨hn, hd⟩
    · exact .inl (ahead_congr rfl rfl rfl rfl hd)
    · exact .inr ⟨hn.imp_right .inl, enter_ahead hd⟩
  | message hp hf | fault hp hf | ended hp hf =>
    exact .inl (ahead_congr rfl rfl rfl rfl (by simp [due, answer, hp, hf, Yield.walk]))
  | receive hp => exact .inl (ahead_congr rfl rfl rfl rfl (by simp [due, Subscription.receive, hp]))
  | convert hp hh => exact .inl (ahead_congr rfl rfl rfl rfl (by simp [due, hp, hh, Yield.walk]))
  | count hp | fail hp | finish hp =>
    exact .inl (ahead_congr rfl rfl rfl rfl (by simp [due, hp]))
  | place hp ho hr => left; simp [recordsAhead, faultsAhead, due, hp, ho, hr]
  | report hp =>
    have hn : s.fault = none := hs (by simp [isLeaving, hp])
    cases ho : s.faultsOpen with
    | true => left; simp [recordsAhead, faultsAhead, due, hp, ho, hn]
    | false =>
      right
      refine ⟨.inr (.inr rfl), ?_, ?_⟩
      · simp [recordsAhead, due, hp]
      · simp [faultsAhead, ho, hn]

/-- A step of the worker stops nothing. -/
theorem Step.isCalm (h : Step s s') (hs : s.IsCalm) : s'.IsCalm := by
  obtain ⟨hc, hr, hf, hfeed⟩ := hs
  cases h with
  | message _ hm =>
    rw [hm] at hfeed
    exact ⟨by simp [answer, hc, hfeed.1], hr, hf, hfeed.2⟩
  | fault _ hm =>
    have hfeed' := hfeed
    rw [hm] at hfeed'
    exact ⟨by rw [answer, hc, show _ = false from hfeed']; rfl, hr, hf, hfeed⟩
  | ended => exact ⟨by rw [answer, hc]; rfl, hr, hf, hfeed⟩
  | enter | receive | convert | place | count | fail | report | finish => exact ⟨hc, hr, hf, hfeed⟩

/-- A step of the worker of a calm subscription keeps what lies ahead. -/
theorem Step.ahead_of_isCalm (h : Step s s') (hl : s.FaultIsLast) (hs : s.IsCalm) :
    s'.recordsAhead = s.recordsAhead ∧ s'.faultsAhead = s.faultsAhead := by
  rcases h.ahead hl with h | ⟨hn, -⟩
  · exact h
  · simp [hs.cancelled, hs.recordsOpen, hs.faultsOpen] at hn

/-- A step of the worker of a calm subscription does not decide whether the feed falls silent. -/
theorem Step.silent_iff (h : Step s s') (hs : s.IsCalm) :
    s'.due.ending = .silent ↔ s.due.ending = .silent := by
  cases h with
  | enter h =>
    rcases h.due_cases with hd | ⟨hn, -⟩
    · rw [hd]
    · simp [hs.cancelled, hs.recordsOpen] at hn
  | message hp hf | fault hp hf | ended hp hf => simp [due, answer, hp, hf, Yield.walk]
  | receive hp => simp [due, Subscription.receive, hp]
  | convert hp hh => simp [due, hp, hh, Yield.walk]
  | place hp | count hp | fail hp | report hp | finish hp => simp [due, hp]

/-! ## Readings -/

/-- A record in its place is the next of the records that lie ahead. -/
theorem recordsAhead_of_record {r : t.Record} (h : s.record = some r) :
    s.recordsAhead = r :: { s with record := none }.recordsAhead := by
  have hd : { s with record := none }.due = s.due := rfl
  simp [recordsAhead, hd, h]

/-- A fault in its place is the next of the faults that lie ahead. -/
theorem faultsAhead_of_fault {e : StreamError} (h : s.fault = some e) :
    s.faultsAhead = e :: { s with fault := none }.faultsAhead := by
  have hd : { s with fault := none }.due = s.due := rfl
  simp [faultsAhead, hd, h]

/-- Taking the fault leaves the records that lie ahead. -/
theorem recordsAhead_without_fault (s : Subscription t) :
    { s with fault := none }.recordsAhead = s.recordsAhead := rfl

/-- No record lies ahead when the records have ended. -/
theorem recordsAhead_of_ended (h : s.next.1 = .ended) : s.recordsAhead = [] := by
  obtain ⟨hr, hx⟩ := s.next_ended_iff.1 h
  rw [recordsAhead, hr, due_of_isLeaving (isLeaving_of_hasExited hx)]
  simp

/-- A record in its place is the next of the items that lie ahead. -/
theorem itemsAhead_of_record {r : t.Record} (h : s.record = some r) :
    s.itemsAhead = .ok r :: { s with record := none }.itemsAhead := by
  rw [itemsAhead, recordsAhead_of_record h]
  rfl

/-- The fault is the next item if no record lies ahead of it. -/
theorem itemsAhead_of_fault {e : StreamError} (h : s.fault = some e) (hr : s.recordsAhead = []) :
    s.itemsAhead = .error e :: { s with fault := none }.itemsAhead := by
  rw [itemsAhead, itemsAhead, recordsAhead_without_fault, hr, faultsAhead_of_fault h]
  rfl

/-- Nothing lies ahead when all has been read. -/
theorem itemsAhead_of_ended (h : s.recv.1 = .ended) : s.itemsAhead = [] := by
  obtain ⟨hr, hx, hf⟩ := s.recv_ended_iff.1 h
  rw [itemsAhead, recordsAhead_of_ended (s.next_ended_iff.2 ⟨hr, hx⟩), faultsAhead, hf,
    due_of_isLeaving (isLeaving_of_hasExited hx)]
  simp

end LedgerFeed.Subscription

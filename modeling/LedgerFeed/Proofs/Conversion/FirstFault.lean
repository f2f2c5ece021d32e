import LedgerFeed.Proofs.Conversion.Checks
import LedgerFeed.Proofs.Conversion.Faithful
import LedgerFeed.Proofs.Conversion.Places

/-!
# The first fault of a message

A message without a record is refused for the first of its checks that finds a fault. If that is the
payload of an event, the fault says which event it is, and all events before it can be converted
(`convert_first_fault`).
-/

namespace LedgerFeed

variable {o : DecodeOptions} {α β : Type}

/-- A list is refused for one of its items, and the items before that one are converted. -/
theorem exists_of_convertAll_error {ε : Type} {convert : Nat → α → Except ε β} {i : Nat}
    {as : List α} {e : ε} (h : convertAll convert i as = .error e) :
    ∃ k a, as[k]? = some a ∧ convert (i + k) a = .error e ∧
      ∀ k' < k, ∀ a', as[k']? = some a' → ∃ b, convert (i + k') a' = .ok b := by
  induction as generalizing i with
  | nil => cases h
  | cons a as ih =>
    rcases bind_eq_error.1 h with ha | ⟨b, hb, h⟩
    · exact ⟨0, a, rfl, ha, fun _ hk => absurd hk (Nat.not_lt_zero _)⟩
    rcases bind_eq_error.1 h with hrest | ⟨bs, -, h⟩
    · obtain ⟨k, a₁, hget, herror, hbefore⟩ := ih hrest
      refine ⟨k + 1, a₁, hget, ?_, ?_⟩
      · rw [← herror, Nat.add_assoc, Nat.add_comm 1]
      · intro k' hk' a' ha'
        cases k' with
        | zero =>
          cases ha'
          exact ⟨b, hb⟩
        | succ k' =>
          obtain ⟨b', hb'⟩ := hbefore k' (by omega) a' ha'
          exact ⟨b', by rw [← hb', Nat.add_assoc, Nat.add_comm 1]⟩
    · cases h

/-! ## Faults of payloads -/

/-- The check that finds the fault of a payload is that of the payload's event. -/
theorem Check.eq_event_of_fault {c : Check} {l : Location} {fault : CodecError}
    (h : c.fault? o = some (.payload l fault)) :
    ∃ payload, c = .event l payload ∧ Codec.decode o payload = .error fault := by
  cases c with
  | present e isPresent => cases isPresent <;> cases h
  | identifier e f b | address e f b =>
    simp only [Check.fault?] at h
    split at h <;> cases h
  | event l' payload =>
    simp only [Check.fault?] at h
    split at h
    · next hdecode =>
      cases h
      exact ⟨payload, rfl, hdecode⟩
    · split at h <;> cases h

/-- What is refused for a payload checks that payload. -/
theorem Makes.event_mem {x : Except ConversionError α} {cs : List Check} (hx : Makes o x cs)
    {l : Location} {fault : CodecError} (h : x = .error (.payload l fault)) :
    ∃ payload, .event l payload ∈ cs ∧ Codec.decode o payload = .error fault := by
  obtain ⟨c, hc, hfault⟩ := List.exists_of_findSome?_eq_some ((hx _).1 h)
  obtain ⟨payload, rfl, hdecode⟩ := Check.eq_event_of_fault hfault
  exact ⟨payload, hc, hdecode⟩

/-- A conversion that checks no payloads never fails for one. -/
theorem Makes.ne_payload {x : Except ConversionError α} {cs : List Check} (hx : Makes o x cs)
    (h : ∀ l payload, .event l payload ∉ cs) (l : Location) (fault : CodecError) :
    x ≠ .error (.payload l fault) := by
  intro hpayload
  obtain ⟨payload, hmem, -⟩ := hx.event_mem hpayload
  exact h l payload hmem

/-- An identifier never fails for a payload. -/
theorem checkIdentifier_ne_payload (e : Entity) (f : Field) (b : Bytes) (l : Location)
    (fault : CodecError) : checkIdentifier e f b ≠ .error (.payload l fault) :=
  (checkIdentifier_makes (o := .lenient) e f b).ne_payload (by simp) l fault

/-- An address never fails for a payload. -/
theorem checkAddress_ne_payload (e : Entity) (f : Field) (b : Bytes) (l : Location)
    (fault : CodecError) : checkAddress e f b ≠ .error (.payload l fault) :=
  (checkAddress_makes (o := .lenient) e f b).ne_payload (by simp) l fault

/-- Events that a record mirrors are converted wherever they stand. -/
theorem RawEvent.converts_of_mirrored {es : List RawEvent} {rs : List Event}
    (h : List.Forall₂ (RawEvent.MirroredBy o) es rs) {j : Nat} {e : RawEvent}
    (he : es[j]? = some e) (l : Location) : ∃ r, e.convert o l = .ok r := by
  have hfits := (exists_forall₂_iff (RawEvent.mirrored_iff_fits (o := o)) es).1 ⟨rs, h⟩
  obtain ⟨r, hr⟩ := (e.mirrored_iff_fits).2 (hfits e (List.mem_of_getElem? he))
  exact ⟨r, (e.convert_eq_ok l r).2 hr⟩

/-- The payload of an event of a list is the first that does not decode, and the events before it
are converted. -/
structure RawEvent.FailsIn (o : DecodeOptions) (list : EventList) (es : List RawEvent)
    (l : Location) (fault : CodecError) (e : RawEvent) : Prop where
  listed : l.list = list
  event : es[l.position]? = some e
  decode : Codec.decode o e.payload = .error fault
  before : ∀ j < l.position, ∀ e', es[j]? = some e' → ∃ r, e'.convert o ⟨list, j⟩ = .ok r

/-- A list of events that fails for a payload holds the event whose payload it is. -/
theorem RawEvent.convertList_payload {list : EventList} {es : List RawEvent} {l : Location}
    {fault : CodecError} (h : convertList o list es = .error (.payload l fault)) :
    ∃ e, RawEvent.FailsIn o list es l fault e := by
  obtain ⟨j, e, hget, herror, hbefore⟩ := exists_of_convertAll_error h
  simp only [Nat.zero_add] at herror hbefore
  obtain ⟨payload, hmem, hdecode⟩ := (e.convert_makes ⟨list, j⟩).event_mem herror
  simp only [RawEvent.checks, List.mem_cons, reduceCtorEq, Check.event.injEq, List.not_mem_nil,
    or_false, false_or] at hmem
  obtain ⟨rfl, rfl⟩ := hmem
  exact ⟨e, rfl, hget, hdecode, hbefore⟩

/-- The result of an account that fails for a payload holds the event whose payload it is. -/
theorem RawAccountResult.convert_payload {i : Nat} {a : RawAccountResult} {l : Location}
    {fault : CodecError} (h : a.convert o i = .error (.payload l fault)) :
    ∃ e, RawEvent.FailsIn o (.result i) a.events l fault e := by
  rcases bind_eq_error.1 h with haddress | ⟨_, -, h⟩
  · exact absurd haddress (checkAddress_ne_payload _ _ _ _ _)
  rcases bind_eq_error.1 h with hevents | ⟨_, -, h⟩
  · exact RawEvent.convertList_payload hevents
  · cases h

/-- A chunk that fails for a payload holds the event whose payload it is. -/
theorem RawChunk.convert_payload {i : Nat} {c : RawChunk} {l : Location} {fault : CodecError}
    (h : c.convert o i = .error (.payload l fault)) :
    ∃ e, RawEvent.FailsIn o (.chunk i) c.events l fault e := by
  rcases bind_eq_error.1 h with htransactions | ⟨_, -, h⟩
  · have hmakes := convertAll_makes_flatMap (o := o) RawTransaction.convert_makes c.transactions
    exact absurd htransactions (hmakes.ne_payload (by simp [RawTransaction.checks]) l fault)
  rcases bind_eq_error.1 h with hevents | ⟨_, -, h⟩
  · exact RawEvent.convertList_payload hevents
  rcases bind_eq_error.1 h with hresults | ⟨_, -, h⟩
  · have hmakes := convertAll_makes_flatMap (o := o) RawTransactionResult.convert_makes c.results
    exact absurd hresults (hmakes.ne_payload (by simp [RawTransactionResult.checks]) l fault)
  · cases h

/-! ## Messages of all topics -/

namespace Topic

/-- The message has an event at the place, with a payload that has the fault, and all events before
it are converted. -/
def Message.FailsAt (t : Topic) (o : DecodeOptions) (m : t.Message) (l : Location)
    (fault : CodecError) (e : RawEvent) : Prop :=
  Message.EventAt t m l e ∧ Codec.decode o e.payload = .error fault ∧
    ∀ l' e', Message.EventAt t m l' e' → l'.Before l → ∃ r, e'.convert o l' = .ok r

/-- A message of events that fails for a payload holds the event at the place that is named. -/
theorem events_convert_payload {m : EventsMessage} {l : Location} {fault : CodecError}
    (h : m.convert o = .error (.payload l fault)) :
    ∃ e, Message.FailsAt .events o m l fault e := by
  rcases bind_eq_error.1 h with hid | ⟨_, -, h⟩
  · exact absurd hid (checkIdentifier_ne_payload _ _ _ _ _)
  rcases bind_eq_error.1 h with hevents | ⟨_, -, h⟩
  · obtain ⟨e, he⟩ := RawEvent.convertList_payload hevents
    refine ⟨e, ⟨he.listed, he.event⟩, he.decode, ?_⟩
    rintro ⟨list, j⟩ e' ⟨rfl, he'⟩ hbefore
    rw [Location.Before, he.listed] at hbefore
    rcases hbefore with hlt | ⟨-, hlt⟩
    · exact absurd hlt (Nat.lt_irrefl _)
    · exact he.before j hlt e' he'
  · cases h

/-- A message of account statuses that fails for a payload holds the event at the place that is
named. -/
theorem accounts_convert_payload {m : AccountMessage} {l : Location} {fault : CodecError}
    (h : m.convert o = .error (.payload l fault)) :
    ∃ e, Message.FailsAt .accountStatuses o m l fault e := by
  rcases bind_eq_error.1 h with hresults | ⟨_, -, h⟩
  · obtain ⟨i, a, hget, herror, hearlier⟩ := exists_of_convertAll_error hresults
    simp only [Nat.zero_add] at herror hearlier
    obtain ⟨e, he⟩ := RawAccountResult.convert_payload herror
    refine ⟨e, ⟨i, a, he.listed, hget, he.event⟩, he.decode, ?_⟩
    rintro ⟨list, j⟩ e' ⟨i', a', rfl, hget', he'⟩ hbefore
    rw [Location.Before, he.listed] at hbefore
    rcases hbefore with hlt | ⟨rfl, hlt⟩
    · obtain ⟨r, hr⟩ := hearlier i' hlt a' hget'
      exact RawEvent.converts_of_mirrored ((a'.convert_eq_ok i' r).1 hr).events he' _
    · cases hget.symm.trans hget'
      exact he.before j hlt e' he'
  rcases bind_eq_error.1 h with hid | ⟨_, -, h⟩
  · exact absurd hid (checkIdentifier_ne_payload _ _ _ _ _)
  · cases h

/-- A message of execution data that fails for a payload holds the event at the place that is named.
-/
theorem execution_convert_payload {m : ExecutionMessage} {l : Location} {fault : CodecError}
    (h : m.convert o = .error (.payload l fault)) :
    ∃ e, Message.FailsAt .executionData o m l fault e := by
  obtain ⟨height, timestamp, _ | x⟩ := m
  · cases h
  rcases bind_eq_error.1 h with hchunks | ⟨_, -, h⟩
  · obtain ⟨i, c, hget, herror, hearlier⟩ := exists_of_convertAll_error hchunks
    simp only [Nat.zero_add] at herror hearlier
    obtain ⟨e, he⟩ := RawChunk.convert_payload herror
    refine ⟨e, ⟨x, i, c, rfl, he.listed, hget, he.event⟩, he.decode, ?_⟩
    rintro ⟨list, j⟩ e' ⟨x', i', c', hx', rfl, hget', he'⟩ hbefore
    cases hx'
    rw [Location.Before, he.listed] at hbefore
    rcases hbefore with hlt | ⟨rfl, hlt⟩
    · obtain ⟨r, hr⟩ := hearlier i' hlt c' hget'
      exact RawEvent.converts_of_mirrored ((c'.convert_eq_ok i' r).1 hr).events he' _
    · cases hget.symm.trans hget'
      exact he.before j hlt e' he'
  rcases bind_eq_error.1 h with hid | ⟨_, -, h⟩
  · exact absurd hid (checkIdentifier_ne_payload _ _ _ _ _)
  · cases h

/-- A message that is refused for a payload has the event at the place that the fault names, and the
events before it are converted. -/
theorem Message.convert_payload {t : Topic} {m : t.Message} {l : Location} {fault : CodecError}
    (h : Message.convert t o m = .error (.payload l fault)) :
    ∃ e, Message.FailsAt t o m l fault e := by
  cases t with
  | blocks =>
    refine absurd h ((Message.convert_makes (o := o) .blocks m).ne_payload ?_ l fault)
    obtain ⟨_ | b⟩ := m <;> simp [checks, RawBlock.checks, RawGuarantee.checks, RawSeal.checks]
  | blockHeaders =>
    refine absurd h ((Message.convert_makes (o := o) .blockHeaders m).ne_payload ?_ l fault)
    obtain ⟨_ | b⟩ := m <;> simp [checks, RawHeader.checks]
  | blockDigests =>
    refine absurd h ((Message.convert_makes (o := o) .blockDigests m).ne_payload ?_ l fault)
    simp [checks]
  | events => exact events_convert_payload h
  | executionData => exact execution_convert_payload h
  | accountStatuses => exact accounts_convert_payload h

/-- A message of any topic without a record is refused for the first of its checks, in the order of
`Message.checks`, that finds a fault. If that is a payload, the place that the fault names is that
of the payload's event, the path has the positions of the event, the fault is that of decoding the
payload, and every event before it is converted. -/
theorem convert_first_fault (t : Topic) (o : DecodeOptions) (m : t.Message) :
    (∀ e, Message.convert t o m = .error e ↔
      ∃ before c after, Message.checks t m = before ++ c :: after ∧ c.fault? o = some e ∧
        ∀ d ∈ before, d.fault? o = none) ∧
    ∀ l fault, Message.convert t o m = .error (.payload l fault) →
      ∃ e, Message.EventAt t m l e ∧ Codec.decode o e.payload = .error fault ∧
        l.toText = t.eventPath l.list.index l.position ∧
        ∀ l' e', Message.EventAt t m l' e' → l'.Before l → ∃ r, e'.convert o l' = .ok r := by
  refine ⟨?_, ?_⟩
  · intro e
    rw [Message.convert_makes t m e, List.findSome?_eq_some_iff]
  · intro l fault h
    obtain ⟨e, hevent, hdecode, hbefore⟩ := Message.convert_payload h
    exact ⟨e, hevent, hdecode, hevent.toText, hbefore⟩

/-- The second event of the second chunk has a payload that ends early. The identifier of the block
is bad as well, but that is checked later. -/
theorem convert_first_fault_second_chunk :
    let event : RawEvent := ⟨"A.E", List.replicate 32 2, 0, 1,
      [0xd8, 0x82, 0x82, 0, 0x83, 0x10, 0x63, 0x41, 0x2e, 0x45, 0x80]⟩
    let early : RawEvent := { event with payload := [0xd8, 0x82] }
    let time : Timestamp := ⟨⟨2024, 1, 1⟩, ⟨0, 0, 0, 0⟩, by decide, by decide⟩
    let m : ExecutionMessage :=
      ⟨5, time, some ⟨[], [⟨[], [event], none, []⟩, ⟨[], [event, early], none, []⟩]⟩⟩
    let l : Location := ⟨.chunk 1, 1⟩
    let fault : CodecError := .compact 2 (.item .endOfInput)
    Message.convert .executionData .lenient m = .error (.payload l fault) ∧
      Message.EventAt .executionData m l early ∧ l.toText = "chunks[1].events[1]" := by
  intro event early time m l fault
  have hspec := convert_first_fault .executionData .lenient m
  let before := .present .execution true ::
    (event.checks ⟨.chunk 0, 0⟩ ++ event.checks ⟨.chunk 1, 0⟩ ++
      [.identifier .event .transactionId early.transactionId])
  have herror : Message.convert .executionData .lenient m = .error (.payload l fault) :=
    (hspec.1 _).2 ⟨before, .event l early.payload, [.identifier .execution .blockId []], by rfl,
      by decide, by decide⟩
  obtain ⟨e, hevent, -, htext, -⟩ := hspec.2 l fault herror
  have hearly : e = early := by
    obtain ⟨x, i, c, hx, hl, hc, he⟩ := hevent
    cases hx
    cases hl
    cases hc
    exact (Option.some.inj he).symm
  exact ⟨herror, hearly ▸ hevent, htext.trans (by decide)⟩

end Topic

end LedgerFeed

import LedgerFeed.Client
import LedgerFeed.Proofs.Result

/-!
# What a caller has got wrong

All faults of a caller who wants to subscribe, as a list in the order in which they count: those of
the filter, item by item, then those of the start, then those of the settings (`Client.mistakes`).
The request is made if there are none, and it says what the caller wants; else the first of them is
the reason why there is no request (`Client.request_failsFirst`, `Client.asks_of_request`).
-/

namespace LedgerFeed

/-- The computation fails with the first of some faults, and succeeds if there are none. -/
def FailsFirst {ε α : Type} (faults : List ε) (x : Except ε α) : Prop :=
  ∀ e, x = .error e ↔ faults.head? = some e

section
variable {ε α β : Type} {faults more : List ε} {x : Except ε α}

/-- A computation that succeeds has no faults. -/
theorem failsFirst_ok (a : α) : FailsFirst [] (.ok a : Except ε α) :=
  fun _ => ⟨fun h => (nomatch h), fun h => (nomatch h)⟩

/-- A computation that fails has its own error as the only fault. -/
theorem failsFirst_error (e : ε) : FailsFirst [e] (.error e : Except ε α) := by
  intro e'
  rw [List.head?_cons, Except.error.injEq, Option.some.injEq]

/-- Behind a success there are no faults. -/
theorem FailsFirst.eq_nil {a : α} (h : FailsFirst faults (.ok a : Except ε α)) : faults = [] := by
  cases faults with
  | nil => rfl
  | cons e _ => cases (h e).2 rfl

/-- The faults of the second computation count if the first one has none. -/
theorem FailsFirst.bind {f : α → Except ε β} (hx : FailsFirst faults x)
    (hf : ∀ a, x = .ok a → FailsFirst more (f a)) : FailsFirst (faults ++ more) (x >>= f) := by
  intro e
  cases x with
  | error e' =>
    have hfirst := (hx e').1 rfl
    rw [List.head?_append, hfirst, Option.some_or, Option.some.injEq]
    change (.error e' : Except ε β) = .error e ↔ e' = e
    rw [Except.error.injEq]
  | ok a =>
    rw [hx.eq_nil]
    exact hf a rfl e

/-- A list is checked item by item. -/
theorem checkAll_failsFirst {check : α → Except ε Unit} {fault? : α → Option ε}
    (h : ∀ a, FailsFirst (fault? a).toList (check a)) (as : List α) :
    FailsFirst (as.filterMap fault?) (checkAll check as) := by
  induction as with
  | nil => exact failsFirst_ok ()
  | cons a as ih =>
    have hsplit : (a :: as).filterMap fault? = (fault? a).toList ++ as.filterMap fault? := by
      rw [List.filterMap_cons]
      cases fault? a <;> rfl
    rw [hsplit]
    exact (h a).bind fun _ _ => ih

end

/-! ## The faults of parts -/

/-- The fault of a text as the name of an event type. -/
def eventTypeMistake? (s : String) : Option RequestError :=
  (eventTypeFault? s).map (.invalidEventType s)

/-- The fault of a text as an address. -/
def addressMistake? (s : String) : Option RequestError :=
  match Address.parse s with
  | .ok _ => none
  | .error fault => some (.invalidAddress fault)

/-- The fault of a text as the name of a contract. -/
def contractMistake? (s : String) : Option RequestError :=
  (contractFault? s).map (.invalidContract s)

/-- The check of the name of an event type fails just if the name has a fault. -/
theorem checkEventType_failsFirst (s : String) :
    FailsFirst (eventTypeMistake? s).toList (checkEventType s) := by
  rw [eventTypeMistake?, checkEventType]
  cases eventTypeFault? s with
  | none => exact failsFirst_ok ()
  | some fault => exact failsFirst_error _

/-- The check of an address fails just if the text has a fault. -/
theorem checkAddressText_failsFirst (s : String) :
    FailsFirst (addressMistake? s).toList (checkAddressText s) := by
  rw [addressMistake?, checkAddressText]
  cases Address.parse s with
  | ok a => exact failsFirst_ok ()
  | error fault => exact failsFirst_error _

/-- The check of the name of a contract fails just if the name has a fault. -/
theorem checkContract_failsFirst (s : String) :
    FailsFirst (contractMistake? s).toList (checkContract s) := by
  rw [contractMistake?, checkContract]
  cases contractFault? s with
  | none => exact failsFirst_ok ()
  | some fault => exact failsFirst_error _

/-- The faults of a selection: event types come first, then addresses, then contracts. -/
def Topic.Selection.mistakes : (t : Topic) → t.Selection → List RequestError
  | .events, f => f.eventTypes.filterMap eventTypeMistake? ++
      (f.addresses.filterMap addressMistake? ++ f.contracts.filterMap contractMistake?)
  | .accountStatuses, f =>
    f.eventTypes.filterMap eventTypeMistake? ++ f.addresses.filterMap addressMistake?
  | _, _ => []

/-- The fault of start options that do not choose one start point. -/
def StartOptions.mistakes (o : StartOptions) : List RequestError :=
  match o.chosen with
  | [] => [.missingStart]
  | [_] => []
  | chosen => [.conflictingStart chosen]

/-- The fault of settings. -/
def SubscribeSettings.mistakes (s : SubscribeSettings) : List RequestError :=
  if s.heartbeat = 0 then [.invalidHeartbeat] else []

/-- The check of a selection fails with the first fault of the filter, whatever the topic. -/
theorem Topic.Selection.validate_failsFirst (t : Topic) (selection : t.Selection) :
    FailsFirst (mistakes t selection) (validate t selection) := by
  cases t with
  | blocks | blockHeaders | blockDigests | executionData => exact failsFirst_ok ()
  | events =>
    refine (checkAll_failsFirst checkEventType_failsFirst _).bind fun _ _ => ?_
    refine (checkAll_failsFirst checkAddressText_failsFirst _).bind fun _ _ => ?_
    exact checkAll_failsFirst checkContract_failsFirst _
  | accountStatuses =>
    refine (checkAll_failsFirst checkEventType_failsFirst _).bind fun _ _ => ?_
    exact checkAll_failsFirst checkAddressText_failsFirst _

/-- The check of start options fails just if they do not choose one start point. -/
theorem StartOptions.validate_failsFirst (o : StartOptions) :
    FailsFirst o.mistakes o.validate := by
  obtain ⟨id | _, height | _, latest⟩ := o <;> cases latest <;>
    first | exact failsFirst_ok _ | exact failsFirst_error _

/-- The check of settings fails just if they have a fault. -/
theorem SubscribeSettings.validate_failsFirst (s : SubscribeSettings) :
    FailsFirst s.mistakes s.validate := by
  rw [mistakes, validate]
  split
  · exact failsFirst_error _
  · exact failsFirst_ok ()

/-! ## Requests -/

namespace Request
variable {t : Topic} (p : StartPoint) (heartbeat : UInt64) (e : Encoding) (selection : t.Selection)

/-- A request keeps the start point that it is made from. -/
theorem start_ofStart : (ofStart p heartbeat e selection).start = p := by
  cases p <;> rfl

/-- A request keeps the heartbeat that it is made from. -/
theorem heartbeat_ofStart : (ofStart p heartbeat e selection).heartbeat = heartbeat := by
  cases p <;> rfl

/-- A request keeps the encoding that it is made from. -/
theorem encoding_ofStart : (ofStart p heartbeat e selection).encoding = e := by
  cases p <;> rfl

/-- A request keeps the selection that it is made from. -/
theorem selection_ofStart : (ofStart p heartbeat e selection).selection = selection := by
  cases p <;> rfl

end Request

namespace Client

variable {t : Topic} {s : SubscribeSettings} {start : StartOptions} {selection : t.Selection}

/-- All faults of a caller, in the order in which they count. -/
def mistakes (s : SubscribeSettings) (start : StartOptions) (selection : t.Selection) :
    List RequestError :=
  Topic.Selection.mistakes t selection ++ (start.mistakes ++ s.mistakes)

/-- The request of a caller fails with the first of the faults of the caller. -/
theorem request_failsFirst (s : SubscribeSettings) (start : StartOptions)
    (selection : t.Selection) :
    FailsFirst (mistakes s start selection) (request s start selection) := by
  refine (Topic.Selection.validate_failsFirst t selection).bind fun _ _ => ?_
  refine start.validate_failsFirst.bind fun point _ => ?_
  have hsettings := s.validate_failsFirst.bind (f := fun _ =>
    .ok (Request.ofStart point s.heartbeat s.encoding selection)) fun _ _ => failsFirst_ok _
  rwa [List.append_nil] at hsettings

/-- The request says what the caller wants. -/
structure Asks (s : SubscribeSettings) (start : StartOptions) (selection : t.Selection)
    (q : Request t) : Prop where
  start : start.validate = .ok q.start
  heartbeat : q.heartbeat = s.heartbeat
  encoding : q.encoding = s.encoding
  selection : q.selection = selection

/-- The request that is made asks for what the caller wants. -/
theorem asks_of_request {q : Request t} (h : request s start selection = .ok q) :
    Asks s start selection q := by
  obtain ⟨_, -, h⟩ := bind_eq_ok.1 h
  obtain ⟨point, hpoint, h⟩ := bind_eq_ok.1 h
  obtain ⟨_, -, h⟩ := bind_eq_ok.1 h
  cases h
  exact ⟨by rw [Request.start_ofStart, hpoint], Request.heartbeat_ofStart ..,
    Request.encoding_ofStart .., Request.selection_ofStart ..⟩

end Client

end LedgerFeed

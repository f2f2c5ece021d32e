import LedgerFeed.Proofs.Codec.Transcoding
import LedgerFeed.Proofs.Conversion.Faithful
import LedgerFeed.Proofs.Conversion.Places
import LedgerFeed.Proofs.Result

/-!
# Payloads in other encodings

A record keeps the payloads of its events but depends on them by their values alone: a message whose
payloads are replaced by others of the same values has the same record up to the kept payloads, or
the same fault (`convert_mapPayloads`). Transcoding is such a replacement, whatever the encoding of
each event (`convert_recode`).
-/

namespace LedgerFeed

/-! ## Messages with other payloads -/

/-- An item of a list that is mapped with positions is the image of the item there. -/
theorem getElem?_mapIdx_eq_some {α β : Type} {g : Nat → α → β} {as : List α} {i : Nat} {b : β} :
    (as.mapIdx g)[i]? = some b ↔ ∃ a, as[i]? = some a ∧ b = g i a := by
  rw [List.getElem?_mapIdx, Option.map_eq_some_iff]
  simp only [eq_comm]

/-- The events of a list with other payloads, which may depend on the places of the events. -/
def RawEvent.mapPayloads (f : Location → Bytes → Bytes) (list : EventList) (es : List RawEvent) :
    List RawEvent :=
  es.mapIdx fun j e => { e with payload := f ⟨list, j⟩ e.payload }

/-- An event of a list with other payloads is the one that stood there, but for its payload. -/
theorem RawEvent.getElem?_mapPayloads {f : Location → Bytes → Bytes} {list : EventList}
    {es : List RawEvent} {j : Nat} {e' : RawEvent} :
    (mapPayloads f list es)[j]? = some e' ↔
      ∃ e, es[j]? = some e ∧ e' = { e with payload := f ⟨list, j⟩ e.payload } :=
  getElem?_mapIdx_eq_some

def RawAccountResult.mapPayloads (f : Location → Bytes → Bytes) (i : Nat) (a : RawAccountResult) :
    RawAccountResult :=
  { a with events := RawEvent.mapPayloads f (.result i) a.events }

def RawChunk.mapPayloads (f : Location → Bytes → Bytes) (i : Nat) (c : RawChunk) : RawChunk :=
  { c with events := RawEvent.mapPayloads f (.chunk i) c.events }

def RawExecution.mapPayloads (f : Location → Bytes → Bytes) (x : RawExecution) : RawExecution :=
  { x with chunks := x.chunks.mapIdx (RawChunk.mapPayloads f) }

def EventsMessage.mapPayloads (f : Location → Bytes → Bytes) (m : EventsMessage) : EventsMessage :=
  { m with events := RawEvent.mapPayloads f .message m.events }

def AccountMessage.mapPayloads (f : Location → Bytes → Bytes) (m : AccountMessage) :
    AccountMessage :=
  { m with results := m.results.mapIdx (RawAccountResult.mapPayloads f) }

def ExecutionMessage.mapPayloads (f : Location → Bytes → Bytes) (m : ExecutionMessage) :
    ExecutionMessage :=
  { m with execution := m.execution.map (RawExecution.mapPayloads f) }

/-! ## Records without payloads -/

def Event.withoutPayload (e : Event) : Event :=
  { e with payload := [] }

/-- The document of an event does not show the raw payload. -/
theorem Event.toJson_withoutPayload (e : Event) : e.withoutPayload.toJson = e.toJson :=
  rfl

def BlockEvents.withoutPayloads (b : BlockEvents) : BlockEvents :=
  { b with events := b.events.map Event.withoutPayload }

/-- The document of the events of a block does not show raw payloads. -/
theorem BlockEvents.toJson_withoutPayloads (b : BlockEvents) :
    b.withoutPayloads.toJson = b.toJson := by
  simp [toJson, withoutPayloads, Event.toJson_withoutPayload]

def AccountResult.withoutPayloads (a : AccountResult) : AccountResult :=
  { a with events := a.events.map Event.withoutPayload }

/-- The document of the result of an account does not show raw payloads. -/
theorem AccountResult.toJson_withoutPayloads (a : AccountResult) :
    a.withoutPayloads.toJson = a.toJson := by
  simp [toJson, withoutPayloads, Event.toJson_withoutPayload]

def AccountStatus.withoutPayloads (a : AccountStatus) : AccountStatus :=
  { a with results := a.results.map AccountResult.withoutPayloads }

/-- The document of an account status does not show raw payloads. -/
theorem AccountStatus.toJson_withoutPayloads (a : AccountStatus) :
    a.withoutPayloads.toJson = a.toJson := by
  simp [toJson, withoutPayloads, AccountResult.toJson_withoutPayloads]

def Chunk.withoutPayloads (c : Chunk) : Chunk :=
  { c with events := c.events.map Event.withoutPayload }

/-- The document of a chunk does not show raw payloads. -/
theorem Chunk.toJson_withoutPayloads (c : Chunk) : c.withoutPayloads.toJson = c.toJson := by
  simp [toJson, withoutPayloads, Event.toJson_withoutPayload]

def Execution.withoutPayloads (x : Execution) : Execution :=
  { x with chunks := x.chunks.map Chunk.withoutPayloads }

/-- The document of execution data does not show raw payloads. -/
theorem Execution.toJson_withoutPayloads (x : Execution) : x.withoutPayloads.toJson = x.toJson := by
  simp [toJson, withoutPayloads, Chunk.toJson_withoutPayloads]

namespace Topic

/-- The message with other payloads in its events. -/
def Message.mapPayloads (f : Location → Bytes → Bytes) : (t : Topic) → t.Message → t.Message
  | .blocks, m | .blockHeaders, m | .blockDigests, m => m
  | .events, m => EventsMessage.mapPayloads f m
  | .executionData, m => ExecutionMessage.mapPayloads f m
  | .accountStatuses, m => AccountMessage.mapPayloads f m

/-- The record, with the payloads that are kept in its events emptied. -/
def Record.withoutPayloads : (t : Topic) → t.Record → t.Record
  | .blocks, r | .blockHeaders, r | .blockDigests, r => r
  | .events, r => BlockEvents.withoutPayloads r
  | .executionData, r => Execution.withoutPayloads r
  | .accountStatuses, r => AccountStatus.withoutPayloads r

/-- A message has events at the same places whatever their payloads. -/
theorem Message.eventAt_mapPayloads {f : Location → Bytes → Bytes} {t : Topic} {m : t.Message}
    {l : Location} {e' : RawEvent} :
    Message.EventAt t (Message.mapPayloads f t m) l e' ↔
      ∃ e, Message.EventAt t m l e ∧ e' = { e with payload := f l e.payload } := by
  obtain ⟨list, j⟩ := l
  cases t with
  | blocks | blockHeaders | blockDigests => exact ⟨False.elim, fun ⟨_, he, _⟩ => he.elim⟩
  | events =>
    constructor
    · rintro ⟨rfl, he⟩
      obtain ⟨e, hget, rfl⟩ := RawEvent.getElem?_mapPayloads.1 he
      exact ⟨e, ⟨rfl, hget⟩, rfl⟩
    · rintro ⟨e, ⟨rfl, hget⟩, he⟩
      exact ⟨rfl, RawEvent.getElem?_mapPayloads.2 ⟨e, hget, he⟩⟩
  | executionData =>
    obtain ⟨height, timestamp, x⟩ := m
    constructor
    · rintro ⟨x', i, c', hx', rfl, hc', he⟩
      obtain ⟨x, rfl, rfl⟩ := Option.map_eq_some_iff.1 hx'
      obtain ⟨c, hc, rfl⟩ := getElem?_mapIdx_eq_some.1 hc'
      obtain ⟨e, hget, rfl⟩ := RawEvent.getElem?_mapPayloads.1 he
      exact ⟨e, ⟨x, i, c, rfl, rfl, hc, hget⟩, rfl⟩
    · rintro ⟨e, ⟨x, i, c, rfl, rfl, hc, hget⟩, he⟩
      exact ⟨_, i, _, rfl, rfl, getElem?_mapIdx_eq_some.2 ⟨c, hc, rfl⟩,
        RawEvent.getElem?_mapPayloads.2 ⟨e, hget, he⟩⟩
  | accountStatuses =>
    constructor
    · rintro ⟨i, a', rfl, ha', he⟩
      obtain ⟨a, ha, rfl⟩ := getElem?_mapIdx_eq_some.1 ha'
      obtain ⟨e, hget, rfl⟩ := RawEvent.getElem?_mapPayloads.1 he
      exact ⟨e, ⟨i, a, rfl, ha, hget⟩, rfl⟩
    · rintro ⟨e, ⟨i, a, rfl, ha, hget⟩, he⟩
      exact ⟨i, _, rfl, getElem?_mapIdx_eq_some.2 ⟨a, ha, rfl⟩,
        RawEvent.getElem?_mapPayloads.2 ⟨e, hget, he⟩⟩

/-- The payloads of a record are not in its tree. -/
theorem Record.toJson_withoutPayloads (t : Topic) (r : t.Record) :
    Record.toJson t (Record.withoutPayloads t r) = Record.toJson t r := by
  cases t with
  | blocks | blockHeaders | blockDigests => rfl
  | events => exact BlockEvents.toJson_withoutPayloads r
  | executionData => exact Execution.toJson_withoutPayloads r
  | accountStatuses => exact AccountStatus.toJson_withoutPayloads r

end Topic

/-! ## Conversion -/

section
variable {o : DecodeOptions} {f : Location → Bytes → Bytes}

/-- A list whose items convert alike up to a map converts alike up to that map, from any position
on. -/
theorem map_convertAll_mapIdx_from {ε α β γ : Type} {convert : Nat → α → Except ε β} {p : β → γ}
    {g : Nat → α → α} {as : List α} {i : Nat}
    (h : ∀ k a, as[k]? = some a →
      (convert (i + k) (g k a)).map p = (convert (i + k) a).map p) :
    (convertAll convert i (as.mapIdx g)).map (List.map p) =
      (convertAll convert i as).map (List.map p) := by
  induction as generalizing i g with
  | nil => rfl
  | cons a as ih =>
    have hrest : (convertAll convert (i + 1) (as.mapIdx fun k => g (k + 1))).map (List.map p) =
        (convertAll convert (i + 1) as).map (List.map p) := by
      refine ih fun k b hb => ?_
      have hk := h (k + 1) b hb
      rwa [← Nat.add_assoc, Nat.add_right_comm] at hk
    rw [List.mapIdx_cons]
    refine map_bind_congr (h 0 a rfl) fun b b' hb => ?_
    refine map_bind_congr hrest fun bs bs' hbs => ?_
    exact congrArg Except.ok (by rw [List.map_cons, List.map_cons, hb, hbs])

/-- What is kept of the items of a list, if each is replaced by one of which the same is kept. -/
theorem map_convertAll_mapIdx {ε α β γ : Type} {convert : Nat → α → Except ε β} {p : β → γ}
    {g : Nat → α → α} {as : List α}
    (h : ∀ k a, as[k]? = some a → (convert k (g k a)).map p = (convert k a).map p) :
    (convertAll convert 0 (as.mapIdx g)).map (List.map p) =
      (convertAll convert 0 as).map (List.map p) := by
  refine map_convertAll_mapIdx_from fun k a ha => ?_
  rw [Nat.zero_add]
  exact h k a ha

/-- An event whose payload is exchanged for one that decodes alike converts alike, raw payloads
aside. -/
theorem RawEvent.map_convert {e : RawEvent} {payload : Bytes}
    (h : Codec.decode o payload = Codec.decode o e.payload) (l : Location) :
    (RawEvent.convert o l { e with payload }).map Event.withoutPayload =
      (e.convert o l).map Event.withoutPayload := by
  have hdecode : RawEvent.decode o l payload = RawEvent.decode o l e.payload := by
    rw [RawEvent.decode, h, RawEvent.decode]
  refine map_bind_congr_right fun id => ?_
  rw [hdecode]
  exact map_bind_congr_right fun v => rfl

/-- A list of events whose payloads are exchanged so converts alike, raw payloads aside. -/
theorem RawEvent.map_convertList {list : EventList} {es : List RawEvent}
    (h : ∀ j e, es[j]? = some e →
      Codec.decode o (f ⟨list, j⟩ e.payload) = Codec.decode o e.payload) :
    (convertList o list (mapPayloads f list es)).map (List.map Event.withoutPayload) =
      (convertList o list es).map (List.map Event.withoutPayload) :=
  map_convertAll_mapIdx fun j e he => RawEvent.map_convert (h j e he) ⟨list, j⟩

/-- The result of an account whose payloads are exchanged so converts alike, raw payloads aside. -/
theorem RawAccountResult.map_convert {i : Nat} {a : RawAccountResult}
    (h : ∀ j e, a.events[j]? = some e →
      Codec.decode o (f ⟨.result i, j⟩ e.payload) = Codec.decode o e.payload) :
    ((a.mapPayloads f i).convert o i).map AccountResult.withoutPayloads =
      (a.convert o i).map AccountResult.withoutPayloads := by
  refine map_bind_congr_right fun address => ?_
  refine map_bind_congr (RawEvent.map_convertList h) fun es es' hes => ?_
  exact congrArg (fun events => Except.ok (AccountResult.mk address events)) hes

/-- A chunk whose payloads are exchanged so converts alike, raw payloads aside. -/
theorem RawChunk.map_convert {i : Nat} {c : RawChunk}
    (h : ∀ j e, c.events[j]? = some e →
      Codec.decode o (f ⟨.chunk i, j⟩ e.payload) = Codec.decode o e.payload) :
    ((c.mapPayloads f i).convert o i).map Chunk.withoutPayloads =
      (c.convert o i).map Chunk.withoutPayloads := by
  refine map_bind_congr_right fun transactions => ?_
  refine map_bind_congr (RawEvent.map_convertList h) fun es es' hes => ?_
  refine map_bind_congr_right fun results => ?_
  exact congrArg (fun events => Except.ok (Chunk.mk transactions events _ results)) hes

namespace Topic

/-- A message whose payloads are replaced by others of the same values has the same record, up to
the payloads that are kept in it, or the same fault. -/
theorem convert_mapPayloads {t : Topic} {m : t.Message}
    (h : ∀ l e, Message.EventAt t m l e →
      Codec.decode o (f l e.payload) = Codec.decode o e.payload) :
    (Message.convert t o (Message.mapPayloads f t m)).map (Record.withoutPayloads t) =
      (Message.convert t o m).map (Record.withoutPayloads t) := by
  cases t with
  | blocks | blockHeaders | blockDigests => rfl
  | events =>
    have hevents : ∀ j e, (EventsMessage.events m)[j]? = some e →
        Codec.decode o (f ⟨.message, j⟩ e.payload) = Codec.decode o e.payload :=
      fun j e he => h ⟨.message, j⟩ e ⟨rfl, he⟩
    refine map_bind_congr_right fun id => ?_
    refine map_bind_congr (RawEvent.map_convertList hevents) fun es es' hes => ?_
    exact congrArg (fun events => Except.ok (BlockEvents.mk id _ _ events)) hes
  | executionData =>
    obtain ⟨height, timestamp, _ | x⟩ := m
    · rfl
    have hchunks : ∀ (i : Nat) (c : RawChunk), x.chunks[i]? = some c →
        ((c.mapPayloads f i).convert o i).map Chunk.withoutPayloads =
          (c.convert o i).map Chunk.withoutPayloads := fun i c hc =>
      RawChunk.map_convert fun j e he => h ⟨.chunk i, j⟩ e ⟨x, i, c, rfl, rfl, hc, he⟩
    refine map_bind_congr (map_convertAll_mapIdx hchunks) fun cs cs' hcs => ?_
    refine map_bind_congr_right fun id => ?_
    exact congrArg (fun chunks => Except.ok (Execution.mk height id chunks timestamp)) hcs
  | accountStatuses =>
    have hresults : ∀ (i : Nat) (a : RawAccountResult), (AccountMessage.results m)[i]? = some a →
        ((a.mapPayloads f i).convert o i).map AccountResult.withoutPayloads =
          (a.convert o i).map AccountResult.withoutPayloads := fun i a ha =>
      RawAccountResult.map_convert fun j e he => h ⟨.result i, j⟩ e ⟨i, a, rfl, ha, he⟩
    refine map_bind_congr (map_convertAll_mapIdx hresults) fun rs rs' hrs => ?_
    refine map_bind_congr_right fun id => ?_
    exact congrArg (fun results => Except.ok (AccountStatus.mk id _ _ results)) hrs

/-! ## Transcoding -/

/-- The message with the payload of each event in an encoding of its own, if it has a value at
all. -/
def Message.recode (t : Topic) (o : DecodeOptions) (target : Location → Encoding) (m : t.Message) :
    t.Message :=
  Message.mapPayloads (fun l p => (Codec.transcode o (target l) p).toOption.getD p) t m

/-- A payload that has a value is transcoded, and the value stays. -/
theorem transcode_of_decodes {payload : Bytes} (hlength : payload.length < 2 ^ 64)
    (h : ∃ v, Codec.decode o payload = .ok v) (target : Encoding) :
    ∃ q, Codec.transcode o target payload = .ok q ∧
      Codec.decode o q = Codec.decode o payload := by
  obtain ⟨v, hv⟩ := h
  have hwithin := Codec.decode_within hlength hv
  exact ⟨_, Codec.transcode_of_decode hwithin.depth_le hv target,
    (Codec.decode_payload o target hwithin).trans hv.symm⟩

/-- Whatever the encoding that the payload of each event is transcoded to, if all payloads of a
message have values: all are transcoded, the record is the same up to the payloads that are kept in
it, and so is its text, or the fault is the same. As those of anything in memory, the lengths of the
payloads have 64 bits. -/
theorem convert_recode (t : Topic) (o : DecodeOptions) (m : t.Message)
    (h : ∀ l e, Message.EventAt t m l e →
      e.payload.length < 2 ^ 64 ∧ ∃ v, Codec.decode o e.payload = .ok v)
    (target : Location → Encoding) :
    (∀ l e', Message.EventAt t (Message.recode t o target m) l e' ↔
      ∃ e q, Message.EventAt t m l e ∧ Codec.transcode o (target l) e.payload = .ok q ∧
        e' = { e with payload := q }) ∧
    (Message.convert t o (Message.recode t o target m)).map (Record.withoutPayloads t) =
      (Message.convert t o m).map (Record.withoutPayloads t) ∧
    (Message.convert t o (Message.recode t o target m)).map (fun r => (Record.toJson t r).toText) =
      (Message.convert t o m).map (fun r => (Record.toJson t r).toText) := by
  have hrecode : ∀ l e, Message.EventAt t m l e →
      ∃ q, Codec.transcode o (target l) e.payload = .ok q ∧
        Codec.decode o q = Codec.decode o e.payload := fun l e he =>
    transcode_of_decodes (h l e he).1 (h l e he).2 (target l)
  have hrecords : (Message.convert t o (Message.recode t o target m)).map
      (Record.withoutPayloads t) = (Message.convert t o m).map (Record.withoutPayloads t) := by
    refine convert_mapPayloads fun l e he => ?_
    obtain ⟨q, hq, hdecode⟩ := hrecode l e he
    rw [hq]
    exact hdecode
  refine ⟨fun l e' => ?_, hrecords, ?_⟩
  · rw [Message.recode, Message.eventAt_mapPayloads]
    constructor
    · rintro ⟨e, he, rfl⟩
      obtain ⟨q, hq, -⟩ := hrecode l e he
      exact ⟨e, q, he, hq, by rw [hq]; rfl⟩
    · rintro ⟨e, q, he, hq, rfl⟩
      exact ⟨e, he, by rw [hq]; rfl⟩
  · have htext : ∀ x : Except ConversionError t.Record,
        x.map (fun r => (Record.toJson t r).toText) =
          (x.map (Record.withoutPayloads t)).map (fun r => (Record.toJson t r).toText) := by
      intro x
      cases x with
      | error e => rfl
      | ok r =>
        have htree := Record.toJson_withoutPayloads t r
        exact congrArg (fun j => Except.ok j.toText) htree.symm
    rw [htext, hrecords, ← htext]

/-- An event in each encoding, each recoded to that of the other. -/
theorem convert_recode_mixed :
    let value : Value := .composite .event "A.E" []
    let event : Encoding → RawEvent :=
      fun e => ⟨"A.E", List.replicate 32 2, 0, 1, Codec.payload e value⟩
    let time : Timestamp := ⟨⟨2024, 1, 1⟩, ⟨0, 0, 0, 0⟩, by decide, by decide⟩
    let message : List RawEvent → EventsMessage := fun es => ⟨List.replicate 32 1, 5, time, es⟩
    let text : EventsMessage → Except ConversionError String :=
      fun m => (Message.convert .events .lenient m).map fun r => (Record.toJson .events r).toText
    (∃ s, text (message [event .compact, event .verbose]) = .ok s) ∧
      text (message [event .verbose, event .compact]) =
        text (message [event .compact, event .verbose]) := by
  intro value event time message text
  have hwithin : value.Within Value.maxDepth (2 ^ 64) :=
    ⟨by decide, by decide +kernel, by decide, trivial⟩
  have hvalue : ∀ e, Codec.decode .lenient (event e).payload = .ok value := fun e =>
    Codec.decode_payload .lenient e hwithin
  have hlength : ∀ e, (event e).payload.length < 2 ^ 64 := by
    rintro (_ | _)
    · decide +kernel
    · simp only [event, Codec.payload, Json.toText, Json.length_ofText_ofList]
      decide +kernel
  have hevents : ∀ e ∈ [event .compact, event .verbose], ∃ encoding, e = event encoding := by
    intro e he
    rcases List.mem_cons.1 he with rfl | he
    · exact ⟨_, rfl⟩
    · exact ⟨_, List.mem_singleton.1 he⟩
  have hfits : Message.Fits .lenient .events (message [event .compact, event .verbose]) := by
    refine ⟨rfl, fun e he => ?_⟩
    obtain ⟨encoding, rfl⟩ := hevents e he
    exact ⟨rfl, value, hvalue encoding, rfl⟩
  have hrecord : ∃ s, text (message [event .compact, event .verbose]) = .ok s := by
    obtain ⟨r, hr⟩ := (Message.mirrored_iff_fits _ _).2 hfits
    refine ⟨(Record.toJson .events r).toText, ?_⟩
    simp only [text, Message.convert_eq_ok.2 hr, Except.map]
  refine ⟨hrecord, ?_⟩
  let target : Location → Encoding := fun l => if l.position = 0 then .verbose else .compact
  have htranscode : ∀ e e', Codec.transcode .lenient e (event e').payload = .ok (event e).payload :=
    fun e e' => Codec.transcode_of_decode hwithin.depth_le (hvalue e') e
  have hswap : Message.recode .events .lenient target (message [event .compact, event .verbose]) =
      message [event .verbose, event .compact] := by
    have hfirst := htranscode .verbose .compact
    have hsecond := htranscode .compact .verbose
    refine congrArg message ?_
    simp only [RawEvent.mapPayloads, message, List.mapIdx_cons, List.mapIdx_nil, target,
      reduceIte, Nat.zero_add, one_ne_zero, hfirst, hsecond]
    rfl
  rw [← hswap]
  refine (convert_recode .events .lenient _ ?_ target).2.2
  rintro l e ⟨-, he⟩
  obtain ⟨encoding, rfl⟩ := hevents e (List.mem_of_getElem? he)
  exact ⟨hlength encoding, value, hvalue encoding⟩

end Topic

end

end LedgerFeed

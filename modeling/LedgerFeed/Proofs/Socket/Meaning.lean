import LedgerFeed.Proofs.Json.RoundTrip
import LedgerFeed.Socket.Stream

/-!
# What arrives for a subscription

Whatever a server sends has one meaning to one subscription. The rules are `Means`; the handshake
and the open stream both go by them (`Handshake.run_cons`, `Arrival.first?_cons`) and differ in what
an acknowledgement, an error frame and a close are to them.
-/

namespace LedgerFeed

/-- What something on a socket is to one subscription. -/
inductive Meaning
  | nothing
  | acknowledged
  | data (payload : Json)
  | failed (e : RemoteError)
  | unreadable
  | closed
  | broken (reason : String)

namespace Frame

/-- The frame of a text, if it is one. -/
def ofText? (text : String) : Option Frame :=
  (Json.parse? text).bind ofJson?

/-- A tree that shows all it holds is sent as a text that is read as the frame of the tree. -/
theorem ofText?_toText {j : Json} (hj : j.IsWritable) : ofText? j.toText = ofJson? j := by
  rw [ofText?, Json.parse?_toText hj]
  rfl

/-- A frame is for the subscription that it names; one that names none is for all. -/
def IsFor (f : Frame) (id : String) : Prop :=
  f.subscription = none ∨ f.subscription = some id

/-- A frame is for a subscription just if it names no other. -/
theorem isFor_iff {f : Frame} {id : String} :
    f.IsFor id ↔ f.subscription.any (· ≠ id) = false := by
  unfold IsFor
  cases f.subscription <;> simp

end Frame

/-- The rules for what an event means to the subscription with an ID. -/
inductive Means (id : String) : SocketEvent → Meaning → Prop
  /-- An error counts whatever else is in the frame. -/
  | failed {s : String} {f : Frame} {e : RemoteError} (hf : Frame.ofText? s = some f)
      (hid : f.IsFor id) (he : f.error = some e) : Means id (.text s) (.failed e)
  | data {s : String} {f : Frame} {payload : Json} (hf : Frame.ofText? s = some f)
      (hid : f.IsFor id) (he : f.error = none) (hp : f.payload = some payload) :
      Means id (.text s) (.data payload)
  | acknowledged {s : String} {f : Frame} (hf : Frame.ofText? s = some f) (hid : f.IsFor id)
      (he : f.error = none) (hp : f.payload = none) (ha : f.action = some "subscribe") :
      Means id (.text s) .acknowledged
  | idle {s : String} {f : Frame} (hf : Frame.ofText? s = some f) (hid : f.IsFor id)
      (he : f.error = none) (hp : f.payload = none) (ha : f.action ≠ some "subscribe") :
      Means id (.text s) .nothing
  /-- A frame for another subscription, even if it reports an error. -/
  | foreign {s : String} {f : Frame} (hf : Frame.ofText? s = some f) (hid : ¬ f.IsFor id) :
      Means id (.text s) .nothing
  | unreadable {s : String} (hf : Frame.ofText? s = none) : Means id (.text s) .unreadable
  | ping (payload : Bytes) : Means id (.ping payload) .nothing
  | pong (payload : Bytes) : Means id (.pong payload) .nothing
  | binary (payload : Bytes) : Means id (.binary payload) .nothing
  | close : Means id .close .closed
  | broken (reason : String) : Means id (.broken reason) (.broken reason)

/-- What a frame is to a subscription, or a text that is none. -/
def Meaning.ofInbound : Option Inbound → Meaning
  | some .acknowledged => .acknowledged
  | some (.data payload) => .data payload
  | some (.failed e) => .failed e
  | some .ignored => .nothing
  | none => .unreadable

/-- What an event means to the subscription with an ID. -/
def SocketEvent.meaning (id : String) : SocketEvent → Meaning
  | .text s => .ofInbound (Frame.parse? id s)
  | .ping _ | .pong _ | .binary _ => .nothing
  | .close => .closed
  | .broken reason => .broken reason

/-- A text means what its frame means, or that there is none. -/
theorem SocketEvent.meaning_text (id s : String) :
    meaning id (.text s) = .ofInbound ((Frame.ofText? s).map (Frame.inbound id)) := rfl

/-- Of a frame the rules give what `Frame.inbound` says. -/
theorem Means.of_frame (id : String) {s : String} {f : Frame} (hf : Frame.ofText? s = some f) :
    Means id (.text s) (.ofInbound (some (f.inbound id))) := by
  unfold Frame.inbound
  by_cases hid : f.IsFor id
  · rw [if_neg (by rw [Frame.isFor_iff.1 hid]; exact Bool.false_ne_true)]
    cases he : f.error with
    | some e => exact .failed hf hid he
    | none =>
      cases hp : f.payload with
      | some payload => exact .data hf hid he hp
      | none =>
        by_cases ha : f.action = some "subscribe"
        · rw [if_pos ha]
          exact .acknowledged hf hid he hp ha
        · rw [if_neg ha]
          exact .idle hf hid he hp ha
  · rw [if_pos (by simpa [Frame.isFor_iff] using hid)]
    exact .foreign hf hid

/-- By the rules every event has a meaning. -/
theorem means_meaning (id : String) (e : SocketEvent) : Means id e (e.meaning id) := by
  cases e with
  | text s =>
    rw [SocketEvent.meaning_text]
    cases hf : Frame.ofText? s with
    | none => exact .unreadable hf
    | some f => exact .of_frame id hf
  | ping payload => exact .ping payload
  | pong payload => exact .pong payload
  | binary payload => exact .binary payload
  | close => exact .close
  | broken reason => exact .broken reason

/-- By the rules no event has two meanings. -/
theorem Means.unique {id : String} {e : SocketEvent} {m m' : Meaning} (h : Means id e m)
    (h' : Means id e m') : m = m' := by
  cases h <;> cases h' <;> simp_all

/-- The meaning of an event is the one that the rules give it. -/
theorem meaning_eq_iff {id : String} {e : SocketEvent} {m : Meaning} :
    e.meaning id = m ↔ Means id e m := by
  constructor
  · rintro rfl
    exact means_meaning id e
  · exact (means_meaning id e).unique

/-! ## The two loops go by meanings -/

/-- What a meaning decides in a handshake, if anything, with the events that are left. -/
def Meaning.decision (rest : List SocketEvent) : Meaning → Option Handshake
  | .nothing => none
  | .acknowledged => some (.opened none rest)
  | .data payload => some (.opened (some payload) rest)
  | .failed e => some (.refused (.rejected e))
  | .unreadable => some (.refused (.transport (.undecodable Handshake.badFrame)))
  | .closed => some (.refused (.transport .closed))
  | .broken reason => some (.refused (.transport (.connection reason)))

/-- What arrives with a meaning on an open stream, if anything. -/
def Meaning.arrival? : Meaning → Option Arrival
  | .nothing | .acknowledged => none
  | .data payload => some (.data payload)
  | .failed e => some (.fault (.remote e))
  | .unreadable => some (.fault (.undecodable Handshake.badFrame))
  | .closed => some .ended
  | .broken reason => some (.fault (.connection reason))

/-- A handshake goes on to the next event if the first one decides nothing. -/
theorem Handshake.run_cons (id : String) (silent : Bool) (e : SocketEvent)
    (rest : List SocketEvent) :
    run id silent (e :: rest) = ((e.meaning id).decision rest).getD (run id silent rest) := by
  cases e with
  | text s =>
    rw [run, SocketEvent.meaning]
    cases Frame.parse? id s with
    | none => rfl
    | some i => cases i <;> rfl
  | ping | pong | binary | close | broken => rfl

/-- The first arrival is that of the first event which has one. -/
theorem Arrival.first?_cons (id : String) (silent : Bool) (e : SocketEvent)
    (rest : List SocketEvent) :
    first? id silent (e :: rest) =
      match (e.meaning id).arrival? with
      | some a => some (a, rest)
      | none => first? id silent rest := by
  cases e with
  | text s =>
    rw [first?, SocketEvent.meaning]
    cases Frame.parse? id s with
    | none => rfl
    | some i => cases i <;> rfl
  | ping | pong | binary | close | broken => rfl

end LedgerFeed

import LedgerFeed.Socket.Handshake
import LedgerFeed.Stream.Feed
import LedgerFeed.Topic.Message

/-!
# Streams over sockets

An open stream gives the messages in the data frames of its subscription, in order and each once.
When the server closes the socket the stream ends; an error frame, a broken socket, a text that is
no frame and a payload that is no message fail it. Either way the stream answers the same from then
on and does not look at the socket again.
-/

namespace LedgerFeed

/-- The first thing on a socket that matters to a subscription. -/
inductive Arrival
  | data (payload : Json)
  | fault (e : TransportError)
  | ended

/-- The first event that matters and those after it. Acknowledgements are passed over too. -/
def Arrival.first? (id : String) (silent : Bool) :
    List SocketEvent → Option (Arrival × List SocketEvent)
  | [] => if silent then none else some (.ended, [])
  | .text s :: rest =>
    match Frame.parse? id s with
    | some (.data payload) => some (.data payload, rest)
    | some (.failed e) => some (.fault (.remote e), rest)
    | some .acknowledged | some .ignored => first? id silent rest
    | none => some (.fault (.undecodable Handshake.badFrame), rest)
  | .ping _ :: rest | .pong _ :: rest | .binary _ :: rest => first? id silent rest
  | .close :: rest => some (.ended, rest)
  | .broken reason :: rest => some (.fault (.connection reason), rest)

/-- The stream of a subscription. Once it has come to an end or failed, that stays its answer. -/
structure SocketStream where
  id : String
  pending : Option Json
  socket : Socket
  ending : Option (Except TransportError Unit)

namespace SocketStream

/-- The answer of a stream that is over. -/
def answerAtEnd {M : Type} : Except TransportError Unit → Answer M
  | .ok _ => .ended
  | .error e => .fault e

/-- A stream is over from now on. -/
def finish {M : Type} (s : SocketStream) (ending : Except TransportError Unit) :
    Answer M × SocketStream :=
  (answerAtEnd ending, { s with ending := some ending })

/-- What is wrong with a payload that is no message. -/
def badPayload : String := "invalid payload"

/-- The message of a payload. -/
def decode (t : Topic) (s : SocketStream) (payload : Json) : Answer t.Message × SocketStream :=
  match Topic.Message.ofJson? t payload with
  | some m => (.message m, s)
  | none => s.finish (.error (.undecodable badPayload))

/-- The answer to what has arrived. -/
def answer (t : Topic) (s : SocketStream) : Arrival → Answer t.Message × SocketStream
  | .data payload => s.decode t payload
  | .fault e => s.finish (.error e)
  | .ended => s.finish (.ok ())

/-- The next answer of a stream, unless the server keeps it waiting for ever. -/
def receive (t : Topic) (s : SocketStream) : Option (Answer t.Message × SocketStream) :=
  match s.ending, s.pending with
  | some ending, _ => some (answerAtEnd ending, s)
  | none, some payload => some ({ s with pending := none }.decode t payload)
  | none, none =>
    (Arrival.first? s.id s.socket.silent s.socket.events).map fun (a, rest) =>
      { s with socket := { s.socket with events := rest } }.answer t a

/-- What the first `n` answers of a stream give. -/
def feedWithin (t : Topic) : Nat → SocketStream → Feed t.Message
  | 0, _ => .silent
  | n + 1, s =>
    match s.receive t with
    | none => .silent
    | some (.message m, s') => .message m false (feedWithin t n s')
    | some (.fault e, _) => .fault e false
    | some (.ended, _) => .ended

/-- All that a stream gives: one message an event at most, and the one that is pending. -/
def feed (t : Topic) (s : SocketStream) : Feed t.Message :=
  feedWithin t (s.socket.events.length + 2) s

end SocketStream

end LedgerFeed

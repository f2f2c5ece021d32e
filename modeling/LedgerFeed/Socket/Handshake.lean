import LedgerFeed.Bytes
import LedgerFeed.Socket.Frame

/-!
# Sockets and handshakes

A socket carries what a server sends once a client has asked for a stream. After the last event it
has come to its end, or it stays open without anything more.

A client that has asked for a stream waits for the answer of the server. A server may skip the
acknowledgement and send data at once; the data is then kept for the stream. Whatever is not for
this subscription or has no meaning is passed over.
-/

namespace LedgerFeed

/-- Something that arrives on a socket. A socket that breaks may do so when it is read, or when a
ping has to be answered. -/
inductive SocketEvent
  | text (s : String)
  | ping (payload : Bytes)
  | pong (payload : Bytes)
  | binary (payload : Bytes)
  | close
  | broken (reason : String)
  deriving DecidableEq, Repr

/-- What is still to arrive on a socket, and whether it then stays open. -/
structure Socket where
  events : List SocketEvent
  silent : Bool
  deriving DecidableEq, Repr

/-- How a handshake ends. -/
inductive Handshake
  /-- The stream is open; its first payload may already have arrived. -/
  | opened (payload : Option Json) (events : List SocketEvent)
  | refused (e : OpenError)
  /-- The server does not answer. -/
  | unanswered

namespace Handshake

/-- What is wrong with a text that is no frame. -/
def badFrame : String := "invalid frame"

/-- The handshake over what arrives for the subscription with an ID. -/
def run (id : String) (silent : Bool) : List SocketEvent → Handshake
  | [] => if silent then .unanswered else .refused (.transport .closed)
  | .text s :: rest =>
    match Frame.parse? id s with
    | some .acknowledged => .opened none rest
    | some (.data payload) => .opened (some payload) rest
    | some (.failed e) => .refused (.rejected e)
    | some .ignored => run id silent rest
    | none => .refused (.transport (.undecodable badFrame))
  | .ping _ :: rest | .pong _ :: rest | .binary _ :: rest => run id silent rest
  | .close :: _ => .refused (.transport .closed)
  | .broken reason :: _ => .refused (.transport (.connection reason))

end Handshake

end LedgerFeed

import LedgerFeed.Client
import LedgerFeed.Settings.Endpoint
import LedgerFeed.Socket.Stream

/-!
# Streams from a server

A transport that connects to an endpoint, asks for a stream in one frame and goes through the
handshake. Every subscription has a socket of its own.
-/

namespace LedgerFeed

/-- The servers that can be reached: the socket to an address, or the reason why there is none. -/
structure Network where
  dial : String → Except String Socket

namespace Network

/-- No server can be reached, for one reason. -/
def refusing (reason : String) : Network where
  dial _ := .error reason

end Network

/-- A way to a server. The ID is that of the subscriptions it opens. -/
structure SocketTransport where
  network : Network
  endpoint : Endpoint
  id : String

namespace SocketTransport
variable {t : Topic}

/-- The frame that is sent for a request. -/
def frame (s : SocketTransport) (q : Request t) : Json :=
  subscribeFrame s.id t.name q.toJson

/-- The stream over a socket on which a request has been sent. -/
def opening (s : SocketTransport) (socket : Socket) : Opening t :=
  match Handshake.run s.id socket.silent socket.events with
  | .opened payload rest =>
    .opened (SocketStream.feed t ⟨s.id, payload, { socket with events := rest }, none⟩)
  | .refused e => .refused e
  | .unanswered => .refused (.timeout s.endpoint.timeout)

/-- Streams from an endpoint. The frames that have been sent are kept with the last in front. -/
def transport (s : SocketTransport) : Transport (List Json) where
  tryOpen _ q sent :=
    match s.network.dial s.endpoint.url with
    | .error reason => (.refused (.connect s.endpoint.url reason), sent)
    | .ok socket => (s.opening socket, s.frame q :: sent)

end SocketTransport

end LedgerFeed

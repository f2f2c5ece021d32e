import LedgerFeed.Client

/-!
# Playback

A transport that opens streams from recorded feeds. It has any number of feeds for each topic and
gives each of them away once, in order. It remembers the requests that reached it.
-/

namespace LedgerFeed

/-- A request and the topic that it is for. -/
structure SentRequest where
  topic : Topic
  request : Request topic

def SentRequest.toJson (q : SentRequest) : Json :=
  q.request.toJson

/-- What the transport does with all requests. -/
inductive PlaybackMode
  | ready
  | refuses (e : OpenError)
  | hangs
  deriving DecidableEq, Repr

/-- The requests are kept with the last in front. -/
structure Playback where
  feeds : (t : Topic) → List (Feed t.Message)
  mode : PlaybackMode
  requests : List SentRequest

namespace Playback

/-- A request is remembered. -/
def remember (p : Playback) (q : SentRequest) : Playback :=
  { p with requests := q :: p.requests }

/-- The next feed of a topic is given away. -/
def take (p : Playback) (t : Topic) : Playback :=
  { p with feeds := fun u => if u = t then (p.feeds u).tail else p.feeds u }

/-- The fault of a topic that has no feed left. -/
def noFeed : OpenError :=
  .rejected ⟨404, "no script for this kind"⟩

/-- What becomes of a request for a topic once it has been remembered. -/
def play (p : Playback) (t : Topic) : Opening t × Playback :=
  match p.mode with
  | .hangs => (.waiting, p)
  | .refuses e => (.refused e, p)
  | .ready =>
    match p.feeds t with
    | [] => (.refused noFeed, p)
    | feed :: _ => (.opened feed, p.take t)

/-- Streams from playback. -/
def transport : Transport Playback where
  tryOpen t q p := (p.remember ⟨t, q⟩).play t

end Playback

end LedgerFeed

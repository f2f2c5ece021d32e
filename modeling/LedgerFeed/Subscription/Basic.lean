import LedgerFeed.Settings.Subscribe
import LedgerFeed.Stream.Feed
import LedgerFeed.Topic.Message

/-!
# Subscriptions

A subscription has a worker, which asks the feed for messages and offers records, and a reader, who
takes them. Between the two are a place for one record and a place for one fault. A subscription
that is cancelled gives no more records than the one that is already there and one that is just
being put there.

The state of a subscription is what both sides see together. The worker is in one of several
phases, and between any two phases the reader may act, so counters and outcome may lag behind what
the phase says, and a cancellation may come just after the worker has looked for one.
-/

namespace LedgerFeed

/-- How the worker of a subscription ended, if it did. -/
inductive Outcome
  | running
  | completed
  | failed
  | cancelled
  deriving DecidableEq, Repr

def Outcome.name : Outcome → String
  | .running => "running"
  | .completed => "completed"
  | .failed => "failed"
  | .cancelled => "cancelled"

/-- The name of an outcome in a description of a subscription. -/
def Outcome.title : Outcome → String
  | .running => "Running"
  | .completed => "Completed"
  | .failed => "Failed"
  | .cancelled => "Cancelled"

/-- Messages that the worker was given, and records that it put in their place. Counters of 64 bits
show the same numbers for a feed of fewer than 2^64 messages: each message is counted once at most
(`Subscription.received_le_size`). -/
structure Stats where
  received : Nat
  delivered : Nat
  outcome : Outcome
  deriving DecidableEq, Repr

namespace Stats

/-- The stats of a worker that has not started. -/
def zero : Stats :=
  ⟨0, 0, .running⟩

def toJson (s : Stats) : Json :=
  .object [("messages_received", .nat s.received), ("records_delivered", .nat s.delivered),
    ("outcome", .text s.outcome.name)]

/-- The stats in a description of a subscription. -/
def describe (s : Stats) : String :=
  "SubscriptionStats \x7b messages_received: " ++ toString s.received ++ ", records_delivered: "
    ++ toString s.delivered ++ ", outcome: " ++ s.outcome.title ++ " \x7d"

end Stats

/-- What the worker does next. Where it can be kept waiting, for the feed, for the place of a record
or with a fault, it looks first whether it is cancelled. Looking and acting are two phases: what
happens between them comes too late to be noticed. -/
inductive Phase (t : Topic)
  /-- It is about to ask the feed, unless it is cancelled. -/
  | receiving
  /-- It has found no cancellation and asks the feed. -/
  | asking
  /-- It waits for the feed to answer, or to be cancelled. -/
  | waiting
  /-- The feed has answered. -/
  | answered (a : Answer t.Message)
  /-- It has counted a message and turns it into a record. -/
  | handling (m : t.Message)
  /-- It is about to put a record in its place, unless it is cancelled. -/
  | offering (r : t.Record)
  /-- It has found no cancellation and puts a record in its place, if that is free. -/
  | sending (r : t.Record)
  /-- It waits for the place of a record to be free, or to be cancelled. -/
  | blocked (r : t.Record)
  /-- It has put a record in its place and counts it. -/
  | placed
  /-- It has met a fault. -/
  | failing (e : StreamError)
  /-- It has recorded the outcome of a fault and is about to report it, unless it is cancelled. -/
  | reporting (e : StreamError)
  /-- It has found no cancellation and puts a fault in its place. -/
  | posting (e : StreamError)
  /-- It ends without a fault. -/
  | finishing (o : Outcome)
  /-- It has come to an outcome and has nothing left to do. -/
  | leaving
  /-- It is gone, and so is the feed. -/
  | exited

/-- The state of a subscription to a topic. The number that is due is kept only for topics with
numbered messages. -/
structure Subscription (t : Topic) where
  decode : DecodeOptions
  sequence : Option Sequence
  feed : Feed t.Message
  phase : Phase t
  record : Option t.Record
  fault : Option StreamError
  recordsOpen : Bool
  faultsOpen : Bool
  cancelled : Bool
  cancelsAll : Bool
  stats : Stats

namespace Subscription
variable {t : Topic}

/-- A subscription to a feed, before its worker starts. -/
def ofFeed (s : SubscribeSettings) (feed : Feed t.Message) : Subscription t where
  decode := s.decode
  sequence := if t.isNumbered then some (.ofStart s.firstIndex) else none
  feed := feed
  phase := .receiving
  record := none
  fault := none
  recordsOpen := true
  faultsOpen := true
  cancelled := false
  cancelsAll := false
  stats := .zero

/-- The worker is gone. -/
def hasExited (s : Subscription t) : Bool :=
  match s.phase with
  | .exited => true
  | _ => false

/-- A line that describes a subscription. -/
def describe (s : Subscription t) : String :=
  "Subscription \x7b kind: " ++ t.title ++ ", cancelled: " ++ toString s.cancelled ++ ", stats: "
    ++ s.stats.describe ++ " \x7d"

end Subscription

end LedgerFeed

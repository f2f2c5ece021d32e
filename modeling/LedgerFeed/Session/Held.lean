import LedgerFeed.Subscription.Reader

/-!
# Subscriptions in hand

Who has subscribed holds the subscription as a whole, or its parts after taking it apart, or nothing
any more. Dropping the whole cancels the subscription; dropping the parts does not. A token made of
the whole outlives it: the token is cancelled with the subscription, or alone.
-/

namespace LedgerFeed

/-- What is left of a subscription in hand. -/
inductive Holding
  /-- The whole. The worker can be waited for once; after that it counts as gone. -/
  | whole (joined : Bool)
  /-- The two sides to read from, as far as they have not been dropped. -/
  | parts (records faults : Bool)
  | gone
  deriving DecidableEq, Repr

/-- A subscription and what is left of it in hand. Of the token that was last made of it, if one
was, it is known whether it has been cancelled alone. -/
structure Held where
  topic : Topic
  subscription : Subscription topic
  holding : Holding
  token : Option Bool

/-- What can be done with a subscription in hand. -/
inductive Use
  | next
  | recv
  | error
  | closed
  | cancel
  | isCancelled
  | topic
  | stats
  | describe
  | drop
  | takeApart
  | collect
  | dropRecords
  | dropFaults
  | makeToken
  | isTokenCancelled
  | cancelToken
  deriving DecidableEq, Repr

/-- What comes of a use. -/
inductive UseResult
  | done
  | record (t : Topic) (r : t.Record)
  | fault (e : StreamError)
  | noFault
  | ended
  | pending
  | closed
  | flag (b : Bool)
  | topic (t : Topic)
  | stats (s : Stats)
  | description (s : String)
  | items (rs : List UseResult)
  | unsupported
  | noSubscription

namespace UseResult

/-- A reading of records. -/
def ofRecord {t : Topic} : Reading t.Record → UseResult
  | .item r => .record t r
  | .ended => .ended
  | .pending => .pending

/-- A reading of faults alone. -/
def ofFault : Reading StreamError → UseResult
  | .item e => .fault e
  | .ended => .noFault
  | .pending => .pending

/-- What has been received. -/
def ofItem {t : Topic} : Except StreamError t.Record → UseResult
  | .ok r => .record t r
  | .error e => .fault e

/-- A reading of records and faults. -/
def ofRecv {t : Topic} : Reading (Except StreamError t.Record) → UseResult
  | .item a => ofItem a
  | .ended => .ended
  | .pending => .pending

/-- A reading that gave no item. -/
def ofLast : Reading Empty → UseResult
  | .ended => .ended
  | .pending => .pending

end UseResult

namespace Held

/-- A subscription that has just been opened. -/
def ofSubscription {t : Topic} (s : Subscription t) : Held :=
  ⟨t, s, .whole false, none⟩

/-- The subscription after a change, and what comes of the change. -/
def withResult (h : Held) (r : UseResult) (s : Subscription h.topic) : UseResult × Held :=
  (r, { h with subscription := s })

/-- The next record of a subscription. -/
def next (h : Held) : UseResult × Held :=
  let (r, s) := h.subscription.next
  h.withResult (.ofRecord r) s

/-- The fault of a subscription. -/
def error (h : Held) : UseResult × Held :=
  let (r, s) := h.subscription.error
  h.withResult (.ofFault r) s

/-- All that can be read. The subscription is dropped in the end. -/
def collect (h : Held) : UseResult × Held :=
  let (items, last, s) := h.subscription.drain
  (.items (items.map .ofItem ++ [.ofLast last]),
    { h with subscription := s.drop, holding := .gone })

/-- What is left of a subscription in hand is dropped. -/
def drop (h : Held) : Held :=
  match h.holding with
  | .whole _ => { h with subscription := h.subscription.drop, holding := .gone }
  | .parts _ _ =>
    { h with subscription := h.subscription.closeRecords.closeFaults, holding := .gone }
  | .gone => h

/-- The subscription that the token was made of is cancelled, or the token alone. -/
def isTokenCancelled (h : Held) : UseResult :=
  h.token.elim .noSubscription fun alone => .flag (alone || h.subscription.cancelled)

/-- The token is cancelled. -/
def cancelToken (h : Held) : UseResult × Held :=
  if h.token.isSome then (.done, { h with token := some true }) else (.noSubscription, h)

/-- A use of a whole subscription. -/
def useWhole (h : Held) (joined : Bool) : Use → UseResult × Held
  | .next => h.next
  | .recv =>
    let (r, s) := h.subscription.recv
    h.withResult (.ofRecv r) s
  | .error => h.error
  | .closed =>
    (if joined || h.subscription.hasExited then .closed else .pending,
      { h with holding := .whole true })
  | .cancel => h.withResult .done h.subscription.cancel
  | .isCancelled => (.flag h.subscription.cancelled, h)
  | .topic => (.topic h.topic, h)
  | .stats => (.stats h.subscription.stats, h)
  | .describe => (.description h.subscription.describe, h)
  | .drop => (.done, h.drop)
  | .takeApart => (.done, { h with holding := .parts true true })
  | .collect => h.collect
  | .dropRecords | .dropFaults => (.unsupported, h)
  | .makeToken => (.done, { h with token := some false })
  | .isTokenCancelled => (h.isTokenCancelled, h)
  | .cancelToken => h.cancelToken

/-- A use of the parts of a subscription. -/
def useParts (h : Held) (records faults : Bool) : Use → UseResult × Held
  | .next => if records then h.next else (.noSubscription, h)
  | .error => if faults then h.error else (.noSubscription, h)
  | .cancel => h.withResult .done h.subscription.cancel
  | .isCancelled => (.flag h.subscription.cancelled, h)
  | .dropRecords =>
    (.done, { h with
      subscription := h.subscription.closeRecords
      holding := .parts false faults })
  | .dropFaults =>
    (.done, { h with
      subscription := h.subscription.closeFaults
      holding := .parts records false })
  | .isTokenCancelled => (h.isTokenCancelled, h)
  | .cancelToken => h.cancelToken
  | _ => (.noSubscription, h)

/-- A use of a subscription that is not in hand any more. -/
def useGone (h : Held) : Use → UseResult × Held
  | .isTokenCancelled => (h.isTokenCancelled, h)
  | .cancelToken => h.cancelToken
  | _ => (.noSubscription, h)

/-- A use of what is left of a subscription in hand. -/
def use (h : Held) (u : Use) : UseResult × Held :=
  match h.holding with
  | .whole joined => h.useWhole joined u
  | .parts records faults => h.useParts records faults u
  | .gone => h.useGone u

/-- The worker goes on as far as it can. -/
def settle (h : Held) : Held :=
  { h with subscription := h.subscription.settle }

/-- The subscription is cancelled. -/
def cancel (h : Held) : Held :=
  { h with subscription := h.subscription.cancel }

/-- The stream is open: the worker is not gone. -/
def isLive (h : Held) : Bool :=
  !h.subscription.hasExited

end Held

end LedgerFeed

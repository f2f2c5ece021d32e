import LedgerFeed.Request
import LedgerFeed.Subscription.Basic

/-!
# Subscribing

A client turns what a caller wants into a request and has a transport open a stream for it. All that
the caller can get wrong is found before the transport is asked, and so is a cancellation.
-/

namespace LedgerFeed

/-- What a transport makes of a request. -/
inductive Opening (t : Topic)
  | opened (feed : Feed t.Message)
  | refused (e : OpenError)
  | waiting

/-- A way of opening streams, with a state of its own. -/
structure Transport (σ : Type) where
  tryOpen : (t : Topic) → Request t → σ → Opening t × σ

/-- What a caller gets who subscribes. -/
inductive Subscribing (t : Topic)
  | subscribed (s : Subscription t)
  | refused (e : SubscribeError)
  | waiting

namespace Client
variable {t : Topic}

/-- The request of a caller: first the filter is checked, then the start, then the settings. -/
def request (s : SubscribeSettings) (start : StartOptions) (selection : t.Selection) :
    Except RequestError (Request t) := do
  Topic.Selection.validate t selection
  let point ← start.validate
  s.validate
  return .ofStart point s.heartbeat s.encoding selection

/-- The subscription to an opened stream. -/
def subscribed (s : SubscribeSettings) : Opening t → Subscribing t
  | .opened feed => .subscribed (.ofFeed s feed)
  | .refused e => .refused (.opening e)
  | .waiting => .waiting

/-- Subscribes unless the request is wrong or the caller has already cancelled. -/
def subscribe {σ : Type} (transport : Transport σ) (s : SubscribeSettings) (cancelled : Bool)
    (start : StartOptions) (selection : t.Selection) (state : σ) : Subscribing t × σ :=
  match request s start selection with
  | .error e => (.refused (.request e), state)
  | .ok q =>
    if cancelled then (.refused (.opening .cancelled), state)
    else
      let (opening, state') := transport.tryOpen t q state
      (subscribed s opening, state')

end Client

end LedgerFeed

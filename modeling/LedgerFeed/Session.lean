import LedgerFeed.Session.Held
import LedgerFeed.Stream.Playback

/-!
# Sessions

A session is a client with any number of subscriptions, which are known by names and can all be
cancelled together. Between two actions the workers of all subscriptions go on as far as they can
(`Session.settle`), so a record waits in its place and the worker waits with the one after it.
-/

namespace LedgerFeed

/-- The subscriptions are numbered in the order in which they were opened. A name stands for the
subscription that was last opened under it. -/
structure Session where
  settings : SubscribeSettings
  transport : Playback
  cancelled : Bool
  subscriptions : List Held
  names : List (String × Nat)

/-- What can be done in a session. -/
inductive Action
  | subscribe (name : String) (t : Topic) (start : StartOptions) (selection : t.Selection)
      (cancelWhileWaiting : Bool)
  | configure (s : SubscribeSettings)
  | setMode (m : PlaybackMode)
  | cancelAll
  | isAllCancelled
  | countLive
  | lastRequest
  | use (name : String) (u : Use)

/-- What comes of an action. -/
inductive ActionResult
  | used (r : UseResult)
  | subscribed
  | refused (e : SubscribeError)
  | settings (s : SubscribeSettings)
  | count (n : Nat)
  | request (q : Option SentRequest)

namespace ActionResult

def done : ActionResult := .used .done

def flag (b : Bool) : ActionResult := .used (.flag b)

def noSubscription : ActionResult := .used .noSubscription

end ActionResult

namespace Session

/-- A session without subscriptions. -/
def opening (settings : SubscribeSettings) (transport : Playback) : Session where
  settings := settings
  transport := transport
  cancelled := false
  subscriptions := []
  names := []

/-- A session without subscriptions that has one feed of a topic to play at most. -/
def ofFeeds (feeds : (t : Topic) → Option (Feed t.Message)) : Session :=
  opening .default ⟨fun t => (feeds t).toList, .ready, []⟩

/-- The number and the subscription that a name stands for. -/
def find? (s : Session) (name : String) : Option (Nat × Held) := do
  let n ← s.names.lookup name
  return (n, ← s.subscriptions[n]?)

/-- The subscription with a number is replaced. -/
def set (s : Session) (n : Nat) (h : Held) : Session :=
  { s with subscriptions := s.subscriptions.set n h }

/-- All subscriptions are cancelled. -/
def cancelAll (s : Session) : Session :=
  { s with cancelled := true, subscriptions := s.subscriptions.map Held.cancel }

/-- All workers go on as far as they can. -/
def settleAll (s : Session) : Session :=
  { s with subscriptions := s.subscriptions.map Held.settle }

/-- A feed has cancelled all subscriptions. -/
def hasCancelling (s : Session) : Bool :=
  s.subscriptions.any fun h => h.subscription.cancelsAll

/-- All workers go on as far as they can, and once more if that has cancelled them. -/
def settle (s : Session) : Session :=
  let s' := s.settleAll
  if s'.hasCancelling then s'.cancelAll.settleAll else s'

/-- What a name stands for is dropped. -/
def dropName (s : Session) (name : String) : Session :=
  match s.find? name with
  | some (n, h) => s.set n h.drop
  | none => s

/-- A subscription is added under a name, in place of what the name stood for. -/
def add {t : Topic} (s : Session) (name : String) (sub : Subscription t) : Session :=
  let s' := s.dropName name
  { s' with
    subscriptions := s'.subscriptions ++ [.ofSubscription sub]
    names := (name, s'.subscriptions.length) :: s'.names }

/-- A subscription is opened. While the transport keeps the caller waiting, the caller may cancel
all subscriptions, this one included, or give up. -/
def subscribe (s : Session) (name : String) (t : Topic) (start : StartOptions)
    (selection : t.Selection) (cancelWhileWaiting : Bool) : ActionResult × Session :=
  let (subscribing, transport) :=
    Client.subscribe Playback.transport s.settings s.cancelled start selection s.transport
  let s := { s with transport }
  match subscribing with
  | .subscribed sub => (.subscribed, s.add name sub)
  | .refused e => (.refused e, s)
  | .waiting =>
    if cancelWhileWaiting then (.refused (.opening .cancelled), s.cancelAll)
    else (.used .pending, s)

/-- The subscription that a name stands for is used. -/
def use (s : Session) (name : String) (u : Use) : ActionResult × Session :=
  match s.find? name with
  | none => (.noSubscription, s)
  | some (n, h) =>
    let (r, h') := h.use u
    (.used r, s.set n h')

/-- What an action does before the workers go on. -/
def perform (s : Session) : Action → ActionResult × Session
  | .subscribe name t start selection cancelWhileWaiting =>
    s.subscribe name t start selection cancelWhileWaiting
  | .configure settings => (.settings settings, { s with settings })
  | .setMode mode => (.done, { s with transport := { s.transport with mode } })
  | .cancelAll => (.done, s.cancelAll)
  | .isAllCancelled => (.flag s.cancelled, s)
  | .countLive => (.count (s.subscriptions.countP Held.isLive), s)
  | .lastRequest => (.request s.transport.requests.head?, s)
  | .use name u => s.use name u

/-- What comes of an action, and the session when the workers have gone on. -/
def act (s : Session) (a : Action) : ActionResult × Session :=
  let (r, s') := s.perform a
  (r, s'.settle)

end Session

end LedgerFeed

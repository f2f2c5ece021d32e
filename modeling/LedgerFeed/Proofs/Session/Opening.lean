import LedgerFeed.Proofs.Client.Faults
import LedgerFeed.Proofs.Session.Run

/-!
# Opening at most once

A transport is asked for a stream once if the caller has made no mistake and has not cancelled, and
it is not asked at all otherwise (`Client.subscribe_cases`). Whoever is not given a stream has no
subscription left behind, and a session in which nothing was asked is as it was
(`Session.opens_at_most_once`).
-/

namespace LedgerFeed

/-- The transport with a list of the requests that reach it, the last in front. -/
def Transport.recorded {σ : Type} (transport : Transport σ) :
    Transport (σ × List SentRequest) where
  tryOpen t q state :=
    let (opening, x) := transport.tryOpen t q state.1
    (opening, (x, ⟨t, q⟩ :: state.2))

namespace Client
variable {t : Topic}

/-- All reasons not to ask a transport, in the order in which they count. -/
def faults (s : SubscribeSettings) (cancelled : Bool) (start : StartOptions)
    (selection : t.Selection) : List SubscribeError :=
  (mistakes s start selection).map .request ++ if cancelled then [.opening .cancelled] else []

/-- The first reason not to ask is given and no transport is asked, or there is a request that says
what the caller wants, and every transport is asked just that. -/
theorem subscribe_cases (s : SubscribeSettings) (cancelled : Bool) (start : StartOptions)
    (selection : t.Selection) :
    (∃ e, (faults s cancelled start selection).head? = some e ∧
      ∀ {σ : Type} (transport : Transport σ) (x : σ),
        subscribe transport s cancelled start selection x = (.refused e, x)) ∨
    (faults s cancelled start selection = [] ∧ ∃ q : Request t, Asks s start selection q ∧
      ∀ {σ : Type} (transport : Transport σ) (x : σ),
        subscribe transport s cancelled start selection x =
          (subscribed s (transport.tryOpen t q x).1, (transport.tryOpen t q x).2)) := by
  have hrequest := request_failsFirst s start selection
  cases hq : request s start selection with
  | error e =>
    refine .inl ⟨.request e, ?_, fun transport x => ?_⟩
    · rw [faults, List.head?_append, List.head?_map, (hrequest e).1 hq]
      rfl
    · rw [subscribe, hq]
  | ok q =>
    rw [hq] at hrequest
    rw [faults, hrequest.eq_nil]
    cases cancelled with
    | true =>
      refine .inl ⟨.opening .cancelled, rfl, fun transport x => ?_⟩
      rw [subscribe, hq]
      rfl
    | false =>
      refine .inr ⟨rfl, q, asks_of_request hq, fun transport x => ?_⟩
      rw [subscribe, hq]
      rfl

end Client

/-- Playback remembers a request whatever becomes of it. -/
theorem Playback.requests_tryOpen (p : Playback) {t : Topic} (q : Request t) :
    (transport.tryOpen t q p).2.requests = ⟨t, q⟩ :: p.requests := by
  change ((p.remember ⟨t, q⟩).play t).2.requests = _
  unfold play
  split
  · rfl
  · rfl
  · split <;> rfl

namespace Session
variable {t : Topic} {s : Session} {name : String} {start : StartOptions}
  {selection : t.Selection} {cancelWhileWaiting : Bool}

/-- A session is as it was if its transport has not been asked. -/
theorem subscribe_refused {e : SubscribeError}
    (h : s.ask start selection = (.refused e, s.transport)) :
    s.subscribe name t start selection cancelWhileWaiting = (.refused e, s) := by
  rw [subscribe_eq, h]

/-- Dropping what a name stands for keeps the transport and the number of subscriptions. -/
theorem dropName_keeps (s : Session) (name : String) :
    (s.dropName name).transport = s.transport ∧
      (s.dropName name).subscriptions.length = s.subscriptions.length := by
  unfold dropName
  split
  · exact ⟨rfl, List.length_set⟩
  · exact ⟨rfl, rfl⟩

/-- A subscription that is added is one more. -/
theorem add_adds (s : Session) (name : String) (sub : Subscription t) :
    (s.add name sub).transport = s.transport ∧
      (s.add name sub).subscriptions.length = s.subscriptions.length + 1 := by
  obtain ⟨htransport, hlength⟩ := s.dropName_keeps name
  refine ⟨htransport, ?_⟩
  rw [← hlength]
  exact List.length_append

/-- There is a subscription more if a stream has been opened, and otherwise there are as many as
before, under the same names. -/
def Gains (s : Session) (opened : Prop) (result : ActionResult × Session) : Prop :=
  (opened ∧ result.1 = .subscribed ∧
      result.2.subscriptions.length = s.subscriptions.length + 1) ∨
    (¬ opened ∧ result.1 ≠ .subscribed ∧
      result.2.subscriptions.length = s.subscriptions.length ∧ result.2.names = s.names)

/-- What a transport makes of the request decides whether there is a subscription more. -/
theorem subscribe_asked {opening : Opening t} {p : Playback}
    (h : s.ask start selection = (Client.subscribed s.settings opening, p)) :
    (s.subscribe name t start selection cancelWhileWaiting).2.transport = p ∧
      s.Gains (∃ feed, opening = .opened feed)
        (s.subscribe name t start selection cancelWhileWaiting) := by
  rw [subscribe_eq, h]
  cases opening with
  | opened feed =>
    obtain ⟨htransport, hlength⟩ :=
      add_adds { s with transport := p } name (.ofFeed s.settings feed)
    exact ⟨htransport, .inl ⟨⟨feed, rfl⟩, rfl, hlength⟩⟩
  | refused e => exact ⟨rfl, .inr ⟨fun ⟨_, h⟩ => (nomatch h), fun h => (nomatch h), rfl, rfl⟩⟩
  | waiting =>
    cases cancelWhileWaiting with
    | false => exact ⟨rfl, .inr ⟨fun ⟨_, h⟩ => (nomatch h), fun h => (nomatch h), rfl, rfl⟩⟩
    | true =>
      exact ⟨rfl, .inr ⟨fun ⟨_, h⟩ => (nomatch h), fun h => (nomatch h), List.length_map _, rfl⟩⟩

/-- The first mistake of a caller, or a cancellation after all of them, is the reason why there is
no new subscription. No transport is asked for a stream then, and the session is as it was.
Otherwise the transport is asked once, for the topic, with a request that says what the caller
wants, and there is a subscription more just if the transport opens a stream. -/
theorem opens_at_most_once (s : Session) (name : String) (start : StartOptions)
    (selection : t.Selection) (cancelWhileWaiting : Bool) {σ : Type} (transport : Transport σ)
    (x : σ) (asked : List SentRequest) :
    let faults := Client.faults s.settings s.cancelled start selection
    let recorded :=
      Client.subscribe transport.recorded s.settings s.cancelled start selection (x, asked)
    let result := s.subscribe name t start selection cancelWhileWaiting
    (∀ e, faults.head? = some e →
      recorded = (.refused e, (x, asked)) ∧ result = (.refused e, s)) ∧
    (faults = [] → ∃ q : Request t, Client.Asks s.settings start selection q ∧
      recorded = (Client.subscribed s.settings (transport.tryOpen t q x).1,
        ((transport.tryOpen t q x).2, ⟨t, q⟩ :: asked)) ∧
      result.2.transport.requests = ⟨t, q⟩ :: s.transport.requests ∧
      s.Gains (∃ feed, (Playback.transport.tryOpen t q s.transport).1 = .opened feed) result) := by
  intro faults recorded result
  rcases Client.subscribe_cases s.settings s.cancelled start selection with
    ⟨e, he, hrefused⟩ | ⟨hnone, q, hq, hasked⟩
  · refine ⟨fun e' he' => ?_, fun hnil => ?_⟩
    · cases he.symm.trans he'
      exact ⟨hrefused transport.recorded (x, asked),
        subscribe_refused (hrefused Playback.transport s.transport)⟩
    · cases he.symm.trans (congrArg List.head? hnil)
  · obtain ⟨htransport, hgains⟩ :=
      subscribe_asked (hasked Playback.transport s.transport)
    refine ⟨fun e he => ?_, fun _ => ⟨q, hq, hasked transport.recorded (x, asked), ?_, hgains⟩⟩
    · cases he.symm.trans (congrArg List.head? hnone)
    · rw [htransport, Playback.requests_tryOpen]

/-- A caller who has got all wrong hears of the first event type that is wrong, and a caller who has
got nothing wrong has one request sent. -/
theorem opens_at_most_once_events :
    let wrong : Topic.events.Selection :=
      EventFilter.mk ["flow.AccountCreated", "Minted", ""] ["0x1g"] ["A.B"]
    let all : Topic.events.Selection := EventFilter.mk [] [] []
    let e : SubscribeError := .request (.invalidEventType "Minted" .badForm)
    let s := ofFeeds fun _ => some .ended
    let s' : Session := { s with settings := { s.settings with heartbeat := 0 }, cancelled := true }
    (Client.faults s'.settings s'.cancelled ⟨none, some 7, true⟩ wrong).head? = some e ∧
      s'.subscribe "mints" .events ⟨none, some 7, true⟩ wrong false = (.refused e, s') ∧
      Client.faults s.settings s.cancelled ⟨none, some 7, false⟩ all = [] ∧
      ∃ q : Request .events, q.start = .height 7 ∧
        (s.subscribe "all" .events ⟨none, some 7, false⟩ all false).2.transport.requests =
          [⟨.events, q⟩] := by
  intro wrong all e s s'
  have hwrong : (Client.faults s'.settings s'.cancelled ⟨none, some 7, true⟩ wrong).head? =
      some e := by decide +kernel
  have hright : Client.faults s.settings s.cancelled ⟨none, some 7, false⟩ all = [] := by
    decide +kernel
  obtain ⟨-, hrefused⟩ := (opens_at_most_once s' "mints" ⟨none, some 7, true⟩ wrong false
    Playback.transport s'.transport []).1 e hwrong
  obtain ⟨q, hq, -, hrequests, -⟩ := (opens_at_most_once s "all" ⟨none, some 7, false⟩ all false
    Playback.transport s.transport []).2 hright
  refine ⟨hwrong, hrefused, hright, q, ?_, hrequests⟩
  exact (Except.ok.inj hq.start).symm

end Session

end LedgerFeed

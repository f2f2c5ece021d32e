import LedgerFeed.Proofs.Socket.Calls
import LedgerFeed.Proofs.Socket.Handshake

/-!
# What a client gets from a socket

A client gets the answers of a stream or learns why there is none. Either is settled by what the
events on the socket mean, in their order, and by nothing else: `SocketStream.answers_by_meaning`.
So a server may mix in what has no meaning to the subscription, and acknowledge an open stream
again (`Trimmed`), without any difference to the client or to a worker
(`SocketTransport.opening_trimmed`).
-/

namespace LedgerFeed

/-- The second list is the first without some members, all of which have a property. -/
inductive Without {α : Type} (P : α → Prop) : List α → List α → Prop
  | nil : Without P [] []
  | keep {xs ys : List α} (a : α) (h : Without P xs ys) : Without P (a :: xs) (a :: ys)
  | drop {xs ys : List α} {a : α} (ha : P a) (h : Without P xs ys) : Without P (a :: xs) ys

/-- The second list of events is the first without some that mean nothing. Behind the event that
decides a handshake, acknowledgements may be left out as well. -/
inductive Trimmed (id : String) : List SocketEvent → List SocketEvent → Prop
  | nil : Trimmed id [] []
  | keep {xs ys : List SocketEvent} {e : SocketEvent} (he : Means id e .nothing)
      (h : Trimmed id xs ys) : Trimmed id (e :: xs) (e :: ys)
  | drop {xs ys : List SocketEvent} {e : SocketEvent} (he : Means id e .nothing)
      (h : Trimmed id xs ys) : Trimmed id (e :: xs) ys
  | decided {xs ys : List SocketEvent} {e : SocketEvent} (he : ¬ Means id e .nothing)
      (h : Without (fun e => Means id e .nothing ∨ Means id e .acknowledged) xs ys) :
      Trimmed id (e :: xs) (e :: ys)

/-- What means nothing and what acknowledges is no arrival. -/
theorem arrival?_eq_none {id : String} {e : SocketEvent}
    (h : Means id e .nothing ∨ Means id e .acknowledged) : (e.meaning id).arrival? = none := by
  rcases h with h | h <;> rw [meaning_eq_iff.2 h] <;> rfl

variable {id : String} {events events' : List SocketEvent}

/-- What is left out brings nothing. -/
theorem Without.all_eq
    (h : Without (fun e => Means id e .nothing ∨ Means id e .acknowledged) events events')
    (silent : Bool) : Arrival.all id silent events = Arrival.all id silent events' := by
  induction h with
  | nil => rfl
  | keep e _ ih => rw [Arrival.all_cons, Arrival.all_cons, ih]
  | drop he _ ih =>
    rw [Arrival.all_cons, arrival?_eq_none he, ih]
    rfl

/-- Events are trimmed of some that mean nothing or are acknowledgements. -/
theorem Trimmed.without (h : Trimmed id events events') :
    Without (fun e => Means id e .nothing ∨ Means id e .acknowledged) events events' := by
  induction h with
  | nil => exact .nil
  | keep _ _ ih => exact .keep _ ih
  | drop he _ ih => exact .drop (.inl he) ih
  | decided _ h => exact .keep _ h

namespace Handshake

/-- Two handshakes end in the same way, or both open a stream with the same payload. -/
def Alike (h h' : Handshake) : Prop :=
  h = h' ∨ ∃ payload rest rest', h = .opened payload rest ∧ h' = .opened payload rest'

/-- A decision does not depend on what is left. -/
theorem run_cons_alike {silent : Bool} {e : SocketEvent} (he : ¬ Means id e .nothing)
    (rest rest' : List SocketEvent) :
    Alike (run id silent (e :: rest)) (run id silent (e :: rest')) := by
  rw [run_cons, run_cons]
  cases hm : e.meaning id with
  | nothing => exact (he (meaning_eq_iff.1 hm)).elim
  | acknowledged | data => exact .inr ⟨_, rest, rest', rfl, rfl⟩
  | failed | unreadable | closed | broken => exact .inl rfl

end Handshake

/-- What is left out makes no difference to the handshake. -/
theorem Trimmed.run_alike (h : Trimmed id events events') (silent : Bool) :
    Handshake.Alike (Handshake.run id silent events) (Handshake.run id silent events') := by
  induction h with
  | nil => exact .inl rfl
  | keep he _ ih =>
    rw [Handshake.run_cons_of_nothing he, Handshake.run_cons_of_nothing he]
    exact ih
  | drop he _ ih =>
    rw [Handshake.run_cons_of_nothing he]
    exact ih
  | decided he _ => exact Handshake.run_cons_alike he _ _

/-- Nor does it to what a worker is fed. -/
theorem SocketTransport.opening_trimmed {t : Topic} (s : SocketTransport) (silent : Bool)
    (h : Trimmed s.id events events') :
    (s.opening ⟨events, silent⟩ : Opening t) = s.opening ⟨events', silent⟩ := by
  rcases h.run_alike silent with hr | ⟨payload, rest, rest', hr, hr'⟩
  · simp only [opening, hr]
  · rw [opening_eq hr, opening_eq hr', SocketStream.answers, SocketStream.answers, h.without.all_eq]

namespace SocketStream
variable {t : Topic}

/-- What a client gets: the answer to every call, or the reason why there is no stream. -/
inductive Served (M : Type)
  | stream (call : Nat → Option (Answer M))
  | refused (e : OpenError)
  | unanswered

/-- What the client of a subscription gets from a socket. -/
def served (t : Topic) (id : String) (silent : Bool) (events : List SocketEvent) :
    Served t.Message :=
  match Handshake.run id silent events with
  | .opened pending rest => .stream fun n => (opened id pending rest silent).call t n
  | .refused e => .refused e
  | .unanswered => .unanswered

/-- What is left out makes no difference to a client. -/
theorem served_trimmed (t : Topic) (silent : Bool) (h : Trimmed id events events') :
    served t id silent events = served t id silent events' := by
  rcases h.run_alike silent with hr | ⟨payload, rest, rest', hr, hr'⟩
  · rw [served, served, hr]
  · simp only [served, hr, hr', call_opened hr, call_opened hr', answers, h.without.all_eq]

/-- What a client gets from a socket is settled by the meanings of the events on it.

Every event has the meaning that the rules give it, and the handshake ends by its rules. If it opens
a stream, the calls are answered by what all the events bring: the payloads in order, each once, up
to the first that is no message or the first other event that brings anything; from then on every
call gets that answer, whatever is on the socket. What is left out of the events by `Trimmed` makes
no difference. -/
theorem answers_by_meaning (t : Topic) (id : String) (silent : Bool) (events : List SocketEvent) :
    (∀ e m, SocketEvent.meaning id e = m ↔ Means id e m) ∧
      (∀ h, Handshake.run id silent events = h ↔ Handshake.Ends id silent events h) ∧
      (∀ pending rest, Handshake.run id silent events = .opened pending rest →
        ∀ n, (opened id pending rest silent).call t n =
          Answer.atCall (answers t id silent events) n) ∧
      (∀ (s s' : SocketStream) (a : Answer t.Message), s.receive t = some (a, s') →
        a.isMessage = false → ∀ socket,
          receive t { s' with socket := socket } = some (a, { s' with socket := socket })) ∧
      ∀ events', Trimmed id events events' →
        served t id silent events = served t id silent events' := by
  refine ⟨fun e m => meaning_eq_iff, fun h => Handshake.run_eq_iff, ?_, ?_, ?_⟩
  · intro pending rest h n
    exact call_opened h n
  · intro s s' a h ha socket
    exact receive_of_over h ha socket
  · intro events' h
    exact served_trimmed t silent h

/-- A server that reports an error to another subscription and sends data without an
acknowledgement, which comes behind it. -/
theorem answers_by_meaning_data_first :
    let foreign : SocketEvent := .text (Json.object [("subscription_id", .text "b"),
      ("error", .object [("code", .nat 1)])]).toText
    let payload : Json := .object [("header", .null)]
    let data : SocketEvent := .text (Json.object [("payload", payload)]).toText
    let ack : SocketEvent := .text (Json.object [("action", .text "subscribe")]).toText
    let events := [.ping [], foreign, data, ack, .close]
    Handshake.run "a" true events = .opened (some payload) [ack, .close] ∧
      (∀ n, (opened "a" (some payload) [ack, .close] true).call .blockHeaders n =
        Answer.atCall [.message (⟨none⟩ : HeaderMessage), .ended] n) ∧
      (∀ socket, receive .blockHeaders ⟨"a", none, socket, some (.ok ())⟩ =
        some (.ended, ⟨"a", none, socket, some (.ok ())⟩)) ∧
      served .blockHeaders "a" true events = served .blockHeaders "a" true [data, .close] := by
  intro foreign payload data ack events
  have hforeign : Means "a" foreign .nothing :=
    .foreign (f := ⟨some "b", none, none, some ⟨1, ""⟩⟩)
      (Frame.ofText?_toText ⟨trivial, ⟨rfl, trivial⟩, trivial⟩) (by simp [Frame.IsFor])
  have hdata : Means "a" data (.data payload) :=
    .data (f := ⟨none, none, some payload, none⟩)
      (Frame.ofText?_toText ⟨⟨trivial, trivial⟩, trivial⟩) (.inl rfl) rfl rfl
  have hack : Means "a" ack .acknowledged :=
    .acknowledged (f := ⟨none, some "subscribe", none, none⟩)
      (Frame.ofText?_toText ⟨trivial, trivial⟩) (.inl rfl) rfl rfl rfl
  obtain ⟨-, hends, hcalls, hover, htrimmed⟩ := answers_by_meaning .blockHeaders "a" true events
  have hrun : Handshake.run "a" true events = .opened (some payload) [ack, .close] := by
    have hpassed : ∀ e ∈ [.ping [], foreign], Means "a" e .nothing := by
      simp [hforeign, Means.ping]
    exact (hends _).2 (.decided hpassed hdata rfl)
  refine ⟨hrun, ?_, ?_, ?_⟩
  · have hanswers : answers .blockHeaders "a" true events =
        [.message (⟨none⟩ : HeaderMessage), .ended] := by
      simp only [answers, Arrival.all, events, List.filterMap_cons, meaning_eq_iff.2 hforeign,
        meaning_eq_iff.2 hdata, meaning_eq_iff.2 hack]
      rfl
    intro n
    rw [hcalls _ _ hrun, hanswers]
    rfl
  · exact hover (opened "a" none [.close] true) ⟨"a", none, ⟨[], true⟩, some (.ok ())⟩ .ended
      rfl rfl
  · refine htrimmed _ (.drop (.ping []) (.drop hforeign (.decided ?_ (.drop (.inr hack) ?_))))
    · intro h
      cases hdata.unique h
    · exact .keep _ .nil

end SocketStream

end LedgerFeed

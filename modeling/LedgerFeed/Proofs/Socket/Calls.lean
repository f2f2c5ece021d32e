import LedgerFeed.Proofs.Socket.Meaning
import LedgerFeed.Socket.Transport

/-!
# The answers of a stream over a socket

What an open stream still has to answer (`SocketStream.ahead`) can be read off its state: the
payload that is pending, then what the events on the socket bring, one by one. A call takes the
first of it and leaves the others, and behind anything but a message the stream is over
(`receive_cases`). So every call gets its answer from that list (`call_eq`). A stream that a
handshake has opened answers what all events on its socket bring (`call_opened`), and that is what
its feed gives (`SocketTransport.opening_eq`).
-/

namespace LedgerFeed

namespace Answer
variable {M : Type}

def isMessage : Answer M → Bool
  | .message _ => true
  | .fault _ | .ended => false

/-- The answer to a call, counted from zero, if these are to be given in order: the first that is no
message is given to all calls from then on. -/
def atCall : List (Answer M) → Nat → Option (Answer M)
  | [], _ => none
  | a :: _, 0 => some a
  | .message _ :: as, n + 1 => atCall as n
  | a :: _, _ + 1 => some a

/-- Behind a message, the next call gets what is next in order. -/
theorem atCall_of_message {a : Answer M} (h : a.isMessage = true) (as : List (Answer M)) (n : Nat) :
    atCall (a :: as) (n + 1) = atCall as n := by
  cases a with
  | message => rfl
  | fault | ended => cases h

/-- What is no message is given to every call from there on. -/
theorem atCall_of_not_message {a : Answer M} (h : a.isMessage = false) (as : List (Answer M))
    (n : Nat) : atCall (a :: as) n = some a := by
  cases a with
  | message => cases h
  | fault | ended => cases n <;> rfl

end Answer

/-- The feed of a stream that gives these answers in order. -/
def Feed.ofAnswers {M : Type} : List (Answer M) → Feed M
  | [] => .silent
  | .message m :: as => .message m false (ofAnswers as)
  | .fault e :: _ => .fault e false
  | .ended :: _ => .ended

namespace Arrival

/-- What has arrived makes a stream answer a message, if it is the payload of one. -/
def answer (t : Topic) : Arrival → Answer t.Message
  | .data payload =>
    match Topic.Message.ofJson? t payload with
    | some m => .message m
    | none => .fault (.undecodable SocketStream.badPayload)
  | .fault e => .fault e
  | .ended => .ended

/-- All that arrives with a meaning on an open stream, and the end of a socket that comes to one. -/
def all (id : String) (silent : Bool) (events : List SocketEvent) : List Arrival :=
  events.filterMap (fun e => (e.meaning id).arrival?) ++ if silent then [] else [.ended]

variable {id : String} {silent : Bool}

/-- What arrives first on a stream comes before what arrives later. -/
theorem all_cons (e : SocketEvent) (rest : List SocketEvent) :
    all id silent (e :: rest) = (e.meaning id).arrival?.toList ++ all id silent rest := by
  cases h : (e.meaning id).arrival? <;> simp [all, h]

/-- No more arrives than there are events and an end. -/
theorem length_all_le (id : String) (silent : Bool) (events : List SocketEvent) :
    (all id silent events).length ≤ events.length + 1 := by
  have := List.length_filterMap_le (fun e => (e.meaning id).arrival?) events
  unfold all
  cases silent <;> simp <;> omega

/-- The first arrival is the first of all, if there is any. What is left brings the others; behind
an end there is nothing that matters. -/
theorem first?_cases (id : String) (silent : Bool) (events : List SocketEvent) :
    (first? id silent events = none ∧ all id silent events = []) ∨
      ∃ a as rest, first? id silent events = some (a, rest) ∧ all id silent events = a :: as ∧
        (a = .ended ∨ as = all id silent rest) := by
  induction events with
  | nil =>
    cases silent with
    | true => exact .inl ⟨rfl, rfl⟩
    | false => exact .inr ⟨.ended, [], [], rfl, rfl, .inl rfl⟩
  | cons e events ih =>
    rw [first?_cons, all_cons]
    cases (e.meaning id).arrival? with
    | none => exact ih
    | some a => exact .inr ⟨a, _, events, rfl, rfl, .inr rfl⟩

end Arrival

namespace SocketStream
variable {t : Topic} {s : SocketStream}

/-- The answer to a call of a stream, counted from zero, unless the server keeps that call or an
earlier one waiting for ever. -/
def call (t : Topic) : Nat → SocketStream → Option (Answer t.Message)
  | 0, s => (s.receive t).map Prod.fst
  | n + 1, s => (s.receive t).bind fun x => x.2.call t n

/-- What is there or will arrive for a stream that is not over. -/
def arrivals (s : SocketStream) : List Arrival :=
  s.pending.toList.map Arrival.data ++ Arrival.all s.id s.socket.silent s.socket.events

/-- What a stream has yet to answer. -/
def ahead (t : Topic) (s : SocketStream) : List (Answer t.Message) :=
  match s.ending with
  | some ending => [answerAtEnd ending]
  | none => s.arrivals.map (Arrival.answer t)

/-- A stream that is over answers its end and nothing else. -/
theorem ahead_of_ending {ending : Except TransportError Unit} (h : s.ending = some ending) :
    s.ahead t = [answerAtEnd ending] := by
  simp [ahead, h]

/-- A stream that is not over answers what is there or will arrive. -/
theorem ahead_of_open (h : s.ending = none) : s.ahead t = s.arrivals.map (Arrival.answer t) := by
  simp [ahead, h]

@[simp] theorem isMessage_answerAtEnd (ending : Except TransportError Unit) :
    (answerAtEnd ending : Answer t.Message).isMessage = false := by
  cases ending <;> rfl

/-- A stream goes on behind a message, and is over behind any other answer. -/
theorem answer_cases (t : Topic) (s : SocketStream) (a : Arrival) :
    ((a.answer t).isMessage = true ∧ s.answer t a = (a.answer t, s)) ∨
      ∃ ending, a.answer t = answerAtEnd ending ∧
        s.answer t a = (a.answer t, { s with ending := some ending }) := by
  cases a with
  | data payload =>
    rw [answer, decode, Arrival.answer]
    cases Topic.Message.ofJson? t payload with
    | some m => exact .inl ⟨rfl, rfl⟩
    | none => exact .inr ⟨_, rfl, rfl⟩
  | fault e => exact .inr ⟨.error e, rfl, rfl⟩
  | ended => exact .inr ⟨.ok (), rfl, rfl⟩

/-- A call of a stream that is not over takes the first arrival, if there is one. -/
theorem receive_of_open (he : s.ending = none) :
    (s.receive t = none ∧ s.arrivals = []) ∨
      ∃ (a : Arrival) (as : List Arrival) (s₁ : SocketStream),
        s.receive t = some (s₁.answer t a) ∧ s.arrivals = a :: as ∧ s₁.ending = none ∧
          (a = .ended ∨ s₁.arrivals = as) := by
  obtain ⟨id, pending, socket, ending⟩ := s
  cases he
  cases pending with
  | some payload => exact .inr ⟨.data payload, _, ⟨id, none, socket, none⟩, rfl, rfl, rfl, .inr rfl⟩
  | none =>
    unfold receive
    rcases Arrival.first?_cases id socket.silent socket.events with
      ⟨hf, ha⟩ | ⟨a, as, rest, hf, ha, hrest⟩
    · exact .inl ⟨by simp [hf], ha⟩
    · exact .inr ⟨a, as, ⟨id, none, { socket with events := rest }, none⟩, by simp [hf], ha, rfl,
        hrest.imp_right Eq.symm⟩

/-- A call waits for ever if there is nothing ahead. Otherwise it gets the first of what is ahead.
Behind a message the others are left; behind any other answer the stream is over. -/
theorem receive_cases (t : Topic) (s : SocketStream) :
    (s.receive t = none ∧ s.ahead t = []) ∨
      ∃ a as s', s.receive t = some (a, s') ∧ s.ahead t = a :: as ∧
        ((a.isMessage = true ∧ s'.ahead t = as) ∨
          ∃ ending, a = answerAtEnd ending ∧ s'.ending = some ending) := by
  cases he : s.ending with
  | some ending =>
    exact .inr ⟨answerAtEnd ending, [], s, by simp [receive, he], ahead_of_ending he,
      .inr ⟨ending, rfl, he⟩⟩
  | none =>
    rw [ahead_of_open he]
    rcases receive_of_open (t := t) he with ⟨hr, ha⟩ | ⟨a, as, s₁, hr, ha, he₁, has⟩
    · exact .inl ⟨hr, by rw [ha]; rfl⟩
    right
    rcases s₁.answer_cases t a with ⟨hm, h⟩ | ⟨ending, hm, h⟩
    · refine ⟨a.answer t, as.map (Arrival.answer t), s₁, by rw [hr, h], by rw [ha]; rfl,
        .inl ⟨hm, ?_⟩⟩
      rcases has with rfl | has
      · cases hm
      · rw [ahead_of_open he₁, has]
    · exact ⟨a.answer t, as.map (Arrival.answer t), { s₁ with ending := some ending },
        by rw [hr, h], by rw [ha]; rfl, .inr ⟨ending, hm, rfl⟩⟩

/-- Every call gets its answer from what was ahead of the stream before the first one. -/
theorem call_eq (t : Topic) (n : Nat) (s : SocketStream) :
    s.call t n = Answer.atCall (s.ahead t) n := by
  induction n generalizing s with
  | zero =>
    rcases s.receive_cases t with ⟨hr, ha⟩ | ⟨a, as, s', hr, ha, -⟩
    · rw [call, hr, ha]
      rfl
    · rw [call, hr, ha, Option.map_some, Answer.atCall]
  | succ n ih =>
    rcases s.receive_cases t with ⟨hr, ha⟩ | ⟨a, as, s', hr, ha, ⟨hm, hs'⟩ | ⟨ending, rfl, he⟩⟩
    · rw [call, hr, ha]
      rfl
    · rw [call, hr, ha, Option.bind_some, ih, hs', Answer.atCall_of_message hm]
    · rw [call, hr, ha, Option.bind_some, ih, ahead_of_ending he]
      simp only [Answer.atCall_of_not_message (isMessage_answerAtEnd ending)]

/-- Behind an answer that is no message the stream is over. -/
theorem ending_of_receive {a : Answer t.Message} {s' : SocketStream}
    (h : s.receive t = some (a, s')) (ha : a.isMessage = false) :
    ∃ ending, a = answerAtEnd ending ∧ s'.ending = some ending := by
  rcases s.receive_cases t with ⟨hr, -⟩ | ⟨a', as, s'', hr, -, ⟨hm, -⟩ | he⟩
  · rw [hr] at h
    cases h
  · rw [hr] at h
    cases h
    rw [ha] at hm
    cases hm
  · rw [hr] at h
    cases h
    exact he

/-- A stream that is over answers the same again and stays as it is, whatever is on its socket. -/
theorem receive_of_over {a : Answer t.Message} {s' : SocketStream}
    (h : s.receive t = some (a, s')) (ha : a.isMessage = false) (socket : Socket) :
    receive t { s' with socket := socket } = some (a, { s' with socket := socket }) := by
  obtain ⟨ending, rfl, he⟩ := ending_of_receive h ha
  simp [receive, he]

/-! ## Streams that a handshake has opened -/

/-- A stream that a handshake has just opened. -/
def opened (id : String) (pending : Option Json) (rest : List SocketEvent) (silent : Bool) :
    SocketStream :=
  ⟨id, pending, ⟨rest, silent⟩, none⟩

/-- What a handshake has taken off the socket brings nothing but the payload that is pending. -/
theorem arrivals_of_opened {id : String} {silent : Bool} {events rest : List SocketEvent}
    {pending : Option Json} (h : Handshake.run id silent events = .opened pending rest) :
    (opened id pending rest silent).arrivals = Arrival.all id silent events := by
  induction events with
  | nil => cases silent <;> cases h
  | cons e events ih =>
    rw [Handshake.run_cons] at h
    rw [Arrival.all_cons]
    cases hm : e.meaning id with
    | nothing =>
      rw [hm] at h
      exact ih h
    | acknowledged | data =>
      rw [hm] at h
      cases h
      rfl
    | failed | unreadable | closed | broken =>
      rw [hm] at h
      cases h

/-- What a socket answers to the subscription with an ID, from the first event on. -/
def answers (t : Topic) (id : String) (silent : Bool) (events : List SocketEvent) :
    List (Answer t.Message) :=
  (Arrival.all id silent events).map (Arrival.answer t)

/-- A stream answers what all events on its socket bring, those of the handshake included. -/
theorem call_opened {id : String} {silent : Bool} {events rest : List SocketEvent}
    {pending : Option Json} (h : Handshake.run id silent events = .opened pending rest) (n : Nat) :
    (opened id pending rest silent).call t n = Answer.atCall (answers t id silent events) n := by
  rw [call_eq, ahead_of_open rfl, arrivals_of_opened h, answers]

/-! ## What a worker is given -/

/-- There are enough calls in `feed` for all that is ahead. -/
theorem length_ahead_le (t : Topic) (s : SocketStream) :
    (s.ahead t).length ≤ s.socket.events.length + 2 := by
  cases he : s.ending with
  | some ending => simp [ahead_of_ending he]
  | none =>
    have hall := Arrival.length_all_le s.id s.socket.silent s.socket.events
    have hp : s.pending.toList.length ≤ 1 := by cases s.pending <;> simp
    simp only [ahead_of_open he, arrivals, List.length_map, List.length_append]
    omega

/-- The feed of a stream that may be asked often enough gives all its answers. -/
theorem feedWithin_eq {n : Nat} (h : (s.ahead t).length ≤ n) :
    feedWithin t n s = Feed.ofAnswers (s.ahead t) := by
  induction n generalizing s with
  | zero =>
    rw [List.eq_nil_of_length_eq_zero (Nat.le_zero.1 h)]
    rfl
  | succ n ih =>
    rcases s.receive_cases t with ⟨hr, ha⟩ | ⟨a, as, s', hr, ha, hs'⟩
    · rw [feedWithin, hr, ha]
      rfl
    rw [feedWithin, hr, ha]
    cases a with
    | fault | ended => rfl
    | message m =>
      rcases hs' with ⟨-, hs'⟩ | ⟨ending, hm, -⟩
      · rw [ha, List.length_cons, ← hs'] at h
        rw [Feed.ofAnswers, ← hs', ← ih (Nat.le_of_succ_le_succ h)]
      · cases ending <;> cases hm

/-- The feed of a stream is all that is ahead of it. -/
theorem feed_eq (t : Topic) (s : SocketStream) : s.feed t = Feed.ofAnswers (s.ahead t) :=
  feedWithin_eq (s.length_ahead_le t)

end SocketStream

/-- Behind a handshake that opens a stream, a worker is fed what all events on the socket bring. -/
theorem SocketTransport.opening_eq {t : Topic} {s : SocketTransport} {socket : Socket}
    {pending : Option Json} {rest : List SocketEvent}
    (h : Handshake.run s.id socket.silent socket.events = .opened pending rest) :
    (s.opening socket : Opening t) =
      .opened (Feed.ofAnswers (SocketStream.answers t s.id socket.silent socket.events)) := by
  have ha := SocketStream.arrivals_of_opened h
  rw [SocketTransport.opening, h, SocketStream.answers, ← ha]
  exact congrArg Opening.opened (SocketStream.feed_eq t _)

end LedgerFeed

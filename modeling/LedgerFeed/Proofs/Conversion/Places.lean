import LedgerFeed.Topic.Message

/-!
# The places of events

Where in a message an event stands: in the list of the message itself or in that of a result or a
chunk, at a position. The places of a message are in order, and each has a path.
-/

namespace LedgerFeed

/-- The position of the result or the chunk that a list of events belongs to. -/
def EventList.index : EventList → Nat
  | .message => 0
  | .result i | .chunk i => i

/-- The events of an earlier result or chunk come before, and in one list those of an earlier
position. -/
def Location.Before (l l' : Location) : Prop :=
  l.list.index < l'.list.index ∨ l.list.index = l'.list.index ∧ l.position < l'.position

namespace Topic

/-- An event of a message, with its place. -/
def Message.EventAt : (t : Topic) → t.Message → Location → RawEvent → Prop
  | .blocks, _, _, _ | .blockHeaders, _, _, _ | .blockDigests, _, _, _ => False
  | .events, m, l, e => l.list = .message ∧ (EventsMessage.events m)[l.position]? = some e
  | .executionData, m, l, e =>
    ∃ x i c, ExecutionMessage.execution m = some x ∧ l.list = .chunk i ∧ x.chunks[i]? = some c ∧
      c.events[l.position]? = some e
  | .accountStatuses, m, l, e =>
    ∃ i a, l.list = .result i ∧ (AccountMessage.results m)[i]? = some a ∧
      a.events[l.position]? = some e

/-- The path to the event at a position, by the position of the result or the chunk that lists
it. -/
def eventPath : Topic → Nat → Nat → String
  | .executionData, i, j => "chunks[" ++ toString i ++ "].events[" ++ toString j ++ "]"
  | .accountStatuses, i, j => "results[" ++ toString i ++ "].events[" ++ toString j ++ "]"
  | _, _, j => "events[" ++ toString j ++ "]"

/-- The path through a list of results or chunks to one of events. -/
theorem itemText_events (list : String) (i j : Nat) :
    Location.itemText list i ++ "." ++ Location.itemText "events" j =
      list ++ "[" ++ toString i ++ "].events[" ++ toString j ++ "]" := by
  have hjoin : "].events[" = "]" ++ ("." ++ ("events" ++ "[")) := rfl
  rw [hjoin]
  simp only [Location.itemText, String.append_assoc]

/-- The place of an event is written as the path of its field in the message. -/
theorem Message.EventAt.toText {t : Topic} {m : t.Message} {l : Location} {e : RawEvent}
    (h : Message.EventAt t m l e) : l.toText = t.eventPath l.list.index l.position := by
  obtain ⟨list, j⟩ := l
  cases t with
  | blocks | blockHeaders | blockDigests => exact h.elim
  | events =>
    obtain ⟨rfl, -⟩ := h
    rfl
  | executionData =>
    obtain ⟨x, i, c, -, rfl, -⟩ := h
    exact itemText_events "chunks" i j
  | accountStatuses =>
    obtain ⟨i, a, rfl, -⟩ := h
    exact itemText_events "results" i j

end Topic

end LedgerFeed

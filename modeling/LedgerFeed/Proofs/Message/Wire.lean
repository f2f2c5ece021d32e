import LedgerFeed.Json.Printer
import LedgerFeed.Proofs.Message.RoundTrip
import LedgerFeed.Socket.Frame
import LedgerFeed.Topic.Message

/-!
# Messages printed again

A message is read from many texts: objects or arrays, digits of either case with or without a
marker, members in any order and left out where they have a default, times of any offset. Printed
again it has one text, from which the same message is read (`reprinted`).
-/

namespace LedgerFeed.Topic.Message

/-- The message that a text is read as, from its tree or from its generic tree. -/
def read? (t : Topic) (generic : Bool) (s : String) : Option t.Message :=
  (if generic then Json.parseGeneric? s else Json.parse? s).bind (ofJson? t)

/-- The text of a message. -/
def print (t : Topic) (m : t.Message) : String :=
  (toJson t m).toText

/-- A message of any topic is read back, and opens nine arrays and objects at most. -/
theorem readsBack (t : Topic) : Json.ReadsBack 9 (toJson t) (ofJson? t) := by
  cases t with
  | blocks => exact BlockMessage.readsBack.mono (by decide)
  | blockHeaders => exact HeaderMessage.readsBack.mono (by decide)
  | blockDigests => exact DigestMessage.readsBack.mono (by decide)
  | events => exact EventsMessage.readsBack.mono (by decide)
  | executionData => exact ExecutionMessage.readsBack
  | accountStatuses => exact AccountMessage.readsBack.mono (by decide)

/-- A message is read from its text. -/
theorem read?_print {t : Topic} (generic : Bool) (m : t.Message) :
    read? t generic (print t m) = some m :=
  (readsBack t).reads_toText generic m

/-- A message is read from the payload of a frame. -/
theorem ofJson?_asPayload {t : Topic} (m : t.Message) :
    (Frame.asPayload (toJson t m)).bind (ofJson? t) = some m := by
  obtain ⟨hw, hn⟩ := (readsBack t).shallow m
  have hdepth : (toJson t m).nesting < Frame.maxNesting := Nat.lt_of_le_of_lt hn (by decide)
  simp only [Frame.asPayload, hw.isReadable, hdepth, decide_true, Bool.and_self, if_true,
    Option.bind_some]
  exact (readsBack t).reads Json.generic Json.faithful_generic m

/-- Whatever text a message is read from, the message is read again from its own text, and from its
own tree as the payload of a frame. So what is printed stays as it is when it is read and printed
again, and is converted as the first text is. -/
theorem reprinted {t : Topic} {generic : Bool} {s : String} {m : t.Message}
    (h : read? t generic s = some m) :
    (Frame.asPayload (toJson t m)).bind (ofJson? t) = some m ∧
      ∀ again, read? t again (print t m) = some m ∧
        (read? t again (print t m)).map (print t) = some (print t m) ∧
        ∀ o, (read? t again (print t m)).map (convert t o) =
          (read? t generic s).map (convert t o) := by
  refine ⟨ofJson?_asPayload m, fun again => ?_⟩
  have hread := read?_print again m
  refine ⟨hread, by rw [hread, Option.map_some], fun o => ?_⟩
  rw [hread, h]

/-- A message in the form of an array, with a marker, a leap second and no list of events, is
printed as an object and read from it again. -/
theorem reprinted_leap_second :
    let m : EventsMessage :=
      ⟨[0xab], 7, ⟨⟨2016, 12, 31⟩, ⟨23, 29, 60, 500000000⟩, by decide, by decide⟩, []⟩
    read? .events false "[\"0xAB\",7,\"2016-12-31 23:59:60.5+00:30\"]" = some m ∧
      print .events m = "\x7b\"block_id\":\"ab\",\"block_height\":7,\"block_timestamp\":" ++
        "\"2016-12-31T23:29:60.500Z\",\"events\":[]\x7d" ∧
      read? .events true (print .events m) = some m := by
  intro m
  have h : read? .events false "[\"0xAB\",7,\"2016-12-31 23:59:60.5+00:30\"]" = some m := rfl
  exact ⟨h, by decide +kernel, ((reprinted h).2 true).1⟩

end LedgerFeed.Topic.Message

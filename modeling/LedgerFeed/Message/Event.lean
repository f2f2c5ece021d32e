import LedgerFeed.Json.Octets
import LedgerFeed.Timestamp.Text

/-!
# Messages about events

Events as they arrive, and the messages that list them by block or by account.
-/

namespace LedgerFeed

/-- An event as it arrives. The payload holds its value. -/
structure RawEvent where
  type : String
  transactionId : Bytes
  transactionIndex : UInt32
  eventIndex : UInt32
  payload : Bytes
  deriving DecidableEq, Repr

namespace RawEvent

def toJson (e : RawEvent) : Json :=
  .object [("type", .text e.type), ("transaction_id", .hex e.transactionId),
    ("transaction_index", .nat e.transactionIndex.toNat),
    ("event_index", .nat e.eventIndex.toNat), ("payload", .hex e.payload)]

def ofJson? (j : Json) : Option RawEvent := do
  let r ← j.record? ["type", "transaction_id", "transaction_index", "event_index", "payload"]
  return {
    type := ← r.required "type" Json.asText
    transactionId := ← r.required "transaction_id" Json.asHex
    transactionIndex := ← r.required "transaction_index" Json.asUInt32
    eventIndex := ← r.required "event_index" Json.asUInt32
    payload := ← r.required "payload" Json.asHex }

end RawEvent

/-- A message of the topic for events: those of one block that pass the filter. -/
structure EventsMessage where
  blockId : Bytes
  height : UInt64
  timestamp : Timestamp
  events : List RawEvent
  deriving DecidableEq, Repr

namespace EventsMessage

def toJson (m : EventsMessage) : Json :=
  .object [("block_id", .hex m.blockId), ("block_height", .nat m.height.toNat),
    ("block_timestamp", m.timestamp.toJson), ("events", .array (m.events.map RawEvent.toJson))]

def ofJson? (j : Json) : Option EventsMessage := do
  let r ← j.record? ["block_id", "block_height", "block_timestamp", "events"]
  return {
    blockId := ← r.required "block_id" Json.asHex
    height := ← r.required "block_height" Json.asUInt64
    timestamp := ← r.required "block_timestamp" Timestamp.ofJson?
    events := ← r.orDefault "events" [] (Json.asList RawEvent.ofJson?) }

end EventsMessage

/-- The events of one account as they arrive. -/
structure RawAccountResult where
  address : Bytes
  events : List RawEvent
  deriving DecidableEq, Repr

namespace RawAccountResult

def toJson (a : RawAccountResult) : Json :=
  .object [("address", .hex a.address), ("events", .array (a.events.map RawEvent.toJson))]

def ofJson? (j : Json) : Option RawAccountResult := do
  let r ← j.record? ["address", "events"]
  return {
    address := ← r.required "address" Json.asHex
    events := ← r.orDefault "events" [] (Json.asList RawEvent.ofJson?) }

end RawAccountResult

/-- A message of the topic for account statuses. Its index is one above that of the message before
it. -/
structure AccountMessage where
  blockId : Bytes
  height : UInt64
  index : UInt64
  results : List RawAccountResult
  deriving DecidableEq, Repr

namespace AccountMessage

def toJson (m : AccountMessage) : Json :=
  .object [("block_id", .hex m.blockId), ("block_height", .nat m.height.toNat),
    ("message_index", .nat m.index.toNat),
    ("results", .array (m.results.map RawAccountResult.toJson))]

def ofJson? (j : Json) : Option AccountMessage := do
  let r ← j.record? ["block_id", "block_height", "message_index", "results"]
  return {
    blockId := ← r.required "block_id" Json.asHex
    height := ← r.required "block_height" Json.asUInt64
    index := ← r.required "message_index" Json.asUInt64
    results := ← r.orDefault "results" [] (Json.asList RawAccountResult.ofJson?) }

end AccountMessage

end LedgerFeed

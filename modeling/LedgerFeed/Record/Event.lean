import LedgerFeed.Identifier
import LedgerFeed.Timestamp.Text
import LedgerFeed.Value.Plain

/-!
# Events

What subscribers to events and account statuses are given: events whose payloads have been decoded.
-/

namespace LedgerFeed

/-- An event. The payload that held its value is kept but not written. -/
structure Event where
  type : String
  transactionId : Identifier
  transactionIndex : UInt32
  eventIndex : UInt32
  value : Value
  payload : Bytes
  deriving Repr

def Event.toJson (e : Event) : Json :=
  .object [("event_type", .text e.type), ("transaction_id", e.transactionId.toJson),
    ("transaction_index", .nat e.transactionIndex.toNat), ("event_index", .nat e.eventIndex.toNat),
    ("value", e.value.plain)]

/-- The events of one block that pass a filter. There are none if the block is only reported to
show that the feed is alive. -/
structure BlockEvents where
  blockId : Identifier
  height : UInt64
  timestamp : Timestamp
  events : List Event
  deriving Repr

def BlockEvents.toJson (b : BlockEvents) : Json :=
  .object [("block_id", b.blockId.toJson), ("height", .nat b.height.toNat),
    ("block_timestamp", b.timestamp.toJson), ("events", .array (b.events.map Event.toJson))]

/-- The events of one account. -/
structure AccountResult where
  address : Address
  events : List Event
  deriving Repr

def AccountResult.toJson (a : AccountResult) : Json :=
  .object [("address", a.address.toJson), ("events", .array (a.events.map Event.toJson))]

/-- The events of one block by account. -/
structure AccountStatus where
  blockId : Identifier
  height : UInt64
  index : UInt64
  results : List AccountResult
  deriving Repr

def AccountStatus.toJson (a : AccountStatus) : Json :=
  .object [("block_id", a.blockId.toJson), ("block_height", .nat a.height.toNat),
    ("message_index", .nat a.index.toNat),
    ("results", .array (a.results.map AccountResult.toJson))]

end LedgerFeed

import LedgerFeed.Conversion
import LedgerFeed.Topic

/-!
# Messages and records by topic

Each topic has messages of one type and records of one type. The functions here are those of the
message types, under one name for all topics.
-/

namespace LedgerFeed.Topic

/-- The messages of a topic. -/
def Message : Topic → Type
  | .blocks => BlockMessage
  | .blockHeaders => HeaderMessage
  | .blockDigests => DigestMessage
  | .events => EventsMessage
  | .executionData => ExecutionMessage
  | .accountStatuses => AccountMessage

/-- The records of a topic. -/
def Record : Topic → Type
  | .blocks => Block
  | .blockHeaders => BlockHeader
  | .blockDigests => BlockDigest
  | .events => BlockEvents
  | .executionData => Execution
  | .accountStatuses => AccountStatus

/-- The message of a tree. -/
def Message.ofJson? : (t : Topic) → Json → Option t.Message
  | .blocks => BlockMessage.ofJson?
  | .blockHeaders => HeaderMessage.ofJson?
  | .blockDigests => DigestMessage.ofJson?
  | .events => EventsMessage.ofJson?
  | .executionData => ExecutionMessage.ofJson?
  | .accountStatuses => AccountMessage.ofJson?

/-- The tree of a message. -/
def Message.toJson : (t : Topic) → t.Message → Json
  | .blocks => BlockMessage.toJson
  | .blockHeaders => HeaderMessage.toJson
  | .blockDigests => DigestMessage.toJson
  | .events => EventsMessage.toJson
  | .executionData => ExecutionMessage.toJson
  | .accountStatuses => AccountMessage.toJson

/-- The height of the block that a message is about. -/
def Message.height : (t : Topic) → t.Message → UInt64
  | .blocks => BlockMessage.height
  | .blockHeaders => HeaderMessage.height
  | .blockDigests => DigestMessage.height
  | .events => EventsMessage.height
  | .executionData => ExecutionMessage.height
  | .accountStatuses => AccountMessage.height

/-- The number of a message, if the messages of the topic are numbered. -/
def Message.index? : (t : Topic) → t.Message → Option UInt64
  | .accountStatuses, m => some (AccountMessage.index m)
  | _, _ => none

/-- The record of a message. -/
def Message.convert : (t : Topic) → DecodeOptions → t.Message → Except ConversionError t.Record
  | .blocks, _ => BlockMessage.convert
  | .blockHeaders, _ => HeaderMessage.convert
  | .blockDigests, _ => DigestMessage.convert
  | .events, o => EventsMessage.convert o
  | .executionData, o => ExecutionMessage.convert o
  | .accountStatuses, o => AccountMessage.convert o

/-- The tree of a record. -/
def Record.toJson : (t : Topic) → t.Record → Json
  | .blocks => Block.toJson
  | .blockHeaders => BlockHeader.toJson
  | .blockDigests => BlockDigest.toJson
  | .events => BlockEvents.toJson
  | .executionData => Execution.toJson
  | .accountStatuses => AccountStatus.toJson

end LedgerFeed.Topic

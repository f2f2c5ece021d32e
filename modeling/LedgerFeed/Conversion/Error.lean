import LedgerFeed.Codec

/-!
# Faults of messages

Why a message has no record. A fault names the entity of the message that it lies in, and a fault
of an event says where in the message the event is.
-/

namespace LedgerFeed

/-- What a message is made of. -/
inductive Entity
  | block
  | header
  | guarantee
  | seal
  | digest
  | event
  | events
  | transaction
  | transactionResult
  | execution
  | account
  deriving DecidableEq, Repr

def Entity.name : Entity → String
  | .block => "block"
  | .header => "block header"
  | .guarantee => "collection guarantee"
  | .seal => "block seal"
  | .digest => "block digest"
  | .event => "event"
  | .events => "events"
  | .transaction => "transaction"
  | .transactionResult => "transaction result"
  | .execution => "execution data"
  | .account => "account status"

/-- A field that a record restricts more than its message does. -/
inductive Field
  | id
  | parentId
  | collectionId
  | blockId
  | receiptId
  | transactionId
  | payload
  | referenceBlockId
  | payer
  | authorizers
  | address
  deriving DecidableEq, Repr

def Field.name : Field → String
  | .id => "id"
  | .parentId => "parent_id"
  | .collectionId => "collection_id"
  | .blockId => "block_id"
  | .receiptId => "execution_receipt_id"
  | .transactionId => "transaction_id"
  | .payload => "payload"
  | .referenceBlockId => "reference_block_id"
  | .payer => "payer"
  | .authorizers => "authorizers"
  | .address => "address"

/-- A list of events in a message. -/
inductive EventList
  | message
  | result (i : Nat)
  | chunk (i : Nat)
  deriving DecidableEq, Repr

/-- The place of an event in a message. -/
structure Location where
  list : EventList
  position : Nat
  deriving DecidableEq, Repr

/-- The text of a numbered item of a list. -/
def Location.itemText (list : String) (i : Nat) : String :=
  list ++ "[" ++ toString i ++ "]"

/-- The path to the event. -/
def Location.toText (l : Location) : String :=
  let event := itemText "events" l.position
  match l.list with
  | .message => event
  | .result i => itemText "results" i ++ "." ++ event
  | .chunk i => itemText "chunks" i ++ "." ++ event

/-- Why a field does not fit. -/
inductive FieldFault
  | badSize (expected size : Nat)
  | noEvent (location : Location) (kind : Kind)
  deriving DecidableEq, Repr

def FieldFault.message : FieldFault → String
  | .badSize expected size =>
    "expected " ++ toString expected ++ " bytes, got " ++ toString size
  | .noEvent location kind =>
    location.toText ++ ": expected Event value, got " ++ kind.name

/-- Why a message has no record. -/
inductive ConversionError
  | empty (entity : Entity)
  | invalidField (entity : Entity) (field : Field) (fault : FieldFault)
  | payload (location : Location) (error : CodecError)
  deriving DecidableEq, Repr

def ConversionError.message : ConversionError → String
  | .empty entity => "empty " ++ entity.name ++ " message"
  | .invalidField entity field fault =>
    "invalid " ++ field.name ++ " in " ++ entity.name ++ ": " ++ fault.message
  | .payload location error =>
    "failed to decode event payload at " ++ location.toText ++ ": " ++ error.message

end LedgerFeed

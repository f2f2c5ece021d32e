import LedgerFeed.Codec.Encoding
import LedgerFeed.Json.Reader
import LedgerFeed.Request.Filter
import LedgerFeed.Request.Start
import LedgerFeed.Topic

/-!
# Requests

What is sent to open the stream of a topic. Every request says where to start, how often to report
that the feed is alive, and which encoding payloads should have; what else it says depends on the
topic. Members of a request that are not known are skipped, but their text has to be sound.
-/

namespace LedgerFeed

/-- The stage of a block at which it is reported. -/
inductive BlockStatus
  | finalized
  | sealed
  deriving DecidableEq, Repr

namespace BlockStatus

def name : BlockStatus → String
  | .finalized => "finalized"
  | .sealed => "sealed"

def names : List (String × BlockStatus) :=
  [("finalized", .finalized), ("sealed", .sealed)]

/-- The status with a name, or the reason why there is none. -/
def parse (s : String) : Except String BlockStatus :=
  match names.lookup s with
  | some b => .ok b
  | none => .error ("unknown block status '" ++ s ++ "'")

end BlockStatus

namespace Topic

/-- What a request of a topic says besides the start: the status of blocks or a filter. -/
def Selection : Topic → Type
  | .blocks | .blockHeaders | .blockDigests => BlockStatus
  | .events => EventFilter
  | .executionData => Unit
  | .accountStatuses => AccountFilter

/-- The members that a selection is written as. -/
def Selection.members : (t : Topic) → t.Selection → List (String × Json)
  | .blocks, b | .blockHeaders, b | .blockDigests, b =>
    [("block_status", .text (BlockStatus.name b))]
  | .events, f => [("filter", EventFilter.toJson f)]
  | .executionData, _ => []
  | .accountStatuses, f => [("filter", AccountFilter.toJson f)]

/-- The names of the members that a selection is read from. -/
def Selection.names : Topic → List String
  | .blocks | .blockHeaders | .blockDigests => ["block_status"]
  | .events | .accountStatuses => ["filter"]
  | .executionData => []

/-- The selection that a record holds. -/
def Selection.ofRecord? (r : Json.Record) : (t : Topic) → Option t.Selection
  | .blocks | .blockHeaders | .blockDigests =>
    r.required "block_status" (Json.asOneOf BlockStatus.names)
  | .events => r.required "filter" EventFilter.ofJson?
  | .executionData => some ()
  | .accountStatuses => r.required "filter" AccountFilter.ofJson?

/-- Filters are checked; a status of blocks has nothing to check. -/
def Selection.validate : (t : Topic) → t.Selection → Except RequestError Unit
  | .events, f => EventFilter.validate f
  | .accountStatuses, f => AccountFilter.validate f
  | _, _ => .ok ()

end Topic

/-- A request for the stream of a topic. -/
structure Request (t : Topic) where
  blockId : Option Identifier
  height : Option UInt64
  heartbeat : UInt64
  encoding : Encoding
  selection : t.Selection

namespace Request
variable {t : Topic}

/-- The request that starts at a point. The latest block is asked for by naming none. -/
def ofStart (p : StartPoint) (heartbeat : UInt64) (e : Encoding) (s : t.Selection) : Request t :=
  match p with
  | .block id => ⟨some id, none, heartbeat, e, s⟩
  | .height h => ⟨none, some h, heartbeat, e, s⟩
  | .latest => ⟨none, none, heartbeat, e, s⟩

/-- Where a request starts: a block counts more than a height. -/
def start (q : Request t) : StartPoint :=
  match q.blockId, q.height with
  | some id, _ => .block id
  | none, some h => .height h
  | none, none => .latest

def toJson (q : Request t) : Json :=
  .object ((q.blockId.elim [] fun id => [("start_block_id", id.toJson)])
    ++ (q.height.elim [] fun h => [("start_block_height", .nat h.toNat)])
    ++ [("heartbeat_interval", .nat q.heartbeat.toNat),
      ("event_encoding", .text q.encoding.name)]
    ++ Topic.Selection.members t q.selection)

/-- The names of the members that requests of all topics have. -/
def commonNames : List String :=
  ["start_block_id", "start_block_height", "heartbeat_interval", "event_encoding"]

/-- The encoding of a request. In an object that names it, the member may also be empty. -/
def asEncoding : Json → Option Encoding
  | .object [(s, .object [])] => Encoding.names.lookup s
  | j => j.asOneOf Encoding.names

/-- A member that the selection does not read is kept as a tree first, so it has to be readable. -/
def isSound (t : Topic) (m : String × Json) : Bool :=
  (Topic.Selection.names t).contains m.1 || m.2.isReadable

def ofJson? (j : Json) : Option (Request t) := do
  let .object members := j | none
  guard (members.all (isSound t))
  let r ← j.record? (commonNames ++ Topic.Selection.names t)
  return {
    blockId := ← r.optionalOrAbsent "start_block_id" Identifier.ofJson?
    height := ← r.optionalOrAbsent "start_block_height" Json.asUInt64
    heartbeat := ← r.required "heartbeat_interval" Json.asUInt64
    encoding := ← r.required "event_encoding" asEncoding
    selection := ← Topic.Selection.ofRecord? r t }

end Request

end LedgerFeed

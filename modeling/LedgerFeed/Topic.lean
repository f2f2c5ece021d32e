import LedgerFeed.Json.Record

/-!
# Topics

What a subscription can follow. The messages of one topic alone are numbered.
-/

namespace LedgerFeed

inductive Topic
  | blocks
  | blockHeaders
  | blockDigests
  | events
  | executionData
  | accountStatuses
  deriving DecidableEq, Repr

namespace Topic

/-- All topics. -/
def all : List Topic :=
  [.blocks, .blockHeaders, .blockDigests, .events, .executionData, .accountStatuses]

/-- The name of the topic on the wire. -/
def name : Topic → String
  | .blocks => "blocks"
  | .blockHeaders => "block_headers"
  | .blockDigests => "block_digests"
  | .events => "events"
  | .executionData => "execution_data"
  | .accountStatuses => "account_statuses"

/-- What one message of the topic is called in an error. -/
def label : Topic → String
  | .blocks => "block"
  | .blockHeaders => "block header"
  | .blockDigests => "block digest"
  | .events => "events"
  | .executionData => "execution data"
  | .accountStatuses => "account statuses"

/-- The name of the topic in a description of a subscription. -/
def title : Topic → String
  | .blocks => "Blocks"
  | .blockHeaders => "BlockHeaders"
  | .blockDigests => "BlockDigests"
  | .events => "Events"
  | .executionData => "ExecutionData"
  | .accountStatuses => "AccountStatuses"

/-- The topic with a name. -/
def ofName? (s : String) : Option Topic :=
  all.find? (·.name = s)

/-- A topic is found by its own name, so no two topics share one. -/
theorem ofName?_name (t : Topic) : ofName? t.name = some t := by
  cases t <;> rfl

/-- The messages of the topic are numbered. -/
def isNumbered : Topic → Bool
  | .accountStatuses => true
  | _ => false

def toJson (t : Topic) : Json :=
  .text t.name

end Topic

end LedgerFeed

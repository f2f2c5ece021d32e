import LedgerFeed.CommandLine.Arguments
import LedgerFeed.Request
import LedgerFeed.Text.Integer

/-!
# Commands

What can be asked for on the command line: to decode a payload, to transcode one, or to subscribe to
a topic. Arguments that do not fit their command are a misuse, whatever is wrong with them.
-/

namespace LedgerFeed.CommandLine

/-- How to subscribe. What is not given comes from the settings. -/
structure SubscribeOptions where
  url : Option String
  height : Option UInt64
  blockId : Option String
  latest : Bool
  eventTypes : List String
  addresses : List String
  contracts : List String
  heartbeat : Option UInt64
  status : BlockStatus
  firstIndex : Option UInt64
  settings : Option String
  jsonLog : Bool
  deriving DecidableEq, Repr

/-- What the program is asked to do. -/
inductive Command
  | decode (payload : String) (strict : Bool)
  | transcode (payload : String) (encoding : Encoding)
  | subscribe (t : Topic) (o : SubscribeOptions)
  deriving DecidableEq, Repr

namespace Command

def decodeTable : OptionTable :=
  [("payload", .value), ("strict", .flag)]

def transcodeTable : OptionTable :=
  [("payload", .value), ("to", .value)]

def subscribeTable : OptionTable :=
  [("url", .value), ("start-height", .value), ("start-id", .value), ("latest", .flag),
    ("event-type", .values), ("address", .values), ("contract", .values), ("heartbeat", .value),
    ("status", .value), ("message-index", .value), ("config", .value), ("json-logs", .flag)]

/-- A number of 64 bits. -/
def number? (s : String) : Option UInt64 :=
  (Integer.parse 0 (2 ^ 64 - 1) s.toList).toOption.map fun n => UInt64.ofNat n.toNat

/-- A path, which is not empty. -/
def path? (s : String) : Option String :=
  if s.isEmpty then none else some s

/-- The name of a topic on the command line, where hyphens join words. -/
def topicName (t : Topic) : String :=
  t.name.map fun c => if c = '_' then '-' else c

/-- The topic with a name. -/
def topic? (s : String) : Option Topic :=
  Topic.all.find? (topicName · = s)

/-- The start is given in one way at most. -/
def startsOnce (a : Arguments) : Bool :=
  (a.options.map Prod.fst).countP (["start-height", "start-id"].contains ·)
    + a.flags.count "latest" ≤ 1

def decodeOf? (a : Arguments) : Option Command := do
  let [] := a.operands | none
  return .decode (← a.value? "payload") (a.has "strict")

def transcodeOf? (a : Arguments) : Option Command := do
  let [] := a.operands | none
  return .transcode (← a.value? "payload") (← (Encoding.parse (← a.value? "to")).toOption)

def subscribeOptionsOf? (a : Arguments) : Option SubscribeOptions := do
  guard (startsOnce a)
  return {
    url := a.value? "url"
    height := ← a.read? "start-height" number?
    blockId := a.value? "start-id"
    latest := a.has "latest"
    eventTypes := a.values "event-type"
    addresses := a.values "address"
    contracts := a.values "contract"
    heartbeat := ← a.read? "heartbeat" number?
    status := (← a.read? "status" fun s => (BlockStatus.parse s).toOption).getD .finalized
    firstIndex := ← a.read? "message-index" number?
    settings := ← a.read? "config" path?
    jsonLog := a.has "json-logs" }

def subscribeOf? (a : Arguments) : Option Command := do
  let [t] := a.operands | none
  return .subscribe (← topic? t) (← subscribeOptionsOf? a)

/-- The command that arguments ask for. -/
def parse? : List String → Option Command
  | "decode" :: rest => (Arguments.parse? decodeTable rest).bind decodeOf?
  | "transcode" :: rest => (Arguments.parse? transcodeTable rest).bind transcodeOf?
  | "subscribe" :: rest => (Arguments.parse? subscribeTable rest).bind subscribeOf?
  | _ => none

end Command

end LedgerFeed.CommandLine

import LedgerFeed.CommandLine.Command
import LedgerFeed.CommandLine.Report
import LedgerFeed.Json.Printer
import LedgerFeed.Settings
import LedgerFeed.Socket.Transport
import LedgerFeed.Subscription.Reader
import LedgerFeed.Value.Plain

/-!
# Running commands

A run writes lines to the output and comes to an end of one of four kinds. What lies outside of the
program, files and the network, is given to it as an `Environment`.
-/

namespace LedgerFeed

mutual

/-- All integers in the tree fit 64 bits, with or without a sign. -/
def Json.integersFit : Json → Bool
  | .number (.integer negative n) => if negative then n ≤ 2 ^ 63 else n < 2 ^ 64
  | .array items => allIntegersFit items
  | .object members => memberIntegersFit members
  | _ => true

/-- All integers in the trees fit 64 bits. -/
def Json.allIntegersFit : List Json → Bool
  | [] => true
  | j :: rest => integersFit j && allIntegersFit rest

/-- All integers in the members fit 64 bits. -/
def Json.memberIntegersFit : List (String × Json) → Bool
  | [] => true
  | (_, j) :: rest => integersFit j && memberIntegersFit rest

end

namespace CommandLine

/-- How a run ends. -/
inductive Ending
  | success
  | failure (r : Report)
  /-- The arguments do not make a command. -/
  | misuse
  /-- A result has no written form. -/
  | abort
  deriving DecidableEq, Repr

/-- The code that tells how a run ended. -/
def Ending.code : Ending → Nat
  | .success => 0
  | .failure _ => 1
  | .misuse => 2
  | .abort => 101

/-- A run: what it has written and how it ended. -/
structure Run where
  output : String
  ending : Ending
  deriving DecidableEq, Repr

namespace Run

/-- A run that writes one text and a line break. -/
def ofLine (s : String) : Run :=
  ⟨s ++ "\n", .success⟩

/-- A run that fails at once. -/
def ofReport (r : Report) : Run :=
  ⟨"", .failure r⟩

end Run

/-- What lies outside of the program. A file is its text, or the reason why it cannot be read. The
ID is that of a subscription. -/
structure Environment where
  file : String → Except String String
  network : Network
  id : String

/-- The bytes of a payload as it is given: as digits, with blanks around them, and with or without
`0x` in front. -/
def payloadBytes (s : String) : Except Report Bytes :=
  match Hex.decodeMarked (String.ofList (Text.trim s.toList)) with
  | .ok b => .ok b
  | .error fault => .error ⟨"payload is not valid hex", [fault.message]⟩

/-- The value of a payload with its encoding, as a generic tree. Such a tree has no place for
integers beyond 64 bits. -/
def decoded? (e : Encoding) (v : Value) : Option Json :=
  if v.plain.integersFit then
    some (Json.object [("encoding", .text e.name), ("value", v.plain)]).generic
  else none

/-- Writes the value of a payload in lines. -/
def decode (payload : String) (strict : Bool) : Run :=
  match payloadBytes payload with
  | .error r => .ofReport r
  | .ok b =>
    match Codec.decode (if strict then .strict else .lenient) b with
    | .error e => .ofReport (.ofText e.message)
    | .ok v =>
      match decoded? (Encoding.detect b) v with
      | some j => .ofLine j.toLines
      | none => ⟨"", .abort⟩

/-- The text that shows a payload in an encoding. -/
def showPayload : Encoding → Bytes → String
  | .compact, b => Hex.encode b
  | .verbose, b => (Bytes.text? b).getD ""

/-- Writes a payload in an encoding. -/
def transcode (payload : String) (e : Encoding) : Run :=
  match payloadBytes payload with
  | .error r => .ofReport r
  | .ok b =>
    match Codec.transcode .lenient e b with
    | .error e => .ofReport (.ofText e.message)
    | .ok b => .ofLine (showPayload e b)

/-- The settings in the file that is named, if one is. -/
def settings (env : Environment) (path : Option String) : Except Report Settings :=
  match path with
  | none => .ok .default
  | some p =>
    match env.file p with
    | .error reason => .error ⟨"reading config " ++ p, [reason]⟩
    | .ok s =>
      match Settings.parse? s with
      | some settings => .ok settings
      | none => .error ⟨"parsing config " ++ p, ["invalid JSON"]⟩

/-- The endpoint: the URL that is given counts more than that of the settings. -/
def endpoint (o : SubscribeOptions) (s : Settings) : Except Report Endpoint :=
  match o.url, s.endpoint with
  | some url, some e => .ok { e with url }
  | some url, none => .ok (.ofUrl url)
  | none, some e => .ok e
  | none, none => .error (.ofText "no endpoint: pass --url or set transport.url in --config")

/-- The start that is given. -/
def start (o : SubscribeOptions) : Except Report StartOptions :=
  match o.blockId with
  | none => .ok ⟨none, o.height, o.latest⟩
  | some s =>
    match Identifier.parse s with
    | .ok id => .ok ⟨some id, o.height, o.latest⟩
    | .error fault => .error ⟨"invalid --start-id", [fault.message]⟩

/-- The settings of the subscription: what is given counts more than the settings. -/
def subscribeSettings (o : SubscribeOptions) (s : SubscribeSettings) : SubscribeSettings :=
  { s with
    heartbeat := o.heartbeat.getD s.heartbeat
    firstIndex := o.firstIndex.getD s.firstIndex }

/-- What is given of the selection of a topic. -/
def selection (o : SubscribeOptions) (t : Topic) : t.Selection :=
  match t with
  | .blocks | .blockHeaders | .blockDigests => o.status
  | .events => (⟨o.eventTypes, o.addresses, o.contracts⟩ : EventFilter)
  | .executionData => ()
  | .accountStatuses => (⟨o.eventTypes, o.addresses⟩ : AccountFilter)

/-- The lines of records up to the first fault. -/
def recordLines {t : Topic} : List (Except StreamError t.Record) → Run
  | [] => ⟨"", .success⟩
  | .error e :: _ => .ofReport (.ofStreamError e)
  | .ok r :: rest =>
    let run := recordLines rest
    { run with output := (Topic.Record.toJson t r).toText ++ "\n" ++ run.output }

/-- Writes the records of a subscription, one a line. A stream that stays silent is given up. -/
def follow {t : Topic} (s : Subscription t) : Run :=
  recordLines s.drain.1

/-- The stream that is asked for, and how to ask for it. -/
def prepare (env : Environment) (o : SubscribeOptions) :
    Except Report (SocketTransport × SubscribeSettings × StartOptions) := do
  let s ← settings env o.settings
  let e ← endpoint o s
  return (⟨env.network, e, env.id⟩, subscribeSettings o s.subscribe, ← start o)

/-- Subscribes to a topic and writes its records. -/
def subscribe (env : Environment) (t : Topic) (o : SubscribeOptions) : Run :=
  match prepare env o with
  | .error r => .ofReport r
  | .ok (transport, settings, start) =>
    match (Client.subscribe transport.transport settings false start (selection o t) []).1 with
    | .subscribed s => follow s
    | .refused e => .ofReport (.ofSubscribeError e)
    | .waiting => ⟨"", .success⟩

def Command.run (env : Environment) : Command → Run
  | .decode payload strict => CommandLine.decode payload strict
  | .transcode payload e => CommandLine.transcode payload e
  | .subscribe t o => CommandLine.subscribe env t o

/-- Runs the command that arguments ask for. -/
def run (env : Environment) (arguments : List String) : Run :=
  match Command.parse? arguments with
  | some c => c.run env
  | none => ⟨"", .misuse⟩

end CommandLine

end LedgerFeed

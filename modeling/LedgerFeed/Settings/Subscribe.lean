import LedgerFeed.Codec.Encoding
import LedgerFeed.Codec.Options
import LedgerFeed.Request.Error

/-!
# Settings of subscriptions

What all subscriptions of a client have in common. Each setting has a value of its own if it is
left out.
-/

namespace LedgerFeed

/-- The heartbeat counts blocks, and the first index is that of the first numbered message. -/
structure SubscribeSettings where
  heartbeat : UInt64
  firstIndex : UInt64
  encoding : Encoding
  decode : DecodeOptions
  deriving DecidableEq, Repr

namespace SubscribeSettings

/-- The settings that are left out. -/
def default : SubscribeSettings :=
  ⟨100, 0, .compact, .lenient⟩

/-- A heartbeat after no blocks would never end. -/
def validate (s : SubscribeSettings) : Except RequestError Unit :=
  if s.heartbeat = 0 then .error .invalidHeartbeat else .ok ()

def toJson (s : SubscribeSettings) : Json :=
  .object [("heartbeat_interval", .nat s.heartbeat.toNat),
    ("starting_message_index", .nat s.firstIndex.toNat), ("event_encoding", .text s.encoding.name),
    ("decode_options", s.decode.toJson)]

def ofJson? (j : Json) : Option SubscribeSettings := do
  let r ← j.record?
    ["heartbeat_interval", "starting_message_index", "event_encoding", "decode_options"]
  return {
    heartbeat := ← r.orDefault "heartbeat_interval" default.heartbeat Json.asUInt64
    firstIndex := ← r.orDefault "starting_message_index" default.firstIndex Json.asUInt64
    encoding := ← r.orDefault "event_encoding" default.encoding (Json.asOneOf Encoding.names)
    decode := ← r.orDefault "decode_options" default.decode DecodeOptions.ofJson? }

end SubscribeSettings

end LedgerFeed

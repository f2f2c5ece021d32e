import LedgerFeed.Json.Reader
import LedgerFeed.Json.Record
import LedgerFeed.Stream.Error

/-!
# Frames

A socket carries frames of text. A client opens a stream by one frame; what a frame from the server
means to one subscription is an `Inbound`. A frame that names no subscription is for all of them.
-/

namespace LedgerFeed

/-- The frame that asks for the stream of a topic. -/
def subscribeFrame (id topic : String) (arguments : Json) : Json :=
  .object [("subscription_id", .text id), ("action", .text "subscribe"), ("topic", .text topic),
    ("arguments", arguments)]

/-- The error of a tree. The code is an integer of 64 bits. -/
def RemoteError.ofJson? (j : Json) : Option RemoteError := do
  let r ← j.record? ["code", "message"]
  return {
    code := ← r.required "code" (Json.asInt (-(2 ^ 63)) (2 ^ 63 - 1))
    text := ← r.orDefault "message" "" Json.asText }

/-- What a frame means to a subscription. -/
inductive Inbound
  | acknowledged
  | data (payload : Json)
  | failed (error : RemoteError)
  | ignored
  deriving Repr

/-- The members of a frame that mean something. -/
structure Frame where
  subscription : Option String
  action : Option String
  payload : Option Json
  error : Option RemoteError

namespace Frame

/-- How many arrays and objects may be open at once in a frame, around the innermost part of its
payload. -/
def maxNesting : Nat := 127

/-- A payload is kept as a generic tree, so it has to be readable and must not nest too deeply
inside the frame. -/
def asPayload (j : Json) : Option Json :=
  if j.isReadable && j.nesting < maxNesting then some j.generic else none

def ofJson? (j : Json) : Option Frame := do
  let r ← j.record? ["subscription_id", "action", "payload", "error"]
  return {
    subscription := ← r.optionalOrAbsent "subscription_id" Json.asText
    action := ← r.optionalOrAbsent "action" Json.asText
    payload := ← r.optionalOrAbsent "payload" asPayload
    error := ← r.optionalOrAbsent "error" RemoteError.ofJson? }

/-- What a frame means to the subscription with an ID: an error counts more than a payload, and a
payload more than an action. -/
def inbound (id : String) (f : Frame) : Inbound :=
  if f.subscription.any (· ≠ id) then .ignored
  else
    match f.error, f.payload with
    | some e, _ => .failed e
    | none, some payload => .data payload
    | none, none => if f.action = some "subscribe" then .acknowledged else .ignored

/-- What the text of a frame means to the subscription with an ID, if it is a frame. -/
def parse? (id text : String) : Option Inbound :=
  ((Json.parse? text).bind ofJson?).map (inbound id)

end Frame

end LedgerFeed

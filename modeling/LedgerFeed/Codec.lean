import LedgerFeed.Codec.Compact
import LedgerFeed.Codec.Encoding
import LedgerFeed.Codec.Verbose

/-!
# Decoding and encoding payloads

A payload is decoded in the encoding that its mark announces, so a fault always names that encoding.
Encoding fails only for values that are too deep.
-/

namespace LedgerFeed

/-- Why a payload has no value, or a value no payload. A fault of a compact payload comes with the
size of the payload, from which positions are counted. -/
inductive CodecError
  | compact (size : Nat) (fault : Compact.Fault)
  | verbose (fault : Verbose.Fault)
  | unencodable (encoding : Encoding)
  deriving DecidableEq, Repr

namespace CodecError

/-- The encoding that decoding or encoding failed in. -/
def encoding : CodecError → Encoding
  | .compact _ _ => .compact
  | .verbose _ => .verbose
  | .unencodable e => e

/-- It was a payload that failed to decode. -/
def isMalformed : CodecError → Bool
  | .unencodable _ => false
  | _ => true

/-- What was wrong. -/
def reason : CodecError → String
  | .compact size fault => fault.message size
  | .verbose fault => fault.message
  | .unencodable _ => "nesting deeper than " ++ toString Value.maxDepth

def message (e : CodecError) : String :=
  if e.isMalformed then "malformed " ++ e.encoding.name ++ " payload: " ++ e.reason
  else "cannot encode value as " ++ e.encoding.name ++ ": " ++ e.reason

end CodecError

namespace Codec

/-- The value of a payload read as compact. -/
def decodeCompact (payload : Bytes) : Except CodecError Value :=
  match Compact.decode payload with
  | .ok v => .ok v
  | .error fault => .error (.compact payload.length fault)

/-- The value of a payload read as verbose. -/
def decodeVerbose (o : DecodeOptions) (payload : Bytes) : Except CodecError Value :=
  match Verbose.decode o payload with
  | .ok v => .ok v
  | .error fault => .error (.verbose fault)

/-- The value of a payload in the encoding that its mark announces. -/
def decode (o : DecodeOptions) (payload : Bytes) : Except CodecError Value :=
  match Encoding.detect payload with
  | .compact => decodeCompact payload
  | .verbose => decodeVerbose o payload

/-- The payload of a value in an encoding. -/
def encode (e : Encoding) (v : Value) : Except CodecError Bytes :=
  let payload := match e with
    | .compact => Compact.encode? v
    | .verbose => Verbose.encode? v
  match payload with
  | some b => .ok b
  | none => .error (.unencodable e)

/-- The payload in an encoding of the value of a payload. -/
def transcode (o : DecodeOptions) (e : Encoding) (payload : Bytes) : Except CodecError Bytes := do
  encode e (← decode o payload)

end Codec

end LedgerFeed

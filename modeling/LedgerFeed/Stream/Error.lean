import LedgerFeed.Conversion.Error
import LedgerFeed.Request.Error
import LedgerFeed.Sequence
import LedgerFeed.Topic

/-!
# Faults of streams

What can go wrong with a stream: with the connection (`TransportError`), on the way to being open
(`OpenError`, and `SubscribeError` if the request was at fault), and once it is open
(`StreamError`).
-/

namespace LedgerFeed

/-- An error that the server reports. -/
structure RemoteError where
  code : Int
  text : String
  deriving DecidableEq, Repr

/-- A fault of a connection. -/
inductive TransportError
  | connection (text : String)
  | remote (error : RemoteError)
  | undecodable (text : String)
  | closed
  | other (text : String)
  deriving DecidableEq, Repr

def TransportError.message : TransportError → String
  | .connection text => "connection error: " ++ text
  | .remote e => "remote error " ++ toString e.code ++ ": " ++ e.text
  | .undecodable text => "undecodable frame: " ++ text
  | .closed => "stream closed unexpectedly"
  | .other text => text

/-- Why a stream did not open. A timeout is in milliseconds. -/
inductive OpenError
  | connect (url reason : String)
  | timeout (ms : UInt64)
  | rejected (error : RemoteError)
  | cancelled
  | transport (error : TransportError)
  deriving DecidableEq, Repr

def OpenError.message : OpenError → String
  | .connect url reason => "connection to " ++ url ++ " failed: " ++ reason
  | .timeout ms => "opening stream timed out after " ++ toString ms.toNat ++ "ms"
  | .rejected e => "subscription rejected (" ++ toString e.code ++ "): " ++ e.text
  | .cancelled => "cancelled before the stream was established"
  | .transport e => e.message

/-- Why there is no subscription. -/
inductive SubscribeError
  | request (error : RequestError)
  | opening (error : OpenError)
  deriving DecidableEq, Repr

def SubscribeError.message : SubscribeError → String
  | .request e => "invalid subscription request: " ++ e.message
  | .opening e => "failed to open stream: " ++ e.message

/-- Why an open stream failed. Faults of a message come with the height that it is about. -/
inductive StreamError
  | transport (topic : Topic) (error : TransportError)
  | conversion (topic : Topic) (height : UInt64) (error : ConversionError)
  | ordering (topic : Topic) (height : UInt64) (error : OrderingError)
  deriving DecidableEq, Repr

def StreamError.message : StreamError → String
  | .transport t e => "error receiving " ++ t.label ++ ": " ++ e.message
  | .conversion t h e =>
    "error converting " ++ t.label ++ " for block " ++ toString h.toNat ++ ": " ++ e.message
  | .ordering t h e =>
    t.label ++ " stream out of order at block " ++ toString h.toNat ++ ": " ++ e.message

end LedgerFeed

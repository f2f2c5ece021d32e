import LedgerFeed.Bytes

/-!
# The two encodings

A payload does not say which encoding it is in. The compact encoding starts with a fixed mark, and
whatever lacks the mark counts as verbose.
-/

namespace LedgerFeed

/-- The encodings of values: bytes of CBOR or text of JSON. -/
inductive Encoding
  | compact
  | verbose
  deriving DecidableEq, Repr

namespace Encoding

/-- The name of an encoding. -/
def name : Encoding → String
  | .compact => "compact"
  | .verbose => "verbose"

/-- The names under which requests and options know the encodings. -/
def names : List (String × Encoding) :=
  [("compact", .compact), ("verbose", .verbose)]

/-- The encoding that a user names, in letters of any case, or the reason why there is none. -/
def parse (s : String) : Except String Encoding :=
  let lower := s.map Char.toLower
  if lower = "compact" ∨ lower = "ccf" then .ok .compact
  else if lower = "verbose" ∨ lower = "json" then .ok .verbose
  else .error ("unknown encoding '" ++ lower ++ "'")

/-- The bytes that every compact payload starts with: the head of tag 130. -/
def compactMark : Bytes :=
  [0xd8, 0x82]

/-- The encoding that a payload is in, judged by the mark alone. -/
def detect (payload : Bytes) : Encoding :=
  if compactMark.isPrefixOf payload then .compact else .verbose

end Encoding

end LedgerFeed

import LedgerFeed.Json.Record
import LedgerFeed.Request.Error

/-!
# Where a subscription starts

A start point is a block, a height or the latest block. Callers may give it as three options of
which exactly one must be chosen: `StartOptions.validate`.
-/

namespace LedgerFeed

inductive StartPoint
  | block (id : Identifier)
  | height (height : UInt64)
  | latest
  deriving DecidableEq, Repr

def StartPoint.toJson : StartPoint → Json
  | .block id => .object [("block_id", id.toJson)]
  | .height h => .object [("height", .nat h.toNat)]
  | .latest => .text "latest"

/-- The start points that a caller has chosen, which may be none or too many. -/
structure StartOptions where
  blockId : Option Identifier
  height : Option UInt64
  latest : Bool
  deriving DecidableEq, Repr

namespace StartOptions

/-- The options that choose a start point. -/
def ofPoint : StartPoint → StartOptions
  | .block id => ⟨some id, none, false⟩
  | .height h => ⟨none, some h, false⟩
  | .latest => ⟨none, none, true⟩

/-- The names of the options that are chosen. -/
def chosen (o : StartOptions) : List String :=
  (if o.blockId.isSome then ["block_id"] else []) ++ (if o.height.isSome then ["height"] else [])
    ++ (if o.latest then ["latest"] else [])

/-- The start point, if exactly one is chosen. -/
def validate (o : StartOptions) : Except RequestError StartPoint :=
  match o with
  | ⟨some id, none, false⟩ => .ok (.block id)
  | ⟨none, some h, false⟩ => .ok (.height h)
  | ⟨none, none, true⟩ => .ok .latest
  | ⟨none, none, false⟩ => .error .missingStart
  | _ => .error (.conflictingStart o.chosen)

def toJson (o : StartOptions) : Json :=
  .object [("block_id", .ofOption Identifier.toJson o.blockId),
    ("height", .ofOption (fun h => .nat h.toNat) o.height), ("latest", .bool o.latest)]

def ofJson? (j : Json) : Option StartOptions := do
  let r ← j.record? ["block_id", "height", "latest"]
  return {
    blockId := ← r.optionalOrAbsent "block_id" Identifier.ofJson?
    height := ← r.optionalOrAbsent "height" Json.asUInt64
    latest := ← r.orDefault "latest" false Json.asBool }

end StartOptions

end LedgerFeed

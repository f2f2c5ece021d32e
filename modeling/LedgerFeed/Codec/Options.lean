import LedgerFeed.Json.Record

/-!
# Decoding options

What a decoder lets pass that no encoder writes.
-/

namespace LedgerFeed

/-- Whether a type may be given by a bare text where an object is expected. -/
structure DecodeOptions where
  bareStaticTypes : Bool
  deriving DecidableEq, Repr

namespace DecodeOptions

/-- Bare static types are accepted. -/
def lenient : DecodeOptions :=
  ⟨true⟩

/-- Nothing is accepted that no encoder writes. -/
def strict : DecodeOptions :=
  ⟨false⟩

def toJson (o : DecodeOptions) : Json :=
  .object [("allow_unstructured_static_types", .bool o.bareStaticTypes)]

def ofJson? (j : Json) : Option DecodeOptions := do
  let r ← j.record? ["allow_unstructured_static_types"]
  return ⟨← r.orDefault "allow_unstructured_static_types" true Json.asBool⟩

end DecodeOptions

end LedgerFeed

import LedgerFeed.Json.Record

/-!
# Settings of the connection

Where the server is, and how long it may take to accept a subscription.
-/

namespace LedgerFeed

structure Endpoint where
  url : String
  timeout : UInt64
  deriving DecidableEq, Repr

namespace Endpoint

/-- The timeout if none is given, in milliseconds. -/
def defaultTimeout : UInt64 := 10000

/-- The endpoint at an address. -/
def ofUrl (url : String) : Endpoint :=
  ⟨url, defaultTimeout⟩

def toJson (e : Endpoint) : Json :=
  .object [("url", .text e.url), ("connect_timeout_ms", .nat e.timeout.toNat)]

def ofJson? (j : Json) : Option Endpoint := do
  let r ← j.record? ["url", "connect_timeout_ms"]
  return {
    url := ← r.required "url" Json.asText
    timeout := ← r.orDefault "connect_timeout_ms" defaultTimeout Json.asUInt64 }

end Endpoint

end LedgerFeed

import LedgerFeed.Json.Reader
import LedgerFeed.Settings.Endpoint
import LedgerFeed.Settings.Log
import LedgerFeed.Settings.Subscribe

/-!
# Settings

The settings of a program that subscribes, as its configuration file holds them. The file may leave
out all of them.
-/

namespace LedgerFeed

structure Settings where
  endpoint : Option Endpoint
  subscribe : SubscribeSettings
  log : LogSettings
  deriving DecidableEq, Repr

namespace Settings

/-- The settings without a file. -/
def default : Settings :=
  ⟨none, .default, .default⟩

def ofJson? (j : Json) : Option Settings := do
  let r ← j.record? ["transport", "subscribe", "log"]
  return {
    endpoint := ← r.optionalOrAbsent "transport" Endpoint.ofJson?
    subscribe := ← r.orDefault "subscribe" default.subscribe SubscribeSettings.ofJson?
    log := ← r.orDefault "log" default.log LogSettings.ofJson? }

/-- The settings in a file. -/
def parse? (s : String) : Option Settings :=
  (Json.parse? s).bind ofJson?

end Settings

end LedgerFeed

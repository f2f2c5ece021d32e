import LedgerFeed.Json.Record

/-!
# Settings of the log

The level of the log as a whole and of single components. Components are kept in the order of their
names, and of two levels for one component the last counts.
-/

namespace LedgerFeed

structure LogSettings where
  level : String
  components : List (String × String)
  json : Bool
  deriving DecidableEq, Repr

namespace LogSettings

/-- The settings that are left out. -/
def default : LogSettings :=
  ⟨"info", [], false⟩

/-- A component put into a list sorted by name, in place of the one with its name. -/
def insertComponent (name level : String) : List (String × String) → List (String × String)
  | [] => [(name, level)]
  | (n, l) :: rest =>
    if name = n then (n, level) :: rest
    else if name < n then (name, level) :: (n, l) :: rest
    else (n, l) :: insertComponent name level rest

/-- The levels of an object by component. -/
def asComponents : Json → Option (List (String × String))
  | .object members => do
    let levels ← members.mapM fun m => m.2.asText.map (Prod.mk m.1)
    return levels.foldl (fun sorted m => insertComponent m.1 m.2 sorted) []
  | _ => none

def toJson (s : LogSettings) : Json :=
  .object [("level", .text s.level),
    ("components", .object (s.components.map fun c => (c.1, .text c.2))), ("json", .bool s.json)]

def ofJson? (j : Json) : Option LogSettings := do
  let r ← j.record? ["level", "components", "json"]
  return {
    level := ← r.orDefault "level" default.level Json.asText
    components := ← r.orDefault "components" default.components asComponents
    json := ← r.orDefault "json" default.json Json.asBool }

/-- The name of a component in a directive, where hyphens are underscores. -/
def componentName (name : String) : String :=
  name.map fun c => if c = '-' then '_' else c

/-- The directive of a component. -/
def directive (c : String × String) : String :=
  componentName c.1 ++ "=" ++ c.2

/-- The directives of the log: the level, then those of the components. -/
def directives (s : LogSettings) : String :=
  String.intercalate "," (s.level :: s.components.map directive)

end LogSettings

end LedgerFeed

import LedgerFeed.Json.Record
import LedgerFeed.Request.Error

/-!
# Filters

What a subscription to events or account statuses is narrowed to. An empty list narrows nothing and
is not written. Validation goes through event types, addresses and contracts in this order and
stops at the first fault.
-/

namespace LedgerFeed

/-- The first fault among the items of a list is the fault of the list. -/
def checkAll {α ε : Type} (check : α → Except ε Unit) : List α → Except ε Unit
  | [] => .ok ()
  | a :: rest => do
    check a
    checkAll check rest

def checkEventType (s : String) : Except RequestError Unit :=
  match eventTypeFault? s with
  | none => .ok ()
  | some fault => .error (.invalidEventType s fault)

def checkAddressText (s : String) : Except RequestError Unit :=
  match Address.parse s with
  | .ok _ => .ok ()
  | .error fault => .error (.invalidAddress fault)

def checkContract (s : String) : Except RequestError Unit :=
  match contractFault? s with
  | none => .ok ()
  | some fault => .error (.invalidContract s fault)

/-- A member that lists texts, left out if there are none. -/
def Json.textsMember (name : String) (texts : List String) : List (String × Json) :=
  if texts.isEmpty then [] else [(name, ofTexts texts)]

/-- Which events are wanted: by their types, by accounts and by contracts. -/
structure EventFilter where
  eventTypes : List String
  addresses : List String
  contracts : List String
  deriving DecidableEq, Repr

namespace EventFilter

def validate (f : EventFilter) : Except RequestError Unit := do
  checkAll checkEventType f.eventTypes
  checkAll checkAddressText f.addresses
  checkAll checkContract f.contracts

def toJson (f : EventFilter) : Json :=
  .object (Json.textsMember "event_types" f.eventTypes ++ Json.textsMember "addresses" f.addresses
    ++ Json.textsMember "contracts" f.contracts)

def ofJson? (j : Json) : Option EventFilter := do
  let r ← j.record? ["event_types", "addresses", "contracts"]
  return {
    eventTypes := ← r.orDefault "event_types" [] (Json.asList Json.asText)
    addresses := ← r.orDefault "addresses" [] (Json.asList Json.asText)
    contracts := ← r.orDefault "contracts" [] (Json.asList Json.asText) }

end EventFilter

/-- Which account statuses are wanted: by the types of their events and by accounts. -/
structure AccountFilter where
  eventTypes : List String
  addresses : List String
  deriving DecidableEq, Repr

namespace AccountFilter

def validate (f : AccountFilter) : Except RequestError Unit := do
  checkAll checkEventType f.eventTypes
  checkAll checkAddressText f.addresses

def toJson (f : AccountFilter) : Json :=
  .object (Json.textsMember "event_types" f.eventTypes ++ Json.textsMember "addresses" f.addresses)

def ofJson? (j : Json) : Option AccountFilter := do
  let r ← j.record? ["event_types", "addresses"]
  return {
    eventTypes := ← r.orDefault "event_types" [] (Json.asList Json.asText)
    addresses := ← r.orDefault "addresses" [] (Json.asList Json.asText) }

end AccountFilter

end LedgerFeed

import LedgerFeed.Identifier
import LedgerFeed.Request.Name

/-!
# Faults of requests

What a caller can get wrong. All of it is found before anything is sent.
-/

namespace LedgerFeed

inductive RequestError
  | missingStart
  | conflictingStart (chosen : List String)
  | invalidIdentifier (fault : Identifier.Fault)
  | invalidAddress (fault : Address.Fault)
  | invalidEventType (name : String) (fault : EventTypeFault)
  | invalidContract (name : String) (fault : ContractFault)
  | invalidHeartbeat
  deriving DecidableEq, Repr

def RequestError.message : RequestError → String
  | .missingStart => "no start point given: choose a block ID, a height, or latest"
  | .conflictingStart chosen => "conflicting start points: " ++ String.intercalate ", " chosen
  | .invalidIdentifier fault => fault.message
  | .invalidAddress fault => fault.message
  | .invalidEventType name fault => "invalid event type '" ++ name ++ "': " ++ fault.message
  | .invalidContract name fault => "invalid contract '" ++ name ++ "': " ++ fault.message
  | .invalidHeartbeat => "heartbeat interval must be greater than zero"

end LedgerFeed

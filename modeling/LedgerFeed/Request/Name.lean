import LedgerFeed.Text.Hex

/-!
# Names of contracts and event types

A contract is named by the account that holds it, and an event type by its contract: the parts of a
name are separated by points. Event types that no contract declares have names of two parts.
-/

namespace LedgerFeed

/-- The parts of a text between the separators. No part has a separator in it, and there is one part
more than there are separators. -/
def parts (separator : Char) : List Char → List (List Char)
  | [] => [[]]
  | c :: rest =>
    if c = separator then [] :: parts separator rest
    else (parts separator rest).modifyHead (c :: ·)

/-- The character may start a name. -/
def isNameStart (c : Char) : Bool :=
  c.isAlpha || c = '_'

/-- The characters are a name: letters, digits and underscores, with no digit in front. -/
def isName : List Char → Bool
  | [] => false
  | c :: rest => isNameStart c && rest.all fun c => isNameStart c || c.isDigit

/-- The characters are the digits of an address. -/
def isAddressDigits (cs : List Char) : Bool :=
  cs.length = 16 && cs.all Hex.isDigit

/-- What is wrong with the name of an event type. -/
inductive EventTypeFault
  | badEventName
  | badAddress
  | badContractOrEventName
  | badForm
  deriving DecidableEq, Repr

def EventTypeFault.message : EventTypeFault → String
  | .badEventName => "bad event name"
  | .badAddress => "address must be 16 hex characters"
  | .badContractOrEventName => "bad contract or event name"
  | .badForm => "expected 'flow.<Name>' or 'A.<address>.<Contract>.<Name>'"

/-- The fault of a name as that of an event type, if it has one. -/
def eventTypeFault? (s : String) : Option EventTypeFault :=
  match parts '.' s.toList with
  | [['f', 'l', 'o', 'w'], name] => if isName name then none else some .badEventName
  | [['A'], address, contract, name] =>
    if !isAddressDigits address then some .badAddress
    else if isName contract && isName name then none
    else some .badContractOrEventName
  | _ => some .badForm

/-- What is wrong with the name of a contract. -/
inductive ContractFault
  | badAddressOrName
  | badForm
  deriving DecidableEq, Repr

def ContractFault.message : ContractFault → String
  | .badAddressOrName => "bad address or contract name"
  | .badForm => "expected 'A.<address>.<Contract>'"

/-- The fault of a name as that of a contract, if it has one. -/
def contractFault? (s : String) : Option ContractFault :=
  match parts '.' s.toList with
  | [['A'], address, contract] =>
    if isAddressDigits address && isName contract then none else some .badAddressOrName
  | _ => some .badForm

end LedgerFeed

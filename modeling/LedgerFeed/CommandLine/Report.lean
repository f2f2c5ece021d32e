import LedgerFeed.Codec
import LedgerFeed.Stream.Error

/-!
# Reports

A failure is reported with its causes, each the cause of the one before it.
-/

namespace LedgerFeed.CommandLine

/-- What failed, and why. -/
structure Report where
  failure : String
  causes : List String
  deriving DecidableEq, Repr

namespace Report

/-- A failure without a cause. -/
def ofText (failure : String) : Report :=
  ⟨failure, []⟩

/-- A failure to subscribe. -/
def ofSubscribeError (e : SubscribeError) : Report :=
  ⟨e.message, [match e with
    | .request cause => cause.message
    | .opening cause => cause.message]⟩

/-- The causes of a fault of a message. -/
def conversionCauses : ConversionError → List String
  | .payload l e => [(ConversionError.payload l e).message, e.message]
  | e => [e.message]

/-- A failure of a stream. -/
def ofStreamError (e : StreamError) : Report :=
  ⟨e.message, match e with
    | .transport _ cause => [cause.message]
    | .conversion _ _ cause => conversionCauses cause
    | .ordering _ _ cause => [cause.message]⟩

/-- A text with an indent on every line but the first. -/
def indentRest (indent : List Char) (s : String) : List Char :=
  s.toList.flatMap fun c => if c = '\n' then '\n' :: indent else [c]

/-- A cause that is the only one. -/
def renderCause (s : String) : List Char :=
  let indent := List.replicate 4 ' '
  '\n' :: indent ++ indentRest indent s

/-- A cause with its number, which is aligned to the right. -/
def renderNumbered (n : Nat) (s : String) : List Char :=
  let number := (toString n).toList
  '\n' :: List.replicate (5 - number.length) ' ' ++ number ++ [':', ' ']
    ++ indentRest (List.replicate 7 ' ') s

/-- Causes with their numbers from a first one on. -/
def renderAll (n : Nat) : List String → List Char
  | [] => []
  | s :: rest => renderNumbered n s ++ renderAll (n + 1) rest

/-- The text of a report. One cause has no number. -/
def render (r : Report) : String :=
  "Error: " ++ r.failure ++ match r.causes with
    | [] => ""
    | [cause] => "\n\nCaused by:" ++ String.ofList (renderCause cause)
    | causes => "\n\nCaused by:" ++ String.ofList (renderAll 0 causes)

end Report

end LedgerFeed.CommandLine

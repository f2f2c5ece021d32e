import LedgerFeed.Json.Lexer

/-!
# Reading JSON

A builder takes the tokens one by one and keeps the arrays and objects that are open, innermost
first. A text is a document if its tokens leave one finished tree and nothing open. The number of
arrays and objects that may be open at once can be limited; `parse` stops at the first fault.
-/

namespace LedgerFeed.Json

/-- Why a text is not read. -/
inductive Fault
  | malformed
  | tooDeep
  deriving DecidableEq, Repr

/-- An open array with its items, or an open object with its members and the name of the next one.
Both lists are last first. -/
inductive Frame
  | items (read : List Json)
  | members (read : List (Option String × Json)) (name : Option String)
  deriving Repr

/-- What has been read, and what may come next. -/
inductive Builder
  /-- A value. -/
  | valueDue (stack : List Frame)
  /-- The first item of an array, or its end. -/
  | itemDue (stack : List Frame)
  /-- A name; also the end of the object if it has no members yet. -/
  | nameDue (stack : List Frame) (read : List (Option String × Json))
  /-- The colon behind a name. -/
  | colonDue (stack : List Frame) (read : List (Option String × Json)) (name : Option String)
  /-- What follows a value. -/
  | after (stack : List Frame) (value : Json)
  deriving Repr

/-- The members with a readable name, if all have one. -/
def readableNames : List (Option String × Json) → Option (List (String × Json))
  | [] => some []
  | (some name, j) :: rest => (readableNames rest).map ((name, j) :: ·)
  | (none, _) :: _ => none

/-- The object with the members, given last first. -/
def objectOf (read : List (Option String × Json)) : Json :=
  match readableNames read.reverse with
  | some members => .object members
  | none => .unreadable

/-- A tree for a text literal. -/
def textTree : Option String → Json
  | some s => .text s
  | none => .unreadable

/-- One more array or object may be open. -/
def mayOpen (limit : Option Nat) (stack : List Frame) : Bool :=
  match limit with
  | none => true
  | some n => stack.length < n

/-- The builder after a token that is, or starts, a value. -/
def Builder.pushValue (limit : Option Nat) (stack : List Frame) : Token → Except Fault Builder
  | .scalar j => .ok (.after stack j)
  | .text s => .ok (.after stack (textTree s))
  | .openArray => if mayOpen limit stack then .ok (.itemDue stack) else .error .tooDeep
  | .openObject => if mayOpen limit stack then .ok (.nameDue stack []) else .error .tooDeep
  | _ => .error .malformed

/-- The builder after one more token. -/
def Builder.push (limit : Option Nat) : Builder → Token → Except Fault Builder
  | .valueDue stack, t => pushValue limit stack t
  | .itemDue stack, .closeArray => .ok (.after stack (.array []))
  | .itemDue stack, t => pushValue limit (.items [] :: stack) t
  | .nameDue stack [], .closeObject => .ok (.after stack (.object []))
  | .nameDue stack read, .text name => .ok (.colonDue stack read name)
  | .colonDue stack read name, .colon => .ok (.valueDue (.members read name :: stack))
  | .after (.items read :: stack) j, .comma => .ok (.valueDue (.items (j :: read) :: stack))
  | .after (.items read :: stack) j, .closeArray =>
    .ok (.after stack (.array (j :: read).reverse))
  | .after (.members read name :: stack) j, .comma => .ok (.nameDue stack ((name, j) :: read))
  | .after (.members read name :: stack) j, .closeObject =>
    .ok (.after stack (objectOf ((name, j) :: read)))
  | _, _ => .error .malformed

/-- A lexer and the builder that takes its tokens. -/
structure Reader where
  lexer : Lexer
  builder : Builder
  deriving Repr

/-- Before the first character. -/
def Reader.start : Reader :=
  ⟨.between, .valueDue []⟩

/-- The reader after one more character. -/
def Reader.step (limit : Option Nat) (r : Reader) (c : Char) : Except Fault Reader :=
  match r.lexer.step c with
  | none => .error .malformed
  | some (lexer, tokens) => (tokens.foldlM (Builder.push limit) r.builder).map (⟨lexer, ·⟩)

/-- The tree of the document that ends here. -/
def Reader.finish (limit : Option Nat) (r : Reader) : Except Fault Json :=
  match r.lexer.finish with
  | none => .error .malformed
  | some tokens =>
    match tokens.foldlM (Builder.push limit) r.builder with
    | .ok (.after [] j) => .ok j
    | .ok _ => .error .malformed
    | .error e => .error e

/-- The tree of a document, with at most `limit` arrays and objects open at once. -/
def parse (limit : Option Nat) (s : List Char) : Except Fault Json :=
  (s.foldlM (Reader.step limit) Reader.start).bind (Reader.finish limit)

/-- The tree of a document of any depth. -/
def parse? (s : String) : Option Json :=
  (parse none s.toList).toOption

/-- The generic tree of a document all of which is readable. -/
def parseGeneric? (s : String) : Option Json :=
  (parse? s).bind fun j => if j.isReadable then some j.generic else none

end LedgerFeed.Json

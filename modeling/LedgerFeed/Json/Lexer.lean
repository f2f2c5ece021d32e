import LedgerFeed.Json.Literal

/-!
# Tokens of JSON

A lexer reads one character at a time and gives out the tokens that the character completes: none,
one, or a number and the mark behind it. Between tokens it skips space, tab, line feed and carriage
return. What it has read of a token is its state, so the text may be cut anywhere.
-/

namespace LedgerFeed.Json

/-- A token. A text literal with half a surrogate pair has no text. -/
inductive Token
  | openArray
  | closeArray
  | openObject
  | closeObject
  | comma
  | colon
  | text (value : Option String)
  | scalar (value : Json)
  deriving Repr

/-- The last part of a number that has been read. -/
inductive NumberPart
  | sign
  | zero
  | whole
  | point
  | fraction
  | mark
  | exponentSign
  | exponent
  deriving DecidableEq, Repr

/-- What has been read of the token at hand. -/
inductive Lexer
  | between
  | word (rest : List Char) (value : Json)
  | text (read : List Piece)
  | escape (read : List Piece)
  | unit (read : List Piece) (missing : Nat) (value : Nat)
  | number (part : NumberPart) (read : Literal)
  deriving Repr

/-- The value of a hexadecimal digit. -/
def hexDigit? (c : Char) : Option Nat :=
  if '0' ≤ c ∧ c ≤ '9' then some (c.toNat - 48)
  else if 'a' ≤ c ∧ c ≤ 'f' then some (c.toNat - 87)
  else if 'A' ≤ c ∧ c ≤ 'F' then some (c.toNat - 55)
  else none

/-- The value of a decimal digit. -/
def decimalDigit? (c : Char) : Option Nat :=
  if '0' ≤ c ∧ c ≤ '9' then some (c.toNat - 48) else none

/-- Space that may stand between tokens. -/
def isSpace (c : Char) : Bool :=
  c == ' ' || c == '\t' || c == '\n' || c == '\r'

/-- The number after one more character, if the character can continue it. -/
def continueNumber (part : NumberPart) (l : Literal) (c : Char) : Option (NumberPart × Literal) :=
  let whole (d : Nat) : Option (NumberPart × Literal) :=
    some (if d = 0 ∧ l.whole = [] then .zero else .whole, { l with whole := d :: l.whole })
  let fraction (d : Nat) : Option (NumberPart × Literal) :=
    some (.fraction, { l with fraction := some (d :: l.fraction.getD []) })
  let exponent (d : Nat) : Option (NumberPart × Literal) :=
    let (negative, digits) := l.exponent.getD (false, [])
    some (.exponent, { l with exponent := some (negative, d :: digits) })
  let point : Option (NumberPart × Literal) :=
    if c = '.' then some (.point, l) else none
  let mark : Option (NumberPart × Literal) :=
    if c = 'e' ∨ c = 'E' then some (.mark, l) else none
  match part with
  | .sign => (decimalDigit? c).bind whole
  | .zero => point <|> mark
  | .whole => (decimalDigit? c).bind whole <|> point <|> mark
  | .point => (decimalDigit? c).bind fraction
  | .fraction => (decimalDigit? c).bind fraction <|> mark
  | .mark =>
    if c = '+' then some (.exponentSign, { l with exponent := some (false, []) })
    else if c = '-' then some (.exponentSign, { l with exponent := some (true, []) })
    else (decimalDigit? c).bind exponent
  | .exponentSign | .exponent => (decimalDigit? c).bind exponent

/-- A number may end behind this part. -/
def NumberPart.isEnd : NumberPart → Bool
  | .zero | .whole | .fraction | .exponent => true
  | .sign | .point | .mark | .exponentSign => false

/-- The lexer between tokens after one more character, and the token that the character is. -/
def Lexer.start (c : Char) : Option (Lexer × List Token) :=
  let number (part : NumberPart) (l : Literal) : Option (Lexer × List Token) :=
    some (.number part l, [])
  if isSpace c then some (.between, [])
  else match c with
  | '[' => some (.between, [.openArray])
  | ']' => some (.between, [.closeArray])
  | '\x7b' => some (.between, [.openObject])
  | '\x7d' => some (.between, [.closeObject])
  | ',' => some (.between, [.comma])
  | ':' => some (.between, [.colon])
  | '"' => some (.text [], [])
  | 'n' => some (.word ['u', 'l', 'l'] .null, [])
  | 't' => some (.word ['r', 'u', 'e'] (.bool true), [])
  | 'f' => some (.word ['a', 'l', 's', 'e'] (.bool false), [])
  | '-' => number .sign ⟨true, [], none, none⟩
  | c =>
    match decimalDigit? c with
    | none => none
    | some d => number (if d = 0 then .zero else .whole) ⟨false, [d], none, none⟩

/-- The character that an escape of two characters stands for. -/
def escaped? : Char → Option Char
  | '"' => some '"'
  | '\\' => some '\\'
  | '/' => some '/'
  | 'b' => some '\x08'
  | 'f' => some '\x0c'
  | 'n' => some '\n'
  | 'r' => some '\r'
  | 't' => some '\t'
  | _ => none

/-- The lexer after one more character, and the tokens that the character completes. -/
def Lexer.step : Lexer → Char → Option (Lexer × List Token)
  | .between, c => start c
  | .word [] _, _ => none
  | .word (d :: rest) value, c =>
    if c = d then some (if rest = [] then (.between, [.scalar value]) else (.word rest value, []))
    else none
  | .text read, c =>
    if c = '"' then some (.between, [.text (textOf read.reverse)])
    else if c = '\\' then some (.escape read, [])
    else if c.toNat < 0x20 then none
    else some (.text (.char c :: read), [])
  | .escape read, c =>
    if c = 'u' then some (.unit read 4 0, [])
    else (escaped? c).map fun d => (.text (.char d :: read), [])
  | .unit read missing value, c =>
    (hexDigit? c).map fun d =>
      let value := 16 * value + d
      if missing ≤ 1 then (.text (.unit value :: read), [])
      else (.unit read (missing - 1) value, [])
  | .number part read, c =>
    match continueNumber part read c with
    | some (part, read) => some (.number part read, [])
    | none =>
      if part.isEnd then
        (start c).map fun (lexer, tokens) => (lexer, .scalar read.toJson :: tokens)
      else none

/-- The token that the end of the text completes. -/
def Lexer.finish : Lexer → Option (List Token)
  | .between => some []
  | .number part read => if part.isEnd then some [.scalar read.toJson] else none
  | _ => none

end LedgerFeed.Json

import LedgerFeed.Json.Basic

/-!
# Writing JSON

A tree is written without spaces and with the members of an object in their order (`render`), or
with one item or member a line and an indent of two spaces a level (`renderLines`). In a text the
quote mark, the backslash and the control characters below U+0020 are escaped, and nothing else.
-/

namespace LedgerFeed.Json

/-- The written form of a character of a text. -/
def escape (c : Char) : List Char :=
  if c = '"' then ['\\', '"']
  else if c = '\\' then ['\\', '\\']
  else if c = '\n' then ['\\', 'n']
  else if c = '\r' then ['\\', 'r']
  else if c = '\t' then ['\\', 't']
  else if c = '\x08' then ['\\', 'b']
  else if c = '\x0c' then ['\\', 'f']
  else if c.toNat < 0x20 then
    ['\\', 'u', '0', '0', Nat.digitChar (c.toNat / 16), Nat.digitChar (c.toNat % 16)]
  else [c]

/-- The text literal of a text. -/
def renderText (s : String) : List Char :=
  '"' :: s.toList.flatMap escape ++ ['"']

/-- The text of a number. -/
def Number.render : Number → List Char
  | .integer negative magnitude =>
    if negative then '-' :: Nat.toDigits 10 magnitude else Nat.toDigits 10 magnitude
  | .real x => x.render

mutual

/-- The text of a tree, without spaces. -/
def render : Json → List Char
  | .null | .unreadable => ['n', 'u', 'l', 'l']
  | .bool true => ['t', 'r', 'u', 'e']
  | .bool false => ['f', 'a', 'l', 's', 'e']
  | .number n => n.render
  | .text s => renderText s
  | .array items => '[' :: renderItems items ++ [']']
  | .object members => '\x7b' :: renderMembers members ++ ['\x7d']

/-- The items of an array, with commas between them. -/
def renderItems : List Json → List Char
  | [] => []
  | [j] => render j
  | j :: rest => render j ++ ',' :: renderItems rest

/-- The members of an object, with commas between them. -/
def renderMembers : List (String × Json) → List Char
  | [] => []
  | [(name, j)] => renderText name ++ ':' :: render j
  | (name, j) :: rest => renderText name ++ ':' :: render j ++ ',' :: renderMembers rest

end

/-- The text of a tree. -/
def toText (j : Json) : String :=
  String.ofList (render j)

/-- A line break and the indent of a level. -/
def newLine (level : Nat) : List Char :=
  '\n' :: List.replicate (2 * level) ' '

mutual

/-- The text of a tree with one item or member a line; empty arrays and objects have no lines. -/
def renderLines (level : Nat) : Json → List Char
  | .array [] => ['[', ']']
  | .array (j :: rest) => '[' :: renderItemLines (level + 1) (j :: rest) ++ newLine level ++ [']']
  | .object [] => ['\x7b', '\x7d']
  | .object (m :: rest) =>
    '\x7b' :: renderMemberLines (level + 1) (m :: rest) ++ newLine level ++ ['\x7d']
  | j => render j

/-- The lines of the items of an array. -/
def renderItemLines (level : Nat) : List Json → List Char
  | [] => []
  | [j] => newLine level ++ renderLines level j
  | j :: rest => newLine level ++ renderLines level j ++ ',' :: renderItemLines level rest

/-- The lines of the members of an object. -/
def renderMemberLines (level : Nat) : List (String × Json) → List Char
  | [] => []
  | [(name, j)] => newLine level ++ renderText name ++ [':', ' '] ++ renderLines level j
  | (name, j) :: rest =>
    newLine level ++ renderText name ++ [':', ' '] ++ renderLines level j
      ++ ',' :: renderMemberLines level rest

end

/-- The text of a tree in lines. -/
def toLines (j : Json) : String :=
  String.ofList (renderLines 0 j)

end LedgerFeed.Json

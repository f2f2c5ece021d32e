import LedgerFeed.Json.Record
import LedgerFeed.Text.Blank
import LedgerFeed.Text.Integer
import LedgerFeed.Timestamp.Calendar

/-!
# The text of timestamps

A timestamp is written in universal time as `2024-01-31T23:59:59.123Z`, with the fewest of 0, 3, 6
or 9 digits of the second's fraction that show all of it, and with a sign in front of years of more
than four digits or before year 0. The reader also takes offsets, a blank or a lowercase letter
between date and time, blanks between the parts, numbers without leading zeros and fractions of any
length, of which it keeps nine digits.
-/

namespace LedgerFeed.Timestamp

open LedgerFeed.Text

/-- The digits a text starts with, `most` of them at most, and the rest. -/
def splitDigits : Nat → List Char → List Nat × List Char
  | 0, s => ([], s)
  | _ + 1, [] => ([], [])
  | most + 1, c :: rest =>
    match Integer.digit? c with
    | none => ([], c :: rest)
    | some d =>
      let (digits, rest) := splitDigits most rest
      (d :: digits, rest)

/-- The number that digits stand for. -/
def valueOf (digits : List Nat) : Nat :=
  digits.foldl (fun n d => 10 * n + d) 0

/-- A number of one digit at least and `most` digits at most. -/
def readNumber (most : Nat) (s : List Char) : Option (Nat × List Char) :=
  match splitDigits most s with
  | ([], _) => none
  | (digits, rest) => some (valueOf digits, rest)

/-- A year: any number of digits behind a sign, at most four without. -/
def readYear (s : List Char) : Option (Int × List Char) :=
  match s with
  | '-' :: rest => (readNumber rest.length rest).map fun (n, rest) => (-(n : Int), rest)
  | '+' :: rest => (readNumber rest.length rest).map fun (n, rest) => ((n : Int), rest)
  | s => (readNumber 4 s).map fun (n, rest) => ((n : Int), rest)

/-- A number of two digits at most, behind blanks. -/
def readPart (s : List Char) : Option (Nat × List Char) :=
  readNumber 2 (trimStart s)

/-- A mark, behind blanks. -/
def readMark (mark : Char) (s : List Char) : Option (List Char) :=
  match trimStart s with
  | c :: rest => if c = mark then some rest else none
  | [] => none

/-- A date. -/
def readDate (s : List Char) : Option (Date × List Char) := do
  let (year, s) ← readYear (trimStart s)
  let s ← readMark '-' s
  let (month, s) ← readPart s
  let s ← readMark '-' s
  let (day, s) ← readPart s
  return (⟨year, month, day⟩, s)

/-- What stands between date and time. -/
def readSeparator : List Char → Option (List Char)
  | c :: rest => if c = 'T' ∨ c = 't' ∨ c = ' ' then some rest else none
  | [] => none

/-- The nanoseconds of a fraction behind its point: nine digits, the first one tenths. -/
def readFraction (s : List Char) : Option (Nat × List Char) :=
  match splitDigits 9 s with
  | ([], _) => none
  | (digits, rest) =>
    some (valueOf digits * 10 ^ (9 - digits.length), rest.dropWhile (Integer.digit? · |>.isSome))

/-- The nanoseconds of a fraction, if there is one. -/
def readNanosecond (s : List Char) : Option (Nat × List Char) :=
  match s with
  | '.' :: rest => readFraction rest
  | s => some (0, s)

/-- A time of day. -/
def readTime (s : List Char) : Option (TimeOfDay × List Char) := do
  let (hour, s) ← readPart s
  let s ← readMark ':' s
  let (minute, s) ← readPart s
  let s ← readMark ':' s
  let (second, s) ← readPart s
  let (nanosecond, s) ← readNanosecond s
  return (⟨hour, minute, second, nanosecond⟩, s)

/-- Two digits. -/
def readTwoDigits : List Char → Option (Nat × List Char)
  | a :: b :: rest => do
    let a ← Integer.digit? a
    let b ← Integer.digit? b
    return (10 * a + b, rest)
  | _ => none

/-- The hours and minutes of an offset, in minutes. Colons and blanks between them are skipped. -/
def readOffsetSize (s : List Char) : Option (Nat × List Char) := do
  let (hours, s) ← readTwoDigits s
  let (minutes, s) ← readTwoDigits (s.dropWhile fun c => c == ':' || isBlank c)
  if hours < 24 ∧ minutes < 60 then return (60 * hours + minutes, s) else none

/-- An offset from universal time, in minutes. -/
def readOffset (s : List Char) : Option (Int × List Char) :=
  match s with
  | 'Z' :: rest | 'z' :: rest => some (0, rest)
  | '+' :: rest => (readOffsetSize rest).map fun (n, rest) => ((n : Int), rest)
  | '-' :: rest | '−' :: rest => (readOffsetSize rest).map fun (n, rest) => (-(n : Int), rest)
  | u :: t :: c :: rest =>
    if u.toLower = 'u' ∧ t.toLower = 't' ∧ c.toLower = 'c' then some (0, rest) else none
  | _ => none

/-- The timestamp that a text stands for. -/
def parse (s : List Char) : Option Timestamp := do
  let (date, s) ← readDate s
  let s ← readSeparator s
  let (time, s) ← readTime s
  let (offset, s) ← readOffset (trimStart s)
  if (trimStart s).isEmpty then ofLocal? date time offset else none

/-- The digits of a year. -/
def renderYear (year : Int) : List Char :=
  (if year < 0 then ['-'] else if 9999 < year then ['+'] else []) ++ Integer.padded 4 year.natAbs

/-- The fraction of a second. -/
def renderFraction (nanosecond : Nat) : List Char :=
  if nanosecond = 0 then []
  else if nanosecond % 10 ^ 6 = 0 then '.' :: Integer.padded 3 (nanosecond / 10 ^ 6)
  else if nanosecond % 10 ^ 3 = 0 then '.' :: Integer.padded 6 (nanosecond / 10 ^ 3)
  else '.' :: Integer.padded 9 nanosecond

/-- The text of a date. -/
def renderDate (d : Date) : List Char :=
  renderYear d.year ++ '-' :: Integer.padded 2 d.month ++ '-' :: Integer.padded 2 d.day

/-- The text of a time of day. -/
def renderTime (t : TimeOfDay) : List Char :=
  Integer.padded 2 t.hour ++ ':' :: Integer.padded 2 t.minute ++ ':' :: Integer.padded 2 t.second
    ++ renderFraction t.nanosecond

/-- The text of a timestamp. -/
def render (t : Timestamp) : List Char :=
  renderDate t.date ++ 'T' :: renderTime t.time ++ ['Z']

def toJson (t : Timestamp) : Json :=
  .text (String.ofList t.render)

def ofJson? (j : Json) : Option Timestamp :=
  j.asText.bind fun s => parse s.toList

end LedgerFeed.Timestamp

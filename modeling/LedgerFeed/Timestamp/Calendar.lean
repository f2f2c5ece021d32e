import LedgerFeed.Bytes

/-!
# Calendar dates

Dates of the Gregorian calendar, continued into the past and the future, and moments of a day. A
minute may have a leap second, second 60.
-/

namespace LedgerFeed

/-- A year has a leap day if it is a multiple of 4 but not of 100, or a multiple of 400. -/
def isLeapYear (year : Int) : Bool :=
  (year % 4 == 0 && year % 100 != 0) || year % 400 == 0

/-- How many days a month has. -/
def daysInMonth (year : Int) (month : Nat) : Nat :=
  match month with
  | 2 => if isLeapYear year then 29 else 28
  | 4 | 6 | 9 | 11 => 30
  | _ => 31

/-- The first and the last year in which dates are kept. -/
def firstYear : Int := -262143

def lastYear : Int := 262142

/-- A date. -/
structure Date where
  year : Int
  month : Nat
  day : Nat
  deriving DecidableEq, Repr

/-- The date is in the calendar. -/
def Date.IsValid (d : Date) : Prop :=
  firstYear ≤ d.year ∧ d.year ≤ lastYear ∧ 1 ≤ d.month ∧ d.month ≤ 12 ∧ 1 ≤ d.day
    ∧ d.day ≤ daysInMonth d.year d.month

instance (d : Date) : Decidable d.IsValid := by
  unfold Date.IsValid; infer_instance

/-- The day after. -/
def Date.next (d : Date) : Date :=
  if d.day < daysInMonth d.year d.month then { d with day := d.day + 1 }
  else if d.month < 12 then ⟨d.year, d.month + 1, 1⟩
  else ⟨d.year + 1, 1, 1⟩

/-- The day before. -/
def Date.previous (d : Date) : Date :=
  if 1 < d.day then { d with day := d.day - 1 }
  else if 1 < d.month then ⟨d.year, d.month - 1, daysInMonth d.year (d.month - 1)⟩
  else ⟨d.year - 1, 12, 31⟩

/-- A moment of a day. -/
structure TimeOfDay where
  hour : Nat
  minute : Nat
  second : Nat
  nanosecond : Nat
  deriving DecidableEq, Repr

/-- The moment exists. -/
def TimeOfDay.IsValid (t : TimeOfDay) : Prop :=
  t.hour < 24 ∧ t.minute < 60 ∧ t.second ≤ 60 ∧ t.nanosecond < 10 ^ 9

instance (t : TimeOfDay) : Decidable t.IsValid := by
  unfold TimeOfDay.IsValid; infer_instance

/-- A moment, in universal time. -/
structure Timestamp where
  date : Date
  time : TimeOfDay
  date_valid : date.IsValid
  time_valid : time.IsValid
  deriving DecidableEq, Repr

/-- The moment with a date and a time, if both exist. -/
def Timestamp.ofParts? (d : Date) (t : TimeOfDay) : Option Timestamp :=
  if h : d.IsValid ∧ t.IsValid then some ⟨d, t, h.1, h.2⟩ else none

/-- The moment that is shown as a date and a time where clocks are `offset` minutes ahead of
universal time, by less than a day. -/
def Timestamp.ofLocal? (d : Date) (t : TimeOfDay) (offset : Int) : Option Timestamp :=
  if d.IsValid ∧ t.IsValid then
    let minutes : Int := 60 * t.hour + t.minute - offset
    let date := if minutes < 0 then d.previous else if minutes < 1440 then d else d.next
    let minutes := (minutes % 1440).toNat
    ofParts? date { t with hour := minutes / 60, minute := minutes % 60 }
  else none

end LedgerFeed

/-!
# The calendar

Days are counted from 1 January of the year 1, a Monday, with the leap years of the Gregorian calendar
carried on in both directions. A date is such a number; year, month and day are computed from it.
-/

namespace Relational.Calendar

def isLeap (year : Int) : Bool := year % 4 == 0 && (year % 100 != 0 || year % 400 == 0)

/-- The lengths of the twelve months. -/
def monthLengths (year : Int) : List Nat :=
  [31, if isLeap year then 29 else 28, 31, 30, 31, 30, 31, 31, 30, 31, 30, 31]

/-- The number of days in a month from 1 to 12; other months have none. -/
def monthLength (year : Int) (month : Nat) : Nat :=
  if month == 0 then 0 else ((monthLengths year)[month - 1]?).getD 0

def yearLength (year : Int) : Nat := if isLeap year then 366 else 365

/-- The days before the first of a year. -/
def daysBefore (year : Int) : Int :=
  let past := year - 1
  365 * past + past / 4 - past / 100 + past / 400

/-- The days of a year before the first of a month. -/
def daysBeforeMonth (year : Int) (month : Nat) : Nat :=
  ((monthLengths year).take (month - 1)).foldl (· + ·) 0

/-- Years in which a date can lie. -/
def firstYear : Int := -262143

def lastYear : Int := 262142

/-- The number of a day that the calendar has. -/
def dayNumber? (year : Int) (month day : Nat) : Option Int :=
  if firstYear ≤ year && year ≤ lastYear && 1 ≤ day && day ≤ monthLength year month then
    some (daysBefore year + daysBeforeMonth year month + day - 1)
  else none

/-- The days of the calendar. -/
def InRange (day : Int) : Prop := daysBefore firstYear ≤ day ∧ day < daysBefore (lastYear + 1)

instance (day : Int) : Decidable (InRange day) := inferInstanceAs (Decidable (_ ∧ _))

/-- The year of a day: the mean length of a year gives it up to one, which is then put right. -/
def yearOf (day : Int) : Int :=
  let guess := 400 * day / 146097 + 1
  if day < daysBefore guess then guess - 1
  else if daysBefore (guess + 1) ≤ day then guess + 1
  else guess

/-- The day within its year, from 0. -/
def dayOfYear (day : Int) : Nat := (day - daysBefore (yearOf day)).toNat

/-- Month and day, both from 1, at a position in a list of month lengths. -/
def splitMonths : List Nat → (month rest : Nat) → Nat × Nat
  | [], month, rest => (month, rest + 1)
  | length :: lengths, month, rest =>
    if rest < length then (month, rest + 1) else splitMonths lengths (month + 1) (rest - length)

/-- Month and day of the month. -/
def monthAndDay (day : Int) : Nat × Nat := splitMonths (monthLengths (yearOf day)) 1 (dayOfYear day)

/-- The day of the week, Sunday being 0. -/
def weekday (day : Int) : Nat := ((day + 1) % 7).toNat

end Relational.Calendar

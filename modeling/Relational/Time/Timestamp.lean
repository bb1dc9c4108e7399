import Relational.Number.Word
import Relational.Time.Calendar

/-!
# Timestamps

A timestamp is a day, a second of that day and a number of nanoseconds. A leap second is counted as
nanoseconds from a thousand million on in the last second of its minute. Durations are ticks of a
hundred nanoseconds.
-/

namespace Relational

structure Timestamp where
  day : Int
  second : Nat
  nano : Nat
  day_inRange : Calendar.InRange day
  second_lt : second < 86400
  nano_lt : nano < 2000000000
deriving DecidableEq

namespace Timestamp

def billion : Nat := 1000000000

def ticksPerMillisecond : Int := 10000

def ticksPerSecond : Int := 10000000

def ticksPerMinute : Int := 600000000

def ticksPerHour : Int := 36000000000

def ticksPerDay : Int := 864000000000

/-- The timestamp with these parts, if they are in range. -/
def of? (day : Int) (second nano : Nat) : Option Timestamp :=
  if h : Calendar.InRange day ∧ second < 86400 ∧ nano < 2000000000 then
    some ⟨day, second, nano, h.1, h.2.1, h.2.2⟩
  else none

/-- A date and a time of day by the clock; second 60 is a leap second. -/
def ofClock? (year : Int) (month day hour minute second nano : Nat) : Option Timestamp := do
  let n ← Calendar.dayNumber? year month day
  if hour < 24 && minute < 60 && second ≤ 60 && nano < billion then
    let whole := 3600 * hour + 60 * minute
    if second == 60 then of? n (whole + 59) (billion + nano) else of? n (whole + second) nano
  else none

def year (t : Timestamp) : Int := Calendar.yearOf t.day

def month (t : Timestamp) : Nat := (Calendar.monthAndDay t.day).1

def dayOfMonth (t : Timestamp) : Nat := (Calendar.monthAndDay t.day).2

def hour (t : Timestamp) : Nat := t.second / 3600

def minute (t : Timestamp) : Nat := t.second / 60 % 60

/-- The second of the minute; a leap second still counts as the one before it. -/
def secondOfMinute (t : Timestamp) : Nat := t.second % 60

def midnight (t : Timestamp) : Timestamp :=
  { t with second := 0, nano := 0, second_lt := by decide, nano_lt := by decide }

def isLeapSecond (t : Timestamp) : Bool := billion ≤ t.nano

/-- Earlier days first, then earlier seconds, then fewer nanoseconds. -/
def compare (a b : Timestamp) : Ordering :=
  (Ord.compare a.day b.day).then ((Ord.compare a.second b.second).then (Ord.compare a.nano b.nano))

/-- Where a step of whole seconds and nanoseconds, both with the sign of the step, starts: a step that
leaves a leap second starts in the second before it if it goes forward and in the one after it if
it goes back, and a step within it starts nowhere. -/
def stepStart? (t : Timestamp) (seconds nanos : Int) : Option (Int × Int) :=
  if !t.isLeapSecond then some (t.second, t.nano)
  else if 0 < seconds || (0 < nanos && 2 * (billion : Int) ≤ t.nano + nanos) then
    some (t.second, t.nano - billion)
  else if seconds < 0 then some (t.second + 1, t.nano - billion)
  else none

/-- A number of nanoseconds later. -/
def addNanos? (t : Timestamp) (amount : Int) : Option Timestamp :=
  let seconds := amount.tdiv billion
  let nanos := amount.tmod billion
  match stepStart? t seconds nanos with
  | none => of? t.day t.second (t.nano + nanos).toNat
  | some (second, nano) =>
    let total := nano + nanos
    let second := second + seconds + total / billion
    of? (t.day + second / 86400) (second % 86400).toNat (total % billion).toNat

/-- A number of ticks later; ticks that exceed a word in nanoseconds count as its end. -/
def addTicks? (t : Timestamp) (ticks : Int64) : Option Timestamp :=
  t.addNanos? (Word.saturate (ticks.toInt * 100)).toInt

/-- A number of months later: the day of the month stays, or becomes the last of a shorter month. -/
def addMonths? (t : Timestamp) (months : Int) : Option Timestamp := do
  let total := t.year * 12 + (t.month - 1 : Int) + months
  let year := total / 12
  let month := (total % 12).toNat + 1
  let day ← Calendar.dayNumber? year month (min t.dayOfMonth (Calendar.monthLength year month))
  of? day t.second t.nano

/-- The nanoseconds from `b` to `a`. A leap second between the two times of day counts. -/
def nanosSince (a b : Timestamp) : Int :=
  let leap : Int :=
    if b.second < a.second && b.isLeapSecond then 1
    else if a.second < b.second && a.isLeapSecond then -1
    else 0
  ((a.day - b.day) * 86400 + (a.second - b.second) + leap) * billion + (a.nano - b.nano)

/-- The ticks from `b` to `a`, if they fit. -/
def ticksSince? (a b : Timestamp) : Option Int64 := do
  let nanos ← Word.ofInt? (nanosSince a b)
  Word.ofInt? (nanos.toInt.tdiv 100)

end Timestamp

end Relational

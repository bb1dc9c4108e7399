import Relational.Error

/-!
# Members of values

Every value knows whether it is present; records have their fields, groups their key, texts their
length, and timestamps and durations their parts. A member of an absent value is absent.
-/

namespace Relational.Value

def natInt (n : Nat) : Value := int (Int64.ofNat n)

def timestampMember? (t : Timestamp) (name : String) : Option Value :=
  match name with
  | "Year" => some (int (Int64.ofInt t.year))
  | "Month" => some (natInt t.month)
  | "Day" => some (natInt t.dayOfMonth)
  | "Hour" => some (natInt t.hour)
  | "Minute" => some (natInt t.minute)
  | "Second" => some (natInt t.secondOfMinute)
  | "Millisecond" => some (natInt (t.nano / 1000000))
  | "DayOfWeek" => some (natInt (Calendar.weekday t.day))
  | "DayOfYear" => some (natInt (Calendar.dayOfYear t.day + 1))
  | "Date" => some (timestamp t.midnight)
  | "TimeOfDay" => some (duration (Int64.ofInt (t.second * Timestamp.ticksPerSecond + t.nano / 100)))
  | _ => none

/-- A part of a duration: whole units, counted within the next larger one. -/
def durationPart (ticks unit : Int) (within : Int) : Value :=
  int (Int64.ofInt ((ticks.tdiv unit).tmod within))

/-- A duration in units, with its fraction. -/
def durationTotal (ticks unit : Int) : Value := float (Double.ofInt ticks / Double.ofInt unit)

def durationMember? (d : Int64) (name : String) : Option Value :=
  let ticks := d.toInt
  match name with
  | "Ticks" => some (int d)
  | "Days" => some (int (Int64.ofInt (ticks.tdiv Timestamp.ticksPerDay)))
  | "Hours" => some (durationPart ticks Timestamp.ticksPerHour 24)
  | "Minutes" => some (durationPart ticks Timestamp.ticksPerMinute 60)
  | "Seconds" => some (durationPart ticks Timestamp.ticksPerSecond 60)
  | "Milliseconds" => some (durationPart ticks Timestamp.ticksPerMillisecond 1000)
  | "TotalDays" => some (durationTotal ticks Timestamp.ticksPerDay)
  | "TotalHours" => some (durationTotal ticks Timestamp.ticksPerHour)
  | "TotalMinutes" => some (durationTotal ticks Timestamp.ticksPerMinute)
  | "TotalSeconds" => some (durationTotal ticks Timestamp.ticksPerSecond)
  | "TotalMilliseconds" => some (durationTotal ticks Timestamp.ticksPerMillisecond)
  | _ => none

/-- The members that a kind of value has of its own. -/
def ownMember? (target : Value) (name : String) : Option Value :=
  match target with
  | record _ fields => lookup? fields name
  | group key _ => if name == "Key" then some key else none
  | text s => if name == "Length" then some (natInt s.length) else none
  | timestamp t => timestampMember? t name
  | duration d => durationMember? d name
  | _ => none

def member (target : Value) (name : String) : Result Value :=
  match target with
  | null =>
    if name == "HasValue" then .ok (bool false)
    else if name == "Value" then .error (.evaluation .absent)
    else .ok null
  | target =>
    if name == "HasValue" then .ok (bool true)
    else if name == "Value" then .ok target
    else
      match target.ownMember? name with
      | some v => .ok v
      | none => .error (.unsupportedExpression (.member target.naturalTy.name name))

end Relational.Value

import Relational.Text.Blank
import Relational.Number.Decimal.Text
import Relational.Time.Timestamp

/-!
# The text of timestamps

A layout is a list of items. Reading goes through them from left to right: a number may have blanks
before it and fewer digits than it is written with, a blank stands for any run of blanks, also an
empty one, and the whole text has to be used. A year may have a sign, and then any number of digits.
-/

namespace Relational.Timestamp

inductive LayoutItem where
  | year
  | month
  | day
  | hour
  | minute
  | second
  /-- A point and exactly three digits. -/
  | millis
  /-- Nothing, or a point and digits, of which nine count. -/
  | fraction
  | blank
  | mark (c : Char)
deriving DecidableEq

/-- What has been read of a timestamp. -/
structure Clock where
  year : Int := 0
  month : Nat := 0
  day : Nat := 0
  hour : Nat := 0
  minute : Nat := 0
  second : Nat := 0
  nano : Nat := 0

/-- At least one digit and at most `width`, with the rest of the text. -/
def readNumber? (width : Nat) (cs : List Char) : Option (Nat × List Char) :=
  let digits := (cs.takeWhile Char.isDigit).take width
  (Word.digitsValue? digits).map fun n => (n, cs.drop digits.length)

/-- A field of two digits at most, after blanks. -/
def readField? (cs : List Char) : Option (Nat × List Char) := readNumber? 2 (Text.trimStartChars cs)

/-- A year: four digits at most, or a sign and digits. -/
def readYear? (cs : List Char) : Option (Int × List Char) :=
  match Text.trimStartChars cs with
  | '-' :: cs => (readNumber? cs.length cs).map fun (n, rest) => (-(n : Int), rest)
  | '+' :: cs => (readNumber? cs.length cs).map fun (n, rest) => ((n : Int), rest)
  | cs => (readNumber? 4 cs).map fun (n, rest) => ((n : Int), rest)

/-- The nanoseconds of the digits behind a point. -/
def nanosOf (digits : List Char) : Nat :=
  ((Word.digitsValue? (digits.take 9)).getD 0) * pow10 (9 - digits.length)

def readItem? (item : LayoutItem) (clock : Clock) (cs : List Char) : Option (Clock × List Char) :=
  match item with
  | .year => (readYear? cs).map fun (n, cs) => ({ clock with year := n }, cs)
  | .month => (readField? cs).map fun (n, cs) => ({ clock with month := n }, cs)
  | .day => (readField? cs).map fun (n, cs) => ({ clock with day := n }, cs)
  | .hour => (readField? cs).map fun (n, cs) => ({ clock with hour := n }, cs)
  | .minute => (readField? cs).map fun (n, cs) => ({ clock with minute := n }, cs)
  | .second => (readField? cs).map fun (n, cs) => ({ clock with second := n }, cs)
  | .millis =>
    match cs with
    | '.' :: cs =>
      let digits := (cs.takeWhile Char.isDigit).take 3
      if digits.length == 3 then some ({ clock with nano := nanosOf digits }, cs.drop 3) else none
    | _ => none
  | .fraction =>
    match cs with
    | '.' :: cs =>
      let digits := cs.takeWhile Char.isDigit
      if digits.isEmpty then none
      else some ({ clock with nano := nanosOf digits }, cs.drop digits.length)
    | cs => some (clock, cs)
  | .blank => some (clock, Text.trimStartChars cs)
  | .mark c =>
    match cs with
    | d :: cs => if c == d then some (clock, cs) else none
    | [] => none

def readItems? : List LayoutItem → Clock → List Char → Option (Clock × List Char)
  | [], clock, cs => some (clock, cs)
  | item :: items, clock, cs => (readItem? item clock cs).bind fun (clock, cs) => readItems? items clock cs

/-- A timestamp in one layout. -/
def readLayout? (layout : List LayoutItem) (cs : List Char) : Option Timestamp :=
  match readItems? layout {} cs with
  | some (c, []) => ofClock? c.year c.month c.day c.hour c.minute c.second c.nano
  | _ => none

def dateItems : List LayoutItem := [.year, .mark '-', .month, .mark '-', .day]

def timeItems : List LayoutItem := [.hour, .mark ':', .minute, .mark ':', .second]

/-- The layouts of a stored timestamp, in the order in which they are tried. -/
def storedLayouts : List (List LayoutItem) :=
  [dateItems ++ .blank :: timeItems ++ [.millis],
    dateItems ++ .blank :: timeItems,
    dateItems ++ .mark 'T' :: timeItems ++ [.fraction],
    dateItems ++ .mark 'T' :: timeItems,
    dateItems]

/-- A stored timestamp. -/
def parse? (text : String) : Option Timestamp := storedLayouts.findSome? (readLayout? · text.toList)

/-- The layout of a timestamp inside a document: blanks may stand before each mark and at the end. -/
def documentLayout : List LayoutItem :=
  [.year, .blank, .mark '-', .month, .blank, .mark '-', .day, .blank, .mark 'T', .hour, .blank,
    .mark ':', .minute, .blank, .mark ':', .second, .fraction, .blank]

def parseDocument? (text : String) : Option Timestamp := readLayout? documentLayout text.toList

/-- A number in at least `width` digits. -/
def padded (width n : Nat) : String := String.ofList (Decimal.padDigits width n)

/-- A year has four digits; before the year 0 and after 9999 it has a sign. -/
def yearText (year : Int) : String :=
  let sign := if year < 0 then "-" else if 9999 < year then "+" else ""
  sign ++ padded 4 year.natAbs

def dateText (t : Timestamp) : String :=
  yearText t.year ++ "-" ++ padded 2 t.month ++ "-" ++ padded 2 t.dayOfMonth

/-- The time of day to the second; a leap second is second 60. -/
def clockText (t : Timestamp) : String :=
  let second := t.secondOfMinute + if t.isLeapSecond then 1 else 0
  padded 2 t.hour ++ ":" ++ padded 2 t.minute ++ ":" ++ padded 2 second

/-- A timestamp as it is stored: to the millisecond, the rest cut off. -/
def text (t : Timestamp) : String :=
  t.dateText ++ " " ++ t.clockText ++ "." ++ padded 3 (t.nano % billion / 1000000)

/-- A fraction of a second in the fewest groups of three digits that lose nothing. -/
def fractionText (nano : Nat) : String :=
  if nano == 0 then ""
  else if nano % 1000000 == 0 then "." ++ padded 3 (nano / 1000000)
  else if nano % 1000 == 0 then "." ++ padded 6 (nano / 1000)
  else "." ++ padded 9 nano

/-- A timestamp inside a document, to the nanosecond. -/
def documentText (t : Timestamp) : String :=
  t.dateText ++ "T" ++ t.clockText ++ fractionText (t.nano % billion)

end Relational.Timestamp

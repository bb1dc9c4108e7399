import Relational.Text.Search
import Relational.Text.Case
import Relational.Number.Decimal.Arithmetic
import Relational.Value.Arithmetic

/-!
# Methods of values

A method of an absent value is absent, but for the question whether it is empty. Methods of texts work on
the plain text of any target. Arguments are checked before they are used, in order.
-/

namespace Relational.Value

def wordArgument (m : Method) (args : List Value) (i : Nat) : Result Int64 :=
  orFault (.integerArgument m) (args[i]?.bind toWord?)

def textArgument (m : Method) (args : List Value) (i : Nat) : Result String :=
  match args[i]? with
  | some (text s) => .ok s
  | some (char c) => .ok c.toString
  | _ => .error (.evaluation (.textArgument m))

def timestampTarget (m : Method) : Value → Result Timestamp
  | timestamp t => .ok t
  | _ => .error (.evaluation (.timestampTarget m))

/-- A number of characters; what is negative counts as none. -/
def charCount (n : Int64) : Nat := n.toInt.toNat

def substring (args : List Value) (target : Value) : Result Value := do
  let start ← wordArgument .substring args 0
  let rest := target.plainText.toList.drop (charCount start)
  if args.length < 2 then return text (String.ofList rest)
  let length ← wordArgument .substring args 1
  return text (String.ofList (rest.take (charCount length)))

/-- A calendar step: months, or years of twelve months. -/
def addMonths (m : Method) (perUnit : Int64) (args : List Value) (target : Value) : Result Value := do
  let t ← timestampTarget m target
  let n ← wordArgument m args 0
  let months ← orFault .timestampRange (Word.mul? n perUnit)
  return timestamp (← orFault .timestampRange (t.addMonths? months.toInt))

/-- A step of a number of units, which may have a fraction; it is cut to whole ticks. -/
def addUnits (m : Method) (unit : Int) (args : List Value) (target : Value) : Result Value := do
  let t ← timestampTarget m target
  let amount ← orFault (.numberArgument m) (args.head?.bind toFloat?)
  addTicks t (Double.toWord (amount * Double.ofInt unit))

def abs : Value → Result Value
  | int n => (orFault .absOverflow (Word.abs? n)).map int
  | float x => .ok (float x.abs)
  | decimal d => .ok (decimal d.abs)
  | v => .error (.evaluation (.undefinedMethod .abs v))

/-- The low 32 bits of a word as a signed number. -/
def lowWord (n : Int64) : Int := Int.bmod n.toInt (pow2 32)

/-- Rounded to a number of fraction digits: doubles half away from zero, decimals half to even. -/
def round (args : List Value) (target : Value) : Result Value := do
  let digits ← if args.isEmpty then pure 0 else wordArgument .round args 0
  match target with
  | int n => return int n
  | float x =>
    let scale := Double.powTen (lowWord digits)
    return float ((x * scale).round / scale)
  | decimal d => return decimal (d.round (charCount digits % pow2 32))
  | v => .error (.evaluation (.undefinedMethod .round v))

/-- A method of a present value. -/
def invokePresent (m : Method) (target : Value) (args : List Value) : Result Value :=
  let s := target.plainText
  match m with
  | .contains => (textArgument m args 0).map fun a => bool (Text.contains a s)
  | .startsWith => (textArgument m args 0).map fun a => bool (Text.startsWith a s)
  | .endsWith => (textArgument m args 0).map fun a => bool (Text.endsWith a s)
  | .isNullOrEmpty =>
    match target with
    | text s => .ok (bool s.isEmpty)
    | _ => .ok (bool false)
  | .equals => .ok (bool (target.nullSafeEq (args.head?.getD null)))
  | .toUpper => .ok (text (Text.toUpper s))
  | .toLower => .ok (text (Text.toLower s))
  | .trim => .ok (text (Text.trim s))
  | .trimStart => .ok (text (Text.trimStart s))
  | .trimEnd => .ok (text (Text.trimEnd s))
  | .substring => substring args target
  | .replace => do
    let old ← textArgument m args 0
    let new ← textArgument m args 1
    return text (Text.replace old new s)
  | .indexOf => do
    let needle ← textArgument m args 0
    match Text.indexOf? needle.toList s.toList with
    | some n => return int (Int64.ofNat n)
    | none => return int (-1)
  | .addYears => addMonths m 12 args target
  | .addMonths => addMonths m 1 args target
  | .addDays => addUnits m Timestamp.ticksPerDay args target
  | .addHours => addUnits m Timestamp.ticksPerHour args target
  | .addMinutes => addUnits m Timestamp.ticksPerMinute args target
  | .addSeconds => addUnits m Timestamp.ticksPerSecond args target
  | .addMilliseconds => addUnits m Timestamp.ticksPerMillisecond args target
  | .abs => abs target
  | .round => round args target
  | .toText => .ok (text s)
  | .other name => .error (.unsupportedExpression (.method name))

def invoke (m : Method) (target : Value) (args : List Value) : Result Value :=
  if target.isNull then .ok (if m = .isNullOrEmpty then bool true else null)
  else invokePresent m target args

end Relational.Value

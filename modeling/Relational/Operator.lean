import Relational.Ty

/-!
# Operators, methods and aggregates

The names that an expression can apply, with the types of their results. Equality and inequality are
null-safe: they compare an absent value like any other.
-/

namespace Relational

inductive BinaryOp where
  | add
  | sub
  | mul
  | div
  | rem
  | eq
  | ne
  | lt
  | le
  | gt
  | ge
  | and
  | or
  | coalesce
  | bitAnd
  | bitOr
  | concat
deriving DecidableEq

namespace BinaryOp

def isComparison : BinaryOp → Bool
  | eq | ne | lt | le | gt | ge => true
  | _ => false

def isLogical : BinaryOp → Bool
  | and | or => true
  | _ => false

/-- Binding strength, which decides on parentheses. -/
def precedence : BinaryOp → Nat
  | or => 1
  | and => 2
  | eq | ne => 3
  | lt | le | gt | ge => 4
  | bitAnd | bitOr => 5
  | add | sub => 6
  | mul | div | rem => 7
  | concat => 8
  | coalesce => 9

def isAssociative : BinaryOp → Bool
  | add | mul | and | or | bitAnd | bitOr | concat => true
  | _ => false

/-- The operator in SQL and in messages. -/
def symbol : BinaryOp → String
  | add => "+"
  | sub => "-"
  | mul => "*"
  | div => "/"
  | rem => "%"
  | eq => "IS"
  | ne => "IS NOT"
  | lt => "<"
  | le => "<="
  | gt => ">"
  | ge => ">="
  | and => "AND"
  | or => "OR"
  | coalesce => "COALESCE"
  | bitAnd => "&"
  | bitOr => "|"
  | concat => "||"

/-- The type of the result. The difference of two timestamps is a duration, a timestamp with anything
else added stays one, and adding a text concatenates. -/
def resultTy (op : BinaryOp) (left right : Ty) : Ty :=
  let numeric := if left.isNumeric && right.isNumeric then Ty.promote left right else left
  if op.isComparison || op.isLogical then .bool
  else
    match op with
    | concat => .text
    | coalesce => right
    | sub =>
      if left.isTimestamp then if right.isTimestamp then .duration else left else numeric
    | add =>
      if left.isTimestamp then left else if left.isText || right.isText then .text else numeric
    | _ => numeric

end BinaryOp

inductive UnaryOp where
  | not
  | negate
deriving DecidableEq

inductive Method where
  | contains
  | startsWith
  | endsWith
  | equals
  | toUpper
  | toLower
  | trim
  | trimStart
  | trimEnd
  | substring
  | replace
  | indexOf
  | isNullOrEmpty
  | addYears
  | addMonths
  | addDays
  | addHours
  | addMinutes
  | addSeconds
  | addMilliseconds
  | abs
  | round
  | toText
  /-- A method that nothing is known of. -/
  | other (name : String)
deriving DecidableEq

namespace Method

def name : Method → String
  | contains => "Contains"
  | startsWith => "StartsWith"
  | endsWith => "EndsWith"
  | equals => "Equals"
  | toUpper => "ToUpper"
  | toLower => "ToLower"
  | trim => "Trim"
  | trimStart => "TrimStart"
  | trimEnd => "TrimEnd"
  | substring => "Substring"
  | replace => "Replace"
  | indexOf => "IndexOf"
  | isNullOrEmpty => "IsNullOrEmpty"
  | addYears => "AddYears"
  | addMonths => "AddMonths"
  | addDays => "AddDays"
  | addHours => "AddHours"
  | addMinutes => "AddMinutes"
  | addSeconds => "AddSeconds"
  | addMilliseconds => "AddMilliseconds"
  | abs => "Abs"
  | round => "Round"
  | toText => "ToString"
  | other name => name

def hasSqlForm : Method → Bool
  | other _ => false
  | _ => true

/-- The least and the greatest number of arguments besides the target. -/
def arity : Method → Nat × Nat
  | contains | startsWith | endsWith | equals | indexOf => (1, 1)
  | addYears | addMonths | addDays | addHours | addMinutes | addSeconds | addMilliseconds => (1, 1)
  | substring => (1, 2)
  | replace => (2, 2)
  | round => (0, 1)
  | _ => (0, 0)

def resultTy (m : Method) (target : Ty) : Ty :=
  match m with
  | contains | startsWith | endsWith | equals | isNullOrEmpty => .bool
  | toUpper | toLower | trim | trimStart | trimEnd | substring | replace | toText => .text
  | indexOf => .i32
  | other _ => .unknown
  | _ => target

end Method

inductive AggregateKind where
  | count
  | min
  | max
  | sum
  | average
deriving DecidableEq

namespace AggregateKind

def name : AggregateKind → String
  | count => "Count"
  | min => "Min"
  | max => "Max"
  | sum => "Sum"
  | average => "Average"

def sqlName : AggregateKind → String
  | count => "COUNT"
  | min => "MIN"
  | max => "MAX"
  | sum => "SUM"
  | average => "AVG"

/-- The type of the result for an argument of this type. Averages are floats unless they are decimals. -/
def resultTy (kind : AggregateKind) (argument : Option Ty) : Ty :=
  match kind, argument with
  | count, _ => .i64
  | average, some t => if t.isDecimal then t else t.orNullLike .f64
  | average, none => .f64
  | _, some t => t
  | _, none => .unknown

end AggregateKind

end Relational

import Relational.Number.Decimal.Arithmetic
import Relational.Error
import Relational.Value.Order

/-!
# Operators on values

Operators give outside the database what the compiled statement gives inside it: equality is null-safe,
comparisons with an absent value are false, and arithmetic with one is absent. Integers are words,
and a result that is none is an overflow.
-/

namespace Relational.Value

def orFault {α : Type} (fault : EvaluationFault) : Option α → Result α
  | some a => .ok a
  | none => .error (.evaluation fault)

def arithmeticInt (op : BinaryOp) (a b : Int64) : Result Value :=
  let divide (result : Option Int64) : Result Value :=
    if b == 0 then .error (.evaluation .divisionByZero) else (orFault (.overflow op) result).map int
  match op with
  | .add => (orFault (.overflow op) (Word.add? a b)).map int
  | .sub => (orFault (.overflow op) (Word.sub? a b)).map int
  | .mul => (orFault (.overflow op) (Word.mul? a b)).map int
  | .div => divide (Word.div? a b)
  | .rem => divide (Word.rem? a b)
  | .bitAnd => .ok (int (a &&& b))
  | .bitOr => .ok (int (a ||| b))
  | _ => .error (.evaluation (.overflow op))

def arithmeticFloat (op : BinaryOp) (a b : Float) : Result Value :=
  match op with
  | .add => .ok (float (a + b))
  | .sub => .ok (float (a - b))
  | .mul => .ok (float (a * b))
  | .div => .ok (float (a / b))
  | .rem => .ok (float (Double.rem a b))
  | _ => .error (.evaluation (.overflow op))

def arithmeticDecimal (op : BinaryOp) (a b : Decimal) : Result Value :=
  let result :=
    match op with
    | .add => a.add? b
    | .sub => a.sub? b
    | .mul => a.mul? b
    | .div => a.div? b
    | .rem => a.rem? b
    | _ => none
  (orFault (.overflow op) result).map decimal

/-- Arithmetic on two numbers: through decimals if one is a decimal, through doubles if one is a double. -/
def arithmetic (op : BinaryOp) (left right : Value) : Result Value :=
  let undefined := Except.error (.evaluation (.undefinedOperator op left right))
  let decimals :=
    match left.toDecimal?, right.toDecimal? with
    | some a, some b => arithmeticDecimal op a b
    | _, _ => undefined
  match left, right with
  | int a, int b => arithmeticInt op a b
  | decimal _, _ => decimals
  | _, decimal _ => decimals
  | int a, float b => arithmeticFloat op (Double.ofInt a.toInt) b
  | float a, int b => arithmeticFloat op a (Double.ofInt b.toInt)
  | float a, float b => arithmeticFloat op a b
  | _, _ => undefined

def addTicks (t : Timestamp) (ticks : Int64) : Result Value :=
  (orFault .timestampRange (t.addTicks? ticks)).map timestamp

/-- Sums of times; everything else is arithmetic. -/
def addValues (left right : Value) : Result Value :=
  match left, right with
  | timestamp t, duration d => addTicks t d
  | duration a, duration b => (orFault (.overflow .add) (Word.add? a b)).map duration
  | _, _ => arithmetic .add left right

/-- Differences of times; everything else is arithmetic. -/
def subValues (left right : Value) : Result Value :=
  match left, right with
  | timestamp t, duration d => do addTicks t (← orFault (.overflow .sub) (Word.neg? d))
  | timestamp a, timestamp b => (orFault .durationRange (a.ticksSince? b)).map duration
  | duration a, duration b => (orFault (.overflow .sub) (Word.sub? a b)).map duration
  | _, _ => arithmetic .sub left right

/-- An operator that is neither a comparison nor logical, on two values that are present. -/
def combine (op : BinaryOp) (left right : Value) : Result Value :=
  match op, left, right with
  | .concat, _, _ => .ok (text (left.plainText ++ right.plainText))
  | .add, text a, _ => .ok (text (a ++ right.plainText))
  | .add, _, text b => .ok (text (left.plainText ++ b))
  | .add, _, _ => addValues left right
  | .sub, _, _ => subValues left right
  | .bitAnd, bool a, bool b => .ok (bool (a && b))
  | .bitOr, bool a, bool b => .ok (bool (a || b))
  | _, _, _ => arithmetic op left right

/-- Whether an order satisfies a comparison. -/
def ordered (op : BinaryOp) (o : Ordering) : Bool :=
  match op with
  | .lt => o.isLT
  | .le => o.isLE
  | .gt => o.isGT
  | _ => o.isGE

def binary (op : BinaryOp) (left right : Value) : Result Value :=
  match op with
  | .eq => .ok (bool (left.nullSafeEq right))
  | .ne => .ok (bool (!left.nullSafeEq right))
  | .coalesce => .ok (if left.isNull then right else left)
  | .and => .ok (bool (left.isTrue && right.isTrue))
  | .or => .ok (bool (left.isTrue || right.isTrue))
  | op =>
    if left.isNull || right.isNull then .ok (if op.isComparison then bool false else null)
    else if op.isComparison then
      (orFault (.incomparable left right) (left.compare? right)).map fun o => bool (ordered op o)
    else combine op left right

def unary (op : UnaryOp) (v : Value) : Result Value :=
  match op, v with
  | _, null => .ok null
  | .not, v => .ok (bool (!v.isTrue))
  | .negate, int n => (orFault .negationOverflow (Word.neg? n)).map int
  | .negate, float x => .ok (float (-x))
  | .negate, decimal d => .ok (decimal d.neg)
  | .negate, duration ticks => (orFault .negationOverflow (Word.neg? ticks)).map duration
  | .negate, v => .error (.evaluation (.cannotNegate v))

end Relational.Value

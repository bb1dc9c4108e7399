import Relational.Number.Power

/-!
# Words of 64 bits

Integers of the program are words: an exact result that does not fit is no result. Every arithmetic
step is taken on the mathematical integers and brought back by `Word.ofInt?`, so nothing wraps.
-/

namespace Relational.Word

/-- The integers that a signed word of 64 bits holds. -/
def Fits (n : Int) : Prop := -(pow2 63 : Int) ≤ n ∧ n < (pow2 63 : Int)

instance (n : Int) : Decidable (Fits n) := inferInstanceAs (Decidable (_ ∧ _))

/-- The word with this value, if there is one. -/
def ofInt? (n : Int) : Option Int64 := if Fits n then some (Int64.ofInt n) else none

/-- The nearest word: what lies beyond an end becomes that end. -/
def saturate (n : Int) : Int64 :=
  if n < -(pow2 63 : Int) then Int64.minValue else if (pow2 63 : Int) ≤ n then Int64.maxValue else Int64.ofInt n

def add? (a b : Int64) : Option Int64 := ofInt? (a.toInt + b.toInt)

def sub? (a b : Int64) : Option Int64 := ofInt? (a.toInt - b.toInt)

def mul? (a b : Int64) : Option Int64 := ofInt? (a.toInt * b.toInt)

/-- Quotient toward zero; the divisor is not zero. -/
def div? (a b : Int64) : Option Int64 := ofInt? (a.toInt.tdiv b.toInt)

/-- Remainder with the sign of the dividend, where the quotient fits; the divisor is not zero. -/
def rem? (a b : Int64) : Option Int64 :=
  (ofInt? (a.toInt.tdiv b.toInt)).bind fun _ => ofInt? (a.toInt.tmod b.toInt)

def neg? (a : Int64) : Option Int64 := ofInt? (-a.toInt)

def abs? (a : Int64) : Option Int64 := ofInt? a.toInt.natAbs

/-- The value of a run of decimal digits; `none` if it is empty or holds another character. -/
def digitsValue? (cs : List Char) : Option Nat :=
  if cs.isEmpty || !cs.all Char.isDigit then none
  else some (cs.foldl (fun n c => 10 * n + (c.toNat - 48)) 0)

/-- An integer written with an optional sign. -/
def parseInt? (cs : List Char) : Option Int :=
  match cs with
  | '-' :: ds => (digitsValue? ds).map fun n => -(n : Int)
  | '+' :: ds => (digitsValue? ds).map fun n => (n : Int)
  | ds => (digitsValue? ds).map fun n => (n : Int)

end Relational.Word

import Relational.Number.Word

/-!
# Decimal numbers

A decimal is a sign, a mantissa of 96 bits and a scale, the number of its fraction digits, from 0 to 28.
The scale is kept when a decimal is written (`1.50`), and ignored when two are compared. A zero has a
sign of its own. Negation gives it, and so does a negative number that vanishes below the last fraction
digit when it comes from a double, an exponent or a product; whatever goes through `Decimal.of?`
has a positive zero.
-/

namespace Relational

structure Decimal where
  negative : Bool
  mantissa : Nat
  scale : Nat
  mantissa_lt : mantissa < pow2 96
  scale_le : scale ≤ 28
deriving DecidableEq

namespace Decimal

def zero : Decimal := ⟨false, 0, 0, by decide, by decide⟩

def isZero (d : Decimal) : Bool := d.mantissa == 0

/-- The decimal with these parts, if they are in range; a zero keeps its sign. -/
def signed? (negative : Bool) (mantissa scale : Nat) : Option Decimal :=
  if h : mantissa < pow2 96 ∧ scale ≤ 28 then some ⟨negative, mantissa, scale, h.1, h.2⟩ else none

/-- The decimal with these parts, if they are in range; a zero is positive. -/
def of? (negative : Bool) (mantissa scale : Nat) : Option Decimal :=
  signed? (negative && mantissa != 0) mantissa scale

def ofWord (n : Int64) : Decimal where
  negative := n.toInt < 0
  mantissa := n.toInt.natAbs
  scale := 0
  mantissa_lt := by
    have low := n.le_toInt
    have high := n.toInt_lt
    have room : 9223372036854775808 < pow2 96 := by decide
    omega
  scale_le := by decide

/-- The value in units of `10 ^ -28`. -/
def units (d : Decimal) : Int :=
  let size : Int := (d.mantissa * pow10 (28 - d.scale) : Nat)
  if d.negative then -size else size

/-- Decimals compare by value. -/
def compare (a b : Decimal) : Ordering := Ord.compare a.units b.units

/-- The same number; a zero becomes positive. -/
def positiveZero (d : Decimal) : Decimal := { d with negative := d.negative && !d.isZero }

def neg (d : Decimal) : Decimal := { d with negative := !d.negative }

def abs (d : Decimal) : Decimal := { d with negative := false }

/-- The whole number left when the fraction is cut off, without its sign. -/
def wholePart (d : Decimal) : Nat := d.mantissa / pow10 d.scale

def isWhole (d : Decimal) : Bool := d.mantissa % pow10 d.scale == 0

/-- The whole part as a word, if it fits. -/
def toWord? (d : Decimal) : Option Int64 :=
  Word.ofInt? (if d.negative then -(d.wholePart : Int) else d.wholePart)

end Decimal

end Relational

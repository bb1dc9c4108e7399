import Relational.Number.Decimal.Basic
import Relational.Number.Double

/-!
# Decimals and doubles

A double becomes a decimal by moving its power of two into the mantissa. A positive power is multiplied out. As `2 ^ -1`
is `5 · 10 ^ -1`, each negative power halves an even mantissa or multiplies an odd one by five; a
mantissa of 96 bits that has no room for that loses its last bit instead. The number is then cut to 28
fraction digits and, unless all digits are wanted, to what a double of 52 bits guarantees, without
zeros at the end. A negative number that vanishes on the way is a negative zero.
-/

namespace Relational.Decimal

/-- Negative powers of two moved into the mantissa; the second number is the power of ten. -/
def absorbHalves : (count mantissa : Nat) → (power : Int) → Nat × Int
  | 0, mantissa, power => (mantissa, power)
  | count + 1, mantissa, power =>
    if mantissa % 2 == 0 then absorbHalves count (mantissa / 2) (power + 1)
    else if 5 * mantissa < pow2 96 then absorbHalves count (5 * mantissa) power
    else absorbHalves count (mantissa / 2) (power + 1)

/-- Fraction digits beyond the 28th, last one first, rounded up from 5; what vanishes is zero. -/
def cutFraction : (count mantissa : Nat) → (power : Int) → Nat × Int
  | 0, mantissa, power => (mantissa, power)
  | count + 1, mantissa, power =>
    if mantissa / 10 == 0 then (0, 0)
    else cutFraction count (mantissa / 10 + if 5 ≤ mantissa % 10 then 1 else 0) (power + 1)

/-- Fraction digits beyond what 52 bits guarantee, last one first, rounded up from 5. -/
def cutExcess : (count mantissa : Nat) → (power : Int) → Nat × Int
  | 0, mantissa, power => (mantissa, power)
  | count + 1, mantissa, power =>
    if power < 0 && pow2 52 ≤ mantissa then
      cutExcess count (mantissa / 10 + if 5 ≤ mantissa % 10 then 1 else 0) (power + 1)
    else (mantissa, power)

/-- Zeros at the end of the fraction. -/
def cutZeros : (count mantissa : Nat) → (power : Int) → Nat × Int
  | 0, mantissa, power => (mantissa, power)
  | count + 1, mantissa, power =>
    if power < 0 && mantissa % 10 == 0 then cutZeros count (mantissa / 10) (power + 1)
    else (mantissa, power)

/-- The decimal of a double: with `allDigits` every digit there is room for, also zeros at the end, else
those that a double guarantees. What is not finite or exceeds 96 bits has none. -/
def ofFloat? (allDigits : Bool) (x : Float) : Option Decimal := do
  let p ← Double.parts? x
  if p.mantissa == 0 then some { zero with negative := p.negative }
  else
    let (mantissa, power) :=
      if p.exponent < 0 then absorbHalves p.exponent.natAbs p.mantissa p.exponent
      else (p.mantissa * pow2 p.exponent.toNat, 0)
    let (mantissa, power) := cutFraction (-28 - power).toNat mantissa power
    let (mantissa, power) :=
      if allDigits then (mantissa, power)
      else
        let (mantissa, power) := cutExcess 28 mantissa power
        cutZeros 28 mantissa power
    signed? p.negative mantissa (-power).toNat

/-- The double of a decimal: a whole number directly, else the sum of whole part and fraction, with the
error of the sum rounded away at the scale. -/
def toFloat (d : Decimal) : Float :=
  let whole := Double.ofNat d.wholePart
  if d.scale == 0 then if d.negative && !d.isZero then -whole else whole
  else
    let fraction := Double.ofNat (d.mantissa % pow10 d.scale) / Double.ofNat (pow10 d.scale)
    let unit := Double.powTen d.scale
    let size := if d.isWhole then whole else ((whole + fraction) * unit).round / unit
    if d.negative then -size else size

end Relational.Decimal

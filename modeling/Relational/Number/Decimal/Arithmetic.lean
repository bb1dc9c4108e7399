import Relational.Number.Decimal.Basic
import Relational.Number.Double

/-!
# Arithmetic of decimals

Sums, products and remainders are computed exactly and then brought back into 96 bits and 28 fraction
digits by dropping fraction digits, halves to the even neighbour; what is still too large has no
result. Quotients grow digit group by digit group, up to nine digits at a time, until nothing
remains or no more digits fit.
-/

namespace Relational.Decimal

open Double (divNearestEven)

/-- The first number of digits, from `drop` on, whose removal leaves a mantissa of 96 bits. -/
def fitFrom? (negative : Bool) (size scale : Nat) : (tries drop : Nat) → Option Decimal
  | 0, _ => none
  | tries + 1, drop =>
    let mantissa := divNearestEven size (pow10 drop)
    if mantissa < pow2 96 then signed? negative mantissa (scale - drop)
    else fitFrom? negative size scale tries (drop + 1)

/-- `± size · 10 ^ -scale` as a decimal: no more than `scale` digits can be dropped. The sign stays, also
when all digits go. -/
def fit? (negative : Bool) (size scale : Nat) : Option Decimal :=
  let drop := scale - 28
  fitFrom? negative size scale (scale - drop + 1) drop

/-- The mantissa at a greater scale. -/
def mantissaAt (d : Decimal) (scale : Nat) : Nat := d.mantissa * pow10 (scale - d.scale)

def signedAt (d : Decimal) (scale : Nat) : Int :=
  if d.negative then -(d.mantissaAt scale : Int) else d.mantissaAt scale

/-- A zero operand gives the other one as it is; else the greater scale. -/
def add? (a b : Decimal) : Option Decimal :=
  if a.isZero then some b
  else if b.isZero then some a
  else
    let scale := max a.scale b.scale
    let sum := a.signedAt scale + b.signedAt scale
    fit? (sum < 0) sum.natAbs scale

def sub? (a b : Decimal) : Option Decimal :=
  if a.isZero then some (if b.isZero then b else b.neg) else add? a b.neg

/-- Whether a mantissa has 32 bits. -/
def isNarrow (d : Decimal) : Bool := d.mantissa < pow2 32

/-- A zero operand gives zero; else the scales add. A product that vanishes keeps its sign, but not one of
two narrow mantissas: that is a positive zero, beyond a scale of 47 one without fraction digits. -/
def mul? (a b : Decimal) : Option Decimal :=
  let scale := a.scale + b.scale
  let product := fit? (a.negative != b.negative) (a.mantissa * b.mantissa) scale
  if a.isZero || b.isZero then some zero
  else if a.isNarrow && b.isNarrow then if 47 < scale then some zero else product.map positiveZero
  else product

/-- The remainder has the sign of the dividend. A dividend that is smaller than the divisor is the result
as it stands. -/
def rem? (a b : Decimal) : Option Decimal :=
  let scale := max a.scale b.scale
  let m := a.mantissaAt scale
  let n := b.mantissaAt scale
  if b.isZero then none
  else if a.isZero || m == n then some zero
  else if m < n then some a
  else of? a.negative (m % n) scale

/-- The greatest power of ten, at most `power`, that a quotient can be multiplied by. -/
def roomFor (quotient : Nat) : Nat → Nat
  | 0 => 0
  | power + 1 => if quotient * pow10 (power + 1) < pow2 96 then power + 1 else roomFor quotient power

/-- How many more digits a quotient takes at a scale; `none` if that leaves the scale below zero. -/
def moreDigits? (quotient : Nat) (scale : Int) : Option Nat :=
  let power := roomFor quotient (min 9 (28 - scale).toNat)
  if power < 9 && power + scale < 0 then none else some power

/-- A quotient that grew past 96 bits gives up its last digit; `sticky` says that more followed it. -/
def giveUpDigit? (size : Nat) (scale : Int) (sticky : Bool) : Option (Nat × Int) :=
  if scale < 1 then none
  else
    let quotient := size / 10
    let last := size % 10
    let up := 5 < last || (last == 5 && (sticky || quotient % 2 == 1))
    some (if up then quotient + 1 else quotient, scale - 1)

/-- Long division by groups of digits: the quotient, the remainder and the scale so far. The last result
says whether there was ever a remainder. -/
def divideFrom? (divisor : Nat) :
    (steps quotient remainder : Nat) → (scale : Int) → (inexact : Bool) → Option (Nat × Int × Bool)
  | 0, _, _, _, _ => none
  | steps + 1, quotient, remainder, scale, inexact =>
    if remainder == 0 && 0 ≤ scale then some (quotient, scale, inexact)
    else do
      let power ← if remainder == 0 then some (min 9 (-scale).toNat) else moreDigits? quotient scale
      let inexact := inexact || remainder != 0
      if power == 0 then
        let up := divisor < 2 * remainder || (2 * remainder == divisor && quotient % 2 == 1)
        let quotient := if up then quotient + 1 else quotient
        if quotient < pow2 96 then some (quotient, scale, inexact)
        else do
          let (quotient, scale) ← giveUpDigit? quotient scale true
          some (quotient, scale, inexact)
      else if pow2 96 ≤ quotient * pow10 power then none
      else do
        let remainder := remainder * pow10 power
        let quotient := quotient * pow10 power + remainder / divisor
        let remainder := remainder % divisor
        let scale := scale + power
        if quotient < pow2 96 then divideFrom? divisor steps quotient remainder scale inexact
        else do
          let (quotient, scale) ← giveUpDigit? quotient scale (remainder != 0)
          some (quotient, scale, inexact)

/-- Eight zeros at a time taken off the end while the low 32 bits are clear. -/
def dropEights : (steps mantissa scale : Nat) → Nat × Nat
  | 0, mantissa, scale => (mantissa, scale)
  | steps + 1, mantissa, scale =>
    if mantissa % pow2 32 == 0 && 8 ≤ scale && mantissa % pow10 8 == 0 then
      dropEights steps (mantissa / pow10 8) (scale - 8)
    else (mantissa, scale)

/-- `count` zeros taken off the end, if that many low bits are clear and there are that many. -/
def dropZeros (count : Nat) (d : Nat × Nat) : Nat × Nat :=
  let (mantissa, scale) := d
  if mantissa % pow2 count == 0 && count ≤ scale && mantissa % pow10 count == 0 then
    (mantissa / pow10 count, scale - count)
  else (mantissa, scale)

/-- The end of an inexact quotient is freed of zeros by eights, then once by four, by two and by one. -/
def tidy (mantissa scale : Nat) : Nat × Nat :=
  dropZeros 1 (dropZeros 2 (dropZeros 4 (dropEights 4 mantissa scale)))

def div? (a b : Decimal) : Option Decimal :=
  if b.isZero then none
  else if a.isZero then some zero
  else do
    let (quotient, scale, inexact) ← divideFrom? b.mantissa 64 (a.mantissa / b.mantissa)
      (a.mantissa % b.mantissa) ((a.scale : Int) - b.scale) false
    let (mantissa, scale) := if inexact then tidy quotient scale.toNat else (quotient, scale.toNat)
    of? (a.negative != b.negative) mantissa scale

/-- Rounded to `places` fraction digits, halves to the even neighbour; a smaller scale stays, and so does
the sign of a zero. -/
def round (d : Decimal) (places : Nat) : Decimal :=
  if h : d.scale ≤ places then d
  else if d.isZero then { d with scale := places, scale_le := by have := d.scale_le; omega }
  else (of? d.negative (divNearestEven d.mantissa (pow10 (d.scale - places))) places).getD d

end Relational.Decimal

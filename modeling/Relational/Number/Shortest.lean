import Relational.Number.Double

/-!
# The fewest digits that read back

The reals that round to a double form an interval around it, closed when its mantissa is even. Of the
decimal numbers in that interval the one with the fewest digits is written; among those the nearest,
and of two equally near ones the greater. The search goes through the grids of 1, 2, … 17 digits and
tests the two neighbours of the value on each, in whole numbers.

Where the digits are put, and when an exponent is used, is for a `FloatStyle` to say.
-/

namespace Relational.Double

/-- `a · 2 ^ e` compared with `d · 10 ^ k` through whole numbers: both sides over a common denominator. -/
def scaled (a : Nat) (e : Int) (d : Nat) (k : Int) : Nat × Nat :=
  let left := a * pow2 e.toNat * pow10 (-k).toNat
  let right := d * pow10 k.toNat * pow2 (-e).toNat
  (left, right)

/-- `a · 2 ^ e < d · 10 ^ k`. -/
def binaryLt (a : Nat) (e : Int) (d : Nat) (k : Int) : Bool :=
  let (left, right) := scaled a e d k
  left < right

/-- `d · 10 ^ k < a · 2 ^ e`. -/
def decimalLt (d : Nat) (k : Int) (a : Nat) (e : Int) : Bool :=
  let (left, right) := scaled a e d k
  right < left

/-- The number of digits before the point: the `n` with `10 ^ (n - 1) ≤ m · 2 ^ q < 10 ^ n`. The
logarithm gives it within one. -/
def magnitude (m : Nat) (q : Int) : Int :=
  let guess := ((m.log2 : Int) + q) * 30103 / 100000
  if binaryLt m q 1 guess then guess
  else if binaryLt m q 1 (guess + 1) then guess + 1
  else guess + 2

/-- Whether `d · 10 ^ k` reads back as `m · 2 ^ q`. Below a power of two the gap is half as wide. -/
def readsBack (m : Nat) (q : Int) (d : Nat) (k : Int) : Bool :=
  let below := if m == pow2 52 && -1074 < q then 4 * m - 1 else 4 * m - 2
  let above := 4 * m + 2
  if m % 2 == 0 then !decimalLt d k below (q - 2) && !binaryLt above (q - 2) d k
  else binaryLt below (q - 2) d k && decimalLt d k above (q - 2)

/-- The digits on the grid of step `10 ^ k` that read back, if its two points next to the value do. -/
def onGrid? (m : Nat) (q k : Int) : Option Nat :=
  let (num, den) := scaled m q 1 k
  let d := num / den
  let up := readsBack m q (d + 1) k
  if readsBack m q d k then
    if up && den ≤ 2 * (num % den) then some (d + 1) else some d
  else if up then some (d + 1) else none

/-- The first grid with a hit, from `digits` digits on. -/
def searchGrids (m : Nat) (q size : Int) : (tries digits : Nat) → Nat × Int
  | 0, digits => (0, size - digits)
  | tries + 1, digits =>
    match onGrid? m q (size - digits) with
    | some d => (d, size - digits)
    | none => searchGrids m q size tries (digits + 1)

/-- The shortest decimal `digits · 10 ^ exponent` that reads back as `m · 2 ^ q`. -/
def shortest (m : Nat) (q : Int) : Nat × Int :=
  if m == 0 then (0, 0) else searchGrids m q (magnitude m q) 18 1

/-- How a double is written. -/
structure FloatStyle where
  /-- A whole number keeps a zero behind the point. -/
  pointZero : Bool
  /-- If given, a number takes an exponent from `10 ^ 16` up, and when its first digit comes after this many
  zeros behind the point. -/
  zerosBeforeExponent : Option Nat

/-- Plain numbers: never an exponent, no empty fraction. -/
def plain : FloatStyle := ⟨false, none⟩

/-- Numbers in the description of a value. -/
def descriptive : FloatStyle := ⟨true, some 4⟩

/-- Numbers in a document. -/
def inDocument : FloatStyle := ⟨true, some 5⟩

/-- Whether a number with its point after `size` digits takes an exponent. -/
def FloatStyle.usesExponent (style : FloatStyle) (size : Int) : Bool :=
  match style.zerosBeforeExponent with
  | some zeros => 16 < size || size ≤ -(zeros : Int)
  | none => false

/-- Trailing zeros moved into the exponent. -/
def stripZeros : (steps digits : Nat) → (exponent : Int) → Nat × Int
  | 0, digits, exponent => (digits, exponent)
  | steps + 1, digits, exponent =>
    if digits % 10 == 0 then stripZeros steps (digits / 10) (exponent + 1) else (digits, exponent)

def zeros (n : Nat) : String := String.ofList (List.replicate n '0')

/-- Digits with the point put where the exponent says. -/
def positional (pointZero : Bool) (digits : Nat) (exponent : Int) : String :=
  let text := Nat.repr digits
  if 0 ≤ exponent then text ++ zeros exponent.toNat ++ (if pointZero then ".0" else "")
  else
    let places := (-exponent).toNat
    if places < text.length then
      let cs := text.toList
      String.ofList (cs.take (cs.length - places)) ++ "." ++ String.ofList (cs.drop (cs.length - places))
    else "0." ++ zeros (places - text.length) ++ text

/-- One digit, the others behind a point, and the power of ten. -/
def scientific (digits : Nat) (exponent : Int) : String :=
  let cs := Nat.toDigits 10 digits
  let power := exponent + cs.length - 1
  let tail := String.ofList (cs.drop 1)
  String.ofList (cs.take 1) ++ (if tail.isEmpty then "" else "." ++ tail) ++ "e" ++ toString power

/-- The text of a double. -/
def FloatStyle.text (style : FloatStyle) (x : Float) : String :=
  match parts? x with
  | none => if x.isNaN then "NaN" else if x < 0.0 then "-inf" else "inf"
  | some p =>
    let (digits, exponent) := shortest p.mantissa p.exponent
    let (digits, exponent) := if digits == 0 then (0, 0) else stripZeros 20 digits exponent
    let size := (Nat.toDigits 10 digits).length + exponent
    let body :=
      if digits != 0 && style.usesExponent size then scientific digits exponent
      else positional style.pointZero digits exponent
    if p.negative then "-" ++ body else body

/-- The plain text of a double. -/
def text (x : Float) : String := plain.text x

end Relational.Double

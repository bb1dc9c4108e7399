import Relational.Number.Word

/-!
# Doubles as exact numbers

A finite double is a sign, a whole number below 2^53 and a power of two. This module takes doubles apart,
puts the nearest double to a quotient together, and builds on the two the operations that have to be
exact: the remainder, powers of ten, and doubles read from decimal text.
-/

namespace Relational.Double

/-- A finite double: `± mantissa · 2 ^ exponent`. -/
structure Parts where
  negative : Bool
  mantissa : Nat
  exponent : Int

/-- The parts of a double; `none` for infinities and for what is not a number. -/
def parts? (x : Float) : Option Parts :=
  let bits := x.toBits.toNat
  let negative := bits / pow2 63 == 1
  let biased : Nat := bits / pow2 52 % pow2 11
  let fraction : Nat := bits % pow2 52
  if biased == 2047 then none
  else if biased == 0 then some ⟨negative, fraction, -1074⟩
  else some ⟨negative, pow2 52 + fraction, (biased : Int) - 1075⟩

def infinity : Float := Float.ofBits 0x7FF0000000000000

def nan : Float := Float.ofBits 0x7FF8000000000000

/-- A quotient rounded to the nearest whole number, halves to the even neighbour. -/
def divNearestEven (num den : Nat) : Nat :=
  let q := num / den
  let twice := 2 * (num % den)
  if den < twice || (twice == den && q % 2 == 1) then q + 1 else q

/-- `num / den · 2 ^ -e` as a fraction of whole numbers. -/
def scaleBinary (num den : Nat) (e : Int) : Nat × Nat :=
  if 0 ≤ e then (num, den * pow2 e.toNat) else (num * pow2 (-e).toNat, den)

/-- The double nearest to `num / den`, halves to the even mantissa; `den` is not zero. A mantissa that
rounds up to 2^53 carries into the exponent of its own accord. -/
def ofRatio (num den : Nat) : Float :=
  if num == 0 then 0.0
  else
    let guess : Int := (num.log2 : Int) - den.log2 - 52
    let (n, d) := scaleBinary num den guess
    let exponent := max (if n / d < pow2 52 then guess - 1 else guess) (-1074)
    let (n, d) := scaleBinary num den exponent
    let bits := divNearestEven n d + (exponent + 1074).toNat * pow2 52
    if bits < 0x7FF0000000000000 then Float.ofBits bits.toUInt64 else infinity

def ofNat (n : Nat) : Float := ofRatio n 1

def ofInt (n : Int) : Float := if n < 0 then -ofNat n.natAbs else ofNat n.natAbs

/-- The double nearest to `digits · 10 ^ exponent`. Beyond the range of doubles no power is computed. -/
def ofDecimal (digits : Nat) (exponent : Int) : Float :=
  let size : Int := (Nat.toDigits 10 digits).length + exponent
  if digits == 0 then 0.0
  else if 311 < size then infinity
  else if size < -330 then 0.0
  else if 0 ≤ exponent then ofRatio (digits * pow10 exponent.toNat) 1
  else ofRatio digits (pow10 (-exponent).toNat)

/-- The exact remainder of a division whose quotient is cut toward zero; it has the sign of the dividend. -/
def rem (x y : Float) : Float :=
  match parts? x, parts? y with
  | some a, some b =>
    if b.mantissa == 0 then nan
    else if a.mantissa == 0 then x
    else
      let low := min a.exponent b.exponent
      let m := a.mantissa * pow2 (a.exponent - low).toNat
      let n := b.mantissa * pow2 (b.exponent - low).toNat
      let r := m % n
      let size := if 0 ≤ low then ofRatio (r * pow2 low.toNat) 1 else ofRatio r (pow2 (-low).toNat)
      if a.negative then -size else size
  | some _, none => if y.isNaN then nan else x
  | none, _ => nan

/-- `base ^ n` by repeated squaring, each product rounded; `steps` bounds the bits of `n`. -/
def powNat (steps : Nat) (base : Float) (n : Nat) (acc : Float) : Float :=
  match steps with
  | 0 => acc
  | steps + 1 =>
    let acc := if n % 2 == 1 then acc * base else acc
    if n / 2 == 0 then acc else powNat steps (base * base) (n / 2) acc

/-- `10 ^ n`; a negative power is the reciprocal of the positive one. -/
def powTen (n : Int) : Float :=
  let size := powNat 64 10.0 n.natAbs 1.0
  if n < 0 then 1.0 / size else size

/-- Cut toward zero to a word; beyond an end that end, and 0 for what is not a number. -/
def toWord (x : Float) : Int64 :=
  match parts? x with
  | some p =>
    let size := if 0 ≤ p.exponent then p.mantissa * pow2 p.exponent.toNat
      else p.mantissa / pow2 (-p.exponent).toNat
    Word.saturate (if p.negative then -(size : Int) else size)
  | none => if x.isNaN then 0 else if x < 0.0 then Int64.minValue else Int64.maxValue

/-- Whether a double is a whole number. -/
def isWhole (x : Float) : Bool :=
  match parts? x with
  | some p => 0 ≤ p.exponent || p.mantissa % pow2 (-p.exponent).toNat == 0
  | none => false

/-- Digits, an optional point among them, and an optional exponent, as `(digits, exponent)`. -/
def parseUnsigned? (cs : List Char) : Option (Nat × Int) :=
  let whole := cs.takeWhile Char.isDigit
  let rest := cs.dropWhile Char.isDigit
  let (fraction, rest) :=
    match rest with
    | '.' :: rest => (rest.takeWhile Char.isDigit, rest.dropWhile Char.isDigit)
    | rest => ([], rest)
  let exponent :=
    match rest with
    | [] => some 0
    | c :: ds => if c == 'e' || c == 'E' then Word.parseInt? ds else none
  match Word.digitsValue? (whole ++ fraction), exponent with
  | some digits, some e => some (digits, e - fraction.length)
  | _, _ => none

/-- A double from its text: a decimal number with an optional exponent, or the name of an infinity or
of what is not a number in any case of letters, each with an optional sign. -/
def parse? (cs : List Char) : Option Float :=
  let (negative, cs) :=
    match cs with
    | '-' :: cs => (true, cs)
    | '+' :: cs => (false, cs)
    | cs => (false, cs)
  let size :=
    match String.ofList (cs.map Char.toLower) with
    | "inf" | "infinity" => some infinity
    | "nan" => some nan
    | _ => (parseUnsigned? cs).map fun (digits, e) => ofDecimal digits e
  size.map fun x => if negative then -x else x

end Relational.Double

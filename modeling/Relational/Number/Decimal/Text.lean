import Relational.Number.Decimal.Basic

/-!
# The text of decimals

A decimal is written with exactly as many fraction digits as its scale says. Reading takes an optional
sign, digits with at most one point, and `_` after a digit; once 28 fraction digits are read, or the
mantissa is full, the next digit rounds (5 and above go up), and behind it only digits may follow. A
text with an exponent is a decimal without one, moved by up to 28 places.
-/

namespace Relational.Decimal

/-- `n` in at least `width` digits. -/
def padDigits (width n : Nat) : List Char :=
  let ds := Nat.toDigits 10 n
  List.replicate (width - ds.length) '0' ++ ds

def text (d : Decimal) : String :=
  let sign := if d.negative then "-" else ""
  let whole := Nat.repr (d.mantissa / pow10 d.scale)
  if d.scale == 0 then sign ++ whole
  else sign ++ whole ++ "." ++ String.ofList (padDigits d.scale (d.mantissa % pow10 d.scale))

/-- A full mantissa rounded by the digits behind it, of which the first one decides. -/
def roundOn? (negative : Bool) (mantissa scale : Nat) (rest : List Char) : Option Decimal :=
  let digits := rest.filter (· != '_')
  let up := digits.head?.any (5 ≤ ·.toNat - 48)
  if !digits.all Char.isDigit then none
  else if !up then of? negative mantissa scale
  else if mantissa + 1 < pow2 96 then of? negative (mantissa + 1) scale
  else if scale == 0 then none
  else of? negative ((mantissa + 5) / 10) (scale - 1)

/-- The digits of a decimal from left to right: whether the point and a digit have been met, the mantissa
and the scale so far. -/
def readDigits? (negative : Bool) : (point digit : Bool) → (mantissa scale : Nat) → List Char → Option Decimal
  | _, digit, mantissa, scale, [] => if digit then of? negative mantissa scale else none
  | point, digit, mantissa, scale, c :: cs =>
    if point && 28 ≤ scale then roundOn? negative mantissa scale (c :: cs)
    else if c.isDigit then
      let next := 10 * mantissa + (c.toNat - 48)
      if next < pow2 96 then readDigits? negative point true next (if point then scale + 1 else 0) cs
      else if point then roundOn? negative mantissa scale (c :: cs)
      else none
    else if c == '.' && !point then readDigits? negative true digit mantissa scale cs
    else if c == '_' && digit then readDigits? negative point digit mantissa scale cs
    else none

/-- A decimal without an exponent. -/
def parsePlain? (cs : List Char) : Option Decimal :=
  match cs with
  | '-' :: cs => readDigits? true false false 0 0 cs
  | '+' :: cs => readDigits? false false false 0 0 cs
  | cs => readDigits? false false false 0 0 cs

/-- The point moved to the right: the scale falls while it can, then the mantissa grows. -/
def movePointRight? (d : Decimal) (places : Nat) : Option Decimal :=
  if places ≤ d.scale then signed? d.negative d.mantissa (d.scale - places)
  else if 28 < places then none
  else of? d.negative (d.mantissa * pow10 (places - d.scale)) 0

/-- The point moved to the left: the scale rises while it can, then digits go, rounded up from 5. The sign
stays, also when nothing else does. -/
def movePointLeft? (d : Decimal) (places : Nat) : Option Decimal :=
  if 28 < places then none
  else if d.scale + places ≤ 28 then signed? d.negative d.mantissa (d.scale + places)
  else
    let unit := pow10 (d.scale + places - 28)
    signed? d.negative ((d.mantissa + unit / 2) / unit) 28

def isExponentMark (c : Char) : Bool := c == 'e' || c == 'E'

/-- A number of places, which may have a plus before it. -/
def places? : List Char → Option Nat
  | '+' :: ds => Word.digitsValue? ds
  | ds => Word.digitsValue? ds

/-- A decimal with an exponent. -/
def parseScientific? (cs : List Char) : Option Decimal := do
  let d ← parsePlain? (cs.takeWhile (!isExponentMark ·))
  match cs.dropWhile (!isExponentMark ·) with
  | [] => none
  | _ :: '-' :: es => d.movePointLeft? (← places? es)
  | _ :: es => d.movePointRight? (← places? es)

def parse? (s : String) : Option Decimal :=
  let cs := s.toList
  (parsePlain? cs).or (parseScientific? cs)

end Relational.Decimal

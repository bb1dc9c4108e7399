import Relational.Value.Arithmetic

/-!
# Conversion of values

A conversion changes the kind of a value where the target type asks for another one, and leaves it alone
where it has nothing to say. Absence converts to absence.
-/

namespace Relational.Value

/-- The variant at a position. -/
def variantAt (e : EnumTy) (n : Int64) : Result Value :=
  if n < 0 then .error (.conversion (.notOrdinal n e))
  else
    match e.variants[n.toInt.toNat]? with
    | some variant => .ok (enum variant)
    | none => .error (.conversion (.notOrdinal n e))

/-- The conversion of a number to a decimal. -/
def toDecimalOr (v : Value) : Result Value :=
  match v.toDecimal? with
  | some d => .ok (decimal d)
  | none => .error (.conversion (.notDecimal v))

def convert (t : Ty) (v : Value) : Result Value :=
  let target := t.nonNull
  match v with
  | null => .ok null
  | float x =>
    if target.isInteger then .ok (int (Double.toWord x))
    else if target = .decimal then toDecimalOr v
    else if target = .text then .ok (text v.plainText)
    else .ok v
  | decimal d =>
    if target.isInteger then
      match d.toWord? with
      | some n => .ok (int n)
      | none => .error (.conversion (.doesNotFit d target))
    else if target.isFloat then .ok (float d.toFloat)
    else if target = .text then .ok (text v.plainText)
    else .ok v
  | bool b =>
    if target.isInteger then .ok (int (if b then 1 else 0))
    else if target = .text then .ok (text v.plainText)
    else .ok v
  | int n =>
    if target.isFloat then .ok (float (Double.ofInt n.toInt))
    else
      match target with
      | .decimal => toDecimalOr v
      | .bool => .ok (bool (n != 0))
      | .enum e => variantAt e n
      | .text => .ok (text v.plainText)
      | _ => .ok v
  | text s => .ok (text s)
  | v => if target = .text then .ok (text v.plainText) else .ok v

end Relational.Value

import Relational.Error
import Relational.Text.Search

/-!
# Cells

A cell is what the database stores: nothing, an integer, a double, a text or bytes. A value becomes a cell
under the direction of its static type, and a cell can be written as a literal of SQL.
-/

namespace Relational

inductive Cell where
  | null
  | integer (n : Int64)
  | real (x : Float)
  | text (s : String)
  | blob (bytes : List UInt8)

/-- A byte in two upper-case hexadecimal digits. -/
def hexByte (b : UInt8) : List Char :=
  let digits := (Nat.toDigits 16 b.toNat).map Char.toUpper
  List.replicate (2 - digits.length) '0' ++ digits

/-- A cell as a literal: a double always shows that it is one, and quotes in a text are doubled. -/
def Cell.literal : Cell → String
  | null => "NULL"
  | integer n => toString n.toInt
  | real x =>
    let s := Double.text x
    if (Double.parts? x).isNone || s.toList.contains '.' then s else s ++ ".0"
  | text s => "'" ++ Text.replace "'" "''" s ++ "'"
  | blob bytes => "X'" ++ String.ofList (bytes.flatMap hexByte) ++ "'"

/-- The cell of a value. Integers become doubles where the type says so, and a variant of an enumeration
that is stored by position becomes its position. -/
def Value.toCell (t : Ty) : Value → Result Cell
  | .null => .ok .null
  | .bool b => .ok (.integer (if b then 1 else 0))
  | .int n => .ok (if t.isFloat || t.isDecimal then .real (Double.ofInt n.toInt) else .integer n)
  | .float x => .ok (.real x)
  | .decimal d => .ok (.real d.toFloat)
  | .text s => .ok (.text s)
  | .char c => .ok (.text c.toString)
  | .blob bytes => .ok (.blob bytes)
  | .timestamp s => .ok (.text s.text)
  | .duration ticks => .ok (.integer ticks)
  | .uuid u => .ok (.text u.text)
  | .enum variant =>
    match t.nonNull with
    | .enum e =>
      if e.storedAsText then .ok (.text variant)
      else
        match e.ordinal? variant with
        | some n => .ok (.integer (Int64.ofNat n))
        | none => .error (.conversion (.notVariant variant e))
    | _ => .ok (.text variant)
  | .record _ _ | .list _ | .group _ _ => .error (.conversion (.notColumn t))

end Relational

import Relational.Number.Decimal.Float
import Relational.Time.Timestamp
import Relational.Uuid
import Relational.Ty

/-!
# Values

A value of any type: what a constant holds, what a parameter is bound to, and what the rows of a result
are made of. Records keep their fields in order, and a name may occur twice: the first one is found.
-/

namespace Relational

inductive Value where
  | null
  | bool (b : Bool)
  | int (n : Int64)
  | float (x : Float)
  | decimal (d : Decimal)
  | text (s : String)
  | char (c : Char)
  | blob (bytes : List UInt8)
  | timestamp (t : Timestamp)
  | duration (ticks : Int64)
  | uuid (u : Uuid)
  | enum (variant : String)
  | record (name : String) (fields : List (String × Value))
  | list (items : List Value)
  | group (key : Value) (elements : List Value)

namespace Value

instance : Inhabited Value := ⟨null⟩

def isNull : Value → Bool
  | null => true
  | _ => false

mutual

/-- The type of a value that stands for itself. A sequence is typed by its first element. -/
def naturalTy : Value → Ty
  | null => .nullable .unknown
  | bool _ => .bool
  | int _ => .i64
  | float _ => .f64
  | decimal _ => .decimal
  | text _ => .text
  | char _ => .char
  | blob _ => .blob
  | timestamp _ => .timestamp
  | duration _ => .duration
  | uuid _ => .uuid
  | enum variant => .enum ⟨variant, [variant], true⟩
  | record name fields => .record ⟨name, fieldTys fields⟩
  | list items => .sequence (firstTy items)
  | group key elements => .group key.naturalTy (firstTy elements)

def firstTy : List Value → Ty
  | [] => .unknown
  | v :: _ => v.naturalTy

def fieldTys : List (String × Value) → List (String × Ty)
  | [] => []
  | (name, v) :: fields => (name, v.naturalTy) :: fieldTys fields

end

/-- The value that stands for an absent one where the type has no room for absence. -/
def default : Ty → Value
  | .bool => bool false
  | .i8 | .i16 | .i32 | .i64 | .u8 | .u16 | .u32 | .u64 => int 0
  | .f32 | .f64 => float 0.0
  | .decimal => decimal Decimal.zero
  | .duration => duration 0
  | .uuid => uuid Uuid.nil
  | .enum e => (e.variants.head?.map enum).getD null
  | .sequence _ => list []
  | _ => null

def toBool? : Value → Option Bool
  | bool b => some b
  | int n => some (n != 0)
  | _ => none

/-- Absence and what is no truth value count as false. -/
def isTrue (v : Value) : Bool := v.toBool?.getD false

def toWord? : Value → Option Int64
  | int n => some n
  | bool b => some (if b then 1 else 0)
  | duration ticks => some ticks
  | float x => if Double.isWhole x then some (Double.toWord x) else none
  | decimal d => if d.isWhole then d.toWord? else none
  | _ => none

def toFloat? : Value → Option Float
  | int n => some (Double.ofInt n.toInt)
  | float x => some x
  | decimal d => some d.toFloat
  | _ => none

def toDecimal? : Value → Option Decimal
  | int n => some (Decimal.ofWord n)
  | float x => Decimal.ofFloat? false x
  | decimal d => some d
  | _ => none

def toText? : Value → Option String
  | text s => some s
  | enum variant => some variant
  | _ => none

/-- The first field of this name. -/
def lookup? (fields : List (String × Value)) (name : String) : Option Value :=
  (fields.find? (·.1 == name)).map (·.2)

end Value

end Relational

/-!
# Static types

Every expression has a type. It decides whether a value fits one column, how a parameter is stored, and
how a cell is read back. `nullable` says that a value may be absent; most questions about a type look
through it with `Ty.nonNull`.
-/

namespace Relational

/-- A declared set of variants, stored by name or by position. -/
structure EnumTy where
  name : String
  variants : List String
  storedAsText : Bool
deriving DecidableEq

/-- The position of a variant. -/
def EnumTy.ordinal? (e : EnumTy) (variant : String) : Option Nat := e.variants.findIdx? (· == variant)

mutual

inductive Ty where
  | bool
  | i8
  | i16
  | i32
  | i64
  | u8
  | u16
  | u32
  | u64
  | f32
  | f64
  | decimal
  | text
  | char
  | blob
  | timestamp
  /-- A count of ticks. -/
  | duration
  | uuid
  | enum (e : EnumTy)
  | nullable (base : Ty)
  | record (r : RecordTy)
  | sequence (element : Ty)
  | group (key element : Ty)
  /-- The type of what is not bound yet. -/
  | unknown

/-- A named list of typed fields. -/
structure RecordTy where
  name : String
  fields : List (String × Ty)

end

instance : Inhabited Ty := ⟨.unknown⟩

/-- The type of the first field of this name. -/
def RecordTy.field? (r : RecordTy) (name : String) : Option Ty := (r.fields.find? (·.1 == name)).map (·.2)

mutual

def Ty.beq : Ty → Ty → Bool
  | .bool, .bool | .i8, .i8 | .i16, .i16 | .i32, .i32 | .i64, .i64 | .u8, .u8 | .u16, .u16
  | .u32, .u32 | .u64, .u64 | .f32, .f32 | .f64, .f64 | .decimal, .decimal | .text, .text
  | .char, .char | .blob, .blob | .timestamp, .timestamp | .duration, .duration | .uuid, .uuid
  | .unknown, .unknown => true
  | .enum a, .enum b => a == b
  | .nullable a, .nullable b => a.beq b
  | .record a, .record b => a.beq b
  | .sequence a, .sequence b => a.beq b
  | .group k e, .group k' e' => k.beq k' && e.beq e'
  | _, _ => false

def RecordTy.beq : RecordTy → RecordTy → Bool
  | ⟨n, fs⟩, ⟨n', fs'⟩ => n == n' && Ty.beqFields fs fs'

def Ty.beqFields : List (String × Ty) → List (String × Ty) → Bool
  | [], [] => true
  | (n, t) :: fs, (n', t') :: fs' => n == n' && t.beq t' && Ty.beqFields fs fs'
  | _, _ => false

end

mutual

theorem Ty.eq_of_beq (a b : Ty) (h : a.beq b = true) : a = b := by
  cases a <;> cases b <;> simp_all [Ty.beq]
  case nullable.nullable a b => exact Ty.eq_of_beq a b h
  case record.record a b => exact RecordTy.eq_of_beq a b h
  case sequence.sequence a b => exact Ty.eq_of_beq a b h
  case group.group k e k' e' => exact ⟨Ty.eq_of_beq k k' h.1, Ty.eq_of_beq e e' h.2⟩

theorem RecordTy.eq_of_beq (a b : RecordTy) (h : a.beq b = true) : a = b := by
  cases a with
  | mk n fs =>
    cases b with
    | mk n' fs' =>
      simp only [RecordTy.beq, Bool.and_eq_true, beq_iff_eq] at h
      simp [h.1, Ty.fields_eq_of_beq fs fs' h.2]

theorem Ty.fields_eq_of_beq (fs fs' : List (String × Ty)) (h : Ty.beqFields fs fs' = true) : fs = fs' := by
  match fs, fs' with
  | [], [] => rfl
  | [], _ :: _ => simp [Ty.beqFields] at h
  | _ :: _, [] => simp [Ty.beqFields] at h
  | (n, t) :: fs, (n', t') :: fs' =>
    simp only [Ty.beqFields, Bool.and_eq_true, beq_iff_eq] at h
    simp [h.1.1, Ty.eq_of_beq t t' h.1.2, Ty.fields_eq_of_beq fs fs' h.2]

end

mutual

theorem Ty.beq_refl (a : Ty) : a.beq a = true := by
  cases a <;> simp [Ty.beq]
  case nullable a => exact Ty.beq_refl a
  case record r => exact RecordTy.beq_refl r
  case sequence a => exact Ty.beq_refl a
  case group k e => exact ⟨Ty.beq_refl k, Ty.beq_refl e⟩

theorem RecordTy.beq_refl (a : RecordTy) : a.beq a = true := by
  cases a with
  | mk n fs => simp [RecordTy.beq, Ty.beqFields_refl fs]

theorem Ty.beqFields_refl (fs : List (String × Ty)) : Ty.beqFields fs fs = true := by
  match fs with
  | [] => rfl
  | (n, t) :: fs => simp [Ty.beqFields, Ty.beq_refl t, Ty.beqFields_refl fs]

end

instance : DecidableEq Ty := fun a b =>
  if h : a.beq b = true then .isTrue (a.eq_of_beq b h)
  else .isFalse fun e => h (e ▸ a.beq_refl)

instance : DecidableEq RecordTy := fun a b =>
  if h : a.beq b = true then .isTrue (a.eq_of_beq b h)
  else .isFalse fun e => h (e ▸ a.beq_refl)

namespace Ty

/-- Whether a value of this type fits one column. -/
def isColumn : Ty → Bool
  | nullable base => base.isColumn
  | record _ | sequence _ | group _ _ | unknown => false
  | _ => true

def isNullable : Ty → Bool
  | nullable _ => true
  | _ => false

/-- The type without any `nullable` around it. -/
def nonNull : Ty → Ty
  | nullable base => base.nonNull
  | t => t

/-- The type with `nullable` around it, once. -/
def orNull : Ty → Ty
  | nullable base => nullable base
  | t => nullable t

/-- `t` made nullable if `source` is. -/
def orNullLike (source t : Ty) : Ty := if source.isNullable then t.orNull else t

def isInteger (t : Ty) : Bool :=
  match t.nonNull with
  | i8 | i16 | i32 | i64 | u8 | u16 | u32 | u64 => true
  | _ => false

def isFloat (t : Ty) : Bool :=
  match t.nonNull with
  | f32 | f64 => true
  | _ => false

def isDecimal (t : Ty) : Bool := t.nonNull == decimal

def isTimestamp (t : Ty) : Bool := t.nonNull == timestamp

def isNumeric (t : Ty) : Bool := t.isInteger || t.isFloat || t.isDecimal

def isText (t : Ty) : Bool :=
  match t.nonNull with
  | text | char => true
  | _ => false

def isSequence (t : Ty) : Bool :=
  match t.nonNull with
  | sequence _ | group _ _ => true
  | _ => false

/-- The type of the elements of a sequence or a group. -/
def element? (t : Ty) : Option Ty :=
  match t.nonNull with
  | sequence element => some element
  | group _ element => some element
  | _ => none

/-- The storage class that a cast names. -/
def storageName (t : Ty) : String :=
  match t.nonNull with
  | bool | i8 | i16 | i32 | i64 | u8 | u16 | u32 | u64 | duration => "INTEGER"
  | f32 | f64 | decimal => "REAL"
  | blob => "BLOB"
  | enum e => if e.storedAsText then "TEXT" else "INTEGER"
  | _ => "TEXT"

/-- The type of arithmetic on two operands: a decimal beside anything is a decimal, a float beside an
integer a float, and two different integers make the widest. -/
def promote (left right : Ty) : Ty :=
  let l := left.nonNull
  let r := right.nonNull
  let base :=
    if l = r then l
    else if l.isDecimal || r.isDecimal then decimal
    else if l.isFloat || r.isFloat then f64
    else if l.isInteger && r.isInteger then i64
    else l
  if left.isNullable || right.isNullable then base.orNull else base

/-- The name of a type in messages. -/
def name : Ty → String
  | bool => "bool"
  | i8 => "i8"
  | i16 => "i16"
  | i32 => "i32"
  | i64 => "i64"
  | u8 => "u8"
  | u16 => "u16"
  | u32 => "u32"
  | u64 => "u64"
  | f32 => "f32"
  | f64 => "f64"
  | decimal => "decimal"
  | text => "text"
  | char => "char"
  | blob => "blob"
  | timestamp => "datetime"
  | duration => "duration"
  | uuid => "uuid"
  | enum e => "enum " ++ e.name
  | nullable base => base.name ++ "?"
  | record r => r.name
  | sequence element => "[" ++ element.name ++ "]"
  | group key element => "group<" ++ key.name ++ ", " ++ element.name ++ ">"
  | unknown => "?"

/-- Members of a timestamp. -/
def timestampMembers : List (String × Ty) :=
  [("Year", i32), ("Month", i32), ("Day", i32), ("Hour", i32), ("Minute", i32), ("Second", i32),
    ("Millisecond", i32), ("DayOfWeek", i32), ("DayOfYear", i32), ("Date", timestamp),
    ("TimeOfDay", duration)]

/-- Members of a duration. -/
def durationMembers : List (String × Ty) :=
  [("Ticks", i64), ("Days", i32), ("Hours", i32), ("Minutes", i32), ("Seconds", i32),
    ("Milliseconds", i32), ("TotalDays", f64), ("TotalHours", f64), ("TotalMinutes", f64),
    ("TotalSeconds", f64), ("TotalMilliseconds", f64)]

/-- Members of a scalar type. -/
def scalarMembers : Ty → List (String × Ty)
  | text => [("Length", i32)]
  | timestamp => timestampMembers
  | duration => durationMembers
  | _ => []

/-- The type of a member: a field of a record, the key of a group, the two members of every nullable
type, else what the scalar type has, nullable if the target is. -/
def member? (target : Ty) (name : String) : Option Ty :=
  let scalar :=
    if target.isNullable && name == "HasValue" then some bool
    else if target.isNullable && name == "Value" then some target.nonNull
    else (target.nonNull.scalarMembers.lookup name).map target.orNullLike
  match target.nonNull with
  | record r => r.field? name
  | group key _ => if name == "Key" then some key else scalar
  | _ => scalar

end Ty

end Relational

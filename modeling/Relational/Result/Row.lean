import Relational.Value.Cell
import Relational.Value.Convert

/-!
# Rows

A statement answers with named columns and rows of cells. A cell is read as an integer, a double, a text or bytes, as far as
its content allows; a read under a static type gives a value. A cell that is null or not there reads
as absence, or as the default of a type that has no absence.
-/

namespace Relational

structure ResultSet where
  columns : List String
  rows : List (List Cell)

/-- One row, with the names of its columns. -/
structure Row where
  columns : List String
  cells : List Cell

/-- The text of bytes in UTF-8. -/
def textOfBytes? (bytes : List UInt8) : Option String := String.fromUTF8? ⟨bytes.toArray⟩

/-- The bytes of a text in UTF-8. -/
def bytesOfText (s : String) : List UInt8 := s.toUTF8.data.toList

namespace Row

def cell (r : Row) (index : Nat) : Result Cell :=
  match r.cells[index]? with
  | some c => .ok c
  | none => .error (.database (.columnRange index))

def isNull (r : Row) (index : Nat) : Bool :=
  match r.cell index with
  | .ok .null | .error _ => true
  | .ok _ => false

/-- The result of a read, or the fault that the cell is not of the wanted kind. -/
def expect {α : Type} (r : Row) (index : Nat) (wanted : String) : Option α → Result α
  | some a => .ok a
  | none => .error (.conversion (.cellKind index (r.columns[index]?.getD "?") wanted))

def word (r : Row) (index : Nat) : Result Int64 := do
  r.expect index "an integer" <|
    match ← r.cell index with
    | .integer n => some n
    | .real x => some (Double.toWord x)
    | .text s => (Word.parseInt? (Text.trim s).toList).bind Word.ofInt?
    | _ => none

/-- An integer of 32 bits. -/
def shortWord (r : Row) (index : Nat) : Result Int64 := do
  let n ← r.word index
  r.expect index "a 32-bit integer" (if -(pow2 31 : Int) ≤ n.toInt && n.toInt < (pow2 31 : Int) then some n else none)

def double (r : Row) (index : Nat) : Result Float := do
  r.expect index "a number" <|
    match ← r.cell index with
    | .integer n => some (Double.ofInt n.toInt)
    | .real x => some x
    | .text s => Double.parse? (Text.trim s).toList
    | _ => none

def text (r : Row) (index : Nat) : Result String := do
  r.expect index "text" <|
    match ← r.cell index with
    | .text s => some s
    | .integer n => some (toString n.toInt)
    | .real x => some (Double.text x)
    | .blob bytes => textOfBytes? bytes
    | .null => none

def blob (r : Row) (index : Nat) : Result (List UInt8) := do
  r.expect index "a blob" <|
    match ← r.cell index with
    | .blob bytes => some bytes
    | .text s => some (bytesOfText s)
    | _ => none

/-- A decimal is read from its text, and as a double where that is no decimal. -/
def decimal (r : Row) (index : Nat) : Result Decimal := do
  let text ← r.text index
  let d? ←
    match Decimal.parse? (Text.trim text) with
    | some d => pure (some d)
    | none => do pure (Decimal.ofFloat? true (← r.double index))
  match d? with
  | some d => return d
  | none => throw (.conversion (.notDecimalText text))

/-- A cell that is not null, under a type that has no absence. -/
def readPresent (r : Row) (index : Nat) : Ty → Result Value
  | .bool => do return .bool ((← r.word index) == 1)
  | .i8 | .i16 | .i32 | .i64 | .u8 | .u16 | .u32 | .u64 => do return .int (← r.word index)
  | .f32 | .f64 => do return .float (← r.double index)
  | .decimal => do return .decimal (← r.decimal index)
  | .text | .unknown => do return .text (← r.text index)
  | .char => do return .char ((← r.text index).toList.head?.getD (Char.ofNat 0))
  | .blob => do return .blob (← r.blob index)
  | .timestamp => do
    let text ← r.text index
    match Timestamp.parse? text with
    | some t => return .timestamp t
    | none => throw (.conversion (.notTimestamp text))
  | .duration => do return .duration (← r.word index)
  | .uuid => do
    let text ← r.text index
    match Uuid.parse? text with
    | some u => return .uuid u
    | none => throw (.conversion (.notUuid text))
  | .enum e => do
    if e.storedAsText then return .enum (← r.text index)
    Value.variantAt e (← r.word index)
  | t => throw (.shape (.notOneCell t))

/-- The value of a cell under a type. -/
def read (r : Row) (index : Nat) (t : Ty) : Result Value :=
  if r.isNull index then .ok (if t.isNullable then .null else Value.default t)
  else r.readPresent index t.nonNull

end Row

/-- A place in a result: before the first row, on a row, or past the last one. -/
structure Cursor where
  result : ResultSet
  /-- The number of rows begun. -/
  position : Nat

namespace Cursor

def start (result : ResultSet) : Cursor := ⟨result, 0⟩

/-- Goes to the next row, and says whether there is one. -/
def step (c : Cursor) : Bool × Cursor :=
  let size := c.result.rows.length
  if c.position < size then (true, { c with position := c.position + 1 })
  else (false, { c with position := size + 1 })

/-- The row on which the cursor stands. -/
def row (c : Cursor) : Result Row :=
  match c.position with
  | 0 => .error (.database .notOnRow)
  | n + 1 =>
    match c.result.rows[n]? with
    | some cells => .ok ⟨c.result.columns, cells⟩
    | none => .error (.database .notOnRow)

/-- Off the rows everything is null. -/
def isNull (c : Cursor) (index : Nat) : Bool :=
  match c.row with
  | .ok r => r.isNull index
  | .error _ => true

/-- The value of a cell under a type; off the rows it is absent. -/
def read (c : Cursor) (index : Nat) (t : Ty) : Result Value :=
  match c.row with
  | .ok r => r.read index t
  | .error _ => (⟨c.result.columns, []⟩ : Row).read index t

end Cursor

def ResultSet.indexOf? (s : ResultSet) (name : String) : Option Nat := s.columns.findIdx? (· == name)

end Relational

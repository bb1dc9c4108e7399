import Relational.Json.Basic
import Relational.Number.Power

/-!
# Reading structures out of documents

A structure is an object with its field names, or an array with its fields in order. Fields that are not
known are ignored, a known one may stand only once. A choice is the name of the case alone, or
an object whose one member is the case with its content.
-/

namespace Relational.Json

def toBool? : Json → Option Bool
  | bool b => some b
  | _ => none

def toText? : Json → Option String
  | string s => some s
  | _ => none

/-- A whole number between two bounds. -/
def toIntIn? (low high : Int) : Json → Option Int
  | int n => if low ≤ n && n ≤ high then some n else none
  | _ => none

def toWord? (j : Json) : Option Int64 := (j.toIntIn? (-(pow2 63 : Int)) ((pow2 63 : Int) - 1)).map Int64.ofInt

def toNat? (high : Nat) (j : Json) : Option Nat := (j.toIntIn? 0 high).map Int.toNat

def toList? : Json → Option (List Json)
  | array items => some items
  | _ => none

def listOf? {α : Type} (read : Json → Option α) (j : Json) : Option (List α) := do
  (← j.toList?).mapM read

/-- Absent, or a value. -/
def optionOf? {α : Type} (read : Json → Option α) : Json → Option (Option α)
  | null => some none
  | j => (read j).map some

/-- An array of two. -/
def pairOf? {α β : Type} (first : Json → Option α) (second : Json → Option β) : Json → Option (α × β)
  | array [a, b] => do return (← first a, ← second b)
  | _ => none

/-- The fields of a structure. -/
structure Fields where
  members : List (String × Json)
  /-- Written as an array, where no field can be left out. -/
  positional : Bool

/-- The fields of a structure with these field names. -/
def fields? (names : List String) : Json → Option Fields
  | object members =>
    if names.any fun name => 1 < (members.filter (·.1 == name)).length then none
    else some ⟨members, false⟩
  | array items => if items.length ≤ names.length then some ⟨names.zip items, true⟩ else none
  | _ => none

namespace Fields

def get? (f : Fields) (name : String) : Option Json := f.members.lookup name

/-- A field that has to be there. -/
def read? {α : Type} (f : Fields) (name : String) (read : Json → Option α) : Option α :=
  (f.get? name).bind read

/-- A field that may be null or, in an object, missing. -/
def readOption? {α : Type} (f : Fields) (name : String) (read : Json → Option α) : Option (Option α) :=
  match f.get? name with
  | some j => optionOf? read j
  | none => if f.positional then none else some none

/-- A field with a value that it takes when it is missing. -/
def readOr? {α : Type} (f : Fields) (name : String) (missing : α) (read : Json → Option α) : Option α :=
  match f.get? name with
  | some j => read j
  | none => some missing

end Fields

/-- The case of a choice, with its content if it has one. -/
def case? : Json → Option (String × Option Json)
  | string name => some (name, none)
  | object [(name, content)] => some (name, some content)
  | _ => none

/-- The name of a case that has no content. -/
def bareCase? (j : Json) : Option String :=
  match j.case? with
  | some (name, none) => some name
  | some (name, some null) => some name
  | _ => none

/-- A case with its content. -/
def tagged (name : String) (content : Json) : Json := object [(name, content)]

def ofOption {α : Type} (write : α → Json) : Option α → Json
  | none => null
  | some a => write a

def ofStrings (items : List String) : Json := array (items.map string)

def ofNat (n : Nat) : Json := int n

end Relational.Json

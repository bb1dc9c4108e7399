import Relational.Json.Fields
import Relational.Json.Basic
import Relational.Number.Shortest
import Relational.Number.Decimal.Text
import Relational.Time.Layout
import Relational.Value.Cell

/-!
# The document forms of values

Every value has a form that names its kind and can be read back. `plainJson` is the form for display: numbers,
texts, arrays and objects without their kinds, in which of two fields of one name the last one
stays.
-/

namespace Relational

/-- A decimal is a text, or a number taken digit by digit. -/
def Decimal.ofJson? : Json → Option Decimal
  | .string s => Decimal.parse? s
  | .int n => Decimal.of? (n < 0) n.natAbs 0
  | .float x => Decimal.parse? (Double.text x)
  | _ => none

def Json.toFloat? : Json → Option Float
  | .int n => some (Double.ofInt n)
  | .float x => some x
  | _ => none

def Json.toChar? : Json → Option Char
  | .string s =>
    match s.toList with
    | [c] => some c
    | _ => none
  | _ => none

def Json.toBytes? (j : Json) : Option (List UInt8) := Json.listOf? (fun b => (b.toNat? 255).map Nat.toUInt8) j

def Json.ofWord (n : Int64) : Json := .int n.toInt

def Json.ofBytes (bytes : List UInt8) : Json := .array (bytes.map fun b => .ofNat b.toNat)

mutual

def Value.toJson : Value → Json
  | .null => .string "null"
  | .bool b => .tagged "bool" (.bool b)
  | .int n => .tagged "int" (.ofWord n)
  | .float x => .tagged "float" (.float x)
  | .decimal d => .tagged "decimal" (.string d.text)
  | .text s => .tagged "text" (.string s)
  | .char c => .tagged "char" (.string c.toString)
  | .blob bytes => .tagged "blob" (.ofBytes bytes)
  | .timestamp t => .tagged "date_time" (.string t.documentText)
  | .duration ticks => .tagged "duration" (.ofWord ticks)
  | .uuid u => .tagged "uuid" (.string u.text)
  | .enum variant => .tagged "enum" (.string variant)
  | .record name fields =>
    .tagged "record" (.object [("name", .string name), ("fields", .array (Value.fieldsToJson fields))])
  | .list items => .tagged "list" (.array (Value.itemsToJson items))
  | .group key elements =>
    .tagged "group" (.object [("key", key.toJson), ("elements", .array (Value.itemsToJson elements))])

def Value.itemsToJson : List Value → List Json
  | [] => []
  | v :: vs => v.toJson :: Value.itemsToJson vs

def Value.fieldsToJson : List (String × Value) → List Json
  | [] => []
  | (name, v) :: fields => .array [.string name, v.toJson] :: Value.fieldsToJson fields

end

def Value.read? : (fuel : Nat) → Json → Option Value
  | 0, _ => none
  | fuel + 1, j =>
    match j.case? with
    | some ("bool", some c) => c.toBool?.map .bool
    | some ("int", some c) => c.toWord?.map .int
    | some ("float", some c) => c.toFloat?.map .float
    | some ("decimal", some c) => (Decimal.ofJson? c).map .decimal
    | some ("text", some c) => c.toText?.map .text
    | some ("char", some c) => c.toChar?.map .char
    | some ("blob", some c) => c.toBytes?.map .blob
    | some ("date_time", some c) => (c.toText?.bind Timestamp.parseDocument?).map .timestamp
    | some ("duration", some c) => c.toWord?.map .duration
    | some ("uuid", some c) => (c.toText?.bind Uuid.parse?).map .uuid
    | some ("enum", some c) => c.toText?.map .enum
    | some ("record", some c) => do
      let f ← c.fields? ["name", "fields"]
      let name ← f.read? "name" Json.toText?
      return .record name (← f.read? "fields" (Json.listOf? (Json.pairOf? Json.toText? (Value.read? fuel))))
    | some ("list", some c) => (Json.listOf? (Value.read? fuel) c).map .list
    | some ("group", some c) => do
      let f ← c.fields? ["key", "elements"]
      let key ← f.read? "key" (Value.read? fuel)
      return .group key (← f.read? "elements" (Json.listOf? (Value.read? fuel)))
    | _ => if j.bareCase? = some "null" then some .null else none

def Value.ofJson? (j : Json) : Option Value := Value.read? (j.depth + 1) j

def Cell.toJson : Cell → Json
  | null => .string "Null"
  | integer n => .tagged "Integer" (.ofWord n)
  | real x => .tagged "Real" (.float x)
  | text s => .tagged "Text" (.string s)
  | blob bytes => .tagged "Blob" (.ofBytes bytes)

def Cell.ofJson? (j : Json) : Option Cell :=
  match j.case? with
  | some ("Integer", some c) => c.toWord?.map integer
  | some ("Real", some c) => c.toFloat?.map real
  | some ("Text", some c) => c.toText?.map text
  | some ("Blob", some c) => c.toBytes?.map blob
  | _ => if j.bareCase? = some "Null" then some null else none

/-- A member put into an object in place of one of the same name, or at the end. -/
def Json.put (members : List (String × Json)) (name : String) (j : Json) : List (String × Json) :=
  if members.any (·.1 == name) then members.map fun m => if m.1 == name then (name, j) else m
  else members ++ [(name, j)]

mutual

/-- A value for display. -/
def Value.plainJson : Value → Json
  | .null => .null
  | .bool b => .bool b
  | .int n => .ofWord n
  | .float x => if (Double.parts? x).isNone then .null else .float x
  | .decimal d => .string d.text
  | .text s => .string s
  | .char c => .string c.toString
  | .blob bytes => .ofBytes bytes
  | .timestamp t => .string t.text
  | .duration ticks => .ofWord ticks
  | .uuid u => .string u.text
  | .enum variant => .string variant
  | .record _ fields => .object (Value.plainFields [] fields)
  | .list items => .array (Value.plainItems items)
  | .group key elements =>
    .object [("key", key.plainJson), ("elements", .array (Value.plainItems elements))]

def Value.plainItems : List Value → List Json
  | [] => []
  | v :: vs => v.plainJson :: Value.plainItems vs

def Value.plainFields (members : List (String × Json)) : List (String × Value) → List (String × Json)
  | [] => members
  | (name, v) :: fields => Value.plainFields (Json.put members name v.plainJson) fields

end

end Relational

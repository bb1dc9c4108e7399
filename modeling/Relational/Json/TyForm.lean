import Relational.Json.Fields
import Relational.Ty

/-!
# The document form of types

A simple type is its name. The others are a case with its content. Reading goes down by the depth of the
document.
-/

namespace Relational

def EnumTy.toJson (e : EnumTy) : Json :=
  .object [("name", .string e.name), ("variants", .ofStrings e.variants),
    ("stored_as_text", .bool e.storedAsText)]

def EnumTy.ofJson? (j : Json) : Option EnumTy := do
  let f ← j.fields? ["name", "variants", "stored_as_text"]
  let name ← f.read? "name" Json.toText?
  let variants ← f.read? "variants" (Json.listOf? Json.toText?)
  return ⟨name, variants, ← f.readOr? "stored_as_text" false Json.toBool?⟩

/-- The types that are written by their name alone. -/
def Ty.simpleForms : List (String × Ty) :=
  [("bool", .bool), ("i8", .i8), ("i16", .i16), ("i32", .i32), ("i64", .i64), ("u8", .u8), ("u16", .u16),
    ("u32", .u32), ("u64", .u64), ("f32", .f32), ("f64", .f64), ("decimal", .decimal), ("text", .text),
    ("char", .char), ("blob", .blob), ("date_time", .timestamp), ("duration", .duration),
    ("uuid", .uuid), ("unknown", .unknown)]

mutual

def Ty.toJson : Ty → Json
  | .bool => .string "bool"
  | .i8 => .string "i8"
  | .i16 => .string "i16"
  | .i32 => .string "i32"
  | .i64 => .string "i64"
  | .u8 => .string "u8"
  | .u16 => .string "u16"
  | .u32 => .string "u32"
  | .u64 => .string "u64"
  | .f32 => .string "f32"
  | .f64 => .string "f64"
  | .decimal => .string "decimal"
  | .text => .string "text"
  | .char => .string "char"
  | .blob => .string "blob"
  | .timestamp => .string "date_time"
  | .duration => .string "duration"
  | .uuid => .string "uuid"
  | .unknown => .string "unknown"
  | .enum e => .tagged "enum" e.toJson
  | .nullable base => .tagged "nullable" base.toJson
  | .record r => .tagged "record" r.toJson
  | .sequence element => .tagged "sequence" element.toJson
  | .group key element => .tagged "group" (.object [("key", key.toJson), ("element", element.toJson)])

def RecordTy.toJson : RecordTy → Json
  | ⟨name, fields⟩ => .object [("name", .string name), ("fields", .array (Ty.fieldsToJson fields))]

def Ty.fieldsToJson : List (String × Ty) → List Json
  | [] => []
  | (name, t) :: fields => .array [.string name, t.toJson] :: Ty.fieldsToJson fields

end

mutual

def Ty.read? : (fuel : Nat) → Json → Option Ty
  | 0, _ => none
  | fuel + 1, j =>
    match j.case? with
    | some ("enum", some content) => (EnumTy.ofJson? content).map .enum
    | some ("nullable", some content) => (Ty.read? fuel content).map .nullable
    | some ("record", some content) => (RecordTy.read? fuel content).map .record
    | some ("sequence", some content) => (Ty.read? fuel content).map .sequence
    | some ("group", some content) => do
      let f ← content.fields? ["key", "element"]
      return .group (← f.read? "key" (Ty.read? fuel)) (← f.read? "element" (Ty.read? fuel))
    | _ => j.bareCase?.bind fun name => Ty.simpleForms.lookup name

def RecordTy.read? : (fuel : Nat) → Json → Option RecordTy
  | 0, _ => none
  | fuel + 1, j => do
    let f ← j.fields? ["name", "fields"]
    let name ← f.read? "name" Json.toText?
    return ⟨name, ← f.read? "fields" (Json.listOf? (Json.pairOf? Json.toText? (Ty.read? fuel)))⟩

end

def Ty.ofJson? (j : Json) : Option Ty := Ty.read? (j.depth + 1) j

def RecordTy.ofJson? (j : Json) : Option RecordTy := RecordTy.read? (j.depth + 1) j

end Relational

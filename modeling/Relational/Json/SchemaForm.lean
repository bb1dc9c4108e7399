import Relational.Compile
import Relational.Json.TreeForm
import Relational.Schema

/-!
# Schemas and options as documents

Everything but the names and types has a value that it takes when it is left out.
-/

namespace Relational

open Json

def SourceKind.toJson : SourceKind → Json
  | .table => .string "table"
  | .view => .string "view"

def ColumnSchema.ofJson? (j : Json) : Option ColumnSchema := do
  let f ← j.fields? ["name", "type", "nullable", "ignored"]
  return {
    name := ← f.read? "name" toText?
    ty := ← f.read? "type" Ty.ofJson?
    nullable := ← f.readOr? "nullable" false toBool?
    ignored := ← f.readOr? "ignored" false toBool? }

def ColumnSchema.toJson (c : ColumnSchema) : Json :=
  .object [("name", .string c.name), ("type", c.ty.toJson), ("nullable", .bool c.nullable),
    ("ignored", .bool c.ignored)]

def TableSchema.ofJson? (j : Json) : Option TableSchema := do
  let f ← j.fields? ["entity", "table", "kind", "columns"]
  return {
    entity := ← f.read? "entity" toText?
    table := ← f.readOr? "table" none (optionOf? toText?)
    kind := ← f.readOr? "kind" .table (named? SourceKind.forms)
    columns := ← f.readOr? "columns" [] (listOf? ColumnSchema.ofJson?) }

def TableSchema.toJson (s : TableSchema) : Json :=
  .object [("entity", .string s.entity), ("table", .ofOption .string s.table), ("kind", s.kind.toJson),
    ("columns", .array (s.columns.map ColumnSchema.toJson))]

def CompileOptions.ofJson? (j : Json) : Option CompileOptions := do
  let f ← j.fields? ["remove_redundant_subqueries", "remove_unused_columns", "simplify_aggregates"]
  return {
    removeRedundant := ← f.readOr? "remove_redundant_subqueries" true toBool?
    removeUnused := ← f.readOr? "remove_unused_columns" true toBool?
    simplifyAggregates := ← f.readOr? "simplify_aggregates" true toBool? }

end Relational

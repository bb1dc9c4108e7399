import Relational.Json.SchemaForm
import Relational.Toml.Reader

/-!
# Configurations

A configuration names a database, the options of the compiler and the entities. All of it can be left out.
-/

namespace Relational

open Json

structure Config where
  databaseUrl : Option String := none
  options : CompileOptions := {}
  tables : List TableSchema := []

namespace Config

def ofJson? (j : Json) : Option Config := do
  let f ← j.fields? ["database_url", "options", "tables"]
  return {
    databaseUrl := ← f.readOr? "database_url" none (optionOf? toText?)
    options := ← f.readOr? "options" {} CompileOptions.ofJson?
    tables := ← f.readOr? "tables" [] (listOf? TableSchema.ofJson?) }

/-- The configuration that a text gives. -/
def parse (text : String) : Result Config :=
  match (Toml.parse? text).bind ofJson? with
  | some c => .ok c
  | none => .error (.config (.malformed "the text is not a configuration"))

/-- Registers schemas, each entity once. -/
def registerAll (catalog : Catalog) : List TableSchema → Result Catalog
  | [] => .ok catalog
  | s :: ss =>
    if catalog.has s.entity then .error (.config (.declaredTwice s.entity))
    else registerAll (catalog.register s) ss

def catalog (c : Config) : Result Catalog := registerAll .empty c.tables

end Config

end Relational

import Relational.Error
import Relational.Tree.Basic

/-!
# Schemas

An entity is stored as a table or a view with typed columns. A catalog holds one schema for each entity, in the
order of the entities' names.
-/

namespace Relational

structure ColumnSchema where
  name : String
  ty : Ty
  nullable : Bool
  /-- Known to the entity, but not stored. -/
  ignored : Bool

/-- The type of a column with its nullability. -/
def ColumnSchema.columnTy (c : ColumnSchema) : Ty := if c.nullable then c.ty.orNull else c.ty

structure TableSchema where
  entity : String
  /-- The stored name, if it is not that of the entity. -/
  table : Option String
  kind : SourceKind
  columns : List ColumnSchema

namespace TableSchema

/-- A table of this entity without columns. -/
def ofEntity (entity : String) : TableSchema := ⟨entity, none, .table, []⟩

def storedName (s : TableSchema) : String := s.table.getD s.entity

def stored (s : TableSchema) : List ColumnSchema := s.columns.filter (!·.ignored)

/-- The record of the stored columns. -/
def recordTy (s : TableSchema) : RecordTy := ⟨s.entity, s.stored.map fun c => (c.name, c.columnTy)⟩

def addColumn (s : TableSchema) (c : ColumnSchema) : TableSchema := { s with columns := s.columns ++ [c] }

end TableSchema

structure Catalog where
  tables : List TableSchema

namespace Catalog

def empty : Catalog := ⟨[]⟩

/-- A schema put among others in order; one of the same entity gives way. -/
def insert (s : TableSchema) : List TableSchema → List TableSchema
  | [] => [s]
  | t :: ts =>
    match Ord.compare s.entity t.entity with
    | .lt => s :: t :: ts
    | .eq => s :: ts
    | .gt => t :: insert s ts

def register (c : Catalog) (s : TableSchema) : Catalog := ⟨insert s c.tables⟩

def ofList (schemas : List TableSchema) : Catalog := schemas.foldl register empty

def has (c : Catalog) (entity : String) : Bool := c.tables.any (·.entity == entity)

def get (c : Catalog) (entity : String) : Result TableSchema :=
  match c.tables.find? (·.entity == entity) with
  | some s => .ok s
  | none => .error (.unknownEntity entity)

end Catalog

end Relational

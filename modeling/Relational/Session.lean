import Relational.Compile
import Relational.Result.Reader

/-!
# Sessions

A session compiles queries, runs their statements and reads the rows. The database is whatever answers a statement and its
parameters with a result.
-/

namespace Relational

structure Executor (σ : Type) where
  execute : (sql : String) → (parameters : List Cell) → Execution σ ResultSet

def ResultSet.toRows (s : ResultSet) : List Row := s.rows.map (⟨s.columns, ·⟩)

/-- The value for a sequence without elements. -/
def emptyValue (orDefault : Bool) (t : Ty) : Result Value :=
  if orDefault then .ok (Value.default t) else .error .noElement

/-- What the rows of a projection amount to. -/
def collapse (t : Ty) (values : List Value) : Option Aggregator → Result Value
  | none => .ok (.list values)
  | some .scalar => .ok (values.head?.getD (Value.default t))
  | some (.first orDefault) =>
    match values with
    | v :: _ => .ok v
    | [] => emptyValue orDefault t
  | some (.single orDefault) =>
    match values with
    | [] => emptyValue orDefault t
    | [v] => .ok v
    | _ => .error .multipleElements

mutual

/-- How deep projections are nested in an expression. -/
def Expr.nesting : Expr → Nat
  | .projection p => p.nesting + 1
  | .binary _ l r => max l.nesting r.nesting
  | .unary _ x | .member x _ | .convert x _ => x.nesting
  | .call _ x args => max x.nesting (nestingAll args)
  | .conditional a b c => max a.nesting (max b.nesting c.nesting)
  | .record _ ms => nestingNamed ms
  | .function _ args _ => nestingAll args
  | .group key elements => max key.nesting elements.nesting
  | _ => 0

def nestingAll : List Expr → Nat
  | [] => 0
  | e :: es => max e.nesting (nestingAll es)

def nestingNamed : List Named → Nat
  | [] => 0
  | ⟨_, e⟩ :: ms => max e.nesting (nestingNamed ms)

def Projection.nesting : Projection → Nat
  | ⟨_, e, _⟩ => e.nesting

end

def Projection.reader (p : Projection) : Result Reader := p.projector.reader p.select.label p.select.columns

variable {σ : Type}

/-- Runs a projection in which others are nested less deep than `depth`. -/
def Executor.runNested (x : Executor σ) : (depth : Nat) → Projection → Execution σ Value
  | 0, _ => throw (.shape .computedProjector)
  | depth + 1, p => do
    let statement := p.select.statement
    let result ← x.execute (← statement.placeholderText) statement.parameters
    let reader ← p.reader
    let values ← result.toRows.mapM fun row => reader.read (x.runNested depth) row
    collapse p.projector.ty values p.aggregator

/-- Runs the statement of a projection and reads its result. -/
def Executor.run (x : Executor σ) (p : Projection) : Execution σ Value := x.runNested (p.nesting + 1) p

structure Session (σ : Type) where
  executor : Executor σ
  catalog : Catalog
  options : CompileOptions

/-- The whole result of a query: a list, or one value if the query asks for one. -/
def Session.fetch (s : Session σ) (q : Query) : Execution σ Value := do
  s.executor.run (← q.compile s.catalog s.options)

/-- Rows that are still to be read. -/
structure Rows where
  pending : List Row
  reader : Reader
  /-- How deep projections are nested in the one that is read. -/
  nesting : Nat

/-- The rows of a query that asks for a sequence, read one by one. -/
def Session.rows (s : Session σ) (q : Query) : Execution σ Rows := do
  let t ← q.toStatement s.catalog s.options
  if t.projection.aggregator.isSome then throw (.shape .terminalRows)
  let reader ← t.projection.reader
  let result ← s.executor.execute t.sql t.parameters
  return ⟨result.toRows, reader, t.projection.nesting⟩

/-- The next row, if there is one. After a fault there are no more. -/
def Rows.next (x : Executor σ) (rs : Rows) : StateM σ (Option (Result Value) × Rows) := do
  match rs.pending with
  | [] => return (none, rs)
  | row :: rest =>
    match ← (rs.reader.read (x.runNested rs.nesting) row).run with
    | .ok v => return (some (.ok v), { rs with pending := rest })
    | .error e => return (some (.error e), { rs with pending := [] })

end Relational

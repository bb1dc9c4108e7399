import Relational.Projection.Grouping
import Relational.Projection.Merging
import Relational.Projection.Ordering
import Relational.Projection.Pruning
import Relational.Projection.Scope
import Relational.Query.Binding
import Relational.Query.Folding
import Relational.Query.Parameters
import Relational.Sql.Statement

/-!
# Compiling a query

A query is folded, its literals become host parameters, and it is bound to the tables of a catalog. The projection that
comes out is brought into the form of one statement: orderings are placed, selects merged, aggregates
of groups simplified and unused columns dropped. Only the placing of orderings is needed for the right
answer; the other steps can be switched off.
-/

namespace Relational

structure CompileOptions where
  removeRedundant : Bool := true
  removeUnused : Bool := true
  simplifyAggregates : Bool := true
deriving DecidableEq

/-- Only the steps that the answer depends on. -/
def CompileOptions.minimal : CompileOptions := ⟨false, false, false⟩

/-- Merges selects, if the options say so. -/
def Projection.mergeIf (b : Bool) (p : Projection) : Projection := if b then p.simplifySelects else p

/-- A bound projection in the form of a statement. -/
def Projection.shape (options : CompileOptions) (p : Projection) : Projection :=
  let merged := p.order.mergeIf options.removeRedundant
  let simplified :=
    if options.simplifyAggregates then merged.simplifyAggregates.mergeIf options.removeRedundant else merged
  if options.removeUnused then simplified.dropUnused else simplified

/-- Binds a query, shapes the projection and checks its scopes. -/
def Query.bindAndShape (catalog : Catalog) (options : CompileOptions) (q : Query) : Result Projection := do
  let (bound, _) ← (q.bind catalog).run ⟨0⟩
  let p := bound.shape options
  p.check
  return p

/-- The projection of a query, with its literals as host parameters. -/
def Query.compile (catalog : Catalog) (options : CompileOptions) (q : Query) : Result Projection :=
  q.fold.parameterize.bindAndShape catalog options

/-- A statement with the cells of its parameters, and the projection that reads its rows. -/
structure CompiledStatement where
  sql : String
  parameters : List Cell
  projection : Projection

/-- The statement of a query. -/
def Query.toStatement (catalog : Catalog) (options : CompileOptions) (q : Query) : Result CompiledStatement := do
  let p ← q.compile catalog options
  let statement := p.select.statement
  return ⟨← statement.placeholderText, statement.parameters, p⟩

/-- Whether a projector only reads columns of its select that are columns of a source. -/
def Projection.isColumnMapping (p : Projection) : Bool :=
  let isMapped : Expr → Bool
    | .column c =>
      c.label = p.select.label && ((p.select.column? c.name).map (·.expr.isColumn)).getD false
    | _ => false
  match p.projector with
  | .record _ ms => ms.all (isMapped ·.expr)
  | e => isMapped e

/-- The body of a view: a statement without parameters, which shows plain columns. -/
def Query.viewText (catalog : Catalog) (q : Query) : Result String := do
  let p ← q.fold.bindAndShape catalog {}
  if p.aggregator.isSome || !p.isColumnMapping then throw (.shape .viewColumns)
  p.select.statement.literalText

end Relational

import Relational.Proofs.Compilation.Scalars
import Relational.Schema

/-!
# Running a query

What a query without nested queries means on its own: its combinators are functions on lists, applied to the records of a table.
Queries of this kind are built from a table by filters, projections, orderings and cuts
(`Query.Linear`). A sequence that is ordered and ordered further is sorted once, by all keys.
-/

namespace Relational

/-! ## Linear queries -/

/-- Expressions made of leaves by operators. -/
inductive Expr.Built (leaf node : Expr → Prop) : Expr → Prop where
  | leaf {e : Expr} (h : leaf e) : Built leaf node e
  | operator {e : Expr} (op : e.isOperator = true) (h : node e) (parts : ∀ x ∈ e.operands, Built leaf node x) :
    Built leaf node e

theorem Expr.Built.imp {leaf node leaf' node' : Expr → Prop} (hl : ∀ e, leaf e → leaf' e) (hn : ∀ e, node e → node' e)
    {e : Expr} (h : e.Built leaf node) : e.Built leaf' node' := by
  induction h with
  | leaf h => exact .leaf (hl _ h)
  | operator op h _ ih => exact .operator op (hn _ h) ih

/-- What a query may be made of. -/
structure Grammar where
  literal : Value → Ty → Prop
  operator : Expr → Prop
  entity : String → Prop

/-- Parameters and literals. -/
def Grammar.leaf (G : Grammar) : Expr → Prop
  | .param _ => True
  | .variable _ v t | .constant v t | .hostParameter v t => G.literal v t
  | _ => False

/-- A number of rows as a literal. -/
def Expr.count? : Expr → Option Nat
  | .constant (.int n) _ | .hostParameter (.int n) _ => if 0 ≤ n then some n.toInt.toNat else none
  | _ => none

/-- Built from a table by filters, projections, orderings and cuts. -/
inductive Query.Linear (G : Grammar) : Query → Prop where
  | table {entity : String} (h : G.entity entity) : Linear G (.table entity)
  | filter {q : Query} {l : Lambda} (source : Linear G q) (body : l.body.Built G.leaf G.operator) : Linear G (.filter q l)
  | project {q : Query} {l : Lambda} (source : Linear G q) (body : l.body.Built G.leaf G.operator) : Linear G (.project q l)
  | orderBy {q : Query} {l : Lambda} {descending : Bool} (source : Linear G q) (body : l.body.Built G.leaf G.operator) :
    Linear G (.orderBy q l descending)
  | thenBy {q : Query} {l : Lambda} {descending : Bool} (source : Linear G q) (body : l.body.Built G.leaf G.operator) :
    Linear G (.thenBy q l descending)
  | skip {q : Query} {e : Expr} (source : Linear G q) (count : e.count?.isSome = true) : Linear G (.skip q e)
  | take {q : Query} {e : Expr} (source : Linear G q) (count : e.count?.isSome = true) : Linear G (.take q e)

/-! ## Running -/

section

variable {D : Type} (I : Interpretation D) (db : Database D) (catalog : Catalog)

/-- A lambda of one parameter as a function. -/
def Lambda.apply (l : Lambda) (v : D) : D :=
  l.body.eval (I.withParam fun name => if l.params = [name] then v else I.null) db (fun _ _ => I.null) []

/-- The rows of an entity, as records of its stored columns. -/
def Catalog.records (entity : String) : List D :=
  match catalog.get entity with
  | .ok schema => (db.table schema.storedName).map fun row =>
      I.record ⟨entity, schema.recordTy.fields⟩ (schema.stored.map fun c => (c.name, row c.name))
  | .error _ => []

/-- The keys of an ordering, the first one first. -/
def Query.keys : Query → Criteria D D
  | .orderBy _ l descending => [(l.apply I db, descending)]
  | .thenBy q l descending => q.keys ++ [(l.apply I db, descending)]
  | _ => []

mutual

/-- The elements of a linear query. -/
def Query.run : Query → List D
  | .table entity => catalog.records I db entity
  | .filter q l => q.run.filter fun v => I.isTrue (l.apply I db v)
  | .project q l => q.run.map (l.apply I db)
  | .orderBy q l descending => q.run.mergeSort (inOrder I.le [(l.apply I db, descending)])
  | .thenBy q l descending => q.unordered.mergeSort (inOrder I.le (q.keys I db ++ [(l.apply I db, descending)]))
  | .skip q e => q.run.drop (e.count?.getD 0)
  | .take q e => q.run.take (e.count?.getD 0)
  | _ => []

/-- The elements that an ordering sorts. -/
def Query.unordered : Query → List D
  | .orderBy q _ _ => q.run
  | .thenBy q _ _ => q.unordered
  | _ => []

end

end

end Relational

import Relational.Tree.Collect
import Relational.Tree.PostOrder
import Relational.Tree.Substitution
import Relational.Tree.Same
import Relational.Tree.Traverse

/-!
# Aggregates of groups

The elements of a group are bound as a select of their own, tied to the group by its key, so an aggregate of them is at first
a subquery. If that subquery reads the table of the grouped select under the same filters and is tied to
every key, it is the aggregate of the group itself.
-/

namespace Relational

/-- The alias and the stored name of a table. -/
def Source.table? : Source → Option (Alias × String)
  | .table _ a _ name => some (a, name)
  | _ => none

def Select.table? (s : Select) : Option (Alias × String) := s.source.bind Source.table?

/-- Whether a select groups the rows of a table. -/
def Select.groupsTable (s : Select) : Bool := !s.groupBy.isEmpty && s.table?.isSome

def indexOf? (es : List Expr) (e : Expr) : Option Nat := es.findIdx? (·.same e)

/-- How a condition of a subquery is met in a group: as the equality of a key, or as a filter. -/
inductive Covered where
  | key (index : Nat)
  | filter (index : Nat)
deriving DecidableEq

/-- What a condition stands for in a group. `outerKey` gives the key that the outer side of an equality
stands for; `rename` brings the inner side to the table of the group. -/
def coveredBy (keys filters : List Expr) (outerKey : Expr → Option Expr) (rename : Expr → Expr)
    (condition : Expr) : Option Covered :=
  let keyOf (inner outer : Expr) : Option Nat := do
    let key ← outerKey outer
    let index ← indexOf? keys key
    if (rename inner).same key then some index else none
  let key :=
    match condition with
    | .binary .eq l r => (keyOf l r).or (keyOf r l)
    | _ => none
  match key with
  | some index => some (.key index)
  | none => (indexOf? filters (rename condition)).map .filter

def filterConjuncts (s : Select) : List Expr := (s.filter.map Expr.conjuncts).getD []

/-- The only column of a select that has no other clause than a filter. -/
def Select.soleColumn? (s : Select) : Option Expr :=
  match s.columns with
  | [c] =>
    if s.groupBy.isEmpty && s.having.isNone && s.orderBy.isEmpty && s.limit.isNone && s.offset.isNone &&
        !s.distinct then some c.expr
    else none
  | _ => none

/-- The aggregate of a group that a subquery stands for. -/
def groupAggregate? (sub group : Select) (outerKey : Expr → Option Expr) : Option Expr := do
  match ← sub.soleColumn? with
  | .aggregate kind argument distinct t =>
    let (inner, innerName) ← sub.table?
    let (outer, outerName) ← group.table?
    if innerName ≠ outerName then none
    else
      let rename := Expr.renameAlias inner outer
      let filters := filterConjuncts group
      let covered ← (filterConjuncts sub).mapM (coveredBy group.groupBy filters outerKey rename)
      let keysMet := (List.range group.groupBy.length).all fun i => covered.contains (.key i)
      let filtersMet := (List.range filters.length).all fun i => covered.contains (.filter i)
      let ownColumns := (argument.map fun e => e.referenced.all (· = inner)).getD true
      if keysMet && filtersMet && ownColumns then some (.aggregate kind (argument.map rename) distinct t)
      else none
  | _ => none

/-- Inside a grouped select, subqueries that are aggregates of its groups become those. Other subqueries
stay as they are. -/
def inlineAggregates (group : Select) : Substitution where
  expr
    | .subquery (.scalar sub t) =>
      let outerKey (e : Expr) : Option Expr := if (indexOf? group.groupBy e).isSome then some e else none
      some ((groupAggregate? sub group outerKey).getD (.subquery (.scalar sub t)))
    | .subquery s => some (.subquery s)
    | .query q => some (.query q)
    | _ => none

/-- The key that a column of a grouped select stands for. -/
def keyBehind (group : Select) : Expr → Option Expr
  | .column c =>
    if c.label = group.label then
      ((group.column? c.name).map (·.expr)).filter fun e => (indexOf? group.groupBy e).isSome
    else none
  | _ => none

/-- A column of a grouped select for an aggregate of its groups. -/
def aggregateColumn (e : Expr) (t : Ty) : StateM Select Expr := fun group =>
  match group.columns.find? (·.expr.same e) with
  | some c => (.column ⟨group.label, c.name, t⟩, group)
  | none =>
    let name := group.freshName ("c" ++ Nat.repr group.columns.length)
    (.column ⟨group.label, name, t⟩, { group with columns := group.columns ++ [⟨name, e⟩] })

/-- In a select over a grouped one, subqueries that are aggregates of its groups become columns of it. -/
def liftAggregates : Expr → Option (StateM Select Expr)
  | .subquery (.scalar sub t) => some fun group =>
    match groupAggregate? sub group (keyBehind group) with
    | some e => aggregateColumn e t group
    | none => (.subquery (.scalar sub t), group)
  | .subquery s => some (pure (.subquery s))
  | _ => none

/-- Aggregates of the groups of a select itself. -/
def Select.inlineOwn (s : Select) : Select :=
  if s.groupsTable then
    { s with
      columns := substituteNamed (inlineAggregates s) s.columns
      having := substituteOption (inlineAggregates s) s.having }
  else s

/-- Aggregates of the groups of the select that a select reads. -/
def Select.liftFromSource (s : Select) : Select :=
  match s.source with
  | some (.select group) =>
    if group.groupsTable then
      let run : StateM Select Select := do
        let columns ← traverseNamed liftAggregates s.columns
        let filter ← traverseOption liftAggregates s.filter
        let orderBy ← traverseKeys liftAggregates s.orderBy
        return { s with columns := columns, filter := filter, orderBy := orderBy }
      let (s, group) := run group
      { s with source := some (.select group) }
    else s
  | _ => s

def simplifyGroups : TreeChange := { select := fun s => s.inlineOwn.liftFromSource }

/-- A projection in which the aggregates of groups are no subqueries. -/
def Projection.simplifyAggregates (p : Projection) : Projection := p.inside simplifyGroups

end Relational

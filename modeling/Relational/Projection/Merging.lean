import Relational.Tree.Collect
import Relational.Tree.PostOrder
import Relational.Tree.Substitution
import Relational.Tree.Same

/-!
# Merging selects

A select that only hands on the columns of its source is removed, and a select that reads another one takes over its filter,
ordering and limit where that cannot change the result. In both cases the columns of the select that goes are
replaced by the expressions that they stand for.
-/

namespace Relational

/-- Every column is a column of the same name. -/
def Select.isSimple (s : Select) : Bool :=
  s.columns.all fun c =>
    match c.expr with
    | .column r => r.name == c.name
    | _ => false

/-- Every column refers by name to the column at its place in the select that is the source. -/
def Select.isNameMap (s : Select) : Bool :=
  match s.source with
  | some (.select inner) =>
    s.columns.length == inner.columns.length &&
      (s.columns.zip inner.columns).all fun (c, d) =>
        match c.expr with
        | .column r => r.name == d.name
        | _ => false
  | _ => false

/-- Every column is a column or a literal. -/
def Select.isColumnProjection (s : Select) : Bool := s.columns.all fun c => c.expr.isColumn || c.expr.isLiteral

/-- Whether a select does nothing but hand on columns of its source. -/
def Select.isRedundant (s : Select) : Bool :=
  (s.isSimple || s.isNameMap) && s.source.isSome && !s.distinct && s.filter.isNone && s.groupBy.isEmpty &&
    s.having.isNone && s.orderBy.isEmpty && s.limit.isNone && s.offset.isNone

/-- The redundant selects that a source shows, through joins. -/
def Source.redundant : Source → List Select
  | .select s => if s.isRedundant then [s] else []
  | .join _ l r _ => l.redundant ++ r.redundant
  | _ => []

/-- Columns replaced by what they stand for in the selects that go. What is put in may refer to columns of
other selects that go; there are no more steps than columns. -/
def removing (aliases : List Alias) (columns : ColumnMap) : (steps : Nat) → Substitution
  | 0 => { onColumns Expr.column with removes := aliases.contains }
  | steps + 1 =>
    { onColumns (fun c =>
        match columns.get? c.label c.name with
        | some e => e.substitute (removing aliases columns steps)
        | none => .column c) with
      removes := aliases.contains }

/-- The substitution that removes selects. -/
def removal (selects : List Select) : Substitution :=
  let columns : ColumnMap := (selects.map ColumnMap.ofSelect).reverse.flatten
  removing (selects.map (·.label)) columns columns.length

/-- A select without the redundant ones that it reads. -/
def Select.removeRedundant (s : Select) : Select :=
  match s.source.map Source.redundant with
  | some (r :: rs) => s.substitute (removal (r :: rs))
  | _ => s

/-- A projection without its own select, if that only hands on another one. -/
def Projection.removeRoot (p : Projection) : Projection :=
  match p.select.source with
  | some (.select inner) =>
    if p.select.isRedundant then
      let f := removal [p.select]
      ⟨inner.substitute f, p.projector.substitute f, p.aggregator⟩
    else p
  | _ => p

def removeRedundant : TreeChange := ⟨Select.removeRedundant, Projection.removeRoot⟩

/-- The select at the left end of a source. -/
def Source.leftmost? : Source → Option Select
  | .select s => some s
  | .join _ l _ _ => l.leftmost?
  | _ => none

/-- Whether the ordering of a select is that of the select it reads, seen through its columns. -/
def Select.restatesOrdering (s inner : Select) : Bool :=
  let f := removal [inner]
  s.orderBy.length == inner.orderBy.length &&
    (s.orderBy.zip inner.orderBy).all fun (o, i) =>
      o.descending == i.descending && (o.expr.substitute f).same i.expr

/-- Whether a select can take over the one at the left end of its source, without changing the rows to which a
filter, a limit, a removal of repetitions or an aggregate applies. -/
def Select.canAbsorb (topLevel : Bool) (s inner : Select) : Bool :=
  let orders := !s.orderBy.isEmpty && !s.restatesOrdering inner
  let groups := !s.groupBy.isEmpty
  let aggregates := s.hasAggregates
  let joins := match s.source with | some (.join _ _ _ _) => true | _ => false
  let filters := s.filter.isSome
  let innerOrders := !inner.orderBy.isEmpty
  let narrows := s.distinct || aggregates || groups || joins
  inner.isColumnProjection &&
    !(orders && innerOrders) &&
    !(innerOrders && (groups || aggregates || s.distinct)) &&
    inner.groupBy.isEmpty && inner.having.isNone &&
    !(inner.limit.isSome && (s.limit.isSome || s.offset.isSome || narrows || filters || orders)) &&
    !(inner.offset.isSome && (s.offset.isSome || narrows || filters || orders)) &&
    !(inner.distinct && (s.limit.isSome || s.offset.isSome || !s.isNameMap || groups || aggregates ||
      (orders && !topLevel) || joins)) &&
    !(inner.hasAggregates && (s.limit.isSome || s.offset.isSome || narrows || filters))

/-- A select with the one at the left end of its source taken over. -/
def Select.absorb (s inner : Select) : Select :=
  let merged := s.substitute (removal [inner])
  { merged with
    filter := Expr.conjunction (inner.filter.toList ++ merged.filter.toList)
    orderBy := if merged.orderBy.isEmpty then inner.orderBy else merged.orderBy
    groupBy := if merged.groupBy.isEmpty then inner.groupBy else merged.groupBy
    offset := merged.offset.or inner.offset
    limit := merged.limit.or inner.limit
    distinct := merged.distinct || inner.distinct }

/-- Takes over selects as long as it can; each one that is taken over is one source less. -/
def Select.absorbAll (topLevel : Bool) : (steps : Nat) → Select → Select
  | 0, s => s
  | steps + 1, s =>
    match s.source.bind Source.leftmost? with
    | some inner => if s.canAbsorb topLevel inner then absorbAll topLevel steps (s.absorb inner) else s
    | none => s

def Select.merge (topLevel : Bool) (s : Select) : Select :=
  s.absorbAll topLevel ((s.collect aliasedSources).length + 1)

def mergeSelects : TreeChange := { select := Select.merge false }

/-- A projection with its select and all others merged. Only the select of the whole counts as the top. -/
def Projection.merge (p : Projection) : Projection :=
  ⟨(p.select.inside mergeSelects).merge true, p.projector.inside mergeSelects, p.aggregator⟩

/-- A projection without redundant selects. -/
def Projection.simplifySelects (p : Projection) : Projection :=
  (removeRedundant.projection (p.inside removeRedundant)).merge

end Relational

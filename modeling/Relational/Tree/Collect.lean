import Relational.Tree.Basic

/-!
# Collecting from trees

`collect` goes through a tree and lists what it finds at columns, at selects and at sources. The order is that of
a statement's meaning: the source of a select before its filter, then columns, groups, orderings and
limits; a node before its parts. Queries that are not bound are not entered.
-/

namespace Relational

/-- What to list at each kind of node. -/
structure Collector (α : Type) where
  column : ColumnRef → List α
  select : Select → List α
  source : Source → List α

variable {α : Type}

mutual

def Expr.collect (c : Collector α) : Expr → List α
  | .param _ | .variable _ _ _ | .constant _ _ | .hostParameter _ _ | .query _ => []
  | .column r => c.column r
  | .binary _ l r => l.collect c ++ r.collect c
  | .unary _ x => x.collect c
  | .member x _ => x.collect c
  | .call _ x args => x.collect c ++ collectAll c args
  | .conditional test yes no => test.collect c ++ (yes.collect c ++ no.collect c)
  | .record _ ms => collectNamed c ms
  | .convert x _ => x.collect c
  | .aggregate _ x _ _ => collectOption c x
  | .subquery s => s.collect c
  | .function _ args _ => collectAll c args
  | .projection p => p.collect c
  | .group key elements => key.collect c ++ elements.collect c

def collectAll (c : Collector α) : List Expr → List α
  | [] => []
  | e :: es => e.collect c ++ collectAll c es

def collectOption (c : Collector α) : Option Expr → List α
  | none => []
  | some e => e.collect c

def collectNamed (c : Collector α) : List Named → List α
  | [] => []
  | ⟨_, e⟩ :: ms => e.collect c ++ collectNamed c ms

def collectKeys (c : Collector α) : List OrderKey → List α
  | [] => []
  | ⟨e, _⟩ :: ks => e.collect c ++ collectKeys c ks

def Subquery.collect (c : Collector α) : Subquery → List α
  | .scalar s _ => s.collect c
  | .exists s => s.collect c
  | .inSelect e s => e.collect c ++ s.collect c
  | .inValues e vs => e.collect c ++ collectAll c vs

def Source.collect (c : Collector α) (s : Source) : List α :=
  c.source s ++
    match s with
    | .table _ _ _ _ | .raw _ _ => []
    | .select s => s.collect c
    | .join _ l r condition => l.collect c ++ (r.collect c ++ collectOption c condition)

def collectSource (c : Collector α) : Option Source → List α
  | none => []
  | some s => s.collect c

def Select.collect (c : Collector α) (s : Select) : List α :=
  c.select s ++
    match s with
    | ⟨_, columns, source, filter, groupBy, having, orderBy, offset, limit, _⟩ =>
      collectSource c source ++ (collectOption c filter ++ (collectNamed c columns ++
        (collectAll c groupBy ++ (collectOption c having ++ (collectKeys c orderBy ++
          (collectOption c offset ++ collectOption c limit))))))

def Projection.collect (c : Collector α) : Projection → List α
  | ⟨s, e, _⟩ => s.collect c ++ e.collect c

end

/-- The references to columns. -/
def columnRefs : Collector ColumnRef := ⟨fun c => [c], fun _ => [], fun _ => []⟩

/-- The aliases of the sources and selects. -/
def declaredAliases : Collector Alias where
  column _ := []
  select s := [s.label]
  source
    | .table _ a _ _ | .raw a _ => [a]
    | _ => []

/-- The sources that have an alias. -/
def aliasedSources : Collector Alias := ⟨fun _ => [], fun _ => [], fun s => s.label?.toList⟩

/-- The aliases that columns refer to. -/
def Expr.referenced (e : Expr) : List Alias := (e.collect columnRefs).map (·.label)

def Projection.referenced (p : Projection) : List Alias := (p.collect columnRefs).map (·.label)

def Projection.declared (p : Projection) : List Alias := p.collect declaredAliases

/-- Whether a column of one of the aliases occurs. -/
def Expr.referencesAny (e : Expr) (aliases : List Alias) : Bool := aliases.any fun a => e.referenced.contains a

/-- The first alias beyond all that a projection declares. -/
def Projection.nextAlias (p : Projection) : Alias := ⟨(p.declared.map (·.id + 1)).foldl max 0⟩

mutual

/-- Whether an expression computes an aggregate of the select in which it stands. -/
def Expr.hasAggregate : Expr → Bool
  | .aggregate _ _ _ _ => true
  | .binary _ l r => l.hasAggregate || r.hasAggregate
  | .unary _ x | .member x _ | .convert x _ => x.hasAggregate
  | .call _ x args => x.hasAggregate || anyAggregate args
  | .conditional test yes no => test.hasAggregate || yes.hasAggregate || no.hasAggregate
  | .record _ ms => anyAggregateNamed ms
  | .function _ args _ => anyAggregate args
  | .group key elements => key.hasAggregate || elements.hasAggregate
  | _ => false

def anyAggregate : List Expr → Bool
  | [] => false
  | e :: es => e.hasAggregate || anyAggregate es

def anyAggregateNamed : List Named → Bool
  | [] => false
  | ⟨_, e⟩ :: ms => e.hasAggregate || anyAggregateNamed ms

end

/-- Whether a select computes aggregates of its own rows. -/
def Select.hasAggregates (s : Select) : Bool :=
  s.columns.any (·.expr.hasAggregate) || (s.having.map Expr.hasAggregate).getD false ||
    s.orderBy.any (·.expr.hasAggregate)

end Relational

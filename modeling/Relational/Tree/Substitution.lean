import Relational.Tree.Basic

/-!
# Substitution in trees

A substitution goes through a tree from the top. Where it gives an expression, that takes the place of the node, and
nothing below is looked at; where it gives none, the node is rebuilt from its parts after the substitution.
Nested queries are entered; a substitution that is to leave them alone returns them itself. It may
also remove selects from the places of sources: the source of such a select stands in its place.
-/

namespace Relational

structure Substitution where
  /-- The expression in place of this one, if it is not to be rebuilt from its parts. -/
  expr : Expr → Option Expr
  /-- Whether the select of this alias gives way to its own source. -/
  removes : Alias → Bool := fun _ => false

mutual

def Expr.substitute (f : Substitution) (e : Expr) : Expr :=
  match f.expr e with
  | some e' => e'
  | none =>
    match e with
    | .param name => .param name
    | .variable name v t => .variable name v t
    | .constant v t => .constant v t
    | .binary op l r => .binary op (l.substitute f) (r.substitute f)
    | .unary op x => .unary op (x.substitute f)
    | .member x name => .member (x.substitute f) name
    | .call m x args => .call m (x.substitute f) (substituteAll f args)
    | .conditional test yes no => .conditional (test.substitute f) (yes.substitute f) (no.substitute f)
    | .record r ms => .record r (substituteNamed f ms)
    | .convert x t => .convert (x.substitute f) t
    | .query q => .query (q.substitute f)
    | .column c => .column c
    | .hostParameter v t => .hostParameter v t
    | .aggregate kind x distinct t => .aggregate kind (substituteOption f x) distinct t
    | .subquery s => .subquery (s.substitute f)
    | .function name args t => .function name (substituteAll f args) t
    | .projection p => .projection (p.substitute f)
    | .group key elements => .group (key.substitute f) (elements.substitute f)

def substituteAll (f : Substitution) : List Expr → List Expr
  | [] => []
  | e :: es => e.substitute f :: substituteAll f es

def substituteOption (f : Substitution) : Option Expr → Option Expr
  | none => none
  | some e => some (e.substitute f)

def substituteNamed (f : Substitution) : List Named → List Named
  | [] => []
  | ⟨name, e⟩ :: ms => ⟨name, e.substitute f⟩ :: substituteNamed f ms

def substituteKeys (f : Substitution) : List OrderKey → List OrderKey
  | [] => []
  | ⟨e, descending⟩ :: ks => ⟨e.substitute f, descending⟩ :: substituteKeys f ks

def Subquery.substitute (f : Substitution) : Subquery → Subquery
  | .scalar s t => .scalar (s.substitute f) t
  | .exists s => .exists (s.substitute f)
  | .inSelect e s => .inSelect (e.substitute f) (s.substitute f)
  | .inValues e vs => .inValues (e.substitute f) (substituteAll f vs)

def Source.substitute (f : Substitution) : Source → Source
  | .table kind a entity name => .table kind a entity name
  | .raw a sql => .raw a sql
  | .select s =>
    if f.removes s.label then
      match s with
      | ⟨_, _, some source, _, _, _, _, _, _, _⟩ => source.substitute f
      | s => .select s
    else .select (s.substitute f)
  | .join kind l r condition => .join kind (l.substitute f) (r.substitute f) (substituteOption f condition)

def substituteSource (f : Substitution) : Option Source → Option Source
  | none => none
  | some s => some (s.substitute f)

def Select.substitute (f : Substitution) : Select → Select
  | ⟨a, columns, source, filter, groupBy, having, orderBy, offset, limit, distinct⟩ =>
    ⟨a, substituteNamed f columns, substituteSource f source, substituteOption f filter, substituteAll f groupBy,
      substituteOption f having, substituteKeys f orderBy, substituteOption f offset, substituteOption f limit,
      distinct⟩

def Projection.substitute (f : Substitution) : Projection → Projection
  | ⟨s, e, a⟩ => ⟨s.substitute f, e.substitute f, a⟩

def Lambda.substitute (f : Substitution) : Lambda → Lambda
  | ⟨params, body⟩ => ⟨params, body.substitute f⟩

def substituteLambda (f : Substitution) : Option Lambda → Option Lambda
  | none => none
  | some l => some (l.substitute f)

def Query.substitute (f : Substitution) : Query → Query
  | .table entity => .table entity
  | .view entity => .view entity
  | .raw entity sql => .raw entity sql
  | .memory values t => .memory values t
  | .of e => .of (e.substitute f)
  | .filter q l => .filter (q.substitute f) (l.substitute f)
  | .project q l => .project (q.substitute f) (l.substitute f)
  | .selectMany q l r => .selectMany (q.substitute f) (l.substitute f) (substituteLambda f r)
  | .join o i ok ik r => .join (o.substitute f) (i.substitute f) (ok.substitute f) (ik.substitute f) (r.substitute f)
  | .groupJoin o i ok ik r =>
    .groupJoin (o.substitute f) (i.substitute f) (ok.substitute f) (ik.substitute f) (r.substitute f)
  | .orderBy q l d => .orderBy (q.substitute f) (l.substitute f) d
  | .thenBy q l d => .thenBy (q.substitute f) (l.substitute f) d
  | .groupBy q key e r => .groupBy (q.substitute f) (key.substitute f) (substituteLambda f e) (substituteLambda f r)
  | .distinct q => .distinct (q.substitute f)
  | .skip q e => .skip (q.substitute f) (e.substitute f)
  | .take q e => .take (q.substitute f) (e.substitute f)
  | .cast q t => .cast (q.substitute f) t
  | .defaultIfEmpty q => .defaultIfEmpty (q.substitute f)
  | .aggregate q kind l => .aggregate (q.substitute f) kind (substituteLambda f l)
  | .elementAt q e d => .elementAt (q.substitute f) (e.substitute f) d
  | .first q l d => .first (q.substitute f) (substituteLambda f l) d
  | .single q l d => .single (q.substitute f) (substituteLambda f l) d
  | .any q l => .any (q.substitute f) (substituteLambda f l)
  | .all q l => .all (q.substitute f) (l.substitute f)
  | .contains q e => .contains (q.substitute f) (e.substitute f)
  | .reverse q => .reverse (q.substitute f)
  | .last q l d => .last (q.substitute f) (substituteLambda f l) d
  | .union l r => .union (l.substitute f) (r.substitute f)
  | .concat l r => .concat (l.substitute f) (r.substitute f)
  | .window q function => .window (q.substitute f) function

end

/-- A substitution for columns alone, which leaves nested queries as they are. -/
def onColumns (f : ColumnRef → Expr) : Substitution where
  expr
    | .column c => some (f c)
    | .query q => some (.query q)
    | _ => none

/-- Expressions for columns, by alias and name; of two for one column the later one holds. -/
abbrev ColumnMap := List ((Alias × String) × Expr)

namespace ColumnMap

def get? (m : ColumnMap) (a : Alias) (name : String) : Option Expr := m.lookup (a, name)

/-- The columns of a select, each with the expression that it declares. -/
def ofSelect (s : Select) : ColumnMap := (s.columns.map fun c => ((s.label, c.name), c.expr)).reverse

/-- A reference replaced by its expression, if there is one. -/
def replace (m : ColumnMap) (c : ColumnRef) : Expr := (m.get? c.label c.name).getD (.column c)

end ColumnMap

def Expr.replaceColumns (m : ColumnMap) (e : Expr) : Expr := e.substitute (onColumns m.replace)

def Projection.replaceColumns (m : ColumnMap) (p : Projection) : Projection := p.substitute (onColumns m.replace)

/-- A reference moved from one alias to another. -/
def ColumnRef.renamed (old new : Alias) (c : ColumnRef) : Expr :=
  .column (if c.label = old then { c with label := new } else c)

def Expr.renameAlias (old new : Alias) (e : Expr) : Expr := e.substitute (onColumns (ColumnRef.renamed old new))

end Relational

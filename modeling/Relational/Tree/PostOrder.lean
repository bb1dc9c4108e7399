import Relational.Tree.Basic

/-!
# Changing selects from the inside out

A change of selects and projections is applied to the innermost ones first, so that each one is looked at when its parts
have been changed already. `inside` changes the parts of a node and leaves the node itself to the
caller.
-/

namespace Relational

structure TreeChange where
  select : Select → Select
  projection : Projection → Projection := id

mutual

def Expr.inside (f : TreeChange) : Expr → Expr
  | .param name => .param name
  | .variable name v t => .variable name v t
  | .constant v t => .constant v t
  | .hostParameter v t => .hostParameter v t
  | .query q => .query q
  | .column c => .column c
  | .binary op l r => .binary op (l.inside f) (r.inside f)
  | .unary op x => .unary op (x.inside f)
  | .member x name => .member (x.inside f) name
  | .call m x args => .call m (x.inside f) (insideAll f args)
  | .conditional a b c => .conditional (a.inside f) (b.inside f) (c.inside f)
  | .record r ms => .record r (insideNamed f ms)
  | .convert x t => .convert (x.inside f) t
  | .aggregate kind x distinct t => .aggregate kind (insideOption f x) distinct t
  | .subquery s => .subquery (s.inside f)
  | .function name args t => .function name (insideAll f args) t
  | .projection p => .projection (f.projection (p.inside f))
  | .group key elements => .group (key.inside f) (elements.inside f)

def insideAll (f : TreeChange) : List Expr → List Expr
  | [] => []
  | e :: es => e.inside f :: insideAll f es

def insideOption (f : TreeChange) : Option Expr → Option Expr
  | none => none
  | some e => some (e.inside f)

def insideNamed (f : TreeChange) : List Named → List Named
  | [] => []
  | ⟨name, e⟩ :: ms => ⟨name, e.inside f⟩ :: insideNamed f ms

def insideKeys (f : TreeChange) : List OrderKey → List OrderKey
  | [] => []
  | ⟨e, descending⟩ :: ks => ⟨e.inside f, descending⟩ :: insideKeys f ks

def Subquery.inside (f : TreeChange) : Subquery → Subquery
  | .scalar s t => .scalar (f.select (s.inside f)) t
  | .exists s => .exists (f.select (s.inside f))
  | .inSelect e s => .inSelect (e.inside f) (f.select (s.inside f))
  | .inValues e vs => .inValues (e.inside f) (insideAll f vs)

def Source.inside (f : TreeChange) : Source → Source
  | .table kind a entity name => .table kind a entity name
  | .raw a sql => .raw a sql
  | .select s => .select (f.select (s.inside f))
  | .join kind l r condition => .join kind (l.inside f) (r.inside f) (insideOption f condition)

def insideSource (f : TreeChange) : Option Source → Option Source
  | none => none
  | some s => some (s.inside f)

def Select.inside (f : TreeChange) : Select → Select
  | ⟨a, columns, source, filter, groupBy, having, orderBy, offset, limit, distinct⟩ =>
    ⟨a, insideNamed f columns, insideSource f source, insideOption f filter, insideAll f groupBy,
      insideOption f having, insideKeys f orderBy, insideOption f offset, insideOption f limit, distinct⟩

def Projection.inside (f : TreeChange) : Projection → Projection
  | ⟨s, e, a⟩ => ⟨f.select (s.inside f), e.inside f, a⟩

end

end Relational

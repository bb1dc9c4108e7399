import Relational.Tree.Basic

/-!
# Substitution with a state

The counterpart of `substitute` for substitutions that remember what they have met. Parts are visited in the order
of `collect`: the source of a select before its filter, then columns, groups, orderings and limits.
Queries that are not bound are left alone.
-/

namespace Relational

variable {σ : Type}

mutual

def Expr.traverse (f : Expr → Option (StateM σ Expr)) (e : Expr) : StateM σ Expr :=
  match f e with
  | some m => m
  | none =>
    match e with
    | .param name => pure (.param name)
    | .variable name v t => pure (.variable name v t)
    | .constant v t => pure (.constant v t)
    | .hostParameter v t => pure (.hostParameter v t)
    | .query q => pure (.query q)
    | .column c => pure (.column c)
    | .binary op l r => do return .binary op (← l.traverse f) (← r.traverse f)
    | .unary op x => do return .unary op (← x.traverse f)
    | .member x name => do return .member (← x.traverse f) name
    | .call m x args => do return .call m (← x.traverse f) (← traverseAll f args)
    | .conditional a b c => do return .conditional (← a.traverse f) (← b.traverse f) (← c.traverse f)
    | .record r ms => do return .record r (← traverseNamed f ms)
    | .convert x t => do return .convert (← x.traverse f) t
    | .aggregate kind x distinct t => do return .aggregate kind (← traverseOption f x) distinct t
    | .subquery s => do return .subquery (← s.traverse f)
    | .function name args t => do return .function name (← traverseAll f args) t
    | .projection p => do return .projection (← p.traverse f)
    | .group key elements => do return .group (← key.traverse f) (← elements.traverse f)

def traverseAll (f : Expr → Option (StateM σ Expr)) : List Expr → StateM σ (List Expr)
  | [] => pure []
  | e :: es => do return (← e.traverse f) :: (← traverseAll f es)

def traverseOption (f : Expr → Option (StateM σ Expr)) : Option Expr → StateM σ (Option Expr)
  | none => pure none
  | some e => do return some (← e.traverse f)

def traverseNamed (f : Expr → Option (StateM σ Expr)) : List Named → StateM σ (List Named)
  | [] => pure []
  | ⟨name, e⟩ :: ms => do return ⟨name, ← e.traverse f⟩ :: (← traverseNamed f ms)

def traverseKeys (f : Expr → Option (StateM σ Expr)) : List OrderKey → StateM σ (List OrderKey)
  | [] => pure []
  | ⟨e, descending⟩ :: ks => do return ⟨← e.traverse f, descending⟩ :: (← traverseKeys f ks)

def Subquery.traverse (f : Expr → Option (StateM σ Expr)) : Subquery → StateM σ Subquery
  | .scalar s t => do return .scalar (← s.traverse f) t
  | .exists s => do return .exists (← s.traverse f)
  | .inSelect e s => do return .inSelect (← e.traverse f) (← s.traverse f)
  | .inValues e vs => do return .inValues (← e.traverse f) (← traverseAll f vs)

def Source.traverse (f : Expr → Option (StateM σ Expr)) : Source → StateM σ Source
  | .table kind a entity name => pure (.table kind a entity name)
  | .raw a sql => pure (.raw a sql)
  | .select s => do return .select (← s.traverse f)
  | .join kind l r c => do return .join kind (← l.traverse f) (← r.traverse f) (← traverseOption f c)

def traverseSource (f : Expr → Option (StateM σ Expr)) : Option Source → StateM σ (Option Source)
  | none => pure none
  | some s => do return some (← s.traverse f)

def Select.traverse (f : Expr → Option (StateM σ Expr)) : Select → StateM σ Select
  | ⟨a, columns, source, filter, groupBy, having, orderBy, offset, limit, distinct⟩ => do
    let source ← traverseSource f source
    let filter ← traverseOption f filter
    let columns ← traverseNamed f columns
    let groupBy ← traverseAll f groupBy
    let having ← traverseOption f having
    let orderBy ← traverseKeys f orderBy
    let offset ← traverseOption f offset
    let limit ← traverseOption f limit
    return ⟨a, columns, source, filter, groupBy, having, orderBy, offset, limit, distinct⟩

def Projection.traverse (f : Expr → Option (StateM σ Expr)) : Projection → StateM σ Projection
  | ⟨s, e, a⟩ => do return ⟨← s.traverse f, ← e.traverse f, a⟩

end

end Relational

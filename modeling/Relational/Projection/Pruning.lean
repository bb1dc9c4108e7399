import Relational.Tree.Basic

/-!
# Pruning of columns

A column that nothing reads is dropped. What reads comes before what is read: a projector before its select, the clauses of
a select before its source, the right side of a join before the left. So every use of a column is
known when its select is reached. A removal of repetitions depends on all columns, and so does a
count of rows on those of the select that it counts.
-/

namespace Relational

structure Usage where
  /-- The columns that have been read. -/
  used : List (Alias × String)
  /-- Whether the next select keeps all its columns. -/
  keepAll : Bool

namespace Usage

def empty : Usage := ⟨[], false⟩

def mark (u : Usage) (a : Alias) (name : String) : Usage := { u with used := (a, name) :: u.used }

def isUsed (u : Usage) (a : Alias) (name : String) : Bool := u.used.contains (a, name)

/-- Forgets the columns of a select that is done. -/
def forget (u : Usage) (a : Alias) : Usage := { u with used := u.used.filter (·.1 ≠ a) }

end Usage

abbrev Pruning := StateM Usage

/-- Sets whether the next select keeps all its columns. -/
def setKeepAll (b : Bool) : Pruning Unit := modify ({ · with keepAll := b })

/-- The flag, which is put down. -/
def takeKeepAll : Pruning Bool := fun u => (u.keepAll, { u with keepAll := false })

/-- The first column of a subquery is its value. -/
def markFirst (s : Select) : Pruning Unit :=
  match s.columns with
  | c :: _ => modify (·.mark s.label c.name)
  | [] => pure ()

/-- Runs a part that has a flag of its own. -/
def withOwnKeepAll {α : Type} (x : Pruning α) : Pruning α := do
  let kept ← takeKeepAll
  let a ← x
  setKeepAll kept
  return a

mutual

def Expr.prune : Expr → Pruning Expr
  | .param name => pure (.param name)
  | .variable name v t => pure (.variable name v t)
  | .constant v t => pure (.constant v t)
  | .hostParameter v t => pure (.hostParameter v t)
  | .query q => pure (.query q)
  | .column c => do
    modify (·.mark c.label c.name)
    return .column c
  | .binary op l r => do return .binary op (← l.prune) (← r.prune)
  | .unary op x => do return .unary op (← x.prune)
  | .member x name => do return .member (← x.prune) name
  | .call m x args => do return .call m (← x.prune) (← pruneAll args)
  | .conditional a b c => do return .conditional (← a.prune) (← b.prune) (← c.prune)
  | .record r ms => do return .record r (← pruneNamed ms)
  | .convert x t => do return .convert (← x.prune) t
  | .aggregate kind x distinct t => do
    if kind = .count && x.isNone then setKeepAll true
    return .aggregate kind (← pruneOption x) distinct t
  | .subquery s => do return .subquery (← s.prune)
  | .function name args t => do return .function name (← pruneAll args) t
  | .projection p => do return .projection (← p.prune)
  | .group key elements => do return .group (← key.prune) (← elements.prune)

def pruneAll : List Expr → Pruning (List Expr)
  | [] => pure []
  | e :: es => do return (← e.prune) :: (← pruneAll es)

def pruneOption : Option Expr → Pruning (Option Expr)
  | none => pure none
  | some e => do return some (← e.prune)

def pruneNamed : List Named → Pruning (List Named)
  | [] => pure []
  | ⟨name, e⟩ :: ms => do return ⟨name, ← e.prune⟩ :: (← pruneNamed ms)

/-- The columns of a select that are kept, each looked at when those before it are done. -/
def pruneColumns (a : Alias) (keepAll : Bool) : List Named → Pruning (List Named)
  | [] => pure []
  | ⟨name, e⟩ :: ms => do
    if keepAll || (← get).isUsed a name then
      return ⟨name, ← e.prune⟩ :: (← pruneColumns a keepAll ms)
    else pruneColumns a keepAll ms

def pruneKeys : List OrderKey → Pruning (List OrderKey)
  | [] => pure []
  | ⟨e, descending⟩ :: ks => do return ⟨← e.prune, descending⟩ :: (← pruneKeys ks)

def Subquery.prune : Subquery → Pruning Subquery
  | .scalar s t => do
    markFirst s
    withOwnKeepAll do return .scalar (← s.prune) t
  | .exists s => withOwnKeepAll do return .exists (← s.prune)
  | .inSelect e s => do
    markFirst s
    withOwnKeepAll do return .inSelect (← e.prune) (← s.prune)
  | .inValues e vs => withOwnKeepAll do return .inValues (← e.prune) (← pruneAll vs)

def Source.prune : Source → Pruning Source
  | .table kind a entity name => pure (.table kind a entity name)
  | .raw a sql => pure (.raw a sql)
  | .select s => do return .select (← s.prune)
  | .join kind l r condition => do
    let kept := (← get).keepAll
    let condition ← pruneOption condition
    setKeepAll kept
    let r ← r.prune
    setKeepAll kept
    let l ← l.prune
    return .join kind l r condition

def pruneSource : Option Source → Pruning (Option Source)
  | none => pure none
  | some s => do return some (← s.prune)

def Select.prune : Select → Pruning Select
  | ⟨a, columns, source, filter, groupBy, having, orderBy, offset, limit, distinct⟩ => do
    let keepAll ← takeKeepAll
    let columns ← pruneColumns a (keepAll || distinct) columns
    let counts ← takeKeepAll
    let limit ← pruneOption limit
    let offset ← pruneOption offset
    let groupBy ← pruneAll groupBy
    let having ← pruneOption having
    let orderBy ← pruneKeys orderBy
    let filter ← pruneOption filter
    setKeepAll counts
    let source ← pruneSource source
    setKeepAll false
    modify (·.forget a)
    return ⟨a, columns, source, filter, groupBy, having, orderBy, offset, limit, distinct⟩

def Projection.prune : Projection → Pruning Projection
  | ⟨s, e, a⟩ => do
    let e ← e.prune
    let s ← s.prune
    return ⟨s, e, a⟩

end

/-- A projection without the columns that nothing reads. -/
def Projection.dropUnused (p : Projection) : Projection := (p.prune Usage.empty).1

end Relational

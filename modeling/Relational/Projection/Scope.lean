import Relational.Error
import Relational.Tree.Basic

/-!
# Scopes

The source of a select sees what the select itself sees from outside; the aliases that the source shows are in scope for
all other clauses. The condition of a join sees both of its sides, and a projector sees its select.
Within a statement every alias is declared once; a nested projection is a statement of its own. The
first fault found is the one reported.
-/

namespace Relational

/-- A check that knows the aliases declared so far. -/
abbrev ScopeCheck := StateT (List Alias) Result

def declare (a : Alias) : ScopeCheck PUnit := do
  if (← get).contains a then throw (.aliasResolution (.declaredTwice a))
  else modify (a :: ·)

mutual

def Expr.checkScope (scope : List Alias) : Expr → ScopeCheck PUnit
  | .param _ => pure ()
  | .variable _ _ _ => pure ()
  | .constant _ _ => pure ()
  | .hostParameter _ _ => pure ()
  | .query _ => pure ()
  | .column c =>
    if scope.contains c.label then pure () else throw (.aliasResolution (.notInScope c.label c.name))
  | .binary _ l r => do l.checkScope scope; r.checkScope scope
  | .unary _ x => x.checkScope scope
  | .member x _ => x.checkScope scope
  | .call _ x args => do x.checkScope scope; checkScopeAll scope args
  | .conditional a b c => do a.checkScope scope; b.checkScope scope; c.checkScope scope
  | .record _ ms => checkScopeNamed scope ms
  | .convert x _ => x.checkScope scope
  | .aggregate _ x _ _ => checkScopeOption scope x
  | .subquery s => s.checkScope scope
  | .function _ args _ => checkScopeAll scope args
  | .projection p => p.checkScope scope
  | .group key elements => do key.checkScope scope; elements.checkScope scope

def checkScopeAll (scope : List Alias) : List Expr → ScopeCheck PUnit
  | [] => pure ()
  | e :: es => do e.checkScope scope; checkScopeAll scope es

def checkScopeOption (scope : List Alias) : Option Expr → ScopeCheck PUnit
  | none => pure ()
  | some e => e.checkScope scope

def checkScopeNamed (scope : List Alias) : List Named → ScopeCheck PUnit
  | [] => pure ()
  | ⟨_, e⟩ :: ms => do e.checkScope scope; checkScopeNamed scope ms

def checkScopeKeys (scope : List Alias) : List OrderKey → ScopeCheck PUnit
  | [] => pure ()
  | ⟨e, _⟩ :: ks => do e.checkScope scope; checkScopeKeys scope ks

def Subquery.checkScope (scope : List Alias) : Subquery → ScopeCheck PUnit
  | .scalar s _ => s.checkScope scope
  | .exists s => s.checkScope scope
  | .inSelect e s => do e.checkScope scope; s.checkScope scope
  | .inValues e vs => do e.checkScope scope; checkScopeAll scope vs

def Source.checkScope (scope : List Alias) : Source → ScopeCheck PUnit
  | .table _ a _ _ => declare a
  | .raw a _ => declare a
  | .select s => s.checkScope scope
  | .join _ l r condition => do
    l.checkScope scope
    r.checkScope scope
    checkScopeOption (scope ++ l.visible ++ r.visible) condition

def checkScopeSource (scope : List Alias) : Option Source → ScopeCheck PUnit
  | none => pure ()
  | some s => s.checkScope scope

def Select.checkScope (scope : List Alias) : Select → ScopeCheck PUnit
  | ⟨a, columns, source, filter, groupBy, having, orderBy, offset, limit, _⟩ => do
    declare a
    checkScopeSource scope source
    let inner := scope ++ (source.map Source.visible).getD []
    checkScopeOption inner filter
    checkScopeNamed inner columns
    checkScopeAll inner groupBy
    checkScopeOption inner having
    checkScopeKeys inner orderBy
    checkScopeOption inner offset
    checkScopeOption inner limit

def Projection.checkScope (scope : List Alias) : Projection → ScopeCheck PUnit
  | ⟨s, e, _⟩ => do
    let declared ← getModify fun _ => []
    s.checkScope scope
    e.checkScope (scope ++ [s.label])
    set declared

end

/-- Refuses a projection with a column that is not in scope or an alias that is declared twice. -/
def Projection.check (p : Projection) : Result PUnit := do
  let _ ← (p.checkScope []).run []

end Relational

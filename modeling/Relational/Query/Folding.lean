import Relational.Tree.Evaluate
import Relational.Tree.Substitution
import Relational.Tree.Typing

/-!
# Folding

What depends on no row is computed before a query is bound: the largest parts of its expressions that can be
evaluated become constants, in nested queries too. A part whose evaluation fails stays, and folding
goes on inside it.
-/

namespace Relational

mutual

/-- Whether an expression holds nothing that needs a row or the database. -/
def Expr.isClosed : Expr → Bool
  | .variable _ _ _ | .constant _ _ | .hostParameter _ _ => true
  | .binary _ l r => l.isClosed && r.isClosed
  | .unary _ x | .member x _ | .convert x _ => x.isClosed
  | .call _ x args => x.isClosed && allClosed args
  | .conditional test yes no => test.isClosed && yes.isClosed && no.isClosed
  | .record _ ms => allClosedNamed ms
  | _ => false

def allClosed : List Expr → Bool
  | [] => true
  | e :: es => e.isClosed && allClosed es

def allClosedNamed : List Named → Bool
  | [] => true
  | ⟨_, e⟩ :: ms => e.isClosed && allClosedNamed ms

end

/-- The constant of an evaluated expression keeps the expression's type, if it has one. -/
def Expr.folded? (e : Expr) : Option Expr :=
  match e with
  | .constant _ _ => some e
  | e =>
    if e.isClosed then
      match e.evaluate with
      | .ok v => some (.constant v (if e.ty = .unknown then v.naturalTy else e.ty))
      | .error _ => none
    else none

def folding : Substitution := { expr := Expr.folded? }

def Expr.fold (e : Expr) : Expr := e.substitute folding

def Query.fold (q : Query) : Query := q.substitute folding

end Relational

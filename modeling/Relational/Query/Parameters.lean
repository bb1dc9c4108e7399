import Relational.Tree.Substitution

/-!
# Parameters

Every constant that fits a column becomes a parameter of the statement, so that no value is part of its text.
Absent values stay constants.
-/

namespace Relational

def Expr.parameter? : Expr → Option Expr
  | .constant v t => if !v.isNull && t.isColumn then some (.hostParameter v t) else none
  | _ => none

def parameterizing : Substitution := { expr := Expr.parameter? }

def Expr.parameterize (e : Expr) : Expr := e.substitute parameterizing

def Projection.parameterize (p : Projection) : Projection := p.substitute parameterizing

def Query.parameterize (q : Query) : Query := q.substitute parameterizing

end Relational

import Relational.Proofs.Sql.Trees
import Relational.Sql.Statement

/-!
# Parentheses

An expression and its text say the same if every operand, as it is written, binds tight enough for
the place where it stands (`KeepsGroups`). For binary operators on columns and parameters the
brackets see to that. Prefix operators, `IN` and sums of timestamps get none, so for them it can
fail.
-/

namespace Relational

open Sql

/-- The term that an expression stands for: its tree, whatever brackets are written. -/
def Expr.term (collect qualify : Bool) (e : Expr) : Term := (e.tree qualify).term collect

end Relational

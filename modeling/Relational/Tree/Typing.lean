import Relational.Tree.Basic

/-!
# Types of expressions

The type of an expression follows from its parts. Parameters and nested queries have none before they
are bound, and a projection is a sequence unless its rows become one value.
-/

namespace Relational

mutual

def Expr.ty : Expr → Ty
  | .param _ | .query _ => .unknown
  | .variable _ _ t | .constant _ t | .hostParameter _ t | .convert _ t | .function _ _ t
  | .aggregate _ _ _ t => t
  | .binary op left right => op.resultTy left.ty right.ty
  | .unary .not _ => .bool
  | .unary .negate operand => operand.ty
  | .member target name => (target.ty.member? name).getD .unknown
  | .call method target _ => method.resultTy target.ty
  | .conditional _ yes _ => yes.ty
  | .record r _ => .record r
  | .column c => c.ty
  | .subquery s => s.ty
  | .projection p => p.ty
  | .group key elements => .group key.ty (elements.ty.element?.getD .unknown)

def Projection.ty : Projection → Ty
  | ⟨_, projector, none⟩ => .sequence projector.ty
  | ⟨_, projector, some _⟩ => projector.ty

end

/-- Whether an expression fits one column. -/
def Expr.isColumnTy (e : Expr) : Bool := e.ty.isColumn

end Relational

import Relational.Tree.Basic
import Relational.Value.Convert
import Relational.Value.Invoke
import Relational.Value.Member

/-!
# Evaluation of expressions

An expression that depends on no row is evaluated without a database. The arguments of a call come before
its target, and of a conditional only the branch that is taken is evaluated.
-/

namespace Relational

mutual

def Expr.evaluate : Expr → Result Value
  | .constant v _ | .variable _ v _ | .hostParameter v _ => .ok v
  | .binary op left right => do
    let l ← left.evaluate
    let r ← right.evaluate
    Value.binary op l r
  | .unary op operand => do Value.unary op (← operand.evaluate)
  | .member target name => do (← target.evaluate).member name
  | .call method target args => do
    let vs ← evaluateAll args
    Value.invoke method (← target.evaluate) vs
  | .conditional test yes no => do
    if (← test.evaluate).isTrue then yes.evaluate else no.evaluate
  | .record r members => do return .record r.name (← evaluateMembers members)
  | .convert operand t => do Value.convert t (← operand.evaluate)
  | .param _ => .error (.evaluation (.needsDatabase .parameter))
  | .query _ => .error (.evaluation (.needsDatabase .query))
  | .column _ => .error (.evaluation (.needsDatabase .column))
  | .aggregate _ _ _ _ => .error (.evaluation (.needsDatabase .aggregate))
  | .subquery _ => .error (.evaluation (.needsDatabase .subquery))
  | .function _ _ _ => .error (.evaluation (.needsDatabase .function))
  | .projection _ => .error (.evaluation (.needsDatabase .projection))
  | .group _ _ => .error (.evaluation (.needsDatabase .group))

def evaluateAll : List Expr → Result (List Value)
  | [] => .ok []
  | e :: es => do
    let v ← e.evaluate
    return v :: (← evaluateAll es)

def evaluateMembers : List Named → Result (List (String × Value))
  | [] => .ok []
  | ⟨name, e⟩ :: ms => do
    let v ← e.evaluate
    return (name, v) :: (← evaluateMembers ms)

end

end Relational

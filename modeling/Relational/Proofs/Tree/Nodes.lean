import Relational.Proofs.Tree.Parts

/-!
# Nodes

Substitutions of nodes, and nodes within others: a node is within another one if a chain of parts leads to it.
-/

namespace Relational

namespace Node

/-- A node in a tree, at any depth. -/
inductive Within (x : Node) : Node → Prop where
  | self : Within x x
  | part {n p : Node} (mem : p ∈ n.parts) (within : Within x p) : Within x n

/-! ## Substitution -/

def substitute (f : Substitution) : Node → Node
  | expr e => expr (e.substitute f)
  | subquery s => subquery (s.substitute f)
  | source src => source (src.substitute f)
  | select s => select (s.substitute f)
  | projection p => projection (p.substitute f)
  | lambda l => lambda (l.substitute f)
  | query q => query (q.substitute f)

theorem given_or_rebuilt {α : Type} (f : Expr → Option α) (n : Node) : (∃ e a, n = expr e ∧ f e = some a) ∨ ∀ e, n = expr e → f e = none := by
  cases n with
  | expr e =>
    cases acts : f e with
    | some a => exact .inl ⟨e, a, rfl, acts⟩
    | none => exact .inr fun e' same => by rw [← expr.inj same, acts]
  | _ => exact .inr fun e' same => by cases same

end Node

end Relational

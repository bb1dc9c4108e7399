import Relational.Proofs.Tree.Traversal
import Relational.Query.Binding

/-!
# What is bound alike

A node is bound from what its parts are bound to. So two nodes of one form whose parts are bound alike, each in its own scope, are bound alike
themselves (`Node.bindsLike_of_parts`), and two lambdas are so if their bodies are for all arguments (`Node.bindsLike_lambda`).
-/

namespace Relational

/-! ## Forms -/

/-- A query without its parts. -/
def Query.shape : Query → Query
  | .of _ => .of default
  | .filter _ _ => .filter (.table "") ⟨[], default⟩
  | .project _ _ => .project (.table "") ⟨[], default⟩
  | .selectMany _ _ r => .selectMany (.table "") ⟨[], default⟩ (r.map fun _ => ⟨[], default⟩)
  | .join _ _ _ _ _ => .join (.table "") (.table "") ⟨[], default⟩ ⟨[], default⟩ ⟨[], default⟩
  | .groupJoin _ _ _ _ _ => .groupJoin (.table "") (.table "") ⟨[], default⟩ ⟨[], default⟩ ⟨[], default⟩
  | .orderBy _ _ d => .orderBy (.table "") ⟨[], default⟩ d
  | .thenBy _ _ d => .thenBy (.table "") ⟨[], default⟩ d
  | .groupBy _ _ e r => .groupBy (.table "") ⟨[], default⟩ (e.map fun _ => ⟨[], default⟩) (r.map fun _ => ⟨[], default⟩)
  | .distinct _ => .distinct (.table "")
  | .skip _ _ => .skip (.table "") default
  | .take _ _ => .take (.table "") default
  | .cast _ t => .cast (.table "") t
  | .defaultIfEmpty _ => .defaultIfEmpty (.table "")
  | .aggregate _ kind l => .aggregate (.table "") kind (l.map fun _ => ⟨[], default⟩)
  | .elementAt _ _ d => .elementAt (.table "") default d
  | .first _ l d => .first (.table "") (l.map fun _ => ⟨[], default⟩) d
  | .single _ l d => .single (.table "") (l.map fun _ => ⟨[], default⟩) d
  | .any _ l => .any (.table "") (l.map fun _ => ⟨[], default⟩)
  | .all _ _ => .all (.table "") ⟨[], default⟩
  | .contains _ _ => .contains (.table "") default
  | .reverse _ => .reverse (.table "")
  | .last _ l d => .last (.table "") (l.map fun _ => ⟨[], default⟩) d
  | .union _ _ => .union (.table "") (.table "")
  | .concat _ _ => .concat (.table "") (.table "")
  | .window _ function => .window (.table "") function
  | q => q

/-- What is left of a node without its parts and the names of its parameters. -/
def Node.form : Node → Node
  | query q => query q.shape
  | lambda _ => lambda ⟨[], default⟩
  | n => n.shape

/-! ## Binding -/

variable {catalog : Catalog} {scope scope' : Scope}

/-- The body of a collection, which may count as one absent element. -/
def Expr.bindBody (catalog : Catalog) (scope : Scope) : Expr → Binding (Expr × Bool)
  | .query (.defaultIfEmpty q) => do
    if q.isTerminal then return (← q.bindTerminal catalog scope false, true)
    else return (.projection (← Binding.asRows (← q.bindSource catalog scope)), true)
  | e => do return (← e.bind catalog scope, false)

theorem Lambda.bindCollection_eq (scope : Scope) (args : List Expr) (l : Lambda) : l.bindCollection catalog scope args =
    if l.params.length ≠ args.length then Binding.fail (.shape (.parameterCount l.params.length args.length))
    else l.body.bindBody catalog ((l.params.zip args).reverse ++ scope) := by
  obtain ⟨params, body⟩ := l
  rw [Lambda.bindCollection.eq_def]
  cases body with
  | query q => cases q <;> rfl
  | _ => rfl

/-- Whether queries are bound to the same, be it a result or an error. -/
def Query.BindsLike (catalog : Catalog) (scope scope' : Scope) (q q' : Query) : Prop :=
  q.bindSource catalog scope = q'.bindSource catalog scope' ∧ q.bindOrdered catalog scope = q'.bindOrdered catalog scope' ∧
    (∀ root, q.bindTerminal catalog scope root = q'.bindTerminal catalog scope' root) ∧ q.bindDistinct catalog scope = q'.bindDistinct catalog scope'

/-- Whether nodes are bound to the same. -/
def Node.BindsLike (catalog : Catalog) (scope scope' : Scope) : Node → Node → Prop
  | expr e, expr e' => e.bind catalog scope = e'.bind catalog scope' ∧ e.bindBody catalog scope = e'.bindBody catalog scope'
  | lambda l, lambda l' => (∀ args, l.bind catalog scope args = l'.bind catalog scope' args) ∧
      ∀ args, l.bindCollection catalog scope args = l'.bindCollection catalog scope' args
  | query q, query q' => q.isTerminal = q'.isTerminal ∧ q.BindsLike catalog scope scope' q' ∧
      (Expr.query q).bindBody catalog scope = (Expr.query q').bindBody catalog scope'
  | _, _ => True

/-- The nodes that binding leaves as they are. -/
def Node.isRelational : Node → Bool
  | expr (.column _) | expr (.aggregate _ _ _ _) | expr (.subquery _) | expr (.projection _) | expr (.group _ _) => true
  | _ => false

theorem bindAll_congr {es es' : List Expr} (each : List.Forall₂ (fun e e' => e.bind catalog scope = e'.bind catalog scope') es es') :
    bindAll catalog scope es = bindAll catalog scope' es' := by
  induction each with
  | nil => rfl
  | cons first _ ih => rw [bindAll, bindAll, first, ih]

theorem bindNamed_congr {ms ms' : List Named}
    (each : List.Forall₂ (fun m m' => m'.name = m.name ∧ m.expr.bind catalog scope = m'.expr.bind catalog scope') ms ms') :
    bindNamed catalog scope ms = bindNamed catalog scope' ms' := by
  induction each with
  | nil => rfl
  | @cons m m' _ _ first _ ih =>
    cases m
    cases m'
    obtain ⟨rfl, first⟩ := first
    rw [bindNamed, bindNamed, first, ih]

theorem Query.bindsLike {q q' : Query} (shape : q'.shape = q.shape)
    (parts : List.Forall₂ (Node.BindsLike catalog scope scope') (Node.query q).parts (Node.query q').parts) :
    q.BindsLike catalog scope scope' q' := by
  cases q <;> cases q' <;> try (cases shape; done)
  -- A lambda that may be missing is missing on both sides.
  case' selectMany.selectMany _ _ r _ _ r' => cases r <;> cases r'
  case' groupBy.groupBy _ _ e r _ _ e' r' => cases e <;> cases e' <;> cases r <;> cases r'
  case' aggregate.aggregate _ _ l _ _ l' => cases l <;> cases l'
  case' any.any _ l _ l' => cases l <;> cases l'
  case' first.first _ l _ _ l' _ | single.single _ l _ _ l' _ | last.last _ l _ _ l' _ => cases l <;> cases l'
  all_goals
    cases shape <;> simp only [Node.parts, sources, lambdas, exprs, Option.toList, List.map_cons, List.map_nil, List.nil_append, List.cons_append,
        List.append_nil, List.forall₂_cons, Node.BindsLike, Query.BindsLike] at parts <;>
      simp only [Query.BindsLike, bindSource, bindOrdered, bindTerminal, bindDistinct, bindLambda?, name, Option.isSome_some,
        parts, implies_true, and_self]

theorem Query.isTerminal_of_shape {q q' : Query} (shape : q'.shape = q.shape) : q.isTerminal = q'.isTerminal := by
  have own (q : Query) : q.shape.isTerminal = q.isTerminal := by cases q <;> rfl
  rw [← own q, ← shape, own]

/-- A body that is no query is bound as an expression. -/
theorem Expr.bindBody_eq {e : Expr} (scope : Scope) (other : ∀ q, e ≠ .query (.defaultIfEmpty q)) :
    e.bindBody catalog scope = do return (← e.bind catalog scope, false) := by
  cases e with
  | query q => cases q <;> first | rfl | exact absurd rfl (other _)
  | _ => rfl

theorem Query.bindBody_like {q q' : Query} (shape : q'.shape = q.shape)
    (parts : List.Forall₂ (Node.BindsLike catalog scope scope') (Node.query q).parts (Node.query q').parts) :
    (Expr.query q).bindBody catalog scope = (Expr.query q').bindBody catalog scope' := by
  by_cases collection : ∃ inner, q = .defaultIfEmpty inner
  · obtain ⟨inner, rfl⟩ := collection
    cases q' <;> cases shape
    obtain ⟨same, bound, -⟩ := (List.forall₂_cons.1 parts).1
    rw [Expr.bindBody, Expr.bindBody, same, bound.1, bound.2.2.1]
  · have other : ∀ inner, q' ≠ .defaultIfEmpty inner := by
      rintro inner rfl
      cases q <;> first | exact collection ⟨_, rfl⟩ | cases shape
    obtain ⟨source, -, value, -⟩ := Query.bindsLike shape parts
    rw [Expr.bindBody_eq, Expr.bindBody_eq, Expr.bind, Expr.bind, isTerminal_of_shape shape, source, value]
    · rintro inner ⟨⟩
      exact other _ rfl
    · rintro inner ⟨⟩
      exact collection ⟨_, rfl⟩

theorem Expr.bindsLike {e e' : Expr} (free : (Node.expr e).isRelational = false) (other : ∀ x, e ≠ .param x) (shape : e'.shape = e.shape)
    (parts : List.Forall₂ (Node.BindsLike catalog scope scope') (Node.expr e).parts (Node.expr e').parts) :
    e.bind catalog scope = e'.bind catalog scope' := by
  have all {es es' : List Expr} (each : List.Forall₂ (Node.BindsLike catalog scope scope') (es.map .expr) (es'.map .expr)) :
      bindAll catalog scope es = bindAll catalog scope' es' := by
    rw [List.forall₂_map_left_iff, List.forall₂_map_right_iff] at each
    exact bindAll_congr (each.imp fun _ _ like => like.1)
  cases e <;> cases e' <;> try (cases shape; done)
  case param.param x y => exact absurd rfl (other x)
  case query.query q q' =>
    obtain ⟨same, ⟨source, -, value, -⟩, -⟩ := (List.forall₂_cons.1 parts).1
    rw [bind, bind, same, source, value]
  all_goals try (cases free; done)
  all_goals
    simp only [Node.parts, operands, nodes, List.map_cons, List.map_nil, List.append_nil, List.map_map, List.forall₂_cons, Node.BindsLike] at parts
  case call.call =>
    simp only [Expr.shape, mapOperands, call.injEq] at shape
    rw [bind, bind, shape.1, parts.1.1, all parts.2]
  case record.record =>
    simp only [Expr.shape, mapOperands, record.injEq] at shape
    rw [bind, bind, shape.1, bindNamed_congr ((forall₂_named shape.2 parts).imp fun _ _ like => ⟨like.1, like.2.1⟩)]
  case function.function =>
    simp only [Expr.shape, mapOperands, function.injEq] at shape
    rw [bind, bind, shape.1, shape.2.2, all parts]
  all_goals
    cases shape
    simp only [bind, parts]

theorem Node.bindsLike_lambda {l l' : Lambda} (count : l'.params.length = l.params.length)
    (bodies : ∀ args : List Expr, l.params.length = args.length → (expr l.body).BindsLike catalog ((l.params.zip args).reverse ++ scope)
      ((l'.params.zip args).reverse ++ scope') (expr l'.body)) : (lambda l).BindsLike catalog scope scope' (lambda l') := by
  refine ⟨fun args => ?_, fun args => ?_⟩
  · obtain ⟨params, body⟩ := l
    obtain ⟨params', body'⟩ := l'
    rw [Lambda.bind, Lambda.bind, count]
    split
    · rfl
    · next given => exact (bodies args (not_not.1 given)).1
  · rw [Lambda.bindCollection_eq, Lambda.bindCollection_eq, count]
    split
    · rfl
    · next given => exact (bodies args (not_not.1 given)).2

/-- Expressions that are bound alike, neither of which may count as one absent element. -/
theorem Node.bindsLike_of_bind {e e' : Expr} (other : ∀ q, e ≠ .query (.defaultIfEmpty q)) (other' : ∀ q, e' ≠ .query (.defaultIfEmpty q))
    (bound : e.bind catalog scope = e'.bind catalog scope') : (expr e).BindsLike catalog scope scope' (expr e') :=
  ⟨bound, by rw [Expr.bindBody_eq scope other, Expr.bindBody_eq scope' other', bound]⟩

theorem Node.bindsLike_of_parts {n n' : Node} (free : n.isRelational = false) (other : ∀ x, n ≠ expr (.param x)) (bare : ∀ l, n ≠ lambda l)
    (form : n'.form = n.form) (parts : List.Forall₂ (BindsLike catalog scope scope') n.parts n'.parts) :
    n.BindsLike catalog scope scope' n' := by
  cases n with
  | expr e =>
    cases n' with
    | expr e' =>
      have shape : e'.shape = e.shape := expr.inj form
      have bound := Expr.bindsLike free (fun x same => other x (congrArg expr same)) shape parts
      by_cases query : ∃ q, e = .query q
      · obtain ⟨q, rfl⟩ := query
        cases e' <;> cases shape
        exact ⟨bound, (List.forall₂_cons.1 parts).1.2.2⟩
      · refine bindsLike_of_bind (fun q same => query ⟨_, same⟩) ?_ bound
        rintro q rfl
        cases e <;> first | exact query ⟨_, rfl⟩ | cases shape
    | _ => cases form
  | query q =>
    cases n' with
    | query q' =>
      have shape := query.inj form
      exact ⟨Query.isTerminal_of_shape shape, Query.bindsLike shape parts, Query.bindBody_like shape parts⟩
    | _ => cases form
  | lambda l => exact absurd rfl (bare l)
  | _ => cases n' <;> trivial

/-- A node that stays as it is when it is bound. -/
theorem Node.bindsLike_relational {n : Node} (closed : n.isRelational = true) : n.BindsLike catalog scope scope' n := by
  cases n with
  | expr e => cases e <;> first | exact ⟨rfl, rfl⟩ | cases closed
  | _ => cases closed

end Relational

import Relational.Proofs.Tree.Shapes

/-!
# Properties of all nodes of a tree

A property holds of a tree if all nodes inside of it have it, up to queries that are not bound. A substitution of columns keeps it where each
node keeps it that is rebuilt (`Node.All.substitute`), and so does a change of selects (`Node.All.inside`). A tree is elementary if
there are no aggregates and no subqueries in it but lists of values; statements may be nested in it.
-/

namespace Relational

namespace Node

variable {H : Node → Prop} {n : Node} {f : Substitution} {c : TreeChange}

/-- A node and all nodes inside of it have a property. -/
inductive All (H : Node → Prop) : Node → Prop where
  | query (q : Query) : All H (expr (.query q))
  | node {n : Node} (bound : n.isBound = true) (here : H n) (parts : ∀ p ∈ n.parts, All H p) : All H n

theorem all_iff (bound : n.isBound = true) (other : ∀ q, n ≠ expr (.query q)) : n.All H ↔ H n ∧ ∀ p ∈ n.parts, p.All H := by
  constructor
  · intro h
    cases h with
    | query q => exact absurd rfl (other q)
    | node _ here parts => exact ⟨here, parts⟩
  · exact fun h => .node bound h.1 h.2

theorem all_select {s : Select} : (select s).All H ↔ H (select s) ∧ SelectParts (fun e => (expr e).All H) (fun src => (source src).All H) s := by
  rw [all_iff rfl (by rintro _ ⟨⟩), forall_parts_select]

theorem all_source {src : Source} : (source src).All H ↔ H (source src) ∧ ∀ p ∈ src.nodes, p.All H := all_iff rfl (by rintro _ ⟨⟩)

theorem all_projection {p : Projection} : (projection p).All H ↔ H (projection p) ∧ (select p.select).All H ∧ (expr p.projector).All H := by
  rw [all_iff rfl (by rintro _ ⟨⟩)]
  simp [parts]

theorem eq_select {s : Select} (mem : s ∈ n.found selectNodes) : n = select s := by
  cases n with
  | select s' =>
    obtain rfl := List.mem_singleton.1 mem
    rfl
  | expr e => cases column : e.column? <;> simp [found, column, selectNodes] at mem
  | _ => cases mem

theorem all_leaf (bound : n.isBound = true) (none : n.parts = []) (here : H n) : n.All H := .node bound here (by rw [none]; rintro _ ⟨⟩)

namespace All

theorem mono {H' : Node → Prop} (imp : ∀ n, H n → H' n) (h : n.All H) : n.All H' := by
  induction h with
  | query q => exact .query q
  | node bound here _ ih => exact .node bound (imp _ here) ih

/-- All of what is rebuilt has the property, if the node and its parts do. -/
theorem mapParts {g : PartMap} (bound : n.isBound = true) (here : H (n.mapParts g)) (parts : ∀ p ∈ n.parts, (p.map g).All H) : (n.mapParts g).All H := by
  refine .node ((isBound_of_shape (n.shape_mapParts g)).trans bound) here ?_
  rw [parts_mapParts g bound]
  exact List.forall_mem_map.2 parts

theorem substitute {φ : ColumnRef → Expr} (expr : f.expr = (onColumns φ).expr) (images : ∀ c, (Node.expr (φ c)).All H)
    (keeps : ∀ n : Node, n.isBound = true → H n → H (n.mapParts f.parts)) (h : n.All H) : (n.substitute f).All H := by
  induction h with
  | query q =>
    rw [Node.substitute, Expr.substitute_given (by rw [expr]; rfl)]
    exact .query q
  | @node n bound here parts ih =>
    by_cases removed : ∃ s, n = .source (.select s) ∧ f.removes s.label = true
    · obtain ⟨s, rfl, removes⟩ := removed
      cases reads : s.source with
      | none =>
        rw [Node.substitute, Source.substitute_of_bare removes reads]
        exact .node bound here parts
      | some src =>
        rw [Node.substitute, Source.substitute_of_removed removes reads]
        exact (all_select.1 (ih _ List.mem_cons_self)).2.source _ (by rw [Select.substitute_source, reads]; rfl)
    · obtain ⟨e, e', rfl, acts⟩ | rebuilt := n.given_or_rebuilt f.expr
      · rw [Node.substitute, Expr.substitute_given acts]
        rw [expr] at acts
        cases e with
        | column c =>
          obtain rfl := Option.some.inj acts
          exact images c
        | query q =>
          obtain rfl := Option.some.inj acts
          exact .query q
        | _ => cases acts
      · rw [substitute_eq (fun s same => Bool.eq_false_iff.2 fun removes => removed ⟨s, same, removes⟩) rebuilt bound]
        refine mapParts bound (keeps n bound here) fun p mem => ?_
        have part := ih p mem
        cases p <;> exact part

theorem inside (keeps : ∀ n : Node, n.isBound = true → H n → H (n.mapParts c.parts)) (select : ∀ s, (Node.select s).All H → (Node.select (c.select s)).All H)
    (projection : ∀ p, (Node.projection p).All H → (Node.projection (c.projection p)).All H) (h : n.All H) : (n.inside c).All H := by
  induction h with
  | query q => exact .query q
  | @node n bound here parts ih =>
    rw [inside_eq c bound]
    refine mapParts bound (keeps n bound here) fun p mem => ?_
    have part := ih p mem
    cases p with
    | select s => exact select _ part
    | projection p => exact projection _ part
    | _ => exact part

/-- A change that leaves alone the selects and projections of a tree leaves it alone. -/
theorem inside_self (select : ∀ s, (Node.select s).All H → c.select s = s) (projection : ∀ p, (Node.projection p).All H → c.projection p = p)
    (h : n.All H) : n.inside c = n := by
  induction h with
  | query q => rfl
  | @node n bound here parts ih =>
    rw [inside_eq c bound]
    refine ext (n.shape_mapParts _) ?_
    rw [parts_mapParts _ bound]
    refine list_map_self fun p mem => ?_
    have same := ih p mem
    cases p with
    | select s =>
      have same : s.inside c = s := Node.select.inj same
      exact congrArg Node.select ((congrArg c.select same).trans (select s (parts _ mem)))
    | projection p =>
      have same : p.inside c = p := Node.projection.inj same
      exact congrArg Node.projection ((congrArg c.projection same).trans (projection p (parts _ mem)))
    | _ => exact same

/-- A substitution that acts on nothing in a tree leaves it alone. -/
theorem substitute_self (kept : ∀ a, f.removes a = false) (query : ∀ q, f.expr (.query q) = some (.query q))
    (given : ∀ e e', (expr e).All H → f.expr e = some e' → e' = e) (h : n.All H) : n.substitute f = n := by
  induction h with
  | query q => exact congrArg Node.expr (Expr.substitute_given (query q))
  | @node n bound here parts ih =>
    obtain ⟨e, e', rfl, acts⟩ | rebuilt := n.given_or_rebuilt f.expr
    · rw [Node.substitute, Expr.substitute_given acts, given e e' (.node bound here parts) acts]
    · exact Node.substitute_self (fun s _ => kept _) rebuilt ih

theorem traverse_self {σ : Type} {g : Expr → Option (StateM σ Expr)} (query : ∀ q, g (.query q) = none) (given : ∀ e x, (expr e).All H → g e = some x → x = pure e)
    (h : n.All H) (s : σ) : n.traverse g s = (n, s) := by
  induction h generalizing s with
  | query q => rw [traverse, Expr.traverse.eq_def, query q]; rfl
  | @node n bound here parts ih =>
    obtain ⟨e, x, rfl, acts⟩ | rebuilt := n.given_or_rebuilt g
    · rw [traverse, Expr.traverse.eq_def, acts, given e x (.node bound here parts) acts]
      rfl
    have each : n.parts.mapM (traverse g) s = (n.parts, s) := by
      clear parts
      generalize n.parts = ps at ih
      induction ps with
      | nil => rfl
      | cons p ps rest =>
        rw [List.forall_mem_cons] at ih
        rw [mapM_cons, ih.1, rest ih.2]
    obtain ⟨shape, made⟩ := traverse_rebuilt bound rebuilt s
    obtain ⟨same, state⟩ := Prod.mk.inj (made.symm.trans each)
    exact Prod.ext (ext shape same) state

theorem select_mem (h : n.All H) {s : Select} (mem : s ∈ n.collect selectNodes) : (Node.select s).All H := by
  induction h with
  | query q => cases mem
  | @node n bound here parts ih =>
    rw [collect_eq _ bound, List.mem_append, List.mem_flatMap] at mem
    rcases mem with own | ⟨p, part, mem⟩
    · obtain rfl := eq_select own
      exact .node bound here parts
    · exact ih p part mem

end All

/-! ## Elementary trees -/

/-- Whether a node is neither an aggregate nor a join nor a subquery, unless that is a list of values. -/
def isElementary : Node → Bool
  | subquery (.inValues _ _) => true
  | expr (.aggregate _ _ _ _) | subquery _ | source (.join _ _ _ _) => false
  | _ => true

abbrev Elementary (n : Node) : Prop := n.All (·.isElementary = true)

theorem isElementary_mapParts (g : PartMap) (n : Node) : (n.mapParts g).isElementary = n.isElementary := by
  cases n with
  | expr e => cases e <;> rfl
  | subquery s => cases s <;> rfl
  | source src => cases src <;> rfl
  | _ => rfl

end Node

abbrev Expr.Elementary (e : Expr) : Prop := (Node.expr e).Elementary

abbrev Source.Elementary (src : Source) : Prop := (Node.source src).Elementary

abbrev Select.Elementary (s : Select) : Prop := (Node.select s).Elementary

abbrev Projection.Elementary (p : Projection) : Prop := (Node.projection p).Elementary

/-- The only subqueries are lists of values. -/
theorem Expr.Elementary.inValues {q : Subquery} (h : (Expr.subquery q).Elementary) : ∃ e vs, q = .inValues e vs := by
  have here := ((Node.all_iff rfl (by rintro _ ⟨⟩)).1 (((Node.all_iff rfl (by rintro _ ⟨⟩)).1 h).2 (.subquery q) List.mem_cons_self)).1
  cases q with
  | inValues e vs => exact ⟨e, vs, rfl⟩
  | _ => cases here

theorem Expr.elementary_operator {e : Expr} (op : e.isOperator = true) : e.Elementary ↔ ∀ x ∈ e.operands, x.Elementary := by
  have here : (Node.expr e).isElementary = true := by cases e <;> first | rfl | cases op
  rw [Elementary, Node.Elementary, Node.all_iff rfl (by rintro q ⟨⟩; cases op), Node.parts_operator op, List.forall_mem_map]
  exact and_iff_right here

theorem Select.elementary_iff {s : Select} : s.Elementary ↔ SelectParts Expr.Elementary Source.Elementary s := Node.all_select.trans (and_iff_right rfl)

theorem Projection.elementary_iff {p : Projection} : p.Elementary ↔ p.select.Elementary ∧ p.projector.Elementary :=
  Node.all_projection.trans (and_iff_right rfl)

theorem Expr.Elementary.hasAggregate {e : Expr} : e.Elementary → e.hasAggregate = false := by
  induction e using Expr.induction with
  | operator e op ih =>
    intro h
    rw [hasAggregate_operator op]
    exact List.any_eq_false.2 fun x mem => by simp [ih x mem ((elementary_operator op).1 h x mem)]
  | aggregate => exact fun h => absurd ((Node.all_iff rfl (by rintro _ ⟨⟩)).1 h).1 Bool.false_ne_true
  | _ => exact fun _ => rfl

theorem Select.Elementary.hasAggregates {s : Select} (h : s.Elementary) : s.hasAggregates = false := by
  have parts := elementary_iff.1 h
  have columns : s.columns.any (·.expr.hasAggregate) = false :=
    List.any_eq_false.2 fun c mem => by simp [(parts.columns c mem).hasAggregate]
  have orderBy : s.orderBy.any (·.expr.hasAggregate) = false :=
    List.any_eq_false.2 fun k mem => by simp [(parts.orderBy k mem).hasAggregate]
  have having : (s.having.map Expr.hasAggregate).getD false = false := by
    cases found : s.having with
    | none => rfl
    | some e => exact (parts.having e found).hasAggregate
  simp only [Select.hasAggregates, columns, orderBy, having, Bool.or_self]

end Relational

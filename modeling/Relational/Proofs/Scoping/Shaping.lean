import Relational.Proofs.Compilation.Shaping
import Relational.Proofs.Scoping.Checking

/-!
# Shaped projections in scope

A pruned tree stays in scope (`Projection.Scoped.dropUnused`). Without aggregates and joins a well-formed tree is in scope, and so
it is in the form of a statement too (`Projection.Elementary.shape_scoped`).
-/

namespace Relational

namespace Node

/-- A node that can take the place of another one where that is in scope. -/
structure Rescopes (n n' : Node) : Prop where
  kind : ∀ scope (m : Node), m.scopeOf scope n' = m.scopeOf scope n
  gives : n'.gives = n.gives
  keeps : ∀ scope, n.Scoped scope → n'.Scoped scope

theorem Rescopes.refl (n : Node) : n.Rescopes n := ⟨fun _ _ => rfl, rfl, fun _ => id⟩

theorem scoped_of_parts {n n' : Node} (bound : n'.isBound = true) (column : ∀ c, n' ≠ expr (.column c)) (shown : n'.shown = n.shown)
    (parts : List.Forall₂ Rescopes n.parts n'.parts) {scope : List Alias} (h : ∀ p ∈ n.parts, p.Scoped (n.scopeOf scope p)) : n'.Scoped scope := by
  refine (scoped_iff bound).2 ⟨fun c same => (column c same).elim, fun p' mem => ?_⟩
  obtain ⟨p, part, rescopes⟩ := exists_of_forall₂ parts.flip mem
  have same : n'.scopeOf scope p' = n.scopeOf scope p := by
    rw [rescopes.kind]
    cases p <;> simp [scopeOf, shown]
  rw [same]
  exact rescopes.keeps _ (h p part)

theorem Related.rescopes {n n' : Node} (bound : n.isBound = true) (select : ∀ s, n ≠ .select s) (column : ∀ c, n ≠ .expr (.column c))
    (h : n.Related Rescopes n') : n.Rescopes n' := by
  obtain ⟨shape, parts⟩ := h
  have kind (scope : List Alias) (m : Node) : m.scopeOf scope n' = m.scopeOf scope n := by
    cases n <;> cases n' <;> first | rfl | cases shape
  have gives : n'.shown = n.shown ∧ n'.gives = n.gives := by
    cases n <;> cases n' <;> simp only [Node.shape, reduceCtorEq, Node.source.injEq] at shape
    case source src src' =>
      cases src <;> cases src' <;> simp only [Source.shape, reduceCtorEq] at shape
      case select =>
        cases parts with
        | cons head _ => exact ⟨rfl, head.gives⟩
      case join =>
        cases parts with
        | cons left parts =>
          cases parts with
          | cons right _ =>
            have left := left.gives
            have right := right.gives
            simp only [Node.gives] at left right
            simp [Node.shown, Node.gives, Source.visible, left, right]
      all_goals
        cases shape
        exact ⟨rfl, rfl⟩
    case projection =>
      cases parts with
      | cons head _ => exact ⟨head.gives, rfl⟩
    case select s _ => cases select s rfl
    all_goals exact ⟨rfl, rfl⟩
  have bound' := (isBound_of_shape shape).trans bound
  refine ⟨kind, gives.2, fun scope h => scoped_of_parts bound' (fun c same => ?_) gives.1 parts ((scoped_iff bound).1 h).2⟩
  rw [same] at shape
  cases n with
  | expr e => cases e <;> simp [Node.shape, Expr.shape, Expr.mapOperands] at shape; exact column _ rfl
  | _ => cases shape

end Node

theorem scoped_cases : PruneCases fun _ _ n n' => n.Rescopes n' where
  query _ _ _ := .refl _
  column _ _ _ _ := .refl _
  select K T s cs s' thinned _ parts := by
    have shown : (Node.select s').shown = (Node.select s).shown :=
      congrArg (·.getD []) (map_eq_of_rel parts.source fun _ _ _ _ part => part.gives)
    refine ⟨fun _ _ => rfl, congrArg ([·]) parts.label, fun scope h => ?_⟩
    refine Node.scoped_of_parts (n := .select { s with columns := cs }) rfl (by rintro _ ⟨⟩) shown parts.parts fun p mem => ?_
    exact ((Node.scoped_iff rfl).1 h).2 p ((Node.parts_sublist thinned.sublist).subset mem)
  other K T n n' bound _ column select shape _ visited :=
    (visited.related (R := fun _ => Node.Rescopes) (fun _ => id) select shape).rescopes bound select column

theorem Projection.Scoped.dropUnused {p : Projection} (h : p.Scoped []) (nodup : p.declared.Nodup) : p.dropUnused.WellScoped := by
  have apart : ∀ a ∈ (Node.projection p).declared, a ∉ ([] : List Alias) := fun _ _ => List.not_mem_nil
  obtain ⟨-, rescopes⟩ := scoped_cases.holds (n := .projection p) rfl nodup apart .empty
  obtain ⟨-, fewer⟩ := declared_cases.holds (n := .projection p) rfl nodup apart .empty
  exact ⟨rescopes.keeps [] h, nodup_of_count_le nodup fewer⟩

/-! ## Elementary trees -/

variable {lit : Value → Ty → Prop}

/-- Without aggregates and joins a well-formed tree is in scope. -/
theorem Node.Elementary.scoped {n : Node} (h : n.Elementary) (Γ : Context) (agg : Option Context) (formed : n.Formed lit Γ agg) :
    n.Scoped (Γ.map (·.1)) := by
  induction h generalizing Γ agg with
  | query q => exact formed.elim
  | @node n bound here parts ih =>
    cases n with
    | expr e =>
      by_cases op : e.isOperator = true
      · rw [parts_operator op, List.forall_mem_map] at ih
        exact (Expr.scoped_operator op).2 fun x mem => ih x mem Γ agg ((Expr.formed_operator op).1 formed x mem)
      · cases e with
        | column c => exact Context.label_of_sees formed
        | aggregate => cases here
        | subquery q => exact ih (.subquery q) List.mem_cons_self Γ agg formed
        | projection p => exact ih (.projection p) List.mem_cons_self Γ none formed
        | _ => trivial
    | subquery q =>
      cases q with
      | inValues e vs =>
        simp only [Node.parts, Subquery.nodes, List.forall_mem_cons, List.forall_mem_map] at ih
        exact ⟨ih.1 Γ agg formed.1, scopedAll_iff.2 fun v mem => ih.2 v mem Γ agg (formedAll_iff.1 formed.2 v mem)⟩
      | _ => cases here
    | source src =>
      cases src with
      | select s => exact ih _ List.mem_cons_self Γ none formed.2
      | join => cases here
      | _ => trivial
    | select s =>
      have each := forall_parts_select.1 ih
      have clauses := Select.formed_iff.1 formed
      have sight : (Γ ++ s.context).map (·.1) = Γ.map (·.1) ++ s.visible := by rw [List.map_append, s.map_context]
      have shown : (Γ ++ s.columnContext).map (·.1) = Γ.map (·.1) ++ s.visible := by rw [List.map_append, s.map_columnContext]
      have outer {e : Expr} (formed : e.Formed lit Γ none) : e.Formed lit (Γ ++ s.context) none :=
        formed.weaken fun c sees => Context.sees_append.2 (.inl sees)
      refine Select.scoped_iff.2 ⟨fun c mem => shown ▸ each.columns c mem _ _ (clauses.columns c mem),
        fun src mem => each.source src mem Γ none (clauses.source src mem), fun e mem => sight ▸ each.filter e mem _ _ (clauses.filter e mem),
        fun e mem => sight ▸ each.groupBy e mem _ _ (clauses.groupBy e mem), fun e mem => sight ▸ each.having e mem _ _ (clauses.having e mem),
        fun k mem => sight ▸ each.orderBy k mem _ _ (clauses.orderBy k mem), fun e mem => sight ▸ each.offset e mem _ _ (outer (clauses.offset e mem)),
        fun e mem => sight ▸ each.limit e mem _ _ (outer (clauses.limit e mem))⟩
    | projection p =>
      cases p
      simp only [Node.parts, List.forall_mem_cons] at ih
      refine ⟨ih.1 Γ none formed.1, ?_⟩
      have inner := ih.2.1 _ none formed.2
      rwa [List.map_append] at inner
    | lambda | query => cases bound

end Relational

import Relational.Compile
import Relational.Proofs.Compilation.Elementary
import Relational.Proofs.Merging.Simplification
import Relational.Proofs.Ordering.Straight
import Relational.Proofs.Pruning.Rows

/-!
# Shaping elementary projections

Once orderings are placed, the other steps that bring an elementary projection into the form of a statement keep its values, whichever of
them are switched on (`Projection.Elementary.values_shape`): selects are merged, there are no aggregates to be simplified, and columns
that nothing reads go.
-/

namespace Relational

/-- There are no selects of aggregates in an elementary tree, so all of it can be pruned. -/
theorem Node.Elementary.prunable {reads : Expr → Alias → String → Prop} {n : Node} (h : n.Elementary) : n.Prunable reads := by
  have ordinary {s : Select} (h : s.Elementary) : s.isTotal = false := by simp [Select.isTotal, Select.Elementary.hasAggregates h]
  induction h with
  | query q => trivial
  | @node n bound here parts ih =>
    cases n with
    | expr e =>
      by_cases op : e.isOperator = true
      · rw [parts_operator op, List.forall_mem_map] at ih
        exact (Expr.prunable_operator op).2 ih
      · cases e with
        | aggregate => cases here
        | subquery q => exact ih (subquery q) List.mem_cons_self
        | projection p => exact ih (projection p) List.mem_cons_self
        | _ => trivial
    | source src =>
      cases src with
      | table | raw => trivial
      | select s => exact ⟨ih _ List.mem_cons_self, ordinary (parts _ List.mem_cons_self)⟩
      | join => cases here
    | select s => exact Select.prunable_iff.2 (forall_parts_select.1 ih)
    | projection p =>
      obtain ⟨s, e, a⟩ := p
      simp only [Node.parts, List.forall_mem_cons] at ih parts
      exact ⟨ih.1, ih.2.1, fun total => absurd ((ordinary parts.1).symm.trans total) Bool.false_ne_true⟩
    | subquery q =>
      cases q with
      | inValues e vs =>
        simp only [Node.parts, Subquery.nodes, List.forall_mem_cons, List.forall_mem_map] at ih
        exact ⟨ih.1, prunableAll_iff.2 ih.2⟩
      | _ => cases here
    | lambda | query => cases bound

theorem Expr.IsFlat.elementary {e : Expr} (flat : e.IsFlat) : e.Elementary := by
  induction flat with
  | @leaf e leaf => cases e <;> simp [isLeaf] at leaf <;> exact Node.all_leaf rfl rfl rfl
  | column => exact Node.all_leaf rfl rfl rfl
  | operator operates _ ih => exact (elementary_operator operates).2 ih
  | inValues _ _ value values =>
    refine .node rfl rfl (List.forall_mem_singleton.2 (.node rfl rfl ?_))
    exact List.forall_mem_cons.2 ⟨value, List.forall_mem_map.2 values⟩

theorem Select.IsFlat.elementary {s : Select} (flat : s.IsFlat) (source : ∀ src ∈ s.source, src.Elementary) : s.Elementary :=
  elementary_iff.2 ⟨fun c mem => (flat.columns c mem).elementary, source, fun e mem => (flat.filter e mem).elementary,
    fun _ mem => absurd (flat.groupBy ▸ mem) List.not_mem_nil, fun _ mem => absurd (flat.having.symm.trans mem) (Option.some_ne_none _).symm,
    fun k mem => (flat.orderBy k mem).elementary, fun e mem => (flat.offset e mem).elementary,
    fun e mem => (flat.limit e mem).elementary⟩

theorem Source.Straight.elementary {src : Source} (straight : src.Straight) : src.Elementary := by
  induction straight with
  | table => exact Node.all_leaf rfl rfl rfl
  | select flat reads _ ih =>
    refine Node.all_source.2 ⟨rfl, List.forall_mem_singleton.2 (flat.elementary fun src mem => ?_)⟩
    obtain rfl := Option.some.inj (reads.symm.trans mem)
    exact ih

theorem Projection.Straight.elementary {p : Projection} (straight : p.Straight) : p.Elementary :=
  Projection.elementary_iff.2 ⟨(Node.all_source.1 straight.select.elementary).2 _ List.mem_cons_self, straight.projector.elementary⟩

namespace Projection

variable {D : Type} {I : Interpretation D} {db : Database D} {lit : Value → Ty → Prop} {p : Projection}

variable (db) in
theorem Elementary.mergeIf (law : I.Lawful lit) (identifies : I.Identifies) (h : p.Elementary) (placed : p.Placed lit []) (b : Bool) :
    (p.mergeIf b).Elementary ∧ p.Rewrites I db lit [] (p.mergeIf b) := by
  cases b with
  | true => exact ⟨h.simplifySelects, placed.simplifySelects law (.inl identifies)⟩
  | false => exact ⟨h, .refl placed.formed⟩

variable (db) in
/-- What is left of shaping an elementary projection: it is rewritten, and then pruned. -/
theorem Elementary.shape_eq (law : I.Lawful lit) (identifies : I.Identifies) (h : p.order.Elementary) (placed : p.order.Placed lit [])
    (options : CompileOptions) :
    ∃ q : Projection, q.Elementary ∧ p.order.Rewrites I db lit [] q ∧ p.shape options = if options.removeUnused then q.dropUnused else q := by
  obtain ⟨merged, first⟩ := h.mergeIf db law identifies placed options.removeRedundant
  obtain ⟨merged', second⟩ := merged.mergeIf db law identifies (placed.rewrites first) options.removeRedundant
  rw [shape, merged.simplifyAggregates_eq]
  cases options.simplifyAggregates with
  | true => exact ⟨_, merged', first.trans second, rfl⟩
  | false => exact ⟨_, merged, first, rfl⟩

/-- An elementary projection keeps its values in the form of a statement. -/
theorem Elementary.values_shape (law : I.Lawful lit) (identifies : I.Identifies) (h : p.order.Elementary) (placed : p.order.Placed lit [])
    (options : CompileOptions) (ρ : Env D) :
    (p.shape options).values I db ρ = p.order.values I db ρ ∧ (p.shape options).aggregator = p.order.aggregator := by
  obtain ⟨q, elementary, rewritten, eq⟩ := h.shape_eq db law identifies placed options
  rw [eq, ← rewritten.values ρ, ← rewritten.aggregator]
  split
  · have prunable : q.Prunable Expr.Needs := Node.Elementary.prunable elementary
    have pruned := prunable.dropUnused I db (placed.rewrites rewritten).nodup
    exact ⟨pruned.values rfl, pruned.aggregator⟩
  · exact ⟨rfl, rfl⟩

end Projection

end Relational

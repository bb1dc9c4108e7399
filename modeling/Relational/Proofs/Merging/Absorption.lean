import Relational.Proofs.Merging.Leftmost
import Relational.Proofs.Merging.Redundant
import Relational.Proofs.Rows.Nesting
import Relational.Proofs.Rows.Sameness

/-!
# Taking over a select

A select takes over the one at the left end of its source: the filter of that select joins its own one, and its ordering, limit and
removal of repetitions become its own. Where `Select.canAbsorb` allows that, the rows stay the same
(`Select.Placed.absorb`).
-/

namespace Relational

variable {lit : Value → Ty → Prop} {Γ : Context} {s inner : Select}

/-! ## When a select can be taken over -/

/-- The outer select hands on each row of the inner one, in its order. -/
structure Select.HandsOn (s inner : Select) : Prop where
  distinct : s.distinct = false
  aggregates : s.hasAggregates = false
  groupBy : s.groupBy = []
  direct : ∀ kind l r condition, s.source ≠ some (.join kind l r condition)
  filter : s.filter = none
  order : s.orderBy = [] ∨ s.restatesOrdering inner = true

/-- What a select that can take over another one does not do. -/
structure Select.Absorbable (s inner : Select) : Prop where
  columns : inner.isColumnProjection = true
  groupBy : inner.groupBy = []
  having : inner.having = none
  order : s.orderBy = [] ∨ inner.orderBy = [] ∨ s.restatesOrdering inner = true
  sorted : inner.orderBy ≠ [] → s.groupBy = [] ∧ s.hasAggregates = false ∧ s.distinct = false
  limit : inner.limit.isSome = true → s.HandsOn inner ∧ s.limit = none ∧ s.offset = none
  offset : inner.offset.isSome = true → s.HandsOn inner ∧ s.offset = none
  distinct : inner.distinct = true → s.isNameMap = true ∧ s.groupBy = [] ∧ s.hasAggregates = false

theorem Select.absorbable {topLevel : Bool} (can : s.canAbsorb topLevel inner = true) : s.Absorbable inner := by
  simp only [canAbsorb, Bool.and_eq_true, Bool.not_eq_true', Bool.and_eq_false_iff, Bool.or_eq_false_iff,
    Bool.not_eq_false', List.isEmpty_iff, Option.isNone_iff_eq_none] at can
  obtain ⟨⟨⟨⟨⟨⟨⟨⟨columns, order⟩, sorted⟩, groupBy⟩, having⟩, limit⟩, offset⟩, distinct⟩, -⟩ := can
  have handsOn (shows : (s.distinct = false ∧ s.hasAggregates = false) ∧ s.groupBy = [])
      (direct : ∀ kind l r condition, s.source ≠ some (.join kind l r condition)) (filters : s.filter.isSome = false)
      (orders : s.orderBy = [] ∨ s.restatesOrdering inner = true) : s.HandsOn inner :=
    ⟨shows.1.1, shows.1.2, shows.2, direct, by simpa using filters, orders⟩
  refine ⟨columns, groupBy, having, ?_, fun ordered => ?_, fun some => ?_, fun some => ?_, fun some => ?_⟩
  · rcases order with (none | restates) | none
    · exact .inl none
    · exact .inr (.inr restates)
    · exact .inr (.inl none)
  · obtain ⟨⟨groups, aggregates⟩, once⟩ := sorted.resolve_left ordered
    exact ⟨groups, aggregates, once⟩
  · obtain ⟨⟨⟨⟨limit', offset'⟩, shows, single⟩, filters⟩, orders⟩ := limit.resolve_left (by simp [some])
    have direct kind l r condition : s.source ≠ .some (.join kind l r condition) := fun eq => by simp [eq] at single
    exact ⟨handsOn shows direct filters orders, by simpa using limit', by simpa using offset'⟩
  · obtain ⟨⟨⟨offset', shows, single⟩, filters⟩, orders⟩ := offset.resolve_left (by simp [some])
    have direct kind l r condition : s.source ≠ .some (.join kind l r condition) := fun eq => by simp [eq] at single
    exact ⟨handsOn shows direct filters orders, by simpa using offset'⟩
  · obtain ⟨⟨⟨⟨⟨-, names⟩, groups⟩, aggregates⟩, -⟩, -⟩ := distinct.resolve_left (by simp [some])
    exact ⟨names, groups, aggregates⟩

/-! ## The form of the merged select -/

/-- The substitution that removes a select which only shows columns of others and literals leaves everything else alone. -/
theorem Select.removesOnly (nodup : inner.declared.Nodup) (columns : inner.isColumnProjection = true)
    (other : ∀ d ∈ inner.columns, ∀ r, d.expr = .column r → r.label ≠ inner.label) :
    RemovesOnly (removal [inner]) (columnsOf [inner]).replace inner := by
  have inside (src : Source) (mem : src ∈ inner.source) (a : Alias) (found : a ∈ src.declared) :
      a ∉ [inner].map (·.label) := by
    rw [declared_eq, Option.mem_def.1 mem, List.nodup_cons] at nodup
    simp only [List.map_cons, List.map_nil, List.mem_singleton]
    exact fun eq => nodup.1 (by simp [← eq, found])
  have shallow : Shallow [inner] := by
    refine ⟨by simp, fun s mem d found => ?_, fun s mem d found r eq => ?_⟩
    · cases List.mem_singleton.1 mem
      exact List.all_eq_true.1 columns d found
    · cases List.mem_singleton.1 mem
      simpa using other d found r eq
  exact ⟨shallow.removal_replaces, shallow.removes (by simp) inside, fun a ne => removal_fixes (by simpa using ne)⟩

theorem Select.Placed.removesOnly (placed : inner.Placed lit Γ) (columns : inner.isColumnProjection = true) :
    RemovesOnly (removal [inner]) (columnsOf [inner]).replace inner := by
  refine Select.removesOnly placed.nodup columns fun d found r eq label => ?_
  have own := placed.clauses.own d found r (by rw [eq]; rfl)
  cases source : inner.source with
  | none => simp [Select.visible, source] at own
  | some src =>
    simp only [Select.visible, source, Option.map_some, Option.getD_some] at own
    exact placed.label_not_source source (label ▸ src.visible_subset own)

theorem Expr.formed_conjunction {agg : Option Context} {es : List Expr} (formed : ∀ e ∈ es, e.Formed lit Γ agg) :
    ∀ e ∈ conjunction es, e.Formed lit Γ agg :=
  conjunction_induction (fun _ _ left right => ⟨left, right⟩) formed

theorem Expr.declared_conjunction (es : List Expr) :
    (conjunction es).toList.flatMap Expr.declared = es.flatMap Expr.declared := by
  cases es with
  | nil => rfl
  | cons e es =>
    simp only [conjunction, joined, Option.toList_some, List.flatMap_cons, List.flatMap_nil, List.append_nil]
    induction es generalizing e with
    | nil => simp
    | cons e' es ih =>
      rw [List.foldl_cons, ih, List.flatMap_cons, ← List.append_assoc]
      rfl

section Fields

variable (s inner)

theorem Select.absorb_filter : (s.absorb inner).filter =
    Expr.conjunction (inner.filter.toList ++ (s.substitute (removal [inner])).filter.toList) := rfl

theorem Select.absorb_source : (s.absorb inner).source = (s.substitute (removal [inner])).source := rfl

theorem Select.absorb_orderBy : (s.absorb inner).orderBy =
    if s.orderBy = [] then inner.orderBy else (s.substitute (removal [inner])).orderBy := by
  simp [absorb]

theorem Select.absorb_columns : (s.absorb inner).columns = (s.substitute (removal [inner])).columns := rfl

theorem Select.absorb_offset : (s.absorb inner).offset = (s.substitute (removal [inner])).offset.or inner.offset := rfl

theorem Select.absorb_limit : (s.absorb inner).limit = (s.substitute (removal [inner])).limit.or inner.limit := rfl

theorem Select.absorb_distinct : (s.absorb inner).distinct = (s.distinct || inner.distinct) := by
  simp [absorb]

end Fields

theorem Select.absorb_groupBy (groupBy : inner.groupBy = []) :
    (s.absorb inner).groupBy = (s.substitute (removal [inner])).groupBy := by
  simp only [absorb, groupBy]
  split
  · next none => exact (List.isEmpty_iff.1 none).symm
  · rfl

/-- What holds of the parts of a select after the substitution, and of those of the one that it takes over, holds of the parts of both in one. -/
theorem SelectParts.absorb {E : Expr → Prop} {S : Source → Prop} (and : ∀ l r, E l → E r → E (.binary .and l r))
    (merged : SelectParts E S (s.substitute (removal [inner]))) (inside : SelectParts E S inner) : SelectParts E S (s.absorb inner) := by
  have orElse {o o' : Option Expr} (first : ∀ e ∈ o, E e) (second : ∀ e ∈ o', E e) : ∀ e ∈ o.or o', E e := by
    cases o with
    | none => exact second
    | some x => exact first
  refine ⟨merged.columns, merged.source, Expr.conjunction_induction and fun e mem => ?_, fun e mem => ?_, merged.having, fun k mem => ?_,
    orElse merged.offset inside.offset, orElse merged.limit inside.limit⟩
  · rcases List.mem_append.1 mem with mem | mem
    · exact inside.filter e (Option.mem_toList.1 mem)
    · exact merged.filter e (Option.mem_toList.1 mem)
  · change e ∈ (if _ then _ else _) at mem
    split at mem
    · exact inside.groupBy e mem
    · exact merged.groupBy e mem
  · change k ∈ (if _ then _ else _) at mem
    split at mem
    · exact inside.orderBy k mem
    · exact merged.orderBy k mem

/-- What one turn keeps is kept as long as selects are taken over. -/
theorem Select.absorbAll_induction {P : Select → Prop} {topLevel : Bool} (turn : ∀ s inner, P s → s.source.bind Source.leftmost? = some inner →
    s.canAbsorb topLevel inner = true → P (s.absorb inner)) (steps : Nat) (h : P s) : P (s.absorbAll topLevel steps) := by
  induction steps generalizing s with
  | zero => exact h
  | succ steps ih =>
    rw [absorbAll]
    split
    · next inner found =>
      split
      · next can => exact ih (turn s inner h found can)
      · exact h
    · exact h

/-- The clauses that are taken over declare what they did before. -/
theorem RemovesOnly.declared_absorb (only : RemovesOnly (removal [inner]) (columnsOf [inner]).replace inner) {src within : Source}
    (groupBy : inner.groupBy = []) (nodup : s.declared.Nodup) (reads : s.source = some src) (left : src.leftmost? = some inner)
    (readsWithin : inner.source = some within) (a : Alias) : (s.absorb inner).declared.count a ≤ s.declared.count a := by
  have source := only.declared readsWithin a src left ((Select.parts_nodup nodup).source src reads)
  have either (o o' : Option Expr) : ((o.or o').toList.flatMap Expr.declared).count a ≤
      (o.toList.flatMap Expr.declared).count a + (o'.toList.flatMap Expr.declared).count a := by
    cases o <;> simp
  have order : ((s.absorb inner).orderBy.flatMap (·.expr.declared)).count a ≤
      ((s.substitute (removal [inner])).orderBy.flatMap (·.expr.declared)).count a +
        (inner.orderBy.flatMap (·.expr.declared)).count a := by
    rw [Select.absorb_orderBy]
    split <;> omega
  have offset := either (s.substitute (removal [inner])).offset inner.offset
  have limit := either (s.substitute (removal [inner])).limit inner.limit
  have beside : ∀ b ∈ s.declaredBeside, Fixes (removal [inner]) (columnsOf [inner]).replace b := fun _ =>
    only.fixes_beside nodup reads left
  have moved : (s.absorb inner).declaredBeside.count a ≤ s.declaredBeside.count a + inner.declaredBeside.count a := by
    rw [← Select.beside_substitute_of_fixes only.toReplaces beside]
    simp only [Select.declaredBeside, List.count_append, Select.absorb_filter, Expr.declared_conjunction,
      List.flatMap_append, Select.absorb_groupBy groupBy, Select.absorb_offset, Select.absorb_limit, Select.absorb_columns]
    have having : (s.absorb inner).having = (s.substitute (removal [inner])).having := rfl
    rw [having]
    omega
  have label : (s.absorb inner).label = s.label := Select.substitute_label _ s
  rw [Select.declared_eq, Select.declared_eq, label, Select.absorb_source, Select.substitute_source, reads]
  simp only [Option.map_some, Option.toList_some, List.flatMap_cons, List.flatMap_nil, List.append_nil, List.count_cons,
    List.count_append]
  omega

/-- A select that can be taken over by the one that reads it at the left end of its source. -/
structure Merges (lit : Value → Ty → Prop) (Γ : Context) (s inner : Select) (src within : Source) : Prop where
  absorbable : s.Absorbable inner
  placed : s.Placed lit Γ
  reads : s.source = some src
  left : src.leftmost? = some inner
  readsWithin : inner.source = some within

namespace Merges

variable {src within : Source} (h : Merges lit Γ s inner src within)
include h

theorem innerPlaced : inner.Placed lit Γ := h.placed.leftmost h.reads h.left

theorem only :
    RemovesOnly (removal [inner]) (columnsOf [inner]).replace inner :=
  h.innerPlaced.removesOnly h.absorbable.columns

theorem prepared :
    s.Prepared (removal [inner]) (columnsOf [inner]).replace lit Γ fun _ => True :=
  h.only.prepared h.placed h.reads h.left

theorem merged : (s.substitute (removal [inner])).Clauses lit Γ :=
  h.prepared.clauses_substitute h.only.toReplaces

theorem grouping :
    (s.absorb inner).groupBy = (s.substitute (removal [inner])).groupBy := Select.absorb_groupBy h.absorbable.groupBy

/-- An order that is taken over has no aggregates, nor has the order that it replaces. -/
theorem aggregates :
    (s.absorb inner).hasAggregates = (s.substitute (removal [inner])).hasAggregates := by
  have without {ks : List OrderKey} {Δ : Context} (formed : ∀ k ∈ ks, k.expr.Formed lit Δ none) :
      ks.any (·.expr.hasAggregate) = false :=
    List.any_eq_false.2 fun k mem => by simp [Expr.hasAggregate_of_formed (formed k mem)]
  have order : (s.absorb inner).orderBy.any (·.expr.hasAggregate) =
      (s.substitute (removal [inner])).orderBy.any (·.expr.hasAggregate) := by
    rw [without h.merged.orderBy, Select.absorb_orderBy]
    split
    · exact without h.innerPlaced.clauses.orderBy
    · exact without h.merged.orderBy
  rw [Select.hasAggregates, Select.hasAggregates, order]
  rfl

theorem innerContext : inner.context = within.context := by
  simp [Select.context, h.readsWithin]

/-- What the select that goes could see is still in sight. -/
theorem insight (c : ColumnRef) (sees : (Γ ++ inner.context).sees c) :
    (Γ ++ (s.absorb inner).context).sees c := by
  obtain ⟨Δ, eq⟩ := h.only.context h.readsWithin (h.innerPlaced.clauses.source within h.readsWithin) h.prepared.images
    src h.left
  have context : (s.absorb inner).context = (src.substitute (removal [inner])).context := by
    simp [Select.context, Select.absorb_source, h.reads]
  rw [context, eq, ← h.innerContext, ← List.append_assoc]
  exact Context.sees_append.2 (.inl sees)

theorem clauses : (s.absorb inner).Clauses lit Γ := by
  have merged := h.merged
  have moved := h.innerPlaced.clauses
  have columnContext : (s.absorb inner).columnContext = (s.substitute (removal [inner])).columnContext := by
    have total : (s.absorb inner).isTotal = (s.substitute (removal [inner])).isTotal := by
      rw [Select.isTotal, Select.isTotal, h.grouping, h.aggregates]
    rw [Select.columnContext, Select.columnContext, total]
    rfl
  refine ⟨merged.source, ?_, ?_, merged.own, ?_, merged.having, ?_, ?_, ?_, ?_⟩
  · rw [Select.absorb_filter]
    refine Expr.formed_conjunction fun e mem => ?_
    rcases List.mem_append.1 mem with mem | mem
    · exact (moved.filter e (Option.mem_toList.1 mem)).weaken h.insight
    · exact merged.filter e (Option.mem_toList.1 mem)
  · rw [columnContext]
    exact merged.columns
  · rw [h.grouping]
    exact merged.groupBy
  · rw [h.grouping]
    exact merged.grouped
  · rw [Select.absorb_orderBy]
    split
    · exact fun k mem => (moved.orderBy k mem).weaken h.insight
    · exact merged.orderBy
  · rw [Select.absorb_offset]
    intro e mem
    rcases Option.or_eq_some_iff.1 mem with mem | ⟨-, mem⟩
    · exact merged.offset e mem
    · exact moved.offset e mem
  · rw [Select.absorb_limit]
    intro e mem
    rcases Option.or_eq_some_iff.1 mem with mem | ⟨-, mem⟩
    · exact merged.limit e mem
    · exact moved.limit e mem

/-- The merged select can stand in the place of the one that takes over. -/
theorem reforms : s.Reforms lit Γ (s.absorb inner) := by
  have merged := h.prepared.reforms h.only.toReplaces
  refine ⟨merged.label, merged.names, fun name => ?_, merged.source, Select.formed_iff.2 h.clauses,
    h.only.declared_absorb h.absorbable.groupBy h.placed.nodup h.reads h.left h.readsWithin⟩
  rw [← merged.literals, Select.givesLiteral_eq, Select.givesLiteral_eq]
  rfl

end Merges

end Relational

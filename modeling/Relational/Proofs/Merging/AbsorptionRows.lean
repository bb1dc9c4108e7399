import Relational.Proofs.Merging.Absorption

/-!
# The rows of a merged select

Each row of the merged select comes from a row of what the select that goes reads, and stands for the row that the select which
takes over made of it (`Traced`). Between the two lies what the select that goes did with its rows,
which the merged select does as well.
-/

namespace Relational

variable {D : Type} {I : Interpretation D} {db : Database D} {lit : Value → Ty → Prop} {Γ : Context} {s inner : Select}
  {src within : Source} {ρ : Env D}

/-- What merging relies on: values can be sorted, a conjunction holds where both sides do, and literals that are the same mean the
same. -/
structure Interpretation.Lawful (lit : Value → Ty → Prop) (I : Interpretation D) : Prop where
  order : IsOrder I.le
  and : ∀ a b, I.isTrue (I.binary .and a b) = (I.isTrue a && I.isTrue b)
  literals : ∀ v v' t, lit v t → lit v' t → v.same v' = true → I.constant v' t = I.constant v t

/-- Whether values that count as equal are the same. -/
def Interpretation.Identifies (I : Interpretation D) : Prop := ∀ a b, I.equal a b = true → a = b

/-! ## Where rows come from -/

/-- A row with what a select shows of a row of its source. -/
def Select.shownRow (I : Interpretation D) (db : Database D) (s : Select) (ρ b : Env D) : Env D :=
  ρ.set s.label (I.named (s.shownAt I db b))

/-- A row of what the inner select reads with a row that the outer select reads, and the row of the merged source. -/
structure Traced (I : Interpretation D) (db : Database D) (Γ : Context) (inner : Select) (src within : Source) (ρ : Env D)
    (rows : Env D × Env D) (merged : Env D) : Prop where
  agree : Agrees I db (columnsOf [inner]).replace (Γ ++ src.context) rows.2 merged
  origin : Agrees I db Expr.column (Γ ++ within.context) rows.1 merged
  shown : ∀ a, a ∉ src.joined → rows.2 a = inner.shownRow I db ρ rows.1 a

theorem Source.joined_disjoint {a : Alias} : ∀ {src : Source}, src.leftmost? = some inner → src.declared.Nodup →
    a ∈ inner.declared → a ∉ src.joined
  | .select s, _, _, _ => by simp [joined]
  | .join _ l r _, left, nodup, mem => by
    have left : l.leftmost? = some inner := left
    rw [declared_join] at nodup
    obtain ⟨nodupL, -, disjoint⟩ := List.nodup_append.1 nodup
    rw [joined, List.mem_append, not_or]
    refine ⟨joined_disjoint left nodupL mem, fun shown => ?_⟩
    exact disjoint a (leftmost_subset left mem) a (List.mem_append_left _ (r.visible_subset shown)) rfl

namespace Merges

variable (h : Merges lit Γ s inner src within)
include h

theorem innerUngrouped : inner.Ungrouped := by
  have columns : inner.columns.any (·.expr.hasAggregate) = false :=
    List.any_eq_false.2 fun c mem => by
      simp [Expr.hasAggregate_atom (List.all_eq_true.1 h.absorbable.columns c mem)]
  have order : inner.orderBy.any (·.expr.hasAggregate) = false :=
    List.any_eq_false.2 fun k mem => by simp [Expr.hasAggregate_of_formed (h.innerPlaced.clauses.orderBy k mem)]
  refine ⟨h.absorbable.groupBy, ?_, h.absorbable.having⟩
  simp [Select.hasAggregates, columns, order, h.absorbable.having]

/-- Each row of the merged source with the rows that it comes from. -/
theorem traced (ρ : Env D) : List.Forall₂ (Traced I db Γ inner src within ρ)
    ((within.rows I db ρ).flatMap fun b => (src.expand I db keepColumns (inner.shownRow I db ρ b)).map (Prod.mk b))
    ((src.substitute (removal [inner])).rows I db ρ) := by
  have repl := h.only.toReplaces
  have clauses := h.innerPlaced.clauses
  have formed := h.placed.clauses.source src h.reads
  have nodup := h.placed.nodup_source h.reads
  have outer := h.prepared.outer
  have fixes (a : Alias) (mem : a ∈ within.declared) := h.only.inside within h.readsWithin a mem
  have apart (a : Alias) (mem : a ∈ src.declared) : a ∉ Γ.map (·.1) := h.placed.apart_source h.reads mem
  have rows : List.Forall₂ (Agrees I db (columnsOf [inner]).replace (Γ ++ within.context)) (within.rows I db ρ)
      ((within.substitute (removal [inner])).rows I db ρ) := by
    refine Source.rows_substitute repl (clauses.source within h.readsWithin) (h.prepared.agrees ρ)
      fun a mem => ⟨fixes a mem, fun c sees other found => ?_⟩
    rw [outer c sees] at found
    exact other (by simpa [Expr.referenced, Expr.collect, columnRefs, eq_comm] using found)
  rw [Source.rows_expand (removal [inner]) ρ h.left, Source.substitute_of_removed h.only.removes h.readsWithin]
  refine List.rel_flatMap (forall₂_with_mem rows) ?_
  rintro b b' ⟨mem, _, agree⟩
  rw [List.forall₂_map_left_iff]
  have left := h.only.toRemoves.agrees repl h.readsWithin clauses h.innerPlaced.apart (fun a => within.rows_frame mem a) agree
  refine (Source.expand_related h.only outer left h.left formed nodup apart).imp fun x x' e => ?_
  refine ⟨e.agree, fun c sees => ?_, e.frame⟩
  -- The joins change nothing that the inner select could see.
  have other : c.label ∉ src.joined := by
    rcases Context.sees_append.1 sees with sees | sees
    · exact fun mem => apart _ (src.visible_subset (Source.joined_subset mem)) (Context.label_of_sees sees)
    · have mem := within.visible_subset (Source.visible_of_sees sees)
      exact Source.joined_disjoint h.left nodup (inner.parts_subset.source within h.readsWithin mem)
  have fixed : (columnsOf [inner]).replace c = .column c := by
    rcases Context.sees_append.1 sees with sees | sees
    · exact outer c sees
    · exact (fixes _ (within.visible_subset (Source.visible_of_sees sees))).fixed c rfl
  have same := agree c sees
  rw [fixed] at same
  refine same.trans ?_
  simp only [Expr.eval, e.frame' _ other]

/-- The rows that the outer select reads. -/
theorem sourceRows_eq (ρ : Env D) : sourceRows I db ρ s.source =
    ((inner.rowArrangement I db ρ).apply I.toComparison ((within.rows I db ρ).filter (inner.stage I db ρ).filter)).flatMap
      fun b => src.expand I db keepColumns (inner.shownRow I db ρ b) := by
  have rows : src.rows I db ρ = ((Source.select inner).rows I db ρ).flatMap (src.expand I db keepColumns) := by
    simpa only [substitute_self.sources] using Source.rows_expand keepColumns ρ h.left
  rw [h.reads, sourceRows, rows, Source.rows, Select.rows_of_ungrouped h.innerUngrouped, h.readsWithin, sourceRows,
    List.map_map, List.flatMap_map]
  rfl

variable (law : I.Lawful lit)
include law

/-- The rows of the outer select and of the merged one, as two views of one list. -/
theorem exists_trace (ρ : Env D)
    (direct : (inner.rowArrangement I db ρ).Sorts ∨ src = .select inner) :
    ∃ trace : List { w : (Env D × Env D) × Env D // Traced I db Γ inner src within ρ w.1 w.2 },
      sourceRows I db ρ s.source = (((inner.rowArrangement I db ρ).comap fun w => w.1.1.1).apply I.toComparison
        (trace.filter fun w => (inner.stage I db ρ).filter w.1.1.1)).map (·.1.1.2) ∧
      sourceRows I db ρ (s.absorb inner).source = trace.map (·.1.2) := by
  obtain ⟨trace, origins, merged⟩ := Stage.exists_pairs (h.traced ρ : List.Forall₂ (Traced I db Γ inner src within ρ) _ _)
  refine ⟨trace, ?_, ?_⟩
  · have expand := Arrangement.apply_flatMap law.order (inner.stage I db ρ).filter (direct.imp id fun eq =>
      ⟨inner.shownRow I db ρ, fun b => show src.expand I db keepColumns (inner.shownRow I db ρ b) = _ by rw [eq]; rfl⟩)
      (within.rows I db ρ)
    rw [h.sourceRows_eq, expand, ← origins, List.filter_map, Arrangement.apply_map, List.map_map,
      Arrangement.comap_comap]
    rfl
  · rw [merged, Select.absorb_source, Select.substitute_source, h.reads]
    rfl

omit h in
/-- A conjunction of conditions that may be missing. -/
theorem holds_conjunction (σ : Env D) (γ : List (Env D)) (o o' : Option Expr) :
    I.holds ((Expr.conjunction (o.toList ++ o'.toList)).map (Expr.eval I db σ γ)) =
      (I.holds (o.map (Expr.eval I db σ γ)) && I.holds (o'.map (Expr.eval I db σ γ))) := by
  cases o <;> cases o' <;> simp [Expr.conjunction, Expr.joined, Interpretation.holds, Expr.eval, law.and]

omit law

variable {rows : Env D × Env D} {merged : Env D}

/-- What the clauses of the inner select mean at the row that a row comes from they mean at the row itself. -/
theorem eval_inner (t : Traced I db Γ inner src within ρ rows merged) {e : Expr}
    (formed : e.Formed lit (Γ ++ inner.context) none) : e.eval I db merged [merged] = e.eval I db rows.1 [rows.1] :=
  Expr.eval_congr (h.innerContext ▸ formed) t.origin

theorem outerContext : s.context = src.context := by
  simp [Select.context, h.reads]

/-- The outer select and what the replacement makes of it cannot tell the rows apart. -/
theorem simulates (ρ : Env D) :
    (s.stage I db ρ).Simulates (Agrees I db (columnsOf [inner]).replace (Γ ++ src.context))
      ((s.substitute (removal [inner])).stage I db ρ) :=
  h.outerContext ▸ h.prepared.simulates h.only.toReplaces ρ

omit h in
theorem absorb_filter_eq (law : I.Lawful lit) (ρ σ : Env D) : ((s.absorb inner).stage I db ρ).filter σ =
    ((inner.stage I db ρ).filter σ && ((s.substitute (removal [inner])).stage I db ρ).filter σ) := by
  simp only [Select.stage, evalOption_eq, Select.absorb_filter, holds_conjunction law]

theorem inner_filter_eq (t : Traced I db Γ inner src within ρ rows merged) :
    (inner.stage I db ρ).filter merged = (inner.stage I db ρ).filter rows.1 := by
  have same : inner.filter.map (Expr.eval I db merged [merged]) = inner.filter.map (Expr.eval I db rows.1 [rows.1]) :=
    Option.map_congr fun e mem => h.eval_inner t (h.innerPlaced.clauses.filter e mem)
  simp only [Select.stage, evalOption_eq, same]

theorem shownAt_eq (t : Traced I db Γ inner src within ρ rows merged) :
    (s.absorb inner).shownAt I db merged = s.shownAt I db rows.2 := by
  have same := (h.simulates ρ).columns [rows.2] [merged] (.cons t.agree .nil)
  rw [Select.stage_columns_single, Select.stage_columns_single] at same
  exact same.symm

end Merges

/-! ## A select that only filters -/

/-- Rows that a first filter lets through, as rows that a stage with both filters looks at. -/
theorem Stage.run_filter {α : Type} (c : Comparison D) {st st' : Stage α D} {test : α → Bool}
    (same : st' = { st with filter := st'.filter }) {l : List α}
    (both : ∀ a ∈ l, st'.filter a = (test a && st.filter a)) : st'.run c l = st.run c (l.filter test) := by
  have filtered : l.filter st'.filter = (l.filter test).filter st.filter := by
    rw [List.filter_filter]
    exact List.filter_congr fun a mem => by rw [both a mem, Bool.and_comm]
  rw [same, run, run]
  simp only [filtered]
  rfl

namespace Merges

section Arranging

variable (I db Γ inner src within ρ) in
/-- The rows of both selects and of the merged one, side by side. -/
abbrev Trace := { w : (Env D × Env D) × Env D // Traced I db Γ inner src within ρ w.1 w.2 }

variable (I db Γ s inner src within ρ)

def innerArrangement : Arrangement (Trace I db Γ inner src within ρ) D :=
  (inner.rowArrangement I db ρ).comap fun w => w.1.1.1

def outerArrangement : Arrangement (Trace I db Γ inner src within ρ) D :=
  (s.rowArrangement I db ρ).comap fun w => w.1.1.2

def mergedArrangement : Arrangement (Trace I db Γ inner src within ρ) D :=
  ((s.absorb inner).rowArrangement I db ρ).comap fun w => w.1.2

end Arranging

variable (h : Merges lit Γ s inner src within)
include h

theorem rows_of_filter (law : I.Lawful lit) (order : inner.orderBy = [])
    (distinct : inner.distinct = false) (offset : inner.offset = none) (limit : inner.limit = none) (ρ : Env D) :
    (s.absorb inner).rows I db ρ = s.rows I db ρ := by
  have sorts : (inner.rowArrangement I db ρ).Sorts :=
    ⟨distinct, by simp [Select.rowArrangement, Select.stage, offset], by simp [Select.rowArrangement, Select.stage, limit]⟩
  obtain ⟨trace, outer, merged⟩ := h.exists_trace law ρ (.inl sorts)
  have all (l : List { w : (Env D × Env D) × Env D // Traced I db Γ inner src within ρ w.1 w.2 }) :
      ((inner.rowArrangement I db ρ).comap fun w => w.1.1.1).apply I.toComparison l = l := by
    rw [(sorts.comap _).apply_eq]
    simp only [Arrangement.comap, Select.rowArrangement, order, Criteria.comap, List.map_nil, mergeSort_inOrder_nil]
  have filtered : (trace.map (·.1.2)).filter (inner.stage I db ρ).filter =
      (trace.filter fun w => (inner.stage I db ρ).filter w.1.1.1).map (·.1.2) := by
    rw [List.filter_map]
    exact congrArg (List.map _) (List.filter_congr fun w _ => h.inner_filter_eq w.2)
  have stage : (s.absorb inner).stage I db ρ = { (s.substitute (removal [inner])).stage I db ρ with
      filter := ((s.absorb inner).stage I db ρ).filter } := by
    have orderBy : (s.absorb inner).orderBy = (s.substitute (removal [inner])).orderBy := by
      rw [Select.absorb_orderBy, order]
      split
      · next none => simp [none]
      · rfl
    have empty : (s.absorb inner).emptyRow I ρ = (s.substitute (removal [inner])).emptyRow I ρ := by
      rw [Select.emptyRow, Select.emptyRow, h.grouping, h.aggregates]
      rfl
    simp only [Select.stage, empty, h.grouping, h.aggregates, orderBy, Select.absorb_offset, Select.absorb_limit, offset, limit,
      Option.or_none, Select.absorb_distinct, distinct, Bool.or_false, Select.substitute_distinct]
    rfl
  rw [Select.rows_eq, Select.rows_eq, merged, outer, all,
    Stage.run_filter _ stage fun σ _ => absorb_filter_eq law ρ σ, filtered]
  refine ((h.simulates ρ).run_eq _ ?_).symm
  rw [List.forall₂_map_left_iff, List.forall₂_map_right_iff]
  exact List.forall₂_same.2 fun w _ => w.2.agree

/-! ## A select that also arranges -/

/-- What the clauses of the outer select mean at a row of its source they mean after the replacement at the merged row. -/
theorem eval_outer {rows : Env D × Env D} {merged : Env D}
    (t : Traced I db Γ inner src within ρ rows merged) {e : Expr} (formed : e.Formed lit (Γ ++ s.context) none)
    (sub : e.declared ⊆ s.declaredBeside) :
    (e.substitute (removal [inner])).eval I db merged [merged] = e.eval I db rows.2 [rows.2] :=
  Expr.eval_substitute h.only.toReplaces formed (h.outerContext ▸ t.agree) fun _ mem => h.prepared.untouched h.only.toReplaces (sub mem)

/-- A select that maps names reads nothing but the select whose names it maps. -/
theorem direct_of_isNameMap (names : s.isNameMap = true) : src = .select inner := by
  rw [Select.isNameMap, h.reads] at names
  have left := h.left
  split at names
  · next inner' eq =>
    cases Option.some.inj eq
    cases left
    rfl
  · cases names

theorem direct_of_handsOn (handsOn : s.HandsOn inner) : src = .select inner := by
  have left := h.left
  cases src with
  | table => cases left
  | raw => cases left
  | select s' =>
    cases left
    rfl
  | join kind l r condition => exact absurd h.reads (handsOn.direct kind l r condition)

/-- A select that maps names shows the values that the select below it shows. -/
theorem values_of_isNameMap (names : s.isNameMap = true) (b : Env D) :
    (s.shownAt I db (inner.shownRow I db ρ b)).map (·.2) = (inner.shownAt I db b).map (·.2) := by
  have direct := h.direct_of_isNameMap names
  subst direct
  have reads := h.reads
  rw [Select.isNameMap, reads] at names
  simp only [Bool.and_eq_true, beq_iff_eq, List.all_eq_true] at names
  have paired : List.Forall₂ (fun c d => c ∈ s.columns ∧ d ∈ inner.columns ∧ ∃ r, c.expr = .column r ∧ r.name = d.name)
      s.columns inner.columns := by
    refine List.forall₂_iff_zip.2 ⟨names.1, fun {c d} mem => ?_⟩
    obtain ⟨memC, memD⟩ := List.of_mem_zip mem
    have := names.2 (c, d) mem
    split at this
    · next r eq => exact ⟨memC, memD, r, eq, by simpa using this⟩
    · cases this
  simp only [Select.shownAt, List.map_map]
  refine (map_eq_of_forall₂ paired ?_).symm
  rintro c d ⟨memC, memD, r, eq, name⟩
  have sees := Select.sees_of_columnContext (h.prepared.own memC eq)
  rw [h.outerContext] at sees
  obtain ⟨heading, mem, shows⟩ := sees
  simp only [Source.context, List.mem_singleton, Prod.mk.injEq] at mem
  obtain ⟨label, rfl⟩ := mem
  simp only [Function.comp_apply, eq, Expr.eval, Select.shownRow, Env.set, label, if_true, Interpretation.named, Select.shownAt]
  rw [Select.lookup_column shows memD name.symm fun d => d.expr.eval I db b [b]]
  rfl

/-- The order of the outer select, seen at the merged rows. -/
theorem outerOrder_eq :
    ((s.substitute (removal [inner])).orderBy.map fun k =>
      ((fun w : Trace I db Γ inner src within ρ => k.expr.eval I db w.1.2 [w.1.2]), k.descending)) =
      (outerArrangement I db Γ s inner src within ρ).order := by
  simp only [outerArrangement, Arrangement.comap, Select.rowArrangement, Criteria.comap, Select.substitute_orderBy, List.map_map]
  refine List.map_congr_left fun k mem => Prod.ext (funext fun w => ?_) rfl
  exact h.eval_outer w.2 (h.placed.clauses.orderBy k mem) (s.beside_subset.orderBy k mem)

theorem innerOrder_eq :
    (inner.orderBy.map fun k =>
      ((fun w : Trace I db Γ inner src within ρ => k.expr.eval I db w.1.2 [w.1.2]), k.descending)) =
      (innerArrangement I db Γ inner src within ρ).order := by
  simp only [innerArrangement, Arrangement.comap, Select.rowArrangement, Criteria.comap, List.map_map]
  refine List.map_congr_left fun k mem => Prod.ext (funext fun w => ?_) rfl
  exact h.eval_inner w.2 (h.innerPlaced.clauses.orderBy k mem)

/-- An order that restates the inner one sorts by the same keys. -/
theorem order_of_restates (law : I.Lawful lit)
    (restates : s.restatesOrdering inner = true) :
    (outerArrangement I db Γ s inner src within ρ).order = (innerArrangement I db Γ inner src within ρ).order := by
  rw [← h.outerOrder_eq, ← h.innerOrder_eq]
  simp only [Select.restatesOrdering, Bool.and_eq_true, beq_iff_eq, List.all_eq_true] at restates
  have paired : List.Forall₂ (fun o i => o ∈ s.orderBy ∧ i ∈ inner.orderBy ∧ o.descending = i.descending ∧
      (o.expr.substitute (removal [inner])).same i.expr = true) s.orderBy inner.orderBy := by
    refine List.forall₂_iff_zip.2 ⟨restates.1, fun {o i} mem => ?_⟩
    obtain ⟨memO, memI⟩ := List.of_mem_zip mem
    exact ⟨memO, memI, restates.2 (o, i) mem⟩
  rw [Select.substitute_orderBy, List.map_map]
  refine (map_eq_of_forall₂ paired ?_).symm
  rintro o i ⟨memO, memI, direction, same⟩
  refine Prod.ext (funext fun w => ?_) direction.symm
  have formed := h.merged.orderBy (o.mapExpr (Expr.substitute (removal [inner]))) (by
    rw [Select.substitute_orderBy]
    exact List.mem_map_of_mem memO)
  exact Expr.eval_of_same law.literals same formed (h.innerPlaced.clauses.orderBy i memI) w.1.2 [w.1.2]

theorem reorders (law : I.Lawful lit) :
    Arrangement.Reorders I.toComparison (innerArrangement I db Γ inner src within ρ).order
      (outerArrangement I db Γ s inner src within ρ).order (mergedArrangement I db Γ s inner src within ρ).order := by
  have empty {k : Select} (none : k.orderBy = []) : (k.rowArrangement I db ρ).order = [] := by
    simp [Select.rowArrangement, none]
  have merged : (mergedArrangement I db Γ s inner src within ρ).order = if s.orderBy = [] then
      (innerArrangement I db Γ inner src within ρ).order else (outerArrangement I db Γ s inner src within ρ).order := by
    rw [← h.outerOrder_eq, ← h.innerOrder_eq]
    simp only [mergedArrangement, Arrangement.comap, Select.rowArrangement, Criteria.comap, List.map_map, Select.absorb_orderBy]
    split <;> rfl
  by_cases none : s.orderBy = []
  · refine .inner ?_ (by rw [merged, if_pos none])
    simp [outerArrangement, Arrangement.comap, empty none, Criteria.comap]
  · rw [if_neg none] at merged
    rcases h.absorbable.order.resolve_left none with none | restates
    · refine .outer ?_ merged
      simp [innerArrangement, Arrangement.comap, empty none, Criteria.comap]
    · exact .both merged (by rw [h.order_of_restates law restates])

/-- Rows of which the inner select shows the same are the same to the outer select. Where equal values may differ, it must not filter
them. -/
theorem repeats_eq (alike : I.Identifies ∨ (inner.distinct = true → s.filter = none)) (distinct : inner.distinct = true) :
    (outerArrangement I db Γ s inner src within ρ).repeats I.toComparison =
        (innerArrangement I db Γ inner src within ρ).repeats I.toComparison ∧
      ∀ x y, (innerArrangement I db Γ inner src within ρ).repeats I.toComparison y x = true →
        (s.stage I db ρ).filter y.1.1.2 = (s.stage I db ρ).filter x.1.1.2 := by
  obtain ⟨names, -, -⟩ := h.absorbable.distinct distinct
  have direct := h.direct_of_isNameMap names
  have shown (w : Trace I db Γ inner src within ρ) : w.1.1.2 = inner.shownRow I db ρ w.1.1.1 :=
    funext fun a => w.2.shown a (by simp [direct, Source.joined])
  have values (w : Trace I db Γ inner src within ρ) : (outerArrangement I db Γ s inner src within ρ).values w =
      (innerArrangement I db Γ inner src within ρ).values w := by
    have same : (s.shownAt I db (inner.shownRow I db ρ w.1.1.1)).map (·.2) = (inner.shownAt I db w.1.1.1).map (·.2) :=
      h.values_of_isNameMap names w.1.1.1
    rw [← shown] at same
    exact same
  refine ⟨funext fun y => funext fun x => ?_, fun x y same => ?_⟩
  · rw [Arrangement.repeats, Arrangement.repeats, values, values]
  · rcases alike with identifies | unfiltered
    · have same : (inner.shownAt I db x.1.1.1).map (·.2) = (inner.shownAt I db y.1.1.1).map (·.2) :=
        Comparison.eq_of_equalAll identifies same
      have same : inner.shownAt I db x.1.1.1 = inner.shownAt I db y.1.1.1 := by
        simp only [Select.shownAt, List.map_map] at same ⊢
        exact List.map_congr_left fun c mem => Prod.ext rfl (List.map_inj_left.1 same c mem)
      rw [shown y, shown x, Select.shownRow, Select.shownRow, same]
    · simp [Select.stage, unfiltered distinct, Interpretation.holds]

/-- Only one of the two selects cuts off rows from the front, and only one from the back. -/
theorem cuts (ρ : Env D) :
    ((inner.stage I db ρ).offset = 0 ∧ (inner.stage I db ρ).limit = none ∧
      ((s.absorb inner).stage I db ρ).offset = (s.stage I db ρ).offset ∧
      ((s.absorb inner).stage I db ρ).limit = (s.stage I db ρ).limit) ∨
    (s.HandsOn inner ∧ (s.stage I db ρ).offset = 0 ∧
      ((s.absorb inner).stage I db ρ).offset = (inner.stage I db ρ).offset ∧
      ((s.stage I db ρ).limit = none ∧ ((s.absorb inner).stage I db ρ).limit = (inner.stage I db ρ).limit ∨
        (inner.stage I db ρ).limit = none ∧ ((s.absorb inner).stage I db ρ).limit = (s.stage I db ρ).limit)) := by
  have offset : (s.stage I db ρ).offset = ((s.substitute (removal [inner])).stage I db ρ).offset := (h.simulates ρ).offset
  have limit : (s.stage I db ρ).limit = ((s.substitute (removal [inner])).stage I db ρ).limit := (h.simulates ρ).limit
  have ownOffset (none : s.offset = none) : (s.stage I db ρ).offset = 0 ∧
      ((s.absorb inner).stage I db ρ).offset = (inner.stage I db ρ).offset := by
    simp [Select.stage, Select.absorb_offset, none]
  have ownLimit (none : s.limit = none) : (s.stage I db ρ).limit = Option.none ∧
      ((s.absorb inner).stage I db ρ).limit = (inner.stage I db ρ).limit := by
    simp [Select.stage, Select.absorb_limit, none]
  have innerOffset (none : inner.offset = none) : (inner.stage I db ρ).offset = 0 ∧
      ((s.absorb inner).stage I db ρ).offset = (s.stage I db ρ).offset := by
    rw [offset]
    simp [Select.stage, Select.absorb_offset, none]
  have innerLimit (none : inner.limit = none) : (inner.stage I db ρ).limit = Option.none ∧
      ((s.absorb inner).stage I db ρ).limit = (s.stage I db ρ).limit := by
    rw [limit]
    simp [Select.stage, Select.absorb_limit, none]
  cases hasLimit : inner.limit with
  | none =>
    cases hasOffset : inner.offset with
    | none =>
      exact .inl ⟨(innerOffset hasOffset).1, (innerLimit hasLimit).1, (innerOffset hasOffset).2, (innerLimit hasLimit).2⟩
    | some e =>
      obtain ⟨handsOn, noOffset⟩ := h.absorbable.offset (by simp [hasOffset])
      exact .inr ⟨handsOn, (ownOffset noOffset).1, (ownOffset noOffset).2, .inr (innerLimit hasLimit)⟩
  | some e =>
    obtain ⟨handsOn, noLimit, noOffset⟩ := h.absorbable.limit (by simp [hasLimit])
    exact .inr ⟨handsOn, (ownOffset noOffset).1, (ownOffset noOffset).2, .inl (ownLimit noLimit)⟩

/-- The merged select arranges rows as the two selects do one after the other. -/
theorem absorbs (law : I.Lawful lit) (alike : I.Identifies ∨ (inner.distinct = true → s.filter = none)) :
    Arrangement.Absorbs I.toComparison (fun w => (s.stage I db ρ).filter w.1.1.2)
      (innerArrangement I db Γ inner src within ρ) (outerArrangement I db Γ s inner src within ρ)
      (mergedArrangement I db Γ s inner src within ρ) where
  values := funext fun w => congrArg (List.map Prod.snd) (h.shownAt_eq w.2)
  distinct := s.absorb_distinct inner
  repeats := h.repeats_eq alike
  order := h.reorders law
  sorted distinct := by
    have none : inner.orderBy = [] := by
      by_contra ordered
      have := (h.absorbable.sorted ordered).2.2
      exact Bool.false_ne_true (this.symm.trans distinct)
    simp [innerArrangement, Arrangement.comap, Select.rowArrangement, none, Criteria.comap]
  cuts := by
    refine (h.cuts ρ).imp id ?_
    rintro ⟨handsOn, offset, offset', limits⟩
    refine ⟨handsOn.distinct, fun w => ?_, fun none => ?_, offset, offset', limits⟩
    · simp [Select.stage, handsOn.filter, Interpretation.holds]
    · rcases handsOn.order with empty | restates
      · simp [outerArrangement, Arrangement.comap, Select.rowArrangement, empty, Criteria.comap]
      · rw [h.order_of_restates law restates, none]

/-- A select that neither groups nor aggregates keeps its rows. -/
theorem rows_of_ungrouped (law : I.Lawful lit) (alike : I.Identifies ∨ (inner.distinct = true → s.filter = none)) (ungrouped : s.Ungrouped)
    (ρ : Env D) (direct : (inner.rowArrangement I db ρ).Sorts ∨ src = .select inner) :
    (s.absorb inner).rows I db ρ = s.rows I db ρ := by
  have ungrouped' : (s.absorb inner).Ungrouped := by
    refine ⟨?_, ?_, ?_⟩
    · rw [h.grouping, Select.substitute_groupBy, ungrouped.groupBy]
      rfl
    · rw [h.aggregates, Select.hasAggregates_substitute h.only.toReplaces, ungrouped.aggregates]
    · have : (s.absorb inner).having = (s.substitute (removal [inner])).having := rfl
      rw [this, Select.substitute_having, ungrouped.having]
      rfl
  obtain ⟨trace, outer, merged⟩ := h.exists_trace law ρ direct
  have both (w : Trace I db Γ inner src within ρ) : ((s.absorb inner).stage I db ρ).filter w.1.2 =
      ((s.stage I db ρ).filter w.1.1.2 && (inner.stage I db ρ).filter w.1.1.1) := by
    rw [absorb_filter_eq law, h.inner_filter_eq w.2, (h.simulates ρ).filter _ _ w.2.agree, Bool.and_comm]
  have arranged := (h.absorbs law alike).apply_eq law.order (trace.filter fun w => (inner.stage I db ρ).filter w.1.1.1)
  rw [Select.rows_of_ungrouped ungrouped', Select.rows_of_ungrouped ungrouped, merged, outer, List.filter_map, List.filter_map,
    Arrangement.apply_map, Arrangement.apply_map, List.map_map, List.map_map]
  have filtered : trace.filter (fun w => ((s.absorb inner).stage I db ρ).filter w.1.2) =
      (trace.filter fun w => (inner.stage I db ρ).filter w.1.1.1).filter fun w => (s.stage I db ρ).filter w.1.1.2 := by
    rw [List.filter_filter]
    exact List.filter_congr fun w _ => both w
  calc
    _ = ((mergedArrangement I db Γ s inner src within ρ).apply I.toComparison
          (trace.filter fun w => ((s.absorb inner).stage I db ρ).filter w.1.2)).map
          fun w => (s.absorb inner).shownAt I db w.1.2 := rfl
    _ = _ := by
      rw [filtered, ← arranged]
      exact List.map_congr_left fun w _ => h.shownAt_eq w.2

/-- A select keeps its rows when it takes over another one. -/
theorem rows_eq (law : I.Lawful lit) (alike : I.Identifies ∨ (inner.distinct = true → s.filter = none)) (ρ : Env D) :
    (s.absorb inner).rows I db ρ = s.rows I db ρ := by
  by_cases keeps : inner.distinct = false ∧ inner.offset = none ∧ inner.limit = none
  · obtain ⟨distinct, offset, limit⟩ := keeps
    by_cases unordered : inner.orderBy = []
    · exact h.rows_of_filter law unordered distinct offset limit ρ
    · obtain ⟨groupBy, aggregates, -⟩ := h.absorbable.sorted unordered
      refine h.rows_of_ungrouped law alike (h.placed.clauses.ungrouped groupBy aggregates) ρ (.inl ⟨distinct, ?_, ?_⟩)
      · simp [Select.rowArrangement, Select.stage, offset]
      · simp [Select.rowArrangement, Select.stage, limit]
  · have direct : s.groupBy = [] ∧ s.hasAggregates = false ∧ src = .select inner := by
      cases distinct : inner.distinct with
      | true =>
        obtain ⟨names, groupBy, aggregates⟩ := h.absorbable.distinct distinct
        exact ⟨groupBy, aggregates, h.direct_of_isNameMap names⟩
      | false =>
        have handsOn : s.HandsOn inner := by
          cases offset : inner.offset with
          | some e => exact (h.absorbable.offset (by simp [offset])).1
          | none =>
            cases limit : inner.limit with
            | some e => exact (h.absorbable.limit (by simp [limit])).1
            | none => exact absurd ⟨distinct, offset, limit⟩ keeps
        exact ⟨handsOn.groupBy, handsOn.aggregates, h.direct_of_handsOn handsOn⟩
    exact h.rows_of_ungrouped law alike (h.placed.clauses.ungrouped direct.1 direct.2.1) ρ (.inr direct.2.2)

end Merges

end Relational

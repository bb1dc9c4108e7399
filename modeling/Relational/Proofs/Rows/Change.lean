import Mathlib.Data.List.Nodup
import Relational.Proofs.Rows.Congruence

/-!
# Changes of selects

A change of single selects and projections is sound if each one that it makes can stand in the place of the one it is made
from: with the same rows under the same heading, and without new aliases. A sound change can be applied
all through a tree (`TreeChange.Sound.inside`).
-/

namespace Relational

variable {D : Type} {I : Interpretation D} {db : Database D} {lit : Value → Ty → Prop} {Γ : Context}

/-! ## Selects -/

variable (lit Γ) in
/-- A select that stands well beside what is in sight: it is well formed, and its aliases are distinct and new. -/
structure Select.Placed (s : Select) : Prop where
  formed : s.Formed lit Γ
  nodup : s.declared.Nodup
  apart : ∀ a ∈ s.declared, a ∉ Γ.map (·.1)

variable (lit Γ) in
/-- A select in another form that can stand in the same place. -/
structure Select.Reforms (s s' : Select) : Prop where
  label : s'.label = s.label
  names : s'.columnNames = s.columnNames
  literals : ∀ name, s'.givesLiteral name = s.givesLiteral name
  source : s'.source.isSome = s.source.isSome
  formed : s'.Formed lit Γ
  declared : ∀ a, s'.declared.count a ≤ s.declared.count a

variable (I db lit Γ) in
/-- A select that can take the place of another one, with the same rows. -/
structure Select.Rewrites (s s' : Select) : Prop extends Select.Reforms lit Γ s s' where
  rows : ∀ ρ, s'.rows I db ρ = s.rows I db ρ

/-- Fewer aliases are distinct if the others were. -/
theorem nodup_of_count_le {l l' : List Alias} (nodup : l.Nodup) (fewer : ∀ a, l'.count a ≤ l.count a) : l'.Nodup :=
  List.nodup_iff_count_le_one.2 fun a => Nat.le_trans (fewer a) (List.nodup_iff_count_le_one.1 nodup a)

theorem subset_of_count_le {l l' : List Alias} (fewer : ∀ a, l'.count a ≤ l.count a) : l' ⊆ l :=
  fun a mem => List.count_pos_iff.1 (Nat.lt_of_lt_of_le (List.count_pos_iff.2 mem) (fewer a))

namespace Select

namespace Placed

variable {s s' : Select}

theorem clauses (h : s.Placed lit Γ) : s.Clauses lit Γ := formed_iff.1 h.formed

theorem nodup_source (h : s.Placed lit Γ) {src : Source} (mem : src ∈ s.source) : src.declared.Nodup := by
  have nodup := h.nodup
  rw [declared_eq, Option.mem_def.1 mem, List.nodup_cons] at nodup
  simpa using (List.nodup_append.1 nodup.2).1

theorem apart_source (h : s.Placed lit Γ) {src : Source} (mem : src ∈ s.source) {a : Alias} (found : a ∈ src.declared) :
    a ∉ Γ.map (·.1) :=
  h.apart a (s.parts_subset.source src mem found)

theorem label_not_source (h : s.Placed lit Γ) {src : Source} (mem : src ∈ s.source) : s.label ∉ src.declared := by
  have nodup := h.nodup
  rw [declared_eq, Option.mem_def.1 mem, List.nodup_cons] at nodup
  exact fun found => nodup.1 (by simp [found])

/-- What clauses declare is not what the source declares. -/
theorem disjoint (h : s.Placed lit Γ) {src : Source} (mem : src ∈ s.source) {a : Alias} (found : a ∈ src.declared)
    (beside : a ∈ s.declaredBeside) : False := by
  have nodup := h.nodup
  rw [declared_eq, Option.mem_def.1 mem, List.nodup_cons] at nodup
  exact (List.nodup_append.1 nodup.2).2.2 a (by simpa using found) a beside rfl

theorem reforms (h : s.Placed lit Γ) (reforms : s.Reforms lit Γ s') : s'.Placed lit Γ where
  formed := reforms.formed
  nodup := nodup_of_count_le h.nodup reforms.declared
  apart a mem := h.apart a (subset_of_count_le reforms.declared mem)

end Placed

theorem Rewrites.refl {s : Select} (h : s.Formed lit Γ) : s.Rewrites I db lit Γ s where
  label := rfl
  names := rfl
  literals _ := rfl
  source := rfl
  formed := h
  declared _ := Nat.le_refl _
  rows _ := rfl

theorem Rewrites.trans {s s' s'' : Select} (h : s.Rewrites I db lit Γ s') (h' : s'.Rewrites I db lit Γ s'') :
    s.Rewrites I db lit Γ s'' where
  label := h'.label.trans h.label
  names := h'.names.trans h.names
  literals name := (h'.literals name).trans (h.literals name)
  source := h'.source.trans h.source
  formed := h'.formed
  declared a := Nat.le_trans (h'.declared a) (h.declared a)
  rows ρ := (h'.rows ρ).trans (h.rows ρ)

end Select

/-! ## Projections -/

variable (lit Γ) in
structure Projection.Placed (p : Projection) : Prop where
  formed : p.Formed lit Γ
  nodup : p.declared.Nodup
  apart : ∀ a ∈ p.declared, a ∉ Γ.map (·.1)

variable (I db lit Γ) in
/-- A projection that can take the place of another one, with the same values. -/
structure Projection.Rewrites (p p' : Projection) : Prop where
  formed : p'.Formed lit Γ
  declared : ∀ a, p'.declared.count a ≤ p.declared.count a
  aggregator : p'.aggregator = p.aggregator
  values : ∀ ρ, p'.values I db ρ = p.values I db ρ

namespace Projection

theorem Rewrites.refl {p : Projection} (h : p.Formed lit Γ) : p.Rewrites I db lit Γ p :=
  ⟨h, fun _ => Nat.le_refl _, rfl, fun _ => rfl⟩

theorem Rewrites.trans {p p' p'' : Projection} (h : p.Rewrites I db lit Γ p') (h' : p'.Rewrites I db lit Γ p'') :
    p.Rewrites I db lit Γ p'' :=
  ⟨h'.formed, fun a => Nat.le_trans (h'.declared a) (h.declared a), h'.aggregator.trans h.aggregator,
    fun ρ => (h'.values ρ).trans (h.values ρ)⟩

theorem Placed.rewrites {p p' : Projection} (h : p.Placed lit Γ) (h' : p.Rewrites I db lit Γ p') : p'.Placed lit Γ :=
  ⟨h'.formed, nodup_of_count_le h.nodup h'.declared, fun a mem => h.apart a (subset_of_count_le h'.declared mem)⟩

theorem declared_eq (p : Projection) : p.declared = p.select.declared ++ p.projector.declared := by
  cases p
  rfl

theorem formed_iff {p : Projection} :
    p.Formed lit Γ ↔ p.select.Formed lit Γ ∧ p.projector.Formed lit (Γ ++ [(p.select.label, p.select.heading)]) none := by
  cases p
  rfl

theorem Placed.select {p : Projection} (h : p.Placed lit Γ) : p.select.Placed lit Γ := by
  obtain ⟨formed, nodup, apart⟩ := h
  rw [declared_eq] at nodup apart
  exact ⟨(formed_iff.1 formed).1, (List.nodup_append.1 nodup).1, fun a mem => apart a (List.mem_append_left _ mem)⟩

/-- The values of a projection are those of its projector at the rows of its select. -/
theorem values_eq (p : Projection) (ρ : Env D) :
    p.values I db ρ = ((Source.select p.select).rows I db ρ).map fun σ => p.projector.eval I db σ [σ] := by
  cases p
  rw [values, Source.rows, List.map_map]
  rfl

end Projection

/-! ## Changes all through a tree -/

variable (I db lit) in
/-- A change that may be made wherever a select or a projection stands well, in trees that meet a condition. The condition
holds of all parts of such a tree, and still holds after the change. -/
structure TreeChange.Sound (T : Node → Prop) (f : TreeChange) : Prop where
  select : ∀ (Γ : Context) (s : Select), T (.select s) → s.Placed lit Γ → s.Rewrites I db lit Γ (f.select s)
  projection : ∀ (Γ : Context) (p : Projection), T (.projection p) → p.Placed lit Γ → p.Rewrites I db lit Γ (f.projection p)
  parts : ∀ n : Node, n.isBound = true → (∀ q, n ≠ .expr (.query q)) → T n → ∀ p ∈ n.parts, T p
  kept : ∀ (Γ : Context) (agg : Option Context) (n : Node), n.Formed lit Γ agg → T n → T (n.inside f)

theorem Expr.column?_inside {f : TreeChange} (e : Expr) : (e.inside f).column? = e.column? := by
  cases e <;> rfl

theorem Expr.isLiteral_inside {f : TreeChange} (e : Expr) : (e.inside f).isLiteral = e.isLiteral := by
  cases e <;> rfl

theorem Select.parts_nodup {s : Select} (nodup : s.declared.Nodup) :
    SelectParts (fun e => e.declared.Nodup) (fun src => src.declared.Nodup) s := by
  have declared : s.declared = _ := Node.collect_eq declaredAliases (n := .select s) rfl
  rw [declared] at nodup
  exact Node.forall_parts_select.1 (List.nodup_flatMap.1 (List.nodup_append.1 nodup).2.1).1

theorem Select.heading_of_names {s s' : Select} (names : s'.columnNames = s.columnNames) : s'.heading = s.heading := by
  funext name
  rw [heading, heading, names]

/-! ## Nodes -/

namespace Node

variable {n n' : Node} {agg : Option Context}

variable (lit) in
/-- A node that stands well beside what is in sight and what aggregates may read: it is well formed, and its aliases are distinct and new. -/
structure Placed (Γ : Context) (agg : Option Context) (n : Node) : Prop where
  formed : n.Formed lit Γ agg
  nodup : (n.collect declaredAliases).Nodup
  apart : ∀ a ∈ n.collect declaredAliases, a ∉ Γ.map (·.1) ∧ ∀ Δ ∈ agg, a ∉ Δ.map (·.1)

/-- Nodes that show the same columns, and the same literals among them. -/
def Shows : Node → Node → Prop
  | source src, source src' => src'.context = src.context ∧ ∀ a name, src'.givesLiteral a name = src.givesLiteral a name
  | select s, select s' => s'.columnNames = s.columnNames ∧ (∀ name, s'.givesLiteral name = s.givesLiteral name) ∧ s'.source.isSome = s.source.isSome
  | _, _ => True

variable (I db lit) in
/-- A node that can take the place of another one, with the same meaning. -/
structure Rewrites (Γ : Context) (agg : Option Context) (n n' : Node) : Prop where
  formed : n'.Formed lit Γ agg
  shows : n.Shows n'
  declared : ∀ a, (n'.collect declaredAliases).count a ≤ (n.collect declaredAliases).count a
  alike : n.Alike I db Eq Eq n'

/-- A part of a node stands well if what it sees beyond the node is declared elsewhere. -/
theorem Placed.part (h : n.Placed lit Γ agg) (bound : n.isBound = true) {p : Node} (mem : p ∈ n.parts) {Γ' : Context} {agg' : Option Context}
    (formed : p.Formed lit Γ' agg') (seen : ∀ a ∈ p.collect declaredAliases, a ∈ n.collect declaredAliases →
      a ∉ Γ'.map (·.1) ∧ ∀ Δ ∈ agg', a ∉ Δ.map (·.1)) : p.Placed lit Γ' agg' := by
  have nodup := h.nodup
  rw [collect_eq _ bound] at nodup seen
  exact ⟨formed, (List.nodup_flatMap.1 (List.nodup_append.1 nodup).2.1).1 p mem, fun a found =>
    seen a found (List.mem_append_right _ (List.mem_flatMap.2 ⟨p, mem, found⟩))⟩

/-- A part that sees what the node sees, and what other parts declare. -/
theorem Placed.beside (h : n.Placed lit Γ agg) (bound : n.isBound = true) {p : Node} (mem : p ∈ n.parts) {Δ : Context}
    (formed : p.Formed lit (Γ ++ Δ) none) (elsewhere : ∀ a ∈ p.collect declaredAliases, a ∉ Δ.map (·.1)) : p.Placed lit (Γ ++ Δ) none := by
  refine h.part bound mem formed fun a found inside => ⟨fun listed => ?_, by rintro _ ⟨⟩⟩
  rw [List.map_append, List.mem_append] at listed
  exact listed.elim (h.apart a inside).1 (elsewhere a found)

theorem Placed.within (h : n.Placed lit Γ agg) (bound : n.isBound = true) {p : Node} (mem : p ∈ n.parts) (formed : p.Formed lit Γ none) :
    p.Placed lit Γ none := h.part bound mem formed fun a _ inside => ⟨(h.apart a inside).1, by rintro _ ⟨⟩⟩

end Node

theorem Select.Placed.node {s : Select} (h : s.Placed lit Γ) : (Node.select s).Placed lit Γ none :=
  ⟨h.formed, h.nodup, fun a mem => ⟨h.apart a mem, by rintro _ ⟨⟩⟩⟩

theorem Node.Placed.select {s : Select} {agg : Option Context} (h : (Node.select s).Placed lit Γ agg) : s.Placed lit Γ :=
  ⟨h.formed, h.nodup, fun a mem => (h.apart a mem).1⟩

theorem Select.Rewrites.node {s s' : Select} {agg : Option Context} (h : s.Rewrites I db lit Γ s') :
    (Node.select s).Rewrites I db lit Γ agg (.select s') :=
  ⟨h.formed, ⟨h.names, h.literals, h.source⟩, h.declared, h.label, by rintro ρ _ rfl; exact h.rows ρ⟩

theorem Node.Rewrites.select {s s' : Select} {agg : Option Context} (h : (Node.select s).Rewrites I db lit Γ agg (.select s')) :
    s.Rewrites I db lit Γ s' :=
  ⟨⟨h.alike.label, h.shows.1, h.shows.2.1, h.shows.2.2, h.formed, h.declared⟩, fun _ => h.alike.rows rfl⟩

theorem Projection.Placed.node {p : Projection} (h : p.Placed lit Γ) : (Node.projection p).Placed lit Γ none :=
  ⟨h.formed, h.nodup, fun a mem => ⟨h.apart a mem, by rintro _ ⟨⟩⟩⟩

theorem Node.Placed.projection {p : Projection} {agg : Option Context} (h : (Node.projection p).Placed lit Γ agg) : p.Placed lit Γ :=
  ⟨h.formed, h.nodup, fun a mem => (h.apart a mem).1⟩

theorem Projection.Placed.projector {s : Select} {e : Expr} {a : Option Aggregator} (h : (Projection.mk s e a).Placed lit Γ) :
    (Node.expr e).Placed lit (Γ ++ [(s.label, s.heading)]) none := by
  refine h.node.beside rfl (by simp [Node.parts]) h.formed.2 fun b found label => ?_
  exact (List.nodup_append.1 h.nodup).2.2 s.label s.label_mem_declared b found (by simpa [eq_comm] using label)

theorem Projection.Rewrites.node {p p' : Projection} {agg : Option Context} (h : p.Rewrites I db lit Γ p') :
    (Node.projection p).Rewrites I db lit Γ agg (.projection p') :=
  ⟨h.formed, trivial, h.declared, h.aggregator, by rintro ρ _ rfl; exact h.values ρ⟩

theorem Node.Rewrites.projection {p p' : Projection} {agg : Option Context} (h : (Node.projection p).Rewrites I db lit Γ agg (.projection p')) :
    p.Rewrites I db lit Γ p' :=
  ⟨h.formed, h.declared, h.alike.aggregator, fun _ => h.alike.values rfl⟩

theorem Projection.rewrites_parts {s s' : Select} {e e' : Expr} {a : Option Aggregator} (select : s.Rewrites I db lit Γ s')
    (projector : (Node.expr e).Rewrites I db lit (Γ ++ [(s.label, s.heading)]) none (.expr e')) :
    (Projection.mk s e a).Rewrites I db lit Γ ⟨s', e', a⟩ := by
  have same : [(s'.label, s'.heading)] = [(s.label, s.heading)] := by rw [select.label, Select.heading_of_names select.names]
  refine ⟨⟨select.formed, same ▸ projector.formed⟩, fun b => ?_, rfl, fun ρ => ?_⟩
  · rw [Projection.declared_eq, Projection.declared_eq, List.count_append, List.count_append]
    exact Nat.add_le_add (select.declared b) (projector.declared b)
  · refine (Projection.alike_parts (R := Eq) (S := Eq) ⟨select.label, ?_⟩ projector.alike ?_).values rfl
    · rintro ρ _ rfl
      exact select.rows ρ
    · rintro ρ _ rfl row
      rfl

namespace TreeChange.Sound

variable {T : Node → Prop} {f : TreeChange} {n : Node} {agg : Option Context}

/-- The clauses of a select are changed beside its source. -/
theorem formed_select {s : Select} (placed : s.Placed lit Γ)
    (parts : SelectParts (fun e => ∀ {Γ agg}, (Node.expr e).Placed lit Γ agg → (Node.expr e).Rewrites I db lit Γ agg (.expr (e.inside f)))
      (fun src => ∀ {Γ agg}, (Node.source src).Placed lit Γ agg → (Node.source src).Rewrites I db lit Γ agg (.source (src.inside f))) s) :
    (s.mapParts (Expr.inside f) (Source.inside f)).Formed lit Γ ∧ (Node.select s).Shows (.select (s.mapParts (Expr.inside f) (Source.inside f))) ∧
      ∀ p ∈ (Node.select s).parts, ∃ Γ agg, p.Rewrites I db lit Γ agg (p.map f.parts) := by
  have clauses := placed.clauses
  have within := Node.forall_parts_select.1 fun p (mem : p ∈ (Node.select s).parts) => mem
  have sources (src : Source) (mem : src ∈ s.source) : (Node.source src).Rewrites I db lit Γ none (.source (src.inside f)) :=
    parts.source src mem (placed.node.within rfl (within.source src mem) (clauses.source src mem))
  -- what a clause declares is neither in sight nor shown by the source
  have beside {e : Expr} (inside : Node.expr e ∈ (Node.select s).parts) (sub : e.declared ⊆ s.declaredBeside) {Δ : Context} {agg : Option Context}
      (shown : Δ.map (·.1) = s.visible) (rows : ∀ Δ' ∈ agg, Δ' = Γ ++ s.context) (formed : e.Formed lit (Γ ++ Δ) agg) :
      (Node.expr e).Placed lit (Γ ++ Δ) agg := by
    have outside (a : Alias) (found : a ∈ e.declared) {Δ : Context} (shown : Δ.map (·.1) = s.visible) : a ∉ (Γ ++ Δ).map (·.1) := by
      rw [List.map_append, List.mem_append, shown, not_or]
      refine ⟨placed.apart a (s.declaredBeside_subset (sub found)), fun visible => ?_⟩
      cases source : s.source with
      | none => simp [Select.visible, source] at visible
      | some src =>
        simp only [Select.visible, source, Option.map_some, Option.getD_some] at visible
        exact placed.disjoint source (src.visible_subset visible) (sub found)
    exact placed.node.part rfl inside formed fun a found _ => ⟨outside a found shown, fun Δ' some => rows Δ' some ▸ outside a found s.map_context⟩
  have filter (e : Expr) (mem : e ∈ s.filter) := parts.filter e mem
    (beside (within.filter e mem) (s.beside_subset.filter e mem) s.map_context (by rintro _ ⟨⟩) (clauses.filter e mem))
  have columns (c : Named) (mem : c ∈ s.columns) := parts.columns c mem
    (beside (within.columns c mem) (s.beside_subset.columns c mem) s.map_columnContext (by simp) (clauses.columns c mem))
  have groupBy (e : Expr) (mem : e ∈ s.groupBy) := parts.groupBy e mem
    (beside (within.groupBy e mem) (s.beside_subset.groupBy e mem) s.map_context (by rintro _ ⟨⟩) (clauses.groupBy e mem))
  have having (e : Expr) (mem : e ∈ s.having) := parts.having e mem
    (beside (within.having e mem) (s.beside_subset.having e mem) s.map_context (by simp) (clauses.having e mem))
  have orderBy (k : OrderKey) (mem : k ∈ s.orderBy) := parts.orderBy k mem
    (beside (within.orderBy k mem) (s.beside_subset.orderBy k mem) s.map_context (by rintro _ ⟨⟩) (clauses.orderBy k mem))
  have offset (e : Expr) (mem : e ∈ s.offset) := parts.offset e mem (placed.node.within rfl (within.offset e mem) (clauses.offset e mem))
  have limit (e : Expr) (mem : e ∈ s.limit) := parts.limit e mem (placed.node.within rfl (within.limit e mem) (clauses.limit e mem))
  have literals (r : ColumnRef) : sourceGivesLiteral r.label r.name (s.source.map (Source.inside f)) = sourceGivesLiteral r.label r.name s.source := by
    cases found : s.source with
    | none => rfl
    | some src => exact (sources src found).shows.2 r.label r.name
  have context : (s.mapParts (Expr.inside f) (Source.inside f)).context = s.context := by
    cases found : s.source with
    | none => simp [Select.context, Select.mapParts, found]
    | some src => simpa [Select.context, Select.mapParts, found] using (sources src found).shows.1
  have aggregates : (s.mapParts (Expr.inside f) (Source.inside f)).hasAggregates = s.hasAggregates :=
    SelectRelated.hasAggregates (F := fun _ _ => True) (.mapParts ⟨fun c mem => (columns c mem).alike.hasAggregate, fun _ _ => trivial,
      fun e mem => (filter e mem).alike.hasAggregate, fun e mem => (groupBy e mem).alike.hasAggregate, fun e mem => (having e mem).alike.hasAggregate,
      fun k mem => (orderBy k mem).alike.hasAggregate, fun e mem => (offset e mem).alike.hasAggregate, fun e mem => (limit e mem).alike.hasAggregate⟩)
  have columnContext : (s.mapParts (Expr.inside f) (Source.inside f)).columnContext = s.columnContext := by
    have total : (s.mapParts (Expr.inside f) (Source.inside f)).isTotal = s.isTotal := by
      rw [Select.isTotal, aggregates]
      simp [Select.mapParts, Select.isTotal]
    have reads (a : Alias) (name : String) : (s.mapParts (Expr.inside f) (Source.inside f)).readsLiteral a name = s.readsLiteral a name :=
      literals ⟨a, name, .i64⟩
    simp only [Select.columnContext, total, context, reads]
  have visible : (s.mapParts (Expr.inside f) (Source.inside f)).visible = s.visible := by rw [← Select.map_context, context, s.map_context]
  refine ⟨?_, ⟨Select.columnNames_mapParts _ _ s, fun name => ?_, Option.isSome_map⟩, ?_⟩
  · exact Select.formed_iff.2 (Select.clauses_mapParts (fun src mem => (sources src mem).formed) (fun e mem => context ▸ (filter e mem).formed)
      (fun c mem => context ▸ columnContext ▸ (columns c mem).formed)
      (fun c mem r eq => visible ▸ clauses.own c mem r (by rwa [Expr.column?_inside] at eq)) (fun e mem => context ▸ (groupBy e mem).formed)
      (fun e mem => context ▸ (having e mem).formed) clauses.grouped (fun k mem => context ▸ (orderBy k mem).formed)
      (fun e mem => (offset e mem).formed) fun e mem => (limit e mem).formed)
  · rw [Select.givesLiteral_eq, Select.givesLiteral_eq]
    refine any_map_congr fun c _ => ?_
    simp only [Named.mapExpr, Expr.standsForLiteral, Expr.isLiteral_inside, Expr.column?_inside, Select.mapParts, literals]
  · exact Node.forall_parts_select.2 ⟨fun c mem => ⟨_, _, columns c mem⟩, fun src mem => ⟨_, _, sources src mem⟩, fun e mem => ⟨_, _, filter e mem⟩,
      fun e mem => ⟨_, _, groupBy e mem⟩, fun e mem => ⟨_, _, having e mem⟩, fun k mem => ⟨_, _, orderBy k mem⟩, fun e mem => ⟨_, _, offset e mem⟩,
      fun e mem => ⟨_, _, limit e mem⟩⟩

/-- What the changed parts of a node make is well formed, and shows what the node shows. -/
theorem formed_mapParts (bound : n.isBound = true) (placed : n.Placed lit Γ agg)
    (each : ∀ p ∈ n.parts, ∀ {Γ agg}, p.Placed lit Γ agg → p.Rewrites I db lit Γ agg (p.map f.parts)) :
    (n.mapParts f.parts).Formed lit Γ agg ∧ n.Shows (n.mapParts f.parts) ∧
      ∀ p ∈ n.parts, ∃ Γ agg, p.Rewrites I db lit Γ agg (p.map f.parts) := by
  by_cases plain : n.isPlain = true
  · obtain ⟨allowed, formed⟩ := (Node.formed_plain plain).1 placed.formed
    have parts (p : Node) (mem : p ∈ n.parts) : p.Rewrites I db lit Γ agg (p.map f.parts) := by
      exact each p mem (placed.part bound mem (formed p mem) fun a _ => placed.apart a)
    refine ⟨(Node.formed_plain ?_).2 ⟨?_, ?_⟩, ?_, fun p mem => ⟨Γ, agg, parts p mem⟩⟩
    · rwa [Node.isPlain_mapParts]
    · cases n with
      | expr e => cases e <;> exact allowed
      | subquery q => cases q <;> trivial
      | _ => cases plain
    · rw [Node.parts_mapParts _ bound]
      exact List.forall_mem_map.2 fun p mem => (parts p mem).formed
    · cases n with
      | expr e => trivial
      | subquery q => trivial
      | _ => cases plain
  cases n with
  | expr e =>
    cases e <;> simp only [Node.isPlain, not_true_eq_false] at plain
    case column c => exact ⟨placed.formed, trivial, by rintro _ ⟨⟩⟩
    case query => exact placed.formed.elim
    case aggregate kind x distinct t =>
      obtain ⟨Δ, rfl, formed⟩ := placed.formed
      have part (e : Expr) (mem : e ∈ x) : (Node.expr e).Rewrites I db lit Δ (some Δ) (.expr (e.inside f)) := by
        have inside : Node.expr e ∈ (Node.expr (.aggregate kind x distinct t)).parts := List.mem_map_of_mem (Option.mem_toList.2 mem)
        exact each _ inside (placed.part rfl inside (formedOption_iff.1 formed e mem) fun a _ found => ⟨(placed.apart a found).2 Δ rfl, (placed.apart a found).2⟩)
      refine ⟨⟨Δ, rfl, formedOption_iff.2 ?_⟩, trivial, List.forall_mem_map.2 fun e mem => ⟨_, _, part e (Option.mem_toList.1 mem)⟩⟩
      exact forall_mem_map_option.2 fun e mem => (part e mem).formed
  | source src =>
    cases src with
    | table => exact ⟨trivial, ⟨rfl, fun _ _ => rfl⟩, by rintro _ ⟨⟩⟩
    | raw => exact ⟨trivial, ⟨rfl, fun _ _ => rfl⟩, by rintro _ ⟨⟩⟩
    | select s =>
      have part : (Node.select s).Rewrites I db lit Γ none (.select (f.select (s.inside f))) :=
        each _ List.mem_cons_self (placed.within rfl List.mem_cons_self placed.formed.2)
      obtain ⟨names, literals, source⟩ := part.shows
      refine ⟨⟨source.trans placed.formed.1, part.formed⟩, ⟨?_, fun a name => ?_⟩, List.forall_mem_singleton.2 ⟨Γ, none, part⟩⟩
      · simp only [TreeChange.parts, Source.context, part.alike.label, Select.heading_of_names names]
      · simp only [TreeChange.parts, Source.givesLiteral, part.alike.label, literals]
    | join kind l r condition =>
      obtain ⟨formedL, formedR, formedE⟩ := placed.formed
      have nodup : (Source.join kind l r condition).declared.Nodup := placed.nodup
      rw [Source.declared_join] at nodup
      obtain ⟨-, nodupRest, disjoint⟩ := List.nodup_append.1 nodup
      obtain ⟨-, -, disjoint'⟩ := List.nodup_append.1 nodupRest
      have left : (Node.source l).Rewrites I db lit Γ none (.source (l.inside f)) :=
        each _ (by simp [Node.parts, Source.nodes]) (placed.within rfl (by simp [Node.parts, Source.nodes]) formedL)
      have right : (Node.source r).Rewrites I db lit (Γ ++ l.context) none (.source (r.inside f)) := by
        refine each _ (by simp [Node.parts, Source.nodes]) (placed.beside rfl (by simp [Node.parts, Source.nodes]) formedR fun a found shown => ?_)
        rw [l.map_context] at shown
        exact disjoint a (l.visible_subset shown) a (List.mem_append_left _ found) rfl
      have test (e : Expr) (mem : e ∈ condition) :
          (Node.expr e).Rewrites I db lit (Γ ++ (l.context ++ r.context)) none (.expr (e.inside f)) := by
        have inside : Node.expr e ∈ (Node.source (.join kind l r condition)).parts := by simp [Node.parts, Source.nodes, Option.mem_def.1 mem]
        refine each _ inside (placed.beside rfl inside (formedOption_iff.1 formedE e mem) fun a found shown => ?_)
        have found : a ∈ condition.toList.flatMap Expr.declared := List.mem_flatMap.2 ⟨e, Option.mem_toList.2 mem, found⟩
        rw [List.map_append, List.mem_append, l.map_context, r.map_context] at shown
        exact shown.elim (fun shown => disjoint a (l.visible_subset shown) a (List.mem_append_right _ found) rfl)
          fun shown => disjoint' a (r.visible_subset shown) a found rfl
      refine ⟨⟨left.formed, ?_, formedOption_iff.2 (forall_mem_map_option.2 fun e mem => ?_)⟩, ⟨?_, left.shows.2⟩, List.forall_mem_cons.2 ⟨⟨_, _, left⟩,
        List.forall_mem_cons.2 ⟨⟨_, _, right⟩, List.forall_mem_map.2 fun e mem => ⟨_, _, test e (Option.mem_toList.1 mem)⟩⟩⟩⟩
      · exact left.shows.1.symm ▸ right.formed
      · exact left.shows.1.symm ▸ right.shows.1.symm ▸ (test e mem).formed
      · exact congrArg₂ (· ++ ·) left.shows.1 right.shows.1
  | select s => exact formed_select placed.select (Node.forall_parts_select.1 each)
  | projection p =>
    obtain ⟨s, e, a⟩ := p
    have placed : Projection.Placed lit Γ ⟨s, e, a⟩ := placed.projection
    have select : (Node.select s).Rewrites I db lit Γ none (.select (f.select (s.inside f))) := each _ List.mem_cons_self placed.select.node
    have projector : (Node.expr e).Rewrites I db lit (Γ ++ [(s.label, s.heading)]) none (.expr (e.inside f)) :=
      each _ (by simp [Node.parts]) placed.projector
    exact ⟨(Projection.rewrites_parts (a := a) select.select projector).formed, trivial,
      List.forall_mem_cons.2 ⟨⟨_, _, select⟩, List.forall_mem_singleton.2 ⟨_, _, projector⟩⟩⟩
  | subquery => exact (plain rfl).elim
  | lambda | query => cases bound

theorem changed (h : f.Sound I db lit T) (meets : T n) (placed : n.Placed lit Γ agg) (within : n.Rewrites I db lit Γ agg (n.inside f)) :
    n.Rewrites I db lit Γ agg (n.map f.parts) := by
  have still := h.kept Γ agg n placed.formed meets
  cases n with
  | select s => exact (within.select.trans (h.select Γ _ still (placed.select.reforms within.select.toReforms))).node
  | projection p => exact (within.projection.trans (h.projection Γ _ still (placed.projection.rewrites within.projection))).node
  | lambda | query => exact placed.formed.elim
  | _ => exact within

/-- A sound change may be made all through a tree. -/
theorem inside (h : f.Sound I db lit T) (bound : n.isBound = true) (meets : T n) (placed : n.Placed lit Γ agg) :
    n.Rewrites I db lit Γ agg (n.inside f) := by
  induction n, bound using Node.bound_induction generalizing Γ agg with
  | query q => exact placed.formed.elim
  | step n bound other ih =>
    rw [Node.inside_eq f bound]
    have each (p : Node) (mem : p ∈ n.parts) {Γ : Context} {agg : Option Context} (placed : p.Placed lit Γ agg) :
        p.Rewrites I db lit Γ agg (p.map f.parts) := by
      have part := h.parts n bound other meets p mem
      exact h.changed part placed (ih p mem (Node.isBound_parts bound other p mem) part placed)
    obtain ⟨formed, shows, parts⟩ := formed_mapParts bound placed each
    have related : Node.Related (fun p p' => ∃ Γ agg, p.Rewrites I db lit Γ agg p') n (n.mapParts f.parts) := Node.related_mapParts bound parts
    refine ⟨formed, shows, fun a => (related.imp fun p p' part => ?_).count_le bound, (related.imp fun p p' part => ?_).alike_eq bound other⟩
    · obtain ⟨_, _, part⟩ := part
      exact part.declared a
    · obtain ⟨_, _, part⟩ := part
      exact part.alike

end TreeChange.Sound

end Relational

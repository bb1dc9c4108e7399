import Relational.Proofs.Lowering.Scalars

/-!
# Selects that list rows

Filters, projections, cuts and joins are lowered to selects that filter and cut the rows of a source and show scalars of them. With the
columns of an expression, such a select has the values of the expression at the rows that it keeps
(`Select.Lists.values`). All aliases that it declares were given out for it, so what it reads under other
aliases belongs to the rows around it (`Projection.Lowered`).
-/

namespace Relational

variable {D : Type} {I : Interpretation D} {db : Database D} {P Q : Alias → Prop} {a a₁ a' : Alias} {src : Source} {s : Select}
  {p : Projection} {e : Expr}

/-- A column under an alias of the rows around a select, or of its source. -/
def Seen (P : Alias → Prop) (visible : List Alias) (c : ColumnRef) : Prop := P c.label ∨ c.label ∈ visible

/-- A select that filters and cuts the rows of a source. Its clauses are scalars over the rows of the source and the rows around it. -/
structure Select.Lists (P : Alias → Prop) (src : Source) (s : Select) : Prop where
  source : s.source = some src
  columns : ∀ c ∈ s.columns, c.expr.Scalar (Seen P src.visible)
  filter : ∀ e ∈ s.filter, e.Scalar (Seen P src.visible)
  offset : ∀ e ∈ s.offset, e.Scalar fun c => P c.label
  limit : ∀ e ∈ s.limit, e.Scalar fun c => P c.label
  groupBy : s.groupBy = []
  having : s.having = none
  orderBy : s.orderBy = []
  distinct : s.distinct = false

/-- The alias was given out between two others. -/
def Alias.Between (a a' b : Alias) : Prop := a.id ≤ b.id ∧ b.id < a'.id

/-- A source that shows aliases given out for it, and reads no others but those of the rows around it. -/
structure Source.Within (P : Alias → Prop) (a a' : Alias) (src : Source) : Prop where
  reads : src.Reads fun b => P b ∨ a.Between a' b
  visible : ∀ b ∈ src.visible, a.Between a' b

variable (I db) in
/-- A projection as listing combinators are lowered to. -/
structure Projection.Lowered (P : Alias → Prop) (a a' : Alias) (p : Projection) : Prop where
  label : a.Between a' p.select.label
  lists : ∃ src, p.select.Lists P src ∧ src.Within P a a'
  projector : p.projector.Scalar fun c => P c.label ∨ c.label = p.select.label ∧ c.name ∈ p.select.columnNames
  /-- Each column is found by its name. -/
  shows : ∀ σ, ∀ c ∈ p.select.columns, I.named (p.select.shownAt I db σ) c.name = c.expr.eval I db σ [σ]

/-! ## Aliases -/

theorem Alias.Between.mono {b c c' : Alias} (between : c.Between c' b) (first : a.id ≤ c.id) (last : c'.id ≤ a'.id) : a.Between a' b :=
  ⟨Nat.le_trans first between.1, Nat.lt_of_lt_of_le between.2 last⟩

theorem Source.Reads.mono (reads : src.Reads P) (imp : ∀ b, P b → Q b) : src.Reads Q := fun c mem => imp _ (reads c mem)

theorem Expr.Scalar.reads {R : ColumnRef → Prop} (scalar : e.Scalar R) (imp : ∀ c, R c → Q c.label) : e.Reads Q :=
  fun c mem => imp c (scalar.columnRefs c mem)

theorem Source.Within.mono {c c' : Alias} (within : src.Within P c c') (first : a.id ≤ c.id) (last : c'.id ≤ a'.id) :
    src.Within P a a' where
  reads := within.reads.mono fun _ => Or.imp_right fun between => between.mono first last
  visible b mem := (within.visible b mem).mono first last

/-! ## Rows -/

namespace Select.Lists

theorem ungrouped (lists : s.Lists P src) : s.Ungrouped where
  groupBy := lists.groupBy
  having := lists.having
  aggregates := by
    have columns : s.columns.any (·.expr.hasAggregate) = false := by
      rw [List.any_eq_false]
      intro c mem
      rw [(lists.columns c mem).hasAggregate]
      exact Bool.false_ne_true
    simp [hasAggregates, columns, lists.orderBy, lists.having]

/-- The rows that the select keeps of its source. -/
theorem rows_eq (lists : s.Lists P src) (ρ : Env D) :
    s.rows I db ρ = (s.cut I db ρ ((src.rows I db ρ).filter (s.passes I db))).map (s.shownAt I db) := by
  rw [lists.ungrouped.rows_eq lists.distinct, kept_unordered lists.orderBy, lists.source, sourceRows]

theorem values_eq (lists : p.select.Lists P src) (ρ : Env D) :
    p.values I db ρ = (p.select.cut I db ρ ((src.rows I db ρ).filter (p.select.passes I db))).map fun σ =>
      p.projector.eval I db (p.select.shownRow I db ρ σ) [p.select.shownRow I db ρ σ] := by
  rw [Projection.values_eq, Source.rows, lists.rows_eq, List.map_map, List.map_map]
  rfl

theorem reads (lists : s.Lists P src) (source : src.Reads Q) (outer : ∀ b, P b → Q b) (visible : ∀ b ∈ src.visible, Q b) :
    s.Reads Q := by
  have seen {e : Expr} (scalar : e.Scalar (Seen P src.visible)) : e.Reads Q :=
    scalar.reads fun c => Or.rec (outer _) (visible _)
  refine Select.reads_iff.2 ⟨fun c mem => seen (lists.columns c mem), ?_, fun e mem => seen (lists.filter e mem), ?_, ?_, ?_,
    fun e mem => (lists.offset e mem).reads fun c => outer _, fun e mem => (lists.limit e mem).reads fun c => outer _⟩
  · rw [lists.source]
    rintro _ ⟨⟩
    exact source
  · rw [lists.groupBy]
    rintro _ ⟨⟩
  · rw [lists.having]
    rintro _ ⟨⟩
  · rw [lists.orderBy]
    rintro _ ⟨⟩

end Select.Lists

/-- A lowered projection as a source. -/
theorem Projection.Lowered.within (lowered : p.Lowered I db P a a') : (Source.select p.select).Within P a a' := by
  obtain ⟨src, lists, within⟩ := lowered.lists
  refine ⟨?_, List.forall_mem_singleton.2 lowered.label⟩
  exact lists.reads within.reads (fun _ => .inl) fun b mem => .inr (within.visible b mem)

/-! ## Columns of an expression -/

/-- A select over a source with the columns of an expression. -/
structure Select.Splits (P : Alias → Prop) (a : Alias) (src : Source) (e : Expr) (s : Select) : Prop where
  label : s.label = a
  columns : s.columns = (e.projectColumns a src.visible).columns
  lists : (∀ c ∈ s.columns, c.expr.Scalar (Seen P src.visible)) → s.Lists P src

namespace Select.Splits

variable (splits : s.Splits P a₁ src e) (scalar : e.Scalar (Seen P src.visible))

include splits scalar

theorem made : ∃ l : ColumnList, s.columns = l.columns ∧ l.Made ⟨s.label, src.visible⟩ (Expr.Scalar (Seen P src.visible)) ∧
    e.Splits ⟨s.label, src.visible⟩ l (e.projectColumns a₁ src.visible).projector := by
  rw [splits.columns, splits.label]
  exact Expr.projectColumns_splits ⟨a₁, src.visible⟩ (by simp [scalar.nested]) fun _ => scalar.part

theorem toLists : s.Lists P src := by
  obtain ⟨l, columns, made, -⟩ := splits.made scalar
  exact splits.lists fun c mem => made.parts c (columns ▸ mem)

theorem lowered (within : src.Within P a a₁) (first : a.id ≤ a₁.id) :
    (⟨s, (e.projectColumns a₁ src.visible).projector, none⟩ : Projection).Lowered I db P a a₁.next := by
  obtain ⟨l, columns, made, rest⟩ := splits.made scalar
  have last : a₁.id ≤ a₁.next.id := Nat.le_succ _
  refine ⟨?_, ⟨src, splits.toLists scalar, within.mono (Nat.le_refl _) last⟩, ?_, fun σ c mem => ?_⟩
  · rw [splits.label]
    exact ⟨first, Nat.lt_succ_self _⟩
  · refine (scalar.splits rest).mono fun c => Or.imp (fun seen => seen.1.resolve_right seen.2) fun own => ?_
    rwa [Select.columnNames, columns]
  · simp only [columns] at mem
    simp only [Select.shownAt, columns]
    exact I.named_of_nodup made.names mem fun c => c.expr.eval I db σ [σ]

/-- At each row that the select keeps, what is left of the expression has the value of the expression. -/
theorem values (first : a.id ≤ a₁.id) (outer : ∀ b, P b → b.id < a.id) (literals : I.RespectsLiterals) (ρ : Env D) :
    (⟨s, (e.projectColumns a₁ src.visible).projector, none⟩ : Projection).values I db ρ =
      (s.cut I db ρ ((src.rows I db ρ).filter (s.passes I db))).map fun σ => e.eval I db σ [σ] := by
  obtain ⟨l, columns, made, rest⟩ := splits.made scalar
  rw [Select.Lists.values_eq (p := ⟨s, _, none⟩) (splits.toLists scalar)]
  refine List.map_congr_left fun σ mem => ?_
  have kept : σ ∈ src.rows I db ρ := List.mem_of_mem_filter ((s.cut_sublist I db ρ _).subset mem)
  rw [shownRow, shownAt, columns]
  refine rest.eval literals scalar made (fun c seen outside => ⟨fun own => ?_, (src.rows_frame kept _ outside).symm⟩) _ _
  have before := outer c.label (seen.resolve_right outside)
  rw [show c.label = a₁ from own.trans splits.label] at before
  omega

end Select.Splits

/-! ## One combinator -/

theorem Select.Splits.plain : (Select.plain a (e.projectColumns a src.visible).columns src).Splits P a src e :=
  ⟨rfl, rfl, fun columns => ⟨rfl, columns, by rintro _ ⟨⟩, by rintro _ ⟨⟩, by rintro _ ⟨⟩, rfl, rfl, rfl, rfl⟩⟩

variable (I db) in
/-- The value of an expression at a row. -/
def Expr.valueAt (σ : Env D) (e : Expr) : D := e.eval I db σ [σ]

variable (I db) in
/-- The rows that a projection makes its values of. -/
def Projection.elements (ρ : Env D) (p : Projection) : List (Env D) := (Source.select p.select).rows I db ρ

theorem Projection.values_eq_elements (p : Projection) (ρ : Env D) :
    p.values I db ρ = (p.elements I db ρ).map fun σ => p.projector.valueAt I db σ := p.values_eq ρ

/-- A row of which each value depends on its name. -/
theorem Interpretation.named_of_mem (value : String → D) {names : List String} {name : String} (mem : name ∈ names) :
    I.named (names.map fun n => (n, value n)) name = value name := by
  have found : (names.map fun n => (n, value n)).lookup name = some (value name) := by
    induction names with
    | nil => cases mem
    | cons n names ih =>
      rw [List.map_cons, List.lookup_cons]
      cases same : name == n with
      | true => rw [beq_iff_eq.1 same]
      | false => exact ih ((List.mem_cons.1 mem).resolve_left (beq_eq_false_iff_ne.1 same))
  rw [named, found, Option.getD_some]

/-- The stored columns of an entity. -/
theorem Binding.entity_lowered {catalog : Catalog} {entity : String}
    (h : Binding.entity catalog entity (fun s a => .table s.kind a entity s.storedName) a = .ok (p, a')) :
    p.Lowered I db P a a' ∧ ∀ ρ, p.values I db ρ = catalog.records I db entity := by
  obtain ⟨schema, a₁, get, rest⟩ := bind_eq_ok.1 h
  obtain ⟨found, rfl⟩ := ofResult_eq_ok.1 get
  cases rest
  let inner : Source := .table schema.kind a entity schema.storedName
  let columns : List Named := schema.stored.map fun c => ⟨c.name, .column ⟨a, c.name, c.columnTy⟩⟩
  have lists : (Select.plain a.next columns inner).Lists P inner := by
    refine ⟨rfl, List.forall_mem_map.2 fun c _ => .column (.inr (List.mem_singleton_self _)), ?_, ?_, ?_, rfl, rfl, rfl, rfl⟩ <;>
      rintro _ ⟨⟩
  -- Two columns of one name are the same column of the table.
  have named (σ : Env D) (c : ColumnSchema) (mem : c ∈ schema.stored) :
      I.named ((Select.plain a.next columns inner).shownAt I db σ) c.name = σ a c.name := by
    have shown : (Select.plain a.next columns inner).shownAt I db σ = (schema.stored.map (·.name)).map fun name => (name, σ a name) := by
      rw [Select.shownAt, Select.plain, List.map_map, List.map_map]
      rfl
    rw [shown]
    exact Interpretation.named_of_mem (σ a) (List.mem_map_of_mem mem)
  refine ⟨⟨⟨Nat.le_succ _, Nat.lt_succ_self _⟩, ⟨inner, lists, ?_, ?_⟩, ?_, fun σ => List.forall_mem_map.2 (named σ)⟩, fun ρ => ?_⟩
  · rintro _ ⟨⟩
  · exact List.forall_mem_singleton.2 ⟨Nat.le_refl _, Nat.lt_succ_of_lt (Nat.lt_succ_self _)⟩
  · refine .operator rfl (List.forall_mem_map.2 (List.forall_mem_map.2 fun c mem => .column (.inr ⟨rfl, ?_⟩)))
    rw [Select.columnNames, Select.plain, List.map_map]
    exact List.mem_map.2 ⟨c, mem, rfl⟩
  · rw [lists.values_eq, Select.cut_none rfl rfl, Select.passes_none rfl, List.filter_true, Source.rows, List.map_map, Catalog.records, found]
    refine List.map_congr_left fun row _ => ?_
    simp only [Function.comp_apply, Expr.eval, evalNamed_eq, List.map_map]
    refine congrArg (I.record _) (List.map_congr_left fun c mem => ?_)
    have shown := named (ρ.set a row) c mem
    simp only [Function.comp_apply, Expr.eval, Select.shownRow, Select.plain, Env.set, if_true] at shown ⊢
    exact congrArg (Prod.mk c.name) shown

namespace Projection.Lowered

variable {p' : Projection} (lowered : p.Lowered I db P a a₁)

include lowered

theorem grows : a.id ≤ a₁.id := Nat.le_of_lt (Nat.lt_of_le_of_lt lowered.label.1 lowered.label.2)

theorem projector_seen : p.projector.Scalar (Seen P [p.select.label]) :=
  lowered.projector.mono fun _ => Or.imp_right fun own => List.mem_singleton.2 own.1

variable (outer : ∀ b, P b → b.id < a.id) (literals : I.RespectsLiterals)

include outer literals

/-- A select around a lowered one is lowered, at the next alias. -/
theorem wrap (scalar : e.Scalar (Seen P [p.select.label])) {finish : Select → Select} {s : Select}
    (finished : finish (.plain a₁ (e.projectColumns a₁ [p.select.label]).columns (.select p.select)) = s)
    (splits : s.Splits P a₁ (.select p.select) e) {values : Env D → List D}
    (kept : ∀ ρ, (s.cut I db ρ ((p.elements I db ρ).filter (s.passes I db))).map (fun σ => e.valueAt I db σ) = values ρ)
    (h : Binding.wrap p.select e finish a₁ = .ok (p', a')) : p'.Lowered I db P a a' ∧ ∀ ρ, p'.values I db ρ = values ρ := by
  obtain ⟨rfl, rfl⟩ := Binding.wrap_eq_ok.1 h
  rw [finished]
  exact ⟨splits.lowered scalar lowered.within lowered.grows,
    fun ρ => (splits.values scalar lowered.grows outer literals ρ).trans (kept ρ)⟩

theorem filtered {condition : Expr} (scalar : condition.Scalar (Seen P [p.select.label]))
    (h : Binding.filtered p condition a₁ = .ok (p', a')) :
    p'.Lowered I db P a a' ∧ ∀ ρ, p'.values I db ρ =
      ((p.elements I db ρ).filter fun σ => I.isTrue (condition.valueAt I db σ)).map fun σ => p.projector.valueAt I db σ := by
  refine lowered.wrap outer literals lowered.projector_seen rfl
    ⟨rfl, rfl, fun columns => { Select.Splits.plain.lists columns with filter := ?_ }⟩ (fun ρ => ?_) h
  · rintro _ ⟨⟩
    exact scalar
  · rw [Select.cut_none rfl rfl]
    rfl

theorem projected (scalar : e.Scalar (Seen P [p.select.label])) (h : Binding.wrap p.select e id a₁ = .ok (p', a')) :
    p'.Lowered I db P a a' ∧ ∀ ρ, p'.values I db ρ = (p.elements I db ρ).map fun σ => e.valueAt I db σ := by
  refine lowered.wrap outer literals scalar rfl .plain (fun ρ => ?_) h
  rw [Select.cut_none rfl rfl, Select.passes_none rfl, List.filter_true]

theorem skipped {n : Expr} (scalar : n.Scalar fun c => P c.label)
    (h : Binding.wrap p.select p.projector (fun s => { s with offset := some n }) a₁ = .ok (p', a')) :
    p'.Lowered I db P a a' ∧ ∀ ρ, p'.values I db ρ = (p.values I db ρ).drop (I.offset (n.valueAt I db ρ)) := by
  refine lowered.wrap outer literals lowered.projector_seen rfl
    ⟨rfl, rfl, fun columns => { Select.Splits.plain.lists columns with offset := ?_ }⟩ (fun ρ => ?_) h
  · rintro _ ⟨⟩
    exact scalar
  · rw [p.values_eq_elements, ← List.map_drop, Select.passes_none rfl, List.filter_true]
    rfl

theorem taken {n : Expr} (scalar : n.Scalar fun c => P c.label)
    (h : Binding.wrap p.select p.projector (fun s => { s with limit := some n }) a₁ = .ok (p', a')) :
    p'.Lowered I db P a a' ∧ ∀ ρ, p'.values I db ρ = takeUpTo (I.limit (n.valueAt I db ρ)) (p.values I db ρ) := by
  refine lowered.wrap outer literals lowered.projector_seen rfl
    ⟨rfl, rfl, fun columns => { Select.Splits.plain.lists columns with limit := ?_ }⟩ (fun ρ => ?_) h
  · rintro _ ⟨⟩
    exact scalar
  · rw [p.values_eq_elements, ← map_takeUpTo, Select.passes_none rfl, List.filter_true]
    rfl

end Projection.Lowered

end Relational

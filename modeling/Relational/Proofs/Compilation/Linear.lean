import Relational.Proofs.Compilation.Bodies
import Relational.Proofs.Lowering.Selects

/-!
# Bound linear queries

A linear query is bound combinator by combinator (`Grammar.Cases.binds`): each of them puts one select around those
before it. The projection is straight, and it has the elements of the query as its values (`Vocabulary.Clear.cases`): the
filter, the ordering or the cut of a select does with the rows what the combinator does with the elements.
-/

namespace Relational

/-! ## One select around another -/

section Wraps

variable {D : Type} {I : Interpretation D} {db : Database D} {lit : Value → Ty → Prop} {Γ : Context} {inner s : Select} {e : Expr}
  {a a₁ a' : Alias} {p : Projection}

variable (lit) in
/-- A select over another one with the columns of an expression, which may filter, order and cut. -/
structure Select.Wraps (Γ : Context) (s inner : Select) (e : Expr) : Prop where
  columns : s.columns = (e.projectColumns s.label [inner.label]).columns
  source : s.source = some (.select inner)
  filter : ∀ x ∈ s.filter, x.FlatIn lit (Γ ++ [(inner.label, inner.heading)])
  orderBy : ∀ k ∈ s.orderBy, k.expr.FlatIn lit (Γ ++ [(inner.label, inner.heading)])
  offset : ∀ x ∈ s.offset, x.FlatIn lit Γ
  limit : ∀ x ∈ s.limit, x.FlatIn lit Γ
  groupBy : s.groupBy = []
  having : s.having = none
  distinct : s.distinct = false

namespace Select.Wraps

theorem plain : (Select.plain a (e.projectColumns a [inner.label]).columns (.select inner)).Wraps lit Γ inner e :=
  ⟨rfl, rfl, by rintro _ ⟨⟩, by rintro _ ⟨⟩, by rintro _ ⟨⟩, by rintro _ ⟨⟩, rfl, rfl, rfl⟩

variable (wraps : s.Wraps lit Γ inner e) (flat : e.FlatIn lit [(inner.label, inner.heading)])

include wraps flat

/-- The columns of the select, and what is left of the expression. -/
theorem made : ∃ l : ColumnList, s.columns = l.columns ∧
    l.Made ⟨s.label, [inner.label]⟩ (Expr.FlatIn lit [(inner.label, inner.heading)]) ∧
      e.Splits ⟨s.label, [inner.label]⟩ l (e.projectColumns s.label [inner.label]).projector := by
  rw [wraps.columns]
  exact Expr.projectColumns_splits ⟨s.label, [inner.label]⟩ (by simp [flat.scalar.nested]) fun _ => flat.part

theorem isFlat : s.IsFlat := by
  obtain ⟨l, columns, made, -⟩ := wraps.made flat
  exact
    { names := by rw [Select.columnNames, columns]; exact made.names
      columns := by rw [columns]; exact fun c mem => (made.parts c mem).flat
      filter := fun x mem => (wraps.filter x mem).flat
      orderBy := fun k mem => (wraps.orderBy k mem).flat
      offset := fun x mem => (wraps.offset x mem).flat
      limit := fun x mem => (wraps.limit x mem).flat
      groupBy := wraps.groupBy
      having := wraps.having
      distinct := wraps.distinct }

theorem formed (within : (Source.select inner).Formed lit Γ) : s.Formed lit Γ := by
  have isFlat := wraps.isFlat flat
  obtain ⟨l, columns, made, -⟩ := wraps.made flat
  have context : s.context = [(inner.label, inner.heading)] := by rw [Select.context, wraps.source]; rfl
  have columnContext : s.columnContext = [(inner.label, inner.heading)] := by
    rw [Select.columnContext, Select.isTotal, isFlat.ungrouped.aggregates, context]
    simp
  have visible : s.visible = [inner.label] := by rw [Select.visible, wraps.source]; rfl
  refine Select.formed_iff.2 ⟨?_, ?_, fun c mem => ?_, fun c mem r eq => ?_, ?_, ?_, ?_, ?_, fun x mem => (wraps.offset x mem).formed,
    fun x mem => (wraps.limit x mem).formed⟩
  · rw [wraps.source]
    rintro _ ⟨⟩
    exact within
  · rw [context]
    exact fun x mem => (wraps.filter x mem).formed
  · rw [columnContext]
    refine (isFlat.columns c mem).formed_any ((made.parts c (columns ▸ mem)).formed.weaken fun c sees => ?_) _
    exact Context.sees_append.2 (.inr sees)
  · have same : c.expr = .column r := by
      cases h : c.expr <;> rw [h] at eq <;> cases eq
      rfl
    rw [visible]
    exact made.own c (columns ▸ mem) r same
  · simp [wraps.groupBy]
  · simp [wraps.having]
  · simp [wraps.having]
  · rw [context]
    exact fun k mem => (wraps.orderBy k mem).formed

theorem projector : (e.projectColumns s.label [inner.label]).projector.FlatIn lit [(s.label, s.heading)] := by
  obtain ⟨l, columns, made, rest⟩ := wraps.made flat
  obtain ⟨isFlat, formed⟩ := flat.splits (fun c sees => Context.label_of_sees sees) rest
  refine ⟨isFlat, formed.weaken fun c sees => ?_⟩
  obtain ⟨heading, mem, shows⟩ := sees
  obtain ⟨label, rfl⟩ := Prod.mk.inj (List.mem_singleton.1 mem)
  refine ⟨s.heading, by rw [label]; exact List.mem_singleton_self _, ?_⟩
  rw [Select.heading_eq_true (wraps.isFlat flat).names, Select.columnNames, columns]
  exact List.contains_iff_mem.1 shows

/-- At each row that is kept, what is left of the expression has the value of the expression. -/
theorem values (law : I.Lawful lit) (ρ : Env D) :
    (⟨s, (e.projectColumns s.label [inner.label]).projector, none⟩ : Projection).values I db ρ =
      (s.kept I db ρ ((Source.select inner).rows I db ρ)).map fun σ => e.eval I db σ [σ] := by
  obtain ⟨l, columns, made, rest⟩ := wraps.made flat
  have source : sourceRows I db ρ s.source = (Source.select inner).rows I db ρ := by rw [wraps.source, sourceRows]
  rw [Projection.values_of_flat (wraps.isFlat flat), source]
  refine List.map_congr_left fun σ _ => ?_
  rw [Select.shownRow, Select.shownAt, columns]
  refine rest.eval_of_shares flat.scalar made.names (fun d mem x part shared => ?_) (fun c sees outside => ?_) _ _
  · exact Expr.eval_of_sharesColumn law.literals shared (made.parts d mem).formed (flat.part part).formed σ [σ]
  · exact absurd (Context.label_of_sees sees) outside

end Select.Wraps

variable (lit) in
/-- A straight projection over aliases between two others. -/
structure Projection.Stands (a a' : Alias) (p : Projection) : Prop where
  straight : (Source.select p.select).Straight
  formed : p.select.Formed lit []
  nodup : p.select.declared.Nodup
  fresh : ∀ b ∈ p.select.declared, a.id ≤ b.id ∧ b.id < a'.id
  projector : p.projector.FlatIn lit [(p.select.label, p.select.heading)]
  aggregator : p.aggregator = none

theorem Projection.Stands.source_formed (stands : p.Stands lit a a') : (Source.select p.select).Formed lit [] := by
  refine ⟨?_, stands.formed⟩
  cases stands.straight with
  | select _ reads _ => rw [reads]; rfl

/-- A select around one that stands stands at the next alias. -/
theorem Projection.Stands.wrap (stands : p.Stands lit a a₁) (flat : e.FlatIn lit [(p.select.label, p.select.heading)])
    (wraps : s.Wraps lit [] p.select e) (label : s.label = a₁) :
    (⟨s, (e.projectColumns s.label [p.select.label]).projector, none⟩ : Projection).Stands lit a a₁.next := by
  have isFlat := wraps.isFlat flat
  have declared : s.declared = a₁ :: p.select.declared := by
    rw [isFlat.declared_eq, wraps.source, label]
    simp [Source.declared_select]
  refine ⟨.select isFlat wraps.source stands.straight, wraps.formed flat stands.source_formed, ?_, ?_, wraps.projector flat, rfl⟩
  · show s.declared.Nodup
    rw [declared, List.nodup_cons]
    exact ⟨fun mem => Nat.lt_irrefl _ (stands.fresh a₁ mem).2, stands.nodup⟩
  · show ∀ b ∈ s.declared, a.id ≤ b.id ∧ b.id < a₁.id + 1
    have first := stands.fresh _ p.select.label_mem_declared
    rw [declared, List.forall_mem_cons]
    refine ⟨by omega, fun b mem => ?_⟩
    have := stands.fresh b mem
    omega

/-- Every entity has a name for each of its stored columns. -/
def Catalog.NamesColumns (catalog : Catalog) : Prop :=
  ∀ entity schema, catalog.get entity = .ok schema → (schema.stored.map (·.name)).Nodup

theorem Binding.entity_stands {catalog : Catalog} (names : catalog.NamesColumns) {entity : String}
    (h : Binding.entity catalog entity (fun s a => .table s.kind a entity s.storedName) a = .ok (p, a')) : p.Stands lit a a' := by
  obtain ⟨schema, a₁, get, rest⟩ := bind_eq_ok.1 h
  obtain ⟨found, rfl⟩ := ofResult_eq_ok.1 get
  cases rest
  let inner : Source := .table schema.kind a entity schema.storedName
  let columns : List Named := schema.stored.map fun c => ⟨c.name, .column ⟨a, c.name, c.columnTy⟩⟩
  have columnNames : (Select.plain a.next columns inner).columnNames = schema.stored.map (·.name) := by
    simp [Select.columnNames, Select.plain, columns]
  have flat : (Select.plain a.next columns inner).IsFlat :=
    { names := columnNames ▸ names entity schema found
      columns := List.forall_mem_map.2 fun _ _ => .column trivial
      filter := by rintro _ ⟨⟩
      orderBy := by rintro _ ⟨⟩
      offset := by rintro _ ⟨⟩
      limit := by rintro _ ⟨⟩
      groupBy := rfl
      having := rfl
      distinct := rfl }
  have context : (Select.plain a.next columns inner).columnContext = [(a, fun _ => true)] := by
    rw [Select.columnContext, Select.isTotal, flat.ungrouped.aggregates]
    rfl
  refine ⟨.select flat rfl (.table ..), Select.formed_iff.2 ⟨?_, by rintro _ ⟨⟩, ?_, ?_, by rintro _ ⟨⟩, by rintro _ ⟨⟩, by rintro ⟨⟩,
    by rintro _ ⟨⟩, by rintro _ ⟨⟩, by rintro _ ⟨⟩⟩, ?_, ?_, ?_, rfl⟩
  · rintro _ ⟨⟩
    trivial
  · rw [context]
    exact List.forall_mem_map.2 fun c _ => ⟨_, List.mem_singleton_self _, rfl⟩
  · refine List.forall_mem_map.2 fun c _ r eq => ?_
    cases eq
    exact List.mem_singleton_self _
  · show (Select.plain a.next columns inner).declared.Nodup
    have other : a.next ≠ a := fun same => Nat.succ_ne_self a.id (congrArg Alias.id same)
    rw [flat.declared_eq]
    simpa [Select.plain, inner, Source.collect, declaredAliases] using other
  · show ∀ b ∈ (Select.plain a.next columns inner).declared, a.id ≤ b.id ∧ b.id < a.id + 2
    rw [flat.declared_eq]
    simp [Select.plain, inner, Source.collect, declaredAliases, Alias.next]
  · have column (c : ColumnSchema) (mem : c ∈ schema.stored) : (Select.plain a.next columns inner).heading c.name = true := by
      rw [Select.heading_eq_true flat.names, columnNames]
      exact List.mem_map_of_mem mem
    refine ⟨.operator rfl ?_, (Expr.formed_operator rfl).2 ?_⟩
    · exact List.forall_mem_map.2 (List.forall_mem_map.2 fun c _ => .column trivial)
    · exact List.forall_mem_map.2 (List.forall_mem_map.2 fun c mem => ⟨_, List.mem_singleton_self _, column c mem⟩)

end Wraps

/-! ## What is bound -/

variable {base : Interpretation Value} {db : Database Value} {V : Vocabulary} {a a₁ a₂ a' : Alias} {run : List Value} {catalog : Catalog}

variable (base db V) in
/-- A straight projection of the vocabulary, which has these values. -/
structure Projection.Bound (a a' : Alias) (run : List Value) (p : Projection) : Prop extends p.Stands V.literal a a' where
  spoken : p.projector.Spoken V
  values : ∀ ρ, p.values base.evaluating db ρ = run

/-! ## Sort keys -/

/-- Members in one direction sort like the record of them in that direction. -/
theorem inOrder_members {α D : Type} (le : D → D → Bool) (keys : List (α → D)) (descending : Bool) (x y : α) :
    inOrder le (keys.map fun key => (key, descending)) x y =
      directed (lexicographic le) descending (keys.map (· x)) (keys.map (· y)) := by
  induction keys with
  | nil => cases descending <;> rfl
  | cons key keys ih =>
    rw [List.map_cons, inOrder, thenBy, ih]
    cases descending <;> rfl

/-- The sort keys of an expression sort like its value. -/
theorem inOrder_orderKeys (sorts : SortsRecords base.le) {e : Expr} (descending : Bool) :
    inOrder base.le (rowKeys base.evaluating db (Binding.orderKeys descending e)) =
      inOrder base.le [((fun σ : Env Value => e.eval base.evaluating db σ [σ]), descending)] := by
  cases e
  case record r ms =>
    funext σ τ
    have keys : rowKeys base.evaluating db (Binding.orderKeys descending (.record r ms)) =
        (ms.map fun m => fun σ : Env Value => m.expr.eval base.evaluating db σ [σ]).map fun key => (key, descending) := by
      simp [rowKeys, Binding.orderKeys, Function.comp_def]
    have compared (σ τ : Env Value) : base.le ((Expr.record r ms).eval base.evaluating db σ [σ])
        ((Expr.record r ms).eval base.evaluating db τ [τ]) =
          lexicographic base.le (ms.map fun m => m.expr.eval base.evaluating db σ [σ])
            (ms.map fun m => m.expr.eval base.evaluating db τ [τ]) := by
      rw [Expr.eval, Expr.eval, evalNamed_eq, evalNamed_eq]
      refine (sorts.members r.name _ _ (by simp [Function.comp_def])).trans ?_
      simp [Function.comp_def]
    rw [keys, inOrder_members, inOrder_singleton, List.map_map, List.map_map]
    cases descending
    · exact (compared σ τ).symm
    · exact (compared τ σ).symm
  all_goals rfl

/-- Keys that sort rows like values of them, with one more. -/
theorem inOrder_orderKeys_append (sorts : SortsRecords base.le) (keys : List OrderKey) (criteria : Criteria Value Value) {x key : Expr}
    {value : Value → Value} {descending : Bool}
    (sorted : ∀ σ τ : Env Value, inOrder base.le (rowKeys base.evaluating db keys) σ τ =
      inOrder base.le criteria (x.eval base.evaluating db σ [σ]) (x.eval base.evaluating db τ [τ]))
    (means : ∀ σ : Env Value, key.eval base.evaluating db σ [σ] = value (x.eval base.evaluating db σ [σ])) (σ τ : Env Value) :
    inOrder base.le (rowKeys base.evaluating db (keys ++ Binding.orderKeys descending key)) σ τ =
      inOrder base.le (criteria ++ [(value, descending)]) (x.eval base.evaluating db σ [σ]) (x.eval base.evaluating db τ [τ]) := by
  have more (σ τ : Env Value) : inOrder base.le (rowKeys base.evaluating db (Binding.orderKeys descending key)) σ τ =
      inOrder base.le [(value, descending)] (x.eval base.evaluating db σ [σ]) (x.eval base.evaluating db τ [τ]) := by
    rw [inOrder_orderKeys sorts, inOrder_singleton, inOrder_singleton, means, means]
  rw [rowKeys, List.map_append, inOrder_append, inOrder_append, thenBy, thenBy, ← rowKeys, ← rowKeys, sorted, sorted, more]

/-! ## Lambdas -/

/-- The body of a lambda is bound to an expression that has its value at the value of the argument. -/
theorem Lambda.bind_means (clear : V.Clear) {Γ : Context} {l : Lambda} {x e : Expr} (fits : x.Fits V Γ)
    (built : l.body.Built (V.grammar catalog).leaf V.operator) (h : l.bind catalog [] [x] a = .ok (e, a')) :
    a = a' ∧ e.Means base db V Γ fun σ => l.apply base.evaluating db (x.eval base.evaluating db σ [σ]) := by
  obtain ⟨params, body⟩ := l
  rw [Lambda.bind] at h
  split at h
  · cases Binding.fail_eq_ok.1 h
  · next count =>
    obtain ⟨name, rfl⟩ : ∃ name, params = [name] := List.length_eq_one_iff.1 (by simpa using count)
    refine Expr.bind_means clear (fun other e found => ?_) built a a' e h
    have : other = name ∧ e = x := by
      simp only [List.zip_cons_cons, List.zip_nil_right, List.reverse_cons, List.reverse_nil, List.nil_append, List.append_nil,
        List.lookup_cons, List.lookup_nil] at found
      split at found
      · next same => exact ⟨by simpa using same, by simpa using found.symm⟩
      · cases found
    obtain ⟨rfl, rfl⟩ := this
    exact ⟨fits, fun σ => by simp⟩

/-! ## One combinator -/

theorem Binding.orderKeys_forall {P : Expr → Prop} {e : Expr} (operands : e.isOperator = true → ∀ x ∈ e.operands, P x) (whole : P e)
    (descending : Bool) : ∀ k ∈ orderKeys descending e, P k.expr := by
  cases e
  case record r ms => exact List.forall_mem_map.2 (List.forall_mem_map.1 (operands rfl))
  all_goals exact List.forall_mem_singleton.2 whole

/-- A number of rows is bound to itself. -/
theorem Expr.bind_count {e e' : Expr} (count : e.count?.isSome = true) (h : e.bind catalog [] a = .ok (e', a')) :
    a = a' ∧ e' = e := by
  unfold count? at count
  split at count
  · obtain ⟨rfl, rfl⟩ := Binding.pure_eq_ok.1 h
    exact ⟨rfl, rfl⟩
  · obtain ⟨rfl, rfl⟩ := Binding.pure_eq_ok.1 h
    exact ⟨rfl, rfl⟩
  · cases count

/-- A number of rows refers to nothing. -/
theorem Expr.count_flatIn {lit : Value → Ty → Prop} {e : Expr} (count : e.count?.isSome = true) (numbers : ∀ n t, lit (.int n) t) :
    e.FlatIn lit [] := by
  unfold count? at count
  split at count
  · exact ⟨.leaf rfl, numbers _ _⟩
  · exact ⟨.leaf rfl, numbers _ _⟩
  · cases count

theorem Expr.eval_count {e : Expr} (count : e.count?.isSome = true) (ρ : Env Value) (γ : List (Env Value)) :
    (e.eval base.evaluating db ρ γ).count? = e.count? := by
  unfold count? at count ⊢
  split at count
  · next n t =>
    simp only [eval, Value.count?, Interpretation.evaluating]
    split at count
    · next positive => rw [if_pos positive]
    · cases count
  · next n t =>
    simp only [eval, Value.count?, Interpretation.evaluating]
    split at count
    · next positive => rw [if_pos positive]
    · cases count
  · cases count

namespace Projection.Bound

variable {p : Projection}

theorem run_eq (bound : p.Bound base db V a a₁ run) (ρ : Env Value) :
    run = ((Source.select p.select).rows base.evaluating db ρ).map fun σ => p.projector.eval base.evaluating db σ [σ] :=
  (bound.values ρ).symm.trans (values_eq ..)

theorem fits (bound : p.Bound base db V a a₁ run) : p.projector.Fits V [(p.select.label, p.select.heading)] :=
  ⟨bound.spoken, bound.projector.formed⟩

variable (law : base.evaluating.Lawful V.literal) (bound : p.Bound base db V a a₁ run)

include law bound

/-- A select around a bound one is bound, at the next alias. -/
theorem wrap {e : Expr} (fits : e.Fits V [(p.select.label, p.select.heading)]) {s : Select} (wraps : s.Wraps V.literal [] p.select e)
    (label : s.label = a₁) {run' : List Value}
    (rows : ∀ ρ, (s.kept base.evaluating db ρ ((Source.select p.select).rows base.evaluating db ρ)).map
      (fun σ => e.eval base.evaluating db σ [σ]) = run') :
    (⟨s, (e.projectColumns s.label [p.select.label]).projector, none⟩ : Projection).Bound base db V a a₁.next run' := by
  obtain ⟨l, -, -, rest⟩ := wraps.made fits.flatIn
  exact ⟨bound.toStands.wrap fits.flatIn wraps label, fits.spoken.splits (fun _ es h => V.operator_withOperands h es) rest,
    fun ρ => (wraps.values fits.flatIn law ρ).trans (rows ρ)⟩

theorem filtered {condition : Expr} {test : Value → Value}
    (means : condition.Means base db V [(p.select.label, p.select.heading)] fun σ => test (p.projector.eval base.evaluating db σ [σ]))
    {p' : Projection} (h : Binding.filtered p condition a₁ = .ok (p', a')) :
    p'.Bound base db V a a' (run.filter fun v => (test v).isTrue) := by
  obtain ⟨rfl, rfl⟩ := Binding.wrap_eq_ok.1 h
  refine bound.wrap law bound.fits ?_ rfl fun ρ => ?_
  · refine { Select.Wraps.plain with filter := ?_ }
    rintro _ ⟨⟩
    exact means.flatIn
  · rw [Select.kept_unordered rfl, Select.cut_none rfl rfl, bound.run_eq ρ, List.filter_map]
    refine congrArg (List.map _) (List.filter_congr fun σ _ => ?_)
    exact congrArg Value.isTrue (means.eval σ)

theorem projected {body : Expr} {selector : Value → Value}
    (means : body.Means base db V [(p.select.label, p.select.heading)] fun σ => selector (p.projector.eval base.evaluating db σ [σ]))
    {p' : Projection} (h : Binding.wrap p.select body id a₁ = .ok (p', a')) :
    p'.Bound base db V a a' (run.map selector) := by
  obtain ⟨rfl, rfl⟩ := Binding.wrap_eq_ok.1 h
  refine bound.wrap law means.toFits .plain rfl fun ρ => ?_
  rw [Select.kept_unordered rfl, Select.cut_none rfl rfl, Select.passes_none rfl, List.filter_true, bound.run_eq ρ, List.map_map]
  exact List.map_congr_left fun σ _ => means.eval σ

theorem ordered {keys : List OrderKey} (fits : ∀ k ∈ keys, k.expr.Fits V [(p.select.label, p.select.heading)])
    {criteria : Criteria Value Value}
    (sorted : ∀ σ τ : Env Value, inOrder base.le (rowKeys base.evaluating db keys) σ τ =
      inOrder base.le criteria (p.projector.eval base.evaluating db σ [σ]) (p.projector.eval base.evaluating db τ [τ]))
    {p' : Projection} (h : Binding.ordered p keys a₁ = .ok (p', a')) :
    p'.Bound base db V a a' (run.mergeSort (inOrder base.le criteria)) := by
  obtain ⟨rfl, rfl⟩ := Binding.wrap_eq_ok.1 h
  refine bound.wrap law bound.fits ?_ rfl fun ρ => ?_
  · exact { Select.Wraps.plain with orderBy := fun k mem => (fits k mem).flatIn }
  · rw [Select.kept, Select.cut_none rfl rfl, Select.passes_none rfl, List.filter_true, bound.run_eq ρ]
    exact List.map_mergeSort fun σ _ τ _ => sorted σ τ

theorem skipped {e : Expr} (count : e.count?.isSome = true) {p' : Projection}
    (h : Binding.wrap p.select p.projector (fun s => { s with offset := some e }) a₁ = .ok (p', a')) :
    p'.Bound base db V a a' (run.drop (e.count?.getD 0)) := by
  obtain ⟨rfl, rfl⟩ := Binding.wrap_eq_ok.1 h
  refine bound.wrap law bound.fits ?_ rfl fun ρ => ?_
  · refine { Select.Wraps.plain with offset := ?_ }
    rintro _ ⟨⟩
    exact Expr.count_flatIn count fun _ _ => .inr rfl
  · have offset : base.evaluating.offset (e.eval base.evaluating db ρ [ρ]) = e.count?.getD 0 :=
      congrArg (Option.getD · 0) (Expr.eval_count count ρ [ρ])
    rw [Select.kept_unordered rfl, Select.passes_none rfl, List.filter_true, bound.run_eq ρ, ← List.map_drop, ← offset]
    rfl

theorem taken {e : Expr} (count : e.count?.isSome = true) {p' : Projection}
    (h : Binding.wrap p.select p.projector (fun s => { s with limit := some e }) a₁ = .ok (p', a')) :
    p'.Bound base db V a a' (run.take (e.count?.getD 0)) := by
  obtain ⟨rfl, rfl⟩ := Binding.wrap_eq_ok.1 h
  refine bound.wrap law bound.fits ?_ rfl fun ρ => ?_
  · refine { Select.Wraps.plain with limit := ?_ }
    rintro _ ⟨⟩
    exact Expr.count_flatIn count fun _ _ => .inr rfl
  · obtain ⟨n, counted⟩ := Option.isSome_iff_exists.1 count
    have limit : base.evaluating.limit (e.eval base.evaluating db ρ [ρ]) = some n := (Expr.eval_count count ρ [ρ]).trans counted
    rw [Select.kept_unordered rfl, Select.passes_none rfl, List.filter_true, bound.run_eq ρ, ← List.map_take, counted]
    simp only [Select.cut, Option.map_some, Option.bind_some, limit]
    rfl

end Projection.Bound

/-! ## Linear queries -/

variable (catalog) in
/-- What to show of each combinator of a linear query, given what its source is bound to, and of an ordering what it sorts and by which keys. -/
structure Grammar.Cases (G : Grammar) (B : Query → Alias → Alias → Projection → Prop)
    (K : Query → Alias → Alias → Projection → List OrderKey → Prop) : Prop where
  table : ∀ {entity a a' p}, G.entity entity →
    Binding.entity catalog entity (fun s a => .table s.kind a entity s.storedName) a = .ok (p, a') → B (.table entity) a a' p
  filter : ∀ {q l a a₁ a₂ a' p p' e}, B q a a₁ p → l.body.Built G.leaf G.operator → l.bind catalog [] [p.projector] a₁ = .ok (e, a₂) →
    Binding.filtered p e a₂ = .ok (p', a') → B (.filter q l) a a' p'
  project : ∀ {q l a a₁ a₂ a' p p' e}, B q a a₁ p → l.body.Built G.leaf G.operator → l.bind catalog [] [p.projector] a₁ = .ok (e, a₂) →
    Binding.wrap p.select e id a₂ = .ok (p', a') → B (.project q l) a a' p'
  orderBy : ∀ {q l descending a a₁ a₂ p e}, B q a a₁ p → l.body.Built G.leaf G.operator → l.bind catalog [] [p.projector] a₁ = .ok (e, a₂) →
    K (.orderBy q l descending) a a₂ p (Binding.orderKeys descending e)
  thenBy : ∀ {q l descending a a₁ a₂ p keys e}, K q a a₁ p keys → l.body.Built G.leaf G.operator →
    l.bind catalog [] [p.projector] a₁ = .ok (e, a₂) → K (.thenBy q l descending) a a₂ p (keys ++ Binding.orderKeys descending e)
  ordered : ∀ {q a a₁ a' p p' keys}, K q a a₁ p keys → Binding.ordered p keys a₁ = .ok (p', a') → B q a a' p'
  skip : ∀ {q e a a₁ a' p p'}, B q a a₁ p → e.count?.isSome = true →
    Binding.wrap p.select p.projector (fun s => { s with offset := some e }) a₁ = .ok (p', a') → B (.skip q e) a a' p'
  take : ∀ {q e a a₁ a' p p'}, B q a a₁ p → e.count?.isSome = true →
    Binding.wrap p.select p.projector (fun s => { s with limit := some e }) a₁ = .ok (p', a') → B (.take q e) a a' p'

/-- A linear query is bound combinator by combinator. -/
theorem Grammar.Cases.binds {G : Grammar} {B : Query → Alias → Alias → Projection → Prop}
    {K : Query → Alias → Alias → Projection → List OrderKey → Prop} (cases : G.Cases catalog B K) {q : Query} (linear : q.Linear G) :
    (∀ a a' sequence, q.bindSource catalog [] a = .ok (sequence, a') → ∃ p, sequence = .rows p ∧ B q a a' p) ∧
      ∀ a a' p keys, q.bindOrdered catalog [] a = .ok ((p, keys), a') → K q a a' p keys := by
  have rows {q : Query} {β : Type} (ih : ∀ a a' sequence, q.bindSource catalog [] a = .ok (sequence, a') → ∃ p, sequence = .rows p ∧ B q a a' p)
      {a a' : Alias} {k : Projection → Binding β} {b : β} (h : (do let p ← Binding.asRows (← q.bindSource catalog []); k p) a = .ok (b, a')) :
      ∃ p a₁, B q a a₁ p ∧ k p a₁ = .ok (b, a') := by
    obtain ⟨sequence, a₁, first, h⟩ := Binding.bind_eq_ok.1 h
    obtain ⟨p, rfl, bound⟩ := ih a a₁ sequence first
    exact ⟨p, a₁, bound, h⟩
  have last {x : Binding Projection} {P : Projection → Prop} {a a' : Alias} {sequence : Sequence}
      (h : (do return .rows (← x) : Binding Sequence) a = .ok (sequence, a')) (given : ∀ p, x a = .ok (p, a') → P p) :
      ∃ p, sequence = .rows p ∧ P p := by
    obtain ⟨p, a₁, first, h⟩ := Binding.bind_eq_ok.1 h
    obtain ⟨rfl, rfl⟩ := Binding.pure_eq_ok.1 h
    exact ⟨p, rfl, given p first⟩
  induction linear with
  | table known =>
    refine ⟨fun a a' sequence h => ?_, fun a a' p keys h => by cases Binding.fail_eq_ok.1 h⟩
    exact last h fun p entity => cases.table known entity
  | filter _ body ih =>
    refine ⟨fun a a' sequence h => ?_, fun a a' p keys h => by cases Binding.fail_eq_ok.1 h⟩
    obtain ⟨p, a₁, bound, h⟩ := rows ih.1 h
    obtain ⟨condition, a₂, lambda, h⟩ := Binding.bind_eq_ok.1 h
    exact last h fun p' filtered => cases.filter bound body lambda filtered
  | project _ body ih =>
    refine ⟨fun a a' sequence h => ?_, fun a a' p keys h => by cases Binding.fail_eq_ok.1 h⟩
    obtain ⟨p, a₁, bound, h⟩ := rows ih.1 h
    obtain ⟨selected, a₂, lambda, h⟩ := Binding.bind_eq_ok.1 h
    exact last h fun p' wrapped => cases.project bound body lambda wrapped
  | orderBy _ body ih =>
    refine ⟨fun a a' sequence h => ?_, fun a a' p keys h => ?_⟩ <;> obtain ⟨p, a₁, bound, h⟩ := rows ih.1 h <;>
      obtain ⟨key, a₂, lambda, h⟩ := Binding.bind_eq_ok.1 h
    · exact last h fun p' ordered => cases.ordered (cases.orderBy bound body lambda) ordered
    · cases h
      exact cases.orderBy bound body lambda
  | thenBy _ body ih =>
    refine ⟨fun a a' sequence h => ?_, fun a a' p keys h => ?_⟩ <;> obtain ⟨⟨p, keys⟩, a₁, source, h⟩ := Binding.bind_eq_ok.1 h <;>
      obtain ⟨key, a₂, lambda, h⟩ := Binding.bind_eq_ok.1 h
    · exact last h fun p' ordered => cases.ordered (cases.thenBy (ih.2 _ _ p keys source) body lambda) ordered
    · cases h
      exact cases.thenBy (ih.2 _ _ p keys source) body lambda
  | skip _ count ih =>
    refine ⟨fun a a' sequence h => ?_, fun a a' p keys h => by cases Binding.fail_eq_ok.1 h⟩
    obtain ⟨p, a₁, bound, h⟩ := rows ih.1 h
    obtain ⟨n, a₂, number, rest⟩ := Binding.bind_eq_ok.1 h
    obtain ⟨rfl, rfl⟩ := Expr.bind_count count number
    exact last rest fun p' wrapped => cases.skip bound count wrapped
  | take _ count ih =>
    refine ⟨fun a a' sequence h => ?_, fun a a' p keys h => by cases Binding.fail_eq_ok.1 h⟩
    obtain ⟨p, a₁, bound, h⟩ := rows ih.1 h
    obtain ⟨n, a₂, number, rest⟩ := Binding.bind_eq_ok.1 h
    obtain ⟨rfl, rfl⟩ := Expr.bind_count count number
    exact last rest fun p' wrapped => cases.take bound count wrapped

variable (base db) in
/-- Each combinator of a linear query is bound to what it does with the elements of its source. -/
theorem Vocabulary.Clear.cases (names : catalog.NamesColumns) (clear : V.Clear) (sorts : SortsRecords base.le) :
    (V.grammar catalog).Cases catalog (fun q a a' p => p.Bound base db V a a' (q.run base.evaluating db catalog))
      fun q a a' p keys => p.Bound base db V a a' (q.unordered base.evaluating db catalog) ∧
        (∀ k ∈ keys, k.expr.Fits V [(p.select.label, p.select.heading)]) ∧
          (∀ σ τ : Env Value, inOrder base.le (rowKeys base.evaluating db keys) σ τ =
            inOrder base.le (q.keys base.evaluating db) (p.projector.eval base.evaluating db σ [σ])
              (p.projector.eval base.evaluating db τ [τ])) ∧
          q.run base.evaluating db catalog =
            (q.unordered base.evaluating db catalog).mergeSort (inOrder base.le (q.keys base.evaluating db)) := by
  have law : base.evaluating.Lawful V.literal := evaluating_lawful sorts.order fun _ _ _ => clear.literal_eq
  constructor
  case table =>
    intro entity a a' p known h
    refine ⟨Binding.entity_stands names h, ?_, (Binding.entity_lowered (P := fun _ => True) h).2⟩
    obtain ⟨schema, a₁, get, rest⟩ := Binding.bind_eq_ok.1 h
    obtain ⟨found, rfl⟩ := Binding.ofResult_eq_ok.1 get
    cases rest
    refine .operator rfl ⟨rfl, List.forall_mem_map.2 fun c mem => known schema found c mem⟩ ?_
    exact List.forall_mem_map.2 (List.forall_mem_map.2 fun c _ => .leaf rfl)
  case filter =>
    intro q l a a₁ a₂ a' p p' e bound body lambda filtered
    obtain ⟨rfl, means⟩ := Lambda.bind_means clear bound.fits body lambda
    exact bound.filtered law means filtered
  case project =>
    intro q l a a₁ a₂ a' p p' e bound body lambda wrapped
    obtain ⟨rfl, means⟩ := Lambda.bind_means clear bound.fits body lambda
    exact bound.projected law means wrapped
  case orderBy =>
    intro q l descending a a₁ a₂ p e bound body lambda
    obtain ⟨rfl, means⟩ := Lambda.bind_means clear bound.fits body lambda
    exact ⟨bound, Binding.orderKeys_forall (fun op => (means.toFits.operands op).2) means.toFits _, inOrder_orderKeys_append sorts [] [] (fun _ _ => rfl) means.eval, rfl⟩
  case thenBy =>
    rintro q l descending a a₁ a₂ p keys e ⟨bound, fits, sorted, -⟩ body lambda
    obtain ⟨rfl, means⟩ := Lambda.bind_means clear bound.fits body lambda
    exact ⟨bound, List.forall_mem_append.2 ⟨fits, Binding.orderKeys_forall (fun op => (means.toFits.operands op).2) means.toFits _⟩,
      inOrder_orderKeys_append sorts _ _ sorted means.eval, rfl⟩
  case ordered =>
    rintro q a a₁ a' p p' keys ⟨bound, fits, sorted, run⟩ ordered
    rw [run]
    exact bound.ordered law fits sorted ordered
  case skip =>
    intro q e a a₁ a' p p' bound count wrapped
    exact bound.skipped law count wrapped
  case take =>
    intro q e a a₁ a' p p' bound count wrapped
    exact bound.taken law count wrapped

end Relational

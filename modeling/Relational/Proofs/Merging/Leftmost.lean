import Relational.Proofs.Merging.ColumnMaps
import Relational.Proofs.Rows.Coincidence

/-!
# The select at the left end of a source

The rows of a source are those of its left end, each expanded by the joins that follow (`Source.rows_expand`). When the select at
the left end gives way to its own source, the joins do with the rows of that what they did before
(`Source.expand_related`).
-/

namespace Relational

variable {lit : Value → Ty → Prop} {Γ Γ' : Context} {inner : Select}

/-! ## Where the left end stands -/

theorem Source.leftmost_formed : ∀ {src : Source}, src.leftmost? = some inner → src.Formed lit Γ →
    (Source.select inner).Formed lit Γ
  | .select s, left, formed => by
    cases left
    exact formed
  | .join _ l _ _, left, formed => l.leftmost_formed left formed.1

theorem Source.leftmost_nodup : ∀ {src : Source}, src.leftmost? = some inner → src.declared.Nodup → inner.declared.Nodup
  | .select s, left, nodup => by
    cases left
    exact nodup
  | .join _ l r _, left, nodup => by
    rw [declared_join] at nodup
    exact l.leftmost_nodup left (List.nodup_append.1 nodup).1

theorem Source.leftmost_subset : ∀ {src : Source}, src.leftmost? = some inner → inner.declared ⊆ src.declared
  | .select s, left => by
    cases left
    exact List.Subset.refl _
  | .join _ l r _, left => by
    rw [declared_join]
    exact List.subset_append_of_subset_left _ (l.leftmost_subset left)

/-- The select at the left end of the source of a select stands where that does. -/
theorem Select.Placed.leftmost {s : Select} {src : Source} (h : s.Placed lit Γ) (source : s.source = some src)
    (left : src.leftmost? = some inner) : inner.Placed lit Γ where
  formed := (Source.leftmost_formed left (h.clauses.source src source)).2
  nodup := Source.leftmost_nodup left (h.nodup_source source)
  apart _ mem := h.apart_source source (Source.leftmost_subset left mem)

/-! ## Removing it -/

variable {f : Substitution} {φ : ColumnRef → Expr}

theorem Source.ready_of_fixes {K : Select → Prop} : ∀ {src : Source} {literals : Bool}, (∀ a ∈ src.declared, Fixes f φ a) →
    src.Ready f φ K literals
  | .table _ a _ _, _, fixes => fixes a (by simp [Source.collect, declaredAliases])
  | .raw a _, _, fixes => fixes a (by simp [Source.collect, declaredAliases])
  | .select _, _, fixes => .inl fixes
  | .join _ l r condition, _, fixes => by
    simp only [declared_join, List.mem_append] at fixes
    exact ⟨l.ready_of_fixes fun a mem => fixes a (.inl mem), r.ready_of_fixes fun a mem => fixes a (.inr (.inl mem)),
      fun e some a mem => fixes a (.inr (.inr (List.mem_flatMap.2 ⟨e, Option.mem_toList.2 some, mem⟩)))⟩

/-- A replacement that removes one select and leaves everything else alone. -/
structure RemovesOnly (f : Substitution) (φ : ColumnRef → Expr) (inner : Select) : Prop extends
    Replaces f φ, Removes f φ inner where
  fixes : ∀ a, a ≠ inner.label → Fixes f φ a

/-- What stands beside the left end is left alone. -/
theorem RemovesOnly.beside (h : RemovesOnly f φ inner) {kind : JoinKind} {l r : Source} {condition : Option Expr}
    (left : l.leftmost? = some inner) (nodup : (Source.join kind l r condition).declared.Nodup) {a : Alias}
    (mem : a ∈ r.declared ++ condition.toList.flatMap Expr.declared) : Fixes f φ a := by
  rw [Source.declared_join] at nodup
  refine h.fixes a fun eq => ?_
  exact (List.nodup_append.1 nodup).2.2 a (eq ▸ Source.leftmost_subset left inner.label_mem_declared) a mem rfl

theorem RemovesOnly.ready (h : RemovesOnly f φ inner) : ∀ (src : Source), src.leftmost? = some inner → src.declared.Nodup →
    src.Ready f φ (fun _ => True) true
  | .select s, left, _ => by
    cases left
    exact .inr ⟨h.toRemoves, trivial, .inl rfl⟩
  | .join _ l r condition, left, nodup => by
    have nodup' := nodup
    rw [Source.declared_join] at nodup'
    have left : l.leftmost? = some inner := left
    refine ⟨h.ready l left (List.nodup_append.1 nodup').1,
      Source.ready_of_fixes fun a mem => h.beside left nodup (List.mem_append_left _ mem), fun e some a mem => ?_⟩
    exact h.beside left nodup (List.mem_append_right _ (List.mem_flatMap.2 ⟨e, Option.mem_toList.2 some, mem⟩))

/-- The clauses of the select that reads it declare other aliases. -/
theorem RemovesOnly.fixes_beside (h : RemovesOnly f φ inner) {s : Select} {src : Source} (nodup : s.declared.Nodup)
    (source : s.source = some src) (left : src.leftmost? = some inner) {a : Alias} (mem : a ∈ s.declaredBeside) : Fixes f φ a := by
  rw [Select.declared_eq, source, List.nodup_cons] at nodup
  refine h.fixes a fun eq => ?_
  exact (List.nodup_append.1 nodup.2).2.2 a (by simpa using Source.leftmost_subset left (eq ▸ inner.label_mem_declared)) a mem rfl

theorem RemovesOnly.prepared (h : RemovesOnly f φ inner) {s : Select} {src : Source} (placed : s.Placed lit Γ)
    (source : s.source = some src) (left : src.leftmost? = some inner) : s.Prepared f φ lit Γ fun _ => True where
  toPlaced := placed
  ready src' mem := by
    cases Option.some.inj (source.symm.trans mem)
    exact h.ready src left (placed.nodup_source source)
  beside _ := h.fixes_beside placed.nodup source left
  outer c sees := (h.fixes c.label fun eq => (placed.leftmost source left).apart _ inner.label_mem_declared
    (eq ▸ Context.label_of_sees sees)).fixed c rfl

/-- What the clauses of the select declared is not declared any more. -/
theorem RemovesOnly.declared (h : RemovesOnly f φ inner) {inside : Source} (reads : inner.source = some inside) (a : Alias) :
    ∀ (src : Source), src.leftmost? = some inner → src.declared.Nodup →
      (src.substitute f).declared.count a + inner.declaredBeside.count a ≤ src.declared.count a
  | .select s, left, _ => by
    cases left
    have same : (inside.substitute f).declared = inside.declared :=
      Source.declared_substitute h.toReplaces fun a mem => (h.inside inside reads a mem).kept
    rw [Source.substitute_of_removed h.removes reads, same, Source.declared_select, Select.declared_eq, reads,
      List.count_cons, List.count_append]
    simp only [Option.toList_some, List.flatMap_cons, List.flatMap_nil, List.append_nil]
    omega
  | .join kind l r condition, left, nodup => by
    have nodup' := nodup
    rw [Source.declared_join] at nodup'
    have left : l.leftmost? = some inner := left
    have first := h.declared reads a l left (List.nodup_append.1 nodup').1
    have right : (r.substitute f).declared = r.declared := Source.declared_substitute h.toReplaces fun a mem =>
      (h.beside left nodup (List.mem_append_left _ mem)).kept
    have beside (a : Alias) (mem : a ∈ condition.toList.flatMap Expr.declared) : f.removes a = false :=
      (h.beside left nodup (List.mem_append_right _ mem)).kept
    have conditions : (condition.map (Expr.substitute f)).toList.flatMap Expr.declared =
        condition.toList.flatMap Expr.declared := by
      cases condition with
      | none => rfl
      | some e => simpa using Expr.declared_substitute h.toReplaces (by simpa using beside)
    rw [Source.substitute, Source.declared_join, Source.declared_join, substituteOption_eq, conditions, right]
    simp only [List.count_append]
    omega

/-- The source of the select that goes is in sight. -/
theorem RemovesOnly.context (h : RemovesOnly f φ inner) {inside : Source} (reads : inner.source = some inside)
    (formed : inside.Formed lit Γ) (images : Images lit φ Γ Γ) :
    ∀ (src : Source), src.leftmost? = some inner → ∃ Δ, (src.substitute f).context = inside.context ++ Δ
  | .select s, left => by
    cases left
    have same := ((formed_substitute h.toReplaces).sources inside Γ Γ formed images (h.inside inside reads)).2.1
    exact ⟨[], by rw [Source.substitute_of_removed h.removes reads, same, List.append_nil]⟩
  | .join kind l r condition, left => by
    obtain ⟨Δ, eq⟩ := h.context reads formed images l left
    exact ⟨Δ ++ (r.substitute f).context, by rw [Source.substitute, Source.context, eq, List.append_assoc]⟩

/-! ## Rows -/

variable {D : Type} {I : Interpretation D} {db : Database D}

/-- What the joins of a source after a substitution make of a row of its left end. -/
def Source.expand (I : Interpretation D) (db : Database D) (f : Substitution) : Source → Env D → List (Env D)
  | .join kind l r condition, σ =>
    joinRows kind (fun τ => (r.substitute f).rows I db τ)
      (fun τ => I.holds (evalOption I db τ [τ] (condition.map (Expr.substitute f))))
      (fun τ => τ.setAll (r.substitute f).visible fun _ => I.null) (l.expand I db f σ)
  | _, σ => [σ]

theorem Source.rows_expand (f : Substitution) (ρ : Env D) : ∀ {src : Source}, src.leftmost? = some inner →
    (src.substitute f).rows I db ρ = (((Source.select inner).substitute f).rows I db ρ).flatMap (src.expand I db f)
  | .select s, left => by
    cases left
    exact (List.flatMap_singleton' _).symm
  | .join kind l r condition, left => by
    have left : l.leftmost? = some inner := left
    simp only [Source.substitute, Source.rows, l.rows_expand f ρ left, substituteOption_eq, joinRows, List.flatMap_assoc]
    rfl

/-- The aliases that the joins of a source show beside its left end. -/
def Source.joined : Source → List Alias
  | .join _ l r _ => l.joined ++ r.visible
  | _ => []

theorem Source.joined_subset {src : Source} : src.joined ⊆ src.visible := by
  induction src using Source.induction with
  | table kind a entity name => exact List.nil_subset _
  | raw a sql => exact List.nil_subset _
  | select s => exact List.nil_subset _
  | join kind l r condition left _ =>
    exact List.append_subset.2 ⟨List.subset_append_of_subset_left _ left, List.subset_append_right _ _⟩

/-- Two rows of joins that agree, made of these rows of the left ends. -/
structure Expanded (I : Interpretation D) (db : Database D) (φ : ColumnRef → Expr) (Γ : Context) (shown : List Alias) (σ σ' x x' : Env D) : Prop where
  agree : Agrees I db φ Γ x x'
  frame : ∀ a, a ∉ shown → x a = σ a
  frame' : ∀ a, a ∉ shown → x' a = σ' a

/-- Joins expand rows that agree to rows that agree. -/
theorem Source.expand_related (h : RemovesOnly f φ inner) (outer : ∀ c, Γ.sees c → φ c = .column c) {σ σ' : Env D}
    (agree : Agrees I db φ (Γ ++ (Source.select inner).context) σ σ') : ∀ {src : Source}, src.leftmost? = some inner →
      src.Formed lit Γ → src.declared.Nodup → (∀ a ∈ src.declared, a ∉ Γ.map (·.1)) →
        List.Forall₂ (Expanded I db φ (Γ ++ src.context) src.joined σ σ') (src.expand I db keepColumns σ) (src.expand I db f σ')
  | .select s, left, _, _, _ => by
    cases left
    exact .cons ⟨agree, fun _ _ => rfl, fun _ _ => rfl⟩ .nil
  | .join kind l r condition, left, formed, nodup, apart => by
    have left : l.leftmost? = some inner := left
    have repl := h.toReplaces
    have beside (a : Alias) (mem : a ∈ r.declared ++ condition.toList.flatMap Expr.declared) : Fixes f φ a :=
      h.beside left nodup mem
    simp only [Source.Formed, formedOption_iff] at formed
    rw [Source.declared_join] at nodup apart
    obtain ⟨nodupL, -, disjoint⟩ := List.nodup_append.1 nodup
    have images : Images lit φ Γ Γ := fun c sees => by
      rw [outer c sees]
      exact sees
    have replaced := l.replaced repl formed.1 (h.ready l left nodupL) nodupL (fun a mem => apart a (by simp [mem])) images
    have untouched (a : Alias) (mem : a ∈ r.declared ++ condition.toList.flatMap Expr.declared) :
        Untouched f φ (Γ ++ l.context) a := by
      refine ⟨beside a mem, fun c sees other found => ?_⟩
      rcases Context.sees_append.1 sees with sees | sees
      · rw [outer c sees] at found
        exact other (by simpa [Expr.referenced, Expr.collect, columnRefs, eq_comm] using found)
      · exact disjoint a (replaced.visible_subset (replaced.referenced repl sees found)) a mem rfl
    have untouchedR (a : Alias) (mem : a ∈ r.visible) : Untouched f φ (Γ ++ l.context) a :=
      untouched a (List.mem_append_left _ (r.visible_subset mem))
    have visible : (r.substitute f).visible = r.visible := r.visible_substitute fun a mem => (untouchedR a mem).kept
    have condition' : condition.map (Expr.substitute keepColumns) = condition := by
      cases condition with
      | none => rfl
      | some e => exact congrArg some (substitute_self.expr e)
    simp only [Source.expand, substitute_self.sources, condition', visible, Source.context, ← List.append_assoc]
    refine joinRows_related (l.expand_related h outer agree left formed.1 nodupL fun a mem => apart a (by simp [mem]))
      (fun τ τ' e => ?_) (fun x x' e => ?_) fun τ τ' e => ?_
    · have rows := Source.rows_substitute repl formed.2.1 e.agree fun a mem => untouched a (List.mem_append_left _ mem)
      refine (forall₂_with_mem rows).imp fun x x' both => ⟨both.2.2, fun a other => ?_, fun a other => ?_⟩
      · obtain ⟨otherL, otherR⟩ := not_or.1 (mt List.mem_append.2 other)
        rw [r.rows_frame both.1 a otherR, e.frame a otherL]
      · obtain ⟨otherL, otherR⟩ := not_or.1 (mt List.mem_append.2 other)
        rw [(r.substitute f).rows_frame both.2.1 a (visible ▸ otherR), e.frame' a otherL]
    · cases condition with
      | none => rfl
      | some t =>
        have agree := e.agree
        rw [List.append_assoc] at agree
        refine congrArg (fun v => I.holds (some v)) (Expr.eval_substitute repl (formed.2.2 t rfl) agree fun a mem => ?_).symm
        rw [← List.append_assoc]
        refine (untouched a (List.mem_append_right _ (by simpa using mem))).append fun c shown => ?_
        rw [r.map_context] at shown
        exact (untouchedR _ shown).fixed c rfl
    · refine ⟨e.agree.setAll repl untouchedR (by simp [r.map_context]) _, fun a other => ?_, fun a other => ?_⟩
      · obtain ⟨otherL, otherR⟩ := not_or.1 (mt List.mem_append.2 other)
        simp [Env.setAll, otherR, e.frame a otherL]
      · obtain ⟨otherL, otherR⟩ := not_or.1 (mt List.mem_append.2 other)
        simp [Env.setAll, otherR, e.frame' a otherL]

end Relational

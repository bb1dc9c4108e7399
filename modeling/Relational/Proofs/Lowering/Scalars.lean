import Relational.Proofs.Binding.Closure
import Relational.Proofs.Binding.Parts
import Relational.Proofs.Compilation.Straight
import Relational.Proofs.Rows.Agreement

/-!
# Scalars

Expressions made of parameters, literals, columns and lists of values by operators. The body of a lambda that holds no query is bound to such an
expression, and split into columns such an expression keeps its value (`Expr.Splits.eval`): it reads
the columns where it read the sources, and the rows around the select where it read those.
-/

namespace Relational

variable {P Q : ColumnRef → Prop} {e e' l r : Expr}

namespace Expr.Scalar

theorem nested (scalar : e.Scalar P) : e.nested = [] := by
  induction scalar with
  | @leaf e leaf => cases e <;> simp [isLeaf] at leaf <;> rfl
  | operator operates _ ih =>
    rw [nested_operator operates, List.flatMap_eq_nil_iff]
    exact ih
  | _ => rfl

theorem columnRefs (scalar : e.Scalar P) : ∀ c ∈ e.collect columnRefs, P c := by
  induction scalar with
  | @leaf e leaf => cases e <;> simp [isLeaf] at leaf <;> rintro _ ⟨⟩
  | column inside => exact List.forall_mem_singleton.2 inside
  | operator operates _ ih =>
    rw [collect_operator _ operates, List.forall_mem_flatMap]
    exact ih
  | inValues _ _ value values =>
    rw [Expr.collect, Subquery.collect, collectAll_eq]
    exact List.forall_mem_append.2 ⟨value, List.forall_mem_flatMap.2 values⟩

theorem formed_of_sees (scalar : e.Scalar P) {Γ : Context} (sees : ∀ c ∈ e.collect Relational.columnRefs, Γ.sees c) :
    e.Formed (fun _ _ => True) Γ none := by
  induction scalar with
  | @leaf e leaf => cases e <;> simp [isLeaf] at leaf <;> trivial
  | @column c _ => exact sees c (List.mem_singleton_self c)
  | operator operates _ ih =>
    rw [collect_operator _ operates, List.forall_mem_flatMap] at sees
    exact (formed_operator operates).2 fun x mem => ih x mem (sees x mem)
  | inValues _ _ value values =>
    rw [Expr.collect, Subquery.collect, collectAll_eq, List.forall_mem_append, List.forall_mem_flatMap] at sees
    rw [Expr.Formed, Subquery.Formed, formedAll_iff]
    exact ⟨value sees.1, fun v mem => values v mem (sees.2 v mem)⟩

theorem formed (scalar : e.Scalar P) : ∃ Γ, e.Formed (fun _ _ => True) Γ none :=
  ⟨(e.collect Relational.columnRefs).map fun c => (c.label, fun _ => true),
    scalar.formed_of_sees fun c mem => ⟨fun _ => true, List.mem_map.2 ⟨c, mem, rfl⟩, rfl⟩⟩

theorem not_projection {p : Projection} (scalar : (Expr.projection p).Scalar P) : False := by
  cases scalar with
  | leaf leaf => cases leaf
  | operator operates => cases operates

theorem part (scalar : e.Scalar P) {x : Expr} (part : e.HasPart x) : x.Scalar P := by
  induction part with
  | whole => exact scalar
  | operand operates _ mem _ ih => exact ih (scalar.operands operates _ mem)

/-- What is left of a scalar reads the columns that were taken from it, and what stands around the select. -/
theorem splits {target : ColumnTarget} {l : ColumnList} (splits : e.Splits target l e') (scalar : e.Scalar P) :
    e'.Scalar fun c => P c ∧ c.label ∉ target.sources ∨ c.label = target.label ∧ c.name ∈ l.columns.map (·.name) := by
  induction splits with
  | @outer c outside =>
    refine .column (.inl ⟨?_, outside⟩)
    exact scalar.columnRefs c (List.mem_singleton_self c)
  | column _ mem _ => exact .column (.inr ⟨rfl, List.mem_map_of_mem mem⟩)
  | operator operates _ length _ ih =>
    refine .operator (by rwa [isOperator_withOperands]) ?_
    rw [operands_withOperands operates length]
    refine forall_right (List.forall₂_iff_zip.2 ⟨length.symm, fun mem => ?_⟩) fun _ _ scalar => scalar
    exact ih _ mem (scalar.operands operates _ (List.of_mem_zip mem).1)
  | leaf single _ split =>
    cases scalar with
    | leaf leaf => exact .leaf leaf
    | column => cases split
    | operator operates => rw [operates] at single; cases single
    | inValues => cases split
  | statement p => cases scalar.not_projection

theorem substitute_onColumns (operates : e.isOperator = true) (f : ColumnRef → Expr) :
    e.substitute (onColumns f) = e.mapOperands (Expr.substitute (onColumns f)) := by
  refine substitute_operator operates ?_
  cases e <;> simp only [isOperator, Bool.false_eq_true] at operates <;> rfl

theorem substitute_leaf (leaf : e.isLeaf = true) (f : ColumnRef → Expr) : e.substitute (onColumns f) = e := by
  cases e <;> simp only [isLeaf, Bool.false_eq_true] at leaf <;> rfl

/-- Columns replaced by scalars. -/
theorem substitute (scalar : e.Scalar P) {f : ColumnRef → Expr} (replaced : ∀ c, P c → (f c).Scalar Q) :
    (e.substitute (onColumns f)).Scalar Q := by
  induction scalar with
  | leaf leaf =>
    rw [substitute_leaf leaf]
    exact .leaf leaf
  | @column c inside => exact replaced c inside
  | operator operates _ ih =>
    rw [substitute_onColumns operates]
    refine .operator (by rwa [isOperator_mapOperands]) ?_
    rw [operands_mapOperands]
    exact List.forall_mem_map.2 ih
  | @inValues e vs _ _ value values =>
    have given : (Expr.subquery (.inValues e vs)).substitute (onColumns f) =
        .subquery (.inValues (e.substitute (onColumns f)) (substituteAll (onColumns f) vs)) := rfl
    rw [given, substituteAll_eq]
    exact .inValues value (List.forall_mem_map.2 values)

/-! ## Values -/

section Values

variable {D : Type} {I : Interpretation D} {db : Database D} {ρ ρ' : Env D}

/-- The value of a scalar depends on its columns alone. -/
theorem eval_congr (scalar : e.Scalar P) (same : ∀ c, P c → ρ c.label = ρ' c.label) (γ γ' : List (Env D)) :
    e.eval I db ρ γ = e.eval I db ρ' γ' := by
  induction scalar with
  | @leaf e leaf => cases e <;> simp [isLeaf] at leaf <;> rfl
  | @column c inside => rw [Expr.eval, Expr.eval, same c inside]
  | operator operates _ ih =>
    have equal := eval_mapOperands I db (h := id) operates fun x mem => ih x mem
    rwa [mapOperands_self (g := id) fun _ _ => rfl] at equal
  | inValues _ _ value values =>
    rw [Expr.eval, Expr.eval, Subquery.eval, Subquery.eval, value, evalAll_eq, evalAll_eq, List.map_congr_left values]

/-- Columns replaced by scalars that have their values. -/
theorem eval_substitute (scalar : e.Scalar P) {f : ColumnRef → Expr} (replaced : ∀ c, P c → (f c).Scalar Q)
    (same : ∀ c, P c → (f c).eval I db ρ [ρ] = ρ' c.label c.name) (γ γ' : List (Env D)) :
    (e.substitute (onColumns f)).eval I db ρ γ = e.eval I db ρ' γ' := by
  induction scalar with
  | leaf leaf =>
    rw [substitute_leaf leaf]
    exact (Scalar.leaf (P := fun _ => False) leaf).eval_congr (by rintro _ ⟨⟩) γ γ'
  | @column c inside => exact ((replaced c inside).eval_congr (fun _ _ => rfl) γ [ρ]).trans (same c inside)
  | operator operates _ ih =>
    rw [substitute_onColumns operates]
    exact eval_mapOperands I db operates ih
  | @inValues e vs _ _ value values =>
    have given : (Expr.subquery (.inValues e vs)).substitute (onColumns f) =
        .subquery (.inValues (e.substitute (onColumns f)) (substituteAll (onColumns f) vs)) := rfl
    rw [given, substituteAll_eq, Expr.eval, Expr.eval, Subquery.eval, Subquery.eval, value, evalAll_eq, evalAll_eq, List.map_map]
    exact congrArg _ (List.map_congr_left values)

end Values

end Expr.Scalar

section Values

variable {D : Type} {I : Interpretation D} {db : Database D} {target : ColumnTarget} {columns : ColumnList} {ρ σ : Env D}

/-- Literals that are the same mean the same. -/
def Interpretation.RespectsLiterals (I : Interpretation D) : Prop :=
  ∀ v v' t, v.same v' = true → I.constant v' t = I.constant v t

/-- Expressions that share a column have one value. -/
theorem Expr.eval_of_sharesColumn {lit : Value → Ty → Prop} {Γ Γ' : Context}
    (literals : ∀ v v' t, lit v t → lit v' t → v.same v' = true → I.constant v' t = I.constant v t) {d : Expr}
    (shares : d.sharesColumn e = true) (formed : d.Formed lit Γ none) (formed' : e.Formed lit Γ' none) (ρ : Env D) (γ : List (Env D)) :
    d.eval I db ρ γ = e.eval I db ρ γ := by
  unfold sharesColumn at shares
  split at shares
  · next x y =>
    simp only [ColumnRef.isSame, Bool.and_eq_true, beq_iff_eq] at shares
    simp only [eval, shares]
  · exact (eval_of_same literals shares formed formed' ρ γ).symm

theorem Expr.Scalar.eval_of_sharesColumn (literals : I.RespectsLiterals) {d : Expr} (scalar : d.Scalar P) (scalar' : e.Scalar Q)
    (shares : d.sharesColumn e = true) (ρ : Env D) (γ : List (Env D)) : d.eval I db ρ γ = e.eval I db ρ γ := by
  obtain ⟨Γ, formed⟩ := scalar.formed
  obtain ⟨Γ', formed'⟩ := scalar'.formed
  exact Expr.eval_of_sharesColumn (fun v v' t _ _ => literals v v' t) shares formed formed' ρ γ

/-- Beside the columns that were taken from it, what is left of a scalar has its value. -/
theorem Expr.Splits.eval_of_shares (splits : e.Splits target columns e') (scalar : e.Scalar P) (names : (columns.columns.map (·.name)).Nodup)
    (shares : ∀ d ∈ columns.columns, ∀ x, e.HasPart x → d.expr.sharesColumn x = true → d.expr.eval I db σ [σ] = x.eval I db σ [σ])
    (outer : ∀ c, P c → c.label ∉ target.sources → c.label ≠ target.label ∧ ρ c.label = σ c.label) (γ γ' : List (Env D)) :
    e'.eval I db (ρ.set target.label (I.named (columns.columns.map fun c => (c.name, c.expr.eval I db σ [σ])))) γ =
      e.eval I db σ γ' := by
  induction splits with
  | @outer c outside =>
    obtain ⟨other, same⟩ := outer c (scalar.columnRefs c (List.mem_singleton_self c)) outside
    rw [Expr.eval, Expr.eval, Env.set, if_neg other, same]
  | @column e d whole mem shared =>
    have shown := I.named_of_nodup names mem fun c => c.expr.eval I db σ [σ]
    rw [Expr.eval, Env.set, if_pos rfl, shown, scalar.eval_congr (fun _ _ => rfl) γ' [σ]]
    rcases shared with rfl | shared
    · rfl
    · exact shares d mem e (.whole whole) shared
  | @operator e es operates split length parts ih =>
    apply eval_withOperands I db operates
    rw [← List.forall₂_eq_eq_eq, List.forall₂_map_left_iff, List.forall₂_map_right_iff]
    refine (List.forall₂_iff_zip.2 ⟨length.symm, fun mem => ?_⟩).flip
    have operand := (List.of_mem_zip mem).1
    exact ih _ mem (scalar.operands operates _ operand) fun d found x part => shares d found x (.operand operates split operand part)
  | leaf single _ split =>
    cases scalar with
    | leaf leaf => exact (Scalar.leaf (P := fun _ => False) leaf).eval_congr (by rintro _ ⟨⟩) γ γ'
    | column => cases split
    | operator operates => rw [operates] at single; cases single
    | inValues => cases split
  | statement p => cases scalar.not_projection

theorem Expr.Splits.eval (literals : I.RespectsLiterals) (splits : e.Splits target columns e') (scalar : e.Scalar P)
    (made : columns.Made target (Expr.Scalar P))
    (outer : ∀ c, P c → c.label ∉ target.sources → c.label ≠ target.label ∧ ρ c.label = σ c.label) (γ γ' : List (Env D)) :
    e'.eval I db (ρ.set target.label (I.named (columns.columns.map fun c => (c.name, c.expr.eval I db σ [σ])))) γ =
      e.eval I db σ γ' :=
  splits.eval_of_shares scalar made.names (fun d mem _ part shared => (made.parts d mem).eval_of_sharesColumn literals (scalar.part part) shared σ [σ])
    outer γ γ'

end Values

/-! ## Bodies -/

theorem Expr.Scalar.closed (P : ColumnRef → Prop) : ExprClosure (Expr.Scalar P) (Eq : Alias → Alias → Prop) where
  growth := ⟨fun _ => rfl, fun _ _ _ => Eq.trans⟩
  literal := by
    intro e literal
    cases e <;> simp only [isLiteral, Bool.false_eq_true] at literal <;> exact .leaf rfl
  operator operates := ⟨fun scalar => scalar.operands operates, .operator operates⟩
  inValues := .inValues
  contained _ rows := by cases rows.not_projection

/-- The body of a lambda that holds no query: parameters and literals under operators. -/
def Expr.QueryFree (e : Expr) : Prop := e.Built (fun x => x.isLeaf = true) fun x => ∀ key elements, x ≠ .group key elements

section Bodies

variable {catalog : Catalog} {scope : Scope} {a a' : Alias}

theorem Expr.bind_leaf_scalar (params : ∀ x ∈ scope, x.2.Scalar P) (leaf : e.isLeaf = true) :
    e.BindsInto (Expr.Scalar P) Eq catalog scope := by
  have growth := (Scalar.closed P).growth
  cases e <;> simp only [isLeaf, Bool.false_eq_true] at leaf <;> rw [BindsInto, bind.eq_def]
  case param name =>
    cases found : scope.lookup name with
    | none =>
      simp only [found]
      exact .fail rfl
    | some x =>
      simp only [found]
      obtain ⟨l₁, l₂, rfl, -⟩ := List.lookup_eq_some_iff.1 found
      exact .pure growth (params (name, _) (by simp))
  all_goals exact .pure growth (.leaf rfl)

/-- A body without queries is bound to a scalar, and takes no alias. -/
theorem Expr.QueryFree.binds (params : ∀ x ∈ scope, x.2.Scalar P) (free : e.QueryFree) :
    e.BindsInto (Expr.Scalar P) Eq catalog scope := by
  induction free with
  | leaf leaf => exact bind_leaf_scalar params leaf
  | operator operates plain _ ih => exact binds_operator (Scalar.closed P) operates plain ih

theorem Lambda.bind_scalar {l : Lambda} {args : List Expr} (params : ∀ x ∈ scope, x.2.Scalar P) (arguments : ∀ x ∈ args, x.Scalar P)
    (free : l.body.QueryFree) (h : l.bind catalog scope args a = .ok (e, a')) : a = a' ∧ e.Scalar P := by
  cases l
  rw [Lambda.bind] at h
  split at h
  · cases Binding.fail_eq_ok.1 h
  · refine (free.binds fun x mem => ?_).ok a a' e h
    rcases List.mem_append.1 mem with mem | mem
    · exact arguments _ (List.of_mem_zip (List.mem_reverse.1 mem)).2
    · exact params x mem

end Bodies

end Relational

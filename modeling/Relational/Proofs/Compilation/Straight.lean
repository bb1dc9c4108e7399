import Relational.Proofs.Compilation.Vocabulary

/-!
# Straight projections

A linear query is bound to selects in a row: each reads the one before it, and the first one a table. Their clauses are made of
columns and literals by operators alone, with no statement inside, and they neither group nor remove
repetitions. Such a select filters, sorts and cuts the rows of its source (`Select.IsFlat.rows_eq`).
-/

namespace Relational

def Expr.isLeaf : Expr → Bool
  | .param _ | .variable _ _ _ | .constant _ _ | .hostParameter _ _ => true
  | _ => false

/-- Made of columns in a set, parameters and literals by operators and lists of values. -/
inductive Expr.Scalar (P : ColumnRef → Prop) : Expr → Prop where
  | leaf {e : Expr} (leaf : e.isLeaf = true) : Scalar P e
  | column {c : ColumnRef} (inside : P c) : Scalar P (.column c)
  | operator {e : Expr} (operates : e.isOperator = true) (parts : ∀ x ∈ e.operands, Scalar P x) : Scalar P e
  | inValues {e : Expr} {vs : List Expr} (value : Scalar P e) (values : ∀ v ∈ vs, Scalar P v) : Scalar P (.subquery (.inValues e vs))

/-- Made of columns and literals by operators and lists of values. -/
abbrev Expr.IsFlat (e : Expr) : Prop := e.Scalar fun _ => True

/-- A select of flat clauses, with a name for each column, that makes no groups. -/
structure Select.IsFlat (s : Select) : Prop where
  names : s.columnNames.Nodup
  columns : ∀ c ∈ s.columns, c.expr.IsFlat
  filter : ∀ e ∈ s.filter, e.IsFlat
  orderBy : ∀ k ∈ s.orderBy, k.expr.IsFlat
  offset : ∀ e ∈ s.offset, e.IsFlat
  limit : ∀ e ∈ s.limit, e.IsFlat
  groupBy : s.groupBy = []
  having : s.having = none
  distinct : s.distinct = false

/-- Flat selects one inside the other, the innermost one over a table. -/
inductive Source.Straight : Source → Prop where
  | table (kind : SourceKind) (a : Alias) (entity name : String) : Straight (.table kind a entity name)
  | select {s : Select} {src : Source} (flat : s.IsFlat) (reads : s.source = some src) (within : Straight src) :
    Straight (.select s)

structure Projection.Straight (p : Projection) : Prop where
  select : (Source.select p.select).Straight
  projector : p.projector.IsFlat

/-! ## Names -/

/-- With a name for each column, every name of a column is shown once. -/
theorem Select.heading_eq_true {s : Select} (nodup : s.columnNames.Nodup) {name : String} :
    s.heading name = true ↔ name ∈ s.columnNames := by
  rw [heading, beq_iff_eq]
  constructor
  · intro one
    exact List.count_pos_iff.1 (by omega)
  · exact List.count_eq_one_of_mem nodup

theorem lookup_of_nodup {D : Type} {cs : List Named} (nodup : (cs.map (·.name)).Nodup) {c : Named} (mem : c ∈ cs)
    (value : Named → D) : (cs.map fun c => (c.name, value c)).lookup c.name = some (value c) := by
  induction cs with
  | nil => cases mem
  | cons d cs ih =>
    rw [List.map_cons, List.nodup_cons] at nodup
    rw [List.map_cons, List.lookup_cons]
    rcases List.mem_cons.1 mem with rfl | mem
    · rw [beq_self_eq_true]
    · have other : (c.name == d.name) = false := by
        rw [beq_eq_false_iff_ne]
        intro eq
        exact nodup.1 (eq ▸ List.mem_map_of_mem mem)
      rw [other]
      exact ih nodup.2 mem

/-- A row by the name of a column. -/
theorem Interpretation.named_of_nodup {D : Type} (I : Interpretation D) {cs : List Named} (nodup : (cs.map (·.name)).Nodup)
    {c : Named} (mem : c ∈ cs) (value : Named → D) : I.named (cs.map fun c => (c.name, value c)) c.name = value c := by
  rw [Interpretation.named, lookup_of_nodup nodup mem, Option.getD_some]

/-! ## Flat expressions and selects -/

namespace Expr.Scalar

variable {P Q : ColumnRef → Prop} {e : Expr}

theorem mono (scalar : e.Scalar P) (imp : ∀ c, P c → Q c) : e.Scalar Q := by
  induction scalar with
  | leaf leaf => exact .leaf leaf
  | column inside => exact .column (imp _ inside)
  | operator operates _ ih => exact .operator operates ih
  | inValues _ _ value values => exact .inValues value values

theorem operands (scalar : e.Scalar P) (operates : e.isOperator = true) : ∀ x ∈ e.operands, x.Scalar P := by
  cases scalar with
  | leaf leaf => cases e <;> simp [isLeaf, isOperator] at leaf operates
  | column => cases operates
  | operator _ parts => exact parts
  | inValues => cases operates

/-- What is made of columns and literals declares nothing. -/
theorem declared_eq (scalar : e.Scalar P) : e.declared = [] := by
  induction scalar with
  | @leaf e leaf => cases e <;> simp [isLeaf] at leaf <;> rfl
  | column => rfl
  | operator operates _ ih =>
    rw [declared, collect_operator _ operates, List.flatMap_eq_nil_iff]
    exact ih
  | inValues _ _ value values =>
    rw [declared, Expr.collect, Subquery.collect, collectAll_eq, List.append_eq_nil_iff, List.flatMap_eq_nil_iff]
    exact ⟨value, values⟩

theorem hasAggregate (scalar : e.Scalar P) : e.hasAggregate = false := by
  induction scalar with
  | @leaf e leaf => cases e <;> simp [isLeaf] at leaf <;> rfl
  | operator operates _ ih =>
    rw [hasAggregate_operator operates, List.any_eq_false]
    exact fun x mem => Bool.not_eq_true _ ▸ ih x mem
  | _ => rfl

/-- What holds no aggregates does not care where they are allowed. -/
theorem formed_any {lit : Value → Ty → Prop} {Γ : Context} {agg : Option Context} (scalar : e.Scalar P) (formed : e.Formed lit Γ agg)
    (agg' : Option Context) : e.Formed lit Γ agg' := by
  induction scalar with
  | @leaf e leaf => cases e <;> simp [isLeaf] at leaf <;> exact formed
  | column => exact formed
  | operator operates _ ih =>
    rw [formed_operator operates] at formed ⊢
    exact fun x mem => ih x mem (formed x mem)
  | inValues _ _ value values =>
    rw [Expr.Formed, Subquery.Formed, formedAll_iff] at formed ⊢
    exact ⟨value formed.1, fun v mem => values v mem (formed.2 v mem)⟩

end Expr.Scalar

theorem Select.IsFlat.declared_eq {s : Select} (flat : s.IsFlat) :
    s.declared = s.label :: s.source.toList.flatMap Source.declared := by
  have none {o : Option Expr} (h : ∀ e ∈ o, e.IsFlat) : o.toList.flatMap Expr.declared = [] := by
    rw [List.flatMap_eq_nil_iff]
    exact fun e mem => (h e (Option.mem_toList.1 mem)).declared_eq
  have columns : s.columns.flatMap (·.expr.declared) = [] := by
    rw [List.flatMap_eq_nil_iff]
    exact fun c mem => (flat.columns c mem).declared_eq
  have orderBy : s.orderBy.flatMap (·.expr.declared) = [] := by
    rw [List.flatMap_eq_nil_iff]
    exact fun k mem => (flat.orderBy k mem).declared_eq
  rw [Select.declared_eq, declaredBeside, none flat.filter, none flat.offset, none flat.limit, columns, orderBy, flat.groupBy,
    flat.having]
  simp

/-! ## The rows of a flat select -/

theorem Select.IsFlat.ungrouped {s : Select} (flat : s.IsFlat) : s.Ungrouped where
  groupBy := flat.groupBy
  having := flat.having
  aggregates := by
    have columns : s.columns.any (·.expr.hasAggregate) = false := by
      rw [List.any_eq_false]
      intro c mem
      rw [(flat.columns c mem).hasAggregate]
      exact Bool.false_ne_true
    have orderBy : s.orderBy.any (·.expr.hasAggregate) = false := by
      rw [List.any_eq_false]
      intro k mem
      rw [(flat.orderBy k mem).hasAggregate]
      exact Bool.false_ne_true
    simp [hasAggregates, columns, orderBy, flat.having]

section Rows

variable {D : Type} (I : Interpretation D) (db : Database D)

/-- Sort keys at a row. -/
def rowKeys (ks : List OrderKey) : Criteria (Env D) D := ks.map fun k => (fun σ => k.expr.eval I db σ [σ], k.descending)

/-- Whether a row passes the filter of a select. -/
def Select.passes (s : Select) (σ : Env D) : Bool := I.holds (s.filter.map fun e => e.eval I db σ [σ])

/-- What the limits of a select leave. -/
def Select.cut {α : Type} (ρ : Env D) (s : Select) (l : List α) : List α :=
  takeUpTo ((s.limit.map fun e => e.eval I db ρ [ρ]).bind I.limit)
    (l.drop (((s.offset.map fun e => e.eval I db ρ [ρ]).map I.offset).getD 0))

theorem Select.cut_sublist {α : Type} (ρ : Env D) (s : Select) (l : List α) : (s.cut I db ρ l).Sublist l :=
  (sublist_takeUpTo _ _).trans (List.drop_sublist _ _)

/-- The rows that a flat select keeps, in its order. -/
def Select.kept (ρ : Env D) (s : Select) (rows : List (Env D)) : List (Env D) :=
  s.cut I db ρ ((rows.filter (s.passes I db)).mergeSort (inOrder I.le (rowKeys I db s.orderBy)))

variable {I db}

theorem Select.passes_none {s : Select} (h : s.filter = none) : s.passes I db = fun _ => true := by
  funext σ
  rw [passes, h]
  rfl

theorem Select.cut_none {α : Type} {s : Select} (offset : s.offset = none) (limit : s.limit = none) (ρ : Env D) (l : List α) :
    s.cut I db ρ l = l := by
  rw [cut, offset, limit]
  rfl

theorem Select.kept_unordered {s : Select} (h : s.orderBy = []) (ρ : Env D) (rows : List (Env D)) :
    s.kept I db ρ rows = s.cut I db ρ (rows.filter (s.passes I db)) := by
  rw [kept, h]
  exact congrArg (s.cut I db ρ) (mergeSort_inOrder_nil ..)

theorem Select.Ungrouped.rows_eq {s : Select} (ungrouped : s.Ungrouped) (distinct : s.distinct = false) (ρ : Env D) :
    s.rows I db ρ = (s.kept I db ρ (sourceRows I db ρ s.source)).map (s.shownAt I db) := by
  have filter : (s.stage I db ρ).filter = s.passes I db := by
    funext σ
    simp [stage, passes, evalOption_eq]
  have offset : (s.stage I db ρ).offset = ((s.offset.map fun e => e.eval I db ρ [ρ]).map I.offset).getD 0 := by
    simp [stage, evalOption_eq]
  have limit : (s.stage I db ρ).limit = (s.limit.map fun e => e.eval I db ρ [ρ]).bind I.limit := by
    simp [stage, evalOption_eq]
  rw [rows_of_ungrouped ungrouped, filter]
  simp only [Arrangement.apply, Arrangement.shown, rowArrangement, distinct, Bool.false_eq_true, if_false, offset, limit]
  rfl

theorem Select.IsFlat.rows_eq {s : Select} (flat : s.IsFlat) (ρ : Env D) :
    s.rows I db ρ = (s.kept I db ρ (sourceRows I db ρ s.source)).map (s.shownAt I db) :=
  flat.ungrouped.rows_eq flat.distinct ρ

/-- A flat select as a source shows its columns at each row that it keeps. -/
theorem Select.IsFlat.source_rows_eq {s : Select} (flat : s.IsFlat) (ρ : Env D) :
    (Source.select s).rows I db ρ =
      (s.kept I db ρ (sourceRows I db ρ s.source)).map (s.shownRow I db ρ) := by
  rw [Source.rows, flat.rows_eq, List.map_map]
  rfl

/-- The values of a projection over a flat select. -/
theorem Projection.values_of_flat {p : Projection} (flat : p.select.IsFlat) (ρ : Env D) :
    p.values I db ρ = (p.select.kept I db ρ (sourceRows I db ρ p.select.source)).map fun σ =>
      p.projector.eval I db (p.select.shownRow I db ρ σ) [p.select.shownRow I db ρ σ] := by
  rw [values_eq, flat.source_rows_eq, List.map_map]
  rfl

end Rows

end Relational

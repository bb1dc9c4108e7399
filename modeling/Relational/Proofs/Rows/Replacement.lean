import Relational.Proofs.Rows.Formed

/-!
# Replacing columns

A replacement puts columns or literals in the place of columns. If each column in sight has the value that its replacement has at
another row, then a whole statement has at the one row the meaning that the replaced statement has at
the other one (`Node.simulated`). The aliases that are declared inside of the statement have to be left
alone for that, by the replacement and by what it puts in.
-/

namespace Relational

variable {D : Type} (I : Interpretation D) (db : Database D)

/-- An expression that is a column or a literal. -/
def Expr.isAtom (e : Expr) : Bool := e.isColumn || e.isLiteral

/-- The substitution puts atoms in the place of columns, and leaves everything else. -/
structure Replaces (f : Substitution) (φ : ColumnRef → Expr) : Prop where
  expr : f.expr = (onColumns φ).expr
  atom : ∀ c, (φ c).isAtom = true

/-- An alias that a replacement neither removes nor replaces. -/
structure Fixes (f : Substitution) (φ : ColumnRef → Expr) (a : Alias) : Prop where
  kept : f.removes a = false
  fixed : ∀ c, c.label = a → φ c = .column c

/-- An alias that a replacement fixes and does not bring in for a column in sight. -/
structure Untouched (f : Substitution) (φ : ColumnRef → Expr) (Γ : Context) (a : Alias) : Prop extends
    Fixes f φ a where
  apart : ∀ c, Γ.sees c → c.label ≠ a → a ∉ (φ c).referenced

/-- Each column in sight has at one row the value that its replacement has at another row. -/
def Agrees (φ : ColumnRef → Expr) (Γ : Context) (ρ ρ' : Env D) : Prop :=
  ∀ c, Γ.sees c → ρ c.label c.name = (φ c).eval I db ρ' []

variable {I db} {f : Substitution} {φ : ColumnRef → Expr} {Γ Δ : Context} {ρ ρ' : Env D}

theorem Expr.eval_atom {e : Expr} (h : e.isAtom = true) (ρ : Env D) (g : List (Env D)) :
    e.eval I db ρ g = e.eval I db ρ [] := by
  cases e <;> simp [isAtom, isColumn, isLiteral] at h <;> rfl

/-- The value of an atom depends on the one alias that it may refer to. -/
theorem Expr.eval_atom_congr {e : Expr} (h : e.isAtom = true) (same : ∀ a ∈ e.referenced, ρ a = ρ' a) :
    e.eval I db ρ [] = e.eval I db ρ' [] := by
  cases e <;> simp [isAtom, isColumn, isLiteral] at h
  case constant => rfl
  case hostParameter => rfl
  case column c =>
    have := same c.label (by simp [referenced, collect, columnRefs])
    simp only [eval, this]

namespace Untouched

theorem mono {a : Alias} (h : Untouched f φ Γ a) (sub : ∀ c, Δ.sees c → Γ.sees c) : Untouched f φ Δ a :=
  ⟨h.toFixes, fun c sees => h.apart c (sub c sees)⟩

/-- More in sight changes nothing if it is left alone. -/
theorem append {a : Alias} (h : Untouched f φ Γ a) (fixed : ∀ c, c.label ∈ Δ.map (·.1) → φ c = .column c) :
    Untouched f φ (Γ ++ Δ) a where
  toFixes := h.toFixes
  apart c sees ne := by
    rcases Context.sees_append.1 sees with sees | sees
    · exact h.apart c sees ne
    · rw [fixed c (Context.label_of_sees sees)]
      simpa [Expr.referenced, Expr.collect, columnRefs] using Ne.symm ne

end Untouched

namespace Agrees

theorem mono (h : Agrees I db φ Γ ρ ρ') (sub : ∀ c, Δ.sees c → Γ.sees c) : Agrees I db φ Δ ρ ρ' :=
  fun c sees => h c (sub c sees)

/-- Rows that agree still do when the same row is added under untouched aliases. -/
theorem setAll (repl : Replaces f φ) (h : Agrees I db φ Γ ρ ρ') {as : List Alias}
    (untouched : ∀ a ∈ as, Untouched f φ Γ a) (labels : ∀ a ∈ Δ.map (·.1), a ∈ as) (row : String → D) :
    Agrees I db φ (Γ ++ Δ) (ρ.setAll as row) (ρ'.setAll as row) := by
  intro c sees
  by_cases mem : c.label ∈ as
  · simp [(untouched _ mem).fixed c rfl, Env.setAll, mem, Expr.eval]
  · have sees : Γ.sees c := by
      rcases Context.sees_append.1 sees with sees | sees
      · exact sees
      · exact absurd (labels _ (Context.label_of_sees sees)) mem
    have other : ∀ a ∈ (φ c).referenced, ρ'.setAll as row a = ρ' a := fun a ha => by
      have : a ∉ as := fun mem' => (untouched a mem').apart c sees (fun eq => mem (eq ▸ mem')) ha
      simp [Env.setAll, this]
    rw [Expr.eval_atom_congr (repl.atom c) other, ← h c sees]
    simp [Env.setAll, mem]

end Agrees

/-! ## Aggregates stay where they are -/

theorem Expr.hasAggregate_atom {e : Expr} (h : e.isAtom = true) : e.hasAggregate = false := by
  cases e <;> simp [isAtom, isColumn, isLiteral] at h <;> rfl

theorem Replaces.substitute_operator (repl : Replaces f φ) {e : Expr} (op : e.isOperator = true) :
    e.substitute f = e.mapOperands (Expr.substitute f) :=
  Expr.substitute_operator op (by cases e <;> simp [Expr.isOperator] at op <;> rw [repl.expr] <;> rfl)

theorem Expr.hasAggregate_substitute (repl : Replaces f φ) (e : Expr) :
    (e.substitute f).hasAggregate = e.hasAggregate := by
  induction e using Expr.induction with
  | column c => simp [substitute, repl.expr, onColumns, hasAggregate, hasAggregate_atom (repl.atom c)]
  | operator e op ih =>
    rw [repl.substitute_operator op, hasAggregate_operator op, hasAggregate_operator (by simpa using op),
      operands_mapOperands, any_map_congr ih]
  | _ => simp [substitute, repl.expr, onColumns, hasAggregate, *]

theorem Select.hasAggregates_substitute (repl : Replaces f φ) (s : Select) :
    (s.substitute f).hasAggregates = s.hasAggregates := by
  have columns : (s.columns.map (Named.mapExpr (Expr.substitute f))).any (·.expr.hasAggregate) =
      s.columns.any (·.expr.hasAggregate) := any_map_congr fun c _ => c.expr.hasAggregate_substitute repl
  have orderBy : (s.orderBy.map (OrderKey.mapExpr (Expr.substitute f))).any (·.expr.hasAggregate) =
      s.orderBy.any (·.expr.hasAggregate) := any_map_congr fun k _ => k.expr.hasAggregate_substitute repl
  have having : ((s.having.map (Expr.substitute f)).map Expr.hasAggregate).getD false =
      (s.having.map Expr.hasAggregate).getD false := by
    cases s.having with
    | none => rfl
    | some e => exact e.hasAggregate_substitute repl
  simp only [substitute_eq, hasAggregates, mapParts, columns, orderBy, having]

/-! ## Simulation -/

/-- Sources that are not removed stay in sight. -/
theorem Source.visible_substitute (src : Source) (kept : ∀ a ∈ src.visible, f.removes a = false) :
    (src.substitute f).visible = src.visible :=
  match src with
  | .table _ _ _ _ => rfl
  | .raw _ _ => rfl
  | .select s => by
    rw [substitute_of_kept (kept _ (by simp [visible])), Select.substitute_eq]
    rfl
  | .join _ l r _ => by
    rw [substitute, visible, visible, l.visible_substitute fun a mem => kept a (List.mem_append_left _ mem),
      r.visible_substitute fun a mem => kept a (List.mem_append_right _ mem)]

end Relational

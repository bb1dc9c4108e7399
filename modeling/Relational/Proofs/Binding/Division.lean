import Relational.Proofs.Binding.Parts

/-!
# The division of an expression

Splitting an expression into columns divides the work: the columns hold nothing that only the program can compute, and what is
left holds nothing that only the database can, nor any reference to the sources of the columns
(`Expr.divides_projectColumns`). A nested query that is not bound yet is left as it is, with the references
in it (`projectColumns_unbound`).
-/

namespace Relational

variable {target : ColumnTarget} {l : ColumnList} {e e' x : Expr}

/-- The expressions that one is built of by operators, itself among them. Arguments of aggregates, statements and queries that are
not bound are not entered. -/
inductive Expr.Within (x : Expr) : Expr → Prop where
  | self : Within x x
  | operand {e y : Expr} (operates : e.isOperator = true) (mem : y ∈ e.operands) (within : Within x y) : Within x e

/-- Whether an expression is an aggregate or a subquery, which only a database computes. -/
def Expr.needsDatabase : Expr → Bool
  | .aggregate _ _ _ _ | .subquery _ => true
  | _ => false

/-- Whether an expression has no form in a statement. -/
def Expr.needsProgram : Expr → Bool
  | .param _ | .query _ | .record _ _ | .projection _ | .group _ _ => true
  | .call m _ _ => !m.hasSqlForm
  | _ => false

/-! ## Columns -/

theorem Expr.HasPart.isWhole (part : e.HasPart x) : x.isWhole = true := by
  induction part with
  | whole whole => exact whole
  | operand _ _ _ _ ih => exact ih

theorem Expr.Within.isWhole (within : x.Within e) (whole : e.isWhole = true) : x.isWhole = true := by
  induction within with
  | self => exact whole
  | operand operates mem _ ih => exact ih (isWhole_operand operates whole mem)

theorem Expr.needsProgram_of_isWhole (whole : e.isWhole = true) : e.needsProgram = false := by
  cases e <;> simp only [isWhole, mustBeColumn, mayBeColumn, Bool.false_or, Bool.false_and, Bool.and_eq_true, Bool.false_eq_true] at whole
  case call => simp [needsProgram, whole.1.1]
  all_goals rfl

/-! ## What is left -/

/-- A leaf that is left as it is needs no database, and has no references. -/
theorem Expr.of_left (leaf : e.isOperator = false) (statement : ∀ p, e ≠ .projection p) (split : e.isWhole = false) :
    e.needsDatabase = false ∧ e.collect columnRefs = [] := by
  cases e <;> simp only [isOperator, Bool.true_eq_false] at leaf
  case column | aggregate | subquery => simp [isWhole, mustBeColumn] at split
  case projection => exact absurd rfl (statement _)
  all_goals exact ⟨rfl, rfl⟩

theorem Expr.Within.of_leaf (leaf : e.isOperator = false) (within : x.Within e) : x = e := by
  cases within with
  | self => rfl
  | operand operates => cases leaf.symm.trans operates

theorem exists_of_mem_zip_right {α β : Type} {as : List α} {bs : List β} (length : bs.length = as.length) {b : β} (mem : b ∈ bs) :
    ∃ a, (a, b) ∈ as.zip bs := by
  rw [← List.map_snd_zip (Nat.le_of_eq length)] at mem
  obtain ⟨⟨a, b⟩, found, rfl⟩ := List.mem_map.1 mem
  exact ⟨a, found⟩

namespace Expr.Splits

/-- No reference to a source is left. -/
theorem label_not_mem (splits : e.Splits target l e') (apart : target.label ∉ target.sources) :
    ∀ c ∈ e'.collect columnRefs, c.label ∉ target.sources := by
  induction splits with
  | outer outside => exact List.forall_mem_singleton.2 outside
  | column => exact List.forall_mem_singleton.2 apart
  | @operator e es operates _ length _ ih =>
    rw [collect_operator _ (by rwa [isOperator_withOperands]), operands_withOperands operates length, List.forall_mem_flatMap]
    intro x' mem
    obtain ⟨x, found⟩ := exists_of_mem_zip_right length mem
    exact ih (x, x') found
  | leaf leaf statement split =>
    rw [(of_left leaf statement split).2]
    rintro _ ⟨⟩
  | statement p =>
    have lifted : (Expr.projection (target.lift l p)).collect columnRefs = (p.collect columnRefs).map (target.lifted l) :=
      p.columnRefs_substitute
    rw [lifted, List.forall_mem_map]
    intro c _
    rw [ColumnTarget.lifted]
    split
    · exact apart
    · assumption

/-- Nothing is left that only a database computes. -/
theorem needsDatabase (splits : e.Splits target l e') : ∀ x : Expr, x.Within e' → x.needsDatabase = false := by
  induction splits with
  | outer => exact fun x within => by rw [within.of_leaf rfl]; rfl
  | column => exact fun x within => by rw [within.of_leaf rfl]; rfl
  | @operator e es operates _ length _ ih =>
    intro x within
    have operates' : (e.withOperands es).isOperator = true := by rwa [isOperator_withOperands]
    cases within with
    | self =>
      generalize e.withOperands es = e' at operates'
      cases e' <;> first | rfl | cases operates'
    | @operand _ x' _ mem within =>
      rw [operands_withOperands operates length] at mem
      obtain ⟨y, found⟩ := exists_of_mem_zip_right length mem
      exact ih (y, x') found x within
  | leaf leaf statement split =>
    intro x within
    rw [within.of_leaf leaf]
    exact (of_left leaf statement split).1
  | statement p => exact fun x within => by rw [within.of_leaf rfl]; rfl

end Expr.Splits

/-- The columns that are split off an expression have names of their own and need no program. What is left is the expression with references
to them in the places of its parts; it needs no database, and reads none of the sources. -/
theorem Expr.divides_projectColumns (e : Expr) (label : Alias) (sources : List Alias) (apart : label ∉ sources) :
    ((e.projectColumns label sources).columns.map (·.name)).Nodup ∧
    (∀ c ∈ (e.projectColumns label sources).projector.collect columnRefs, c.label ∉ sources) ∧
    (∀ x : Expr, x.Within (e.projectColumns label sources).projector → x.needsDatabase = false) ∧
    (∀ c ∈ (e.projectColumns label sources).columns, ∀ x : Expr, x.Within c.expr → x.needsProgram = false) ∧
    ∃ l, (e.projectColumns label sources).columns = l.columns ∧ e.Splits ⟨label, sources⟩ l (e.projectColumns label sources).projector := by
  obtain ⟨l, columns, made, splits⟩ :=
    e.projectColumns_splits (P := fun x => x.isWhole = true) ⟨label, sources⟩ (fun _ _ _ => rfl) fun _ part => part.isWhole
  refine ⟨columns ▸ made.names, splits.label_not_mem apart, splits.needsDatabase, fun c mem x within => ?_, l, columns, splits⟩
  exact needsProgram_of_isWhole (within.isWhole (made.parts c (columns ▸ mem)))

theorem divided_kindWithItems : (⟨5⟩ : Alias) ∉ [⟨1⟩] ∧
    (∀ c ∈ (kindWithItems.projectColumns ⟨5⟩ [⟨1⟩]).projector.collect columnRefs, c.label ∉ [⟨1⟩]) :=
  ⟨by decide, (kindWithItems.divides_projectColumns ⟨5⟩ [⟨1⟩] (by decide)).2.1⟩

/-- A query over a column that is not bound yet. -/
def unboundNumbers : Expr := .query (.of (.column ⟨⟨0⟩, "number", .i64⟩))

theorem projectColumns_unbound : (unboundNumbers.projectColumns ⟨1⟩ [⟨0⟩]).projector = unboundNumbers ∧
    (unboundNumbers.projectColumns ⟨1⟩ [⟨0⟩]).columns.length = 0 :=
  ⟨rfl, rfl⟩

end Relational

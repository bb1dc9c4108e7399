import Relational.Proofs.Lowering.Scalars

/-!
# Splitting flat expressions

A flat expression over what is in sight is split into columns that are flat, and what is left of it is flat over those columns
(`Expr.FlatIn.splits`).
-/

namespace Relational

variable {lit : Value → Ty → Prop} {V : Vocabulary} {Γ : Context} {target : ColumnTarget} {l : ColumnList} {e e' x : Expr}
  {node : Expr → Prop}

/-- Made of columns and literals by operators whose names are in the vocabulary. -/
def Expr.Spoken (V : Vocabulary) (e : Expr) : Prop := e.Built (fun x => x.isAtom = true) V.operator

theorem Expr.Spoken.isFlat (spoken : e.Spoken V) : e.IsFlat := by
  induction spoken with
  | @leaf e atom =>
    cases e <;> simp [isAtom, isColumn, isLiteral] at atom
    case column => exact .column trivial
    all_goals exact .leaf rfl
  | operator operates _ _ ih => exact .operator operates ih

/-- What is left of operators on columns and literals is made of the same operators. -/
theorem Expr.Built.splits (keeps : ∀ e es, node e → node (e.withOperands es)) (splits : e.Splits target l e')
    (built : e.Built (fun x => x.isAtom = true) node) : e'.Built (fun x => x.isAtom = true) node := by
  induction splits with
  | outer => exact built
  | column => exact .leaf rfl
  | @operator e es operates _ length _ ih =>
    cases built with
    | leaf atom => cases e <;> simp [isAtom, isColumn, isLiteral] at atom <;> cases operates
    | operator _ here parts =>
      refine .operator (e.isOperator_withOperands es ▸ operates) (keeps e es here) ?_
      rw [operands_withOperands operates length]
      refine forall_right (List.forall₂_iff_zip.2 ⟨length.symm, fun mem => ?_⟩) fun _ _ built => built
      exact ih _ mem (parts _ (List.of_mem_zip mem).1)
  | leaf => exact built
  | statement => cases built with
    | leaf atom => simp [isAtom, isColumn, isLiteral] at atom
    | operator operates => cases operates

/-- A flat expression over the columns in sight. -/
structure Expr.FlatIn (lit : Value → Ty → Prop) (Γ : Context) (e : Expr) : Prop where
  flat : e.IsFlat
  formed : e.Formed lit Γ none

namespace Expr.FlatIn

theorem operands (fits : e.FlatIn lit Γ) (operates : e.isOperator = true) : ∀ x ∈ e.operands, x.FlatIn lit Γ :=
  fun x mem => ⟨fits.flat.operands operates x mem, (formed_operator operates).1 fits.formed x mem⟩

theorem scalar (fits : e.FlatIn lit Γ) : e.Scalar Γ.sees := by
  obtain ⟨flat, formed⟩ := fits
  induction flat with
  | leaf leaf => exact .leaf leaf
  | column => exact .column formed
  | operator operates _ ih => exact .operator operates fun x mem => ih x mem ((formed_operator operates).1 formed x mem)
  | inValues _ _ value values =>
    rw [Expr.Formed, Subquery.Formed, formedAll_iff] at formed
    exact .inValues (value formed.1) fun v mem => values v mem (formed.2 v mem)

theorem part (fits : e.FlatIn lit Γ) (part : e.HasPart x) : x.FlatIn lit Γ := by
  induction part with
  | whole => exact fits
  | operand operates _ mem _ ih => exact ih (fits.operands operates _ mem)

/-- What is left reads the columns that were taken. -/
theorem splits (sources : ∀ c, Γ.sees c → c.label ∈ target.sources) (splits : e.Splits target l e') (fits : e.FlatIn lit Γ) :
    e'.FlatIn lit [(target.label, (l.columns.map (·.name)).contains)] := by
  refine ⟨(fits.flat.splits splits).mono fun _ _ => trivial, ?_⟩
  induction splits with
  | @outer c outside => exact absurd (sources c fits.formed) outside
  | column _ mem _ => exact ⟨_, List.mem_singleton_self _, List.contains_iff_mem.2 (List.mem_map_of_mem mem)⟩
  | @operator e es operates _ length _ ih =>
    rw [formed_operator (e.isOperator_withOperands es ▸ operates), operands_withOperands operates length]
    refine forall_right (List.forall₂_iff_zip.2 ⟨length.symm, fun mem => ?_⟩) fun _ _ formed => formed
    exact ih _ mem (fits.operands operates _ (List.of_mem_zip mem).1)
  | @leaf e single _ split =>
    have formed := fits.formed
    cases fits.flat with
    | leaf leaf => cases e <;> simp [isLeaf] at leaf <;> exact formed
    | column => cases split
    | operator operates => rw [operates] at single; cases single
    | inValues => cases split
  | statement p => cases fits.scalar.not_projection

end Expr.FlatIn

end Relational

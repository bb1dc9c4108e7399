import Relational.Proofs.Rows.Preservation

/-!
# Coincidence

The value of an expression depends only on the columns in sight. This is `Node.simulated` for the replacement that puts every column in
its own place, which changes nothing (`substitute_self`); so does the companion for forms, which says that more may be in sight.
-/

namespace Relational

variable {D : Type} {I : Interpretation D} {db : Database D} {lit : Value → Ty → Prop} {Γ : Context} {ρ ρ' : Env D}

/-- Every column in its own place. -/
abbrev keepColumns : Substitution := onColumns Expr.column

theorem keepColumns_replaces : Replaces keepColumns Expr.column := ⟨rfl, fun _ => rfl⟩

theorem keepColumns_untouched (Γ : Context) (a : Alias) : Untouched keepColumns Expr.column Γ a where
  kept := rfl
  fixed _ _ := rfl
  apart c _ other := by simpa [Expr.referenced, Expr.collect, columnRefs] using other.symm

/-- Putting every column in its own place changes nothing. -/
theorem substitute_self : TreeCases (fun e => e.substitute keepColumns = e) (fun s => s.substitute keepColumns = s)
    (fun src => src.substitute keepColumns = src) (fun s => s.substitute keepColumns = s)
    (fun p => p.substitute keepColumns = p) := by
  constructor
  constructor
  case operator =>
    intro e op ih
    rw [keepColumns_replaces.substitute_operator op]
    exact Expr.mapOperands_self ih
  case aggregate =>
    intro kind x distinct t ih
    exact congrArg (Expr.aggregate kind · distinct t) ((substituteOption_eq _ x).trans (option_map_self ih))
  case subquery => exact fun s ih => congrArg Expr.subquery ih
  case projection => exact fun p ih => congrArg Expr.projection ih
  case inValues =>
    intro e vs ihE ihV
    simp [Subquery.substitute, ihE, list_map_self ihV]
  case nested =>
    intro s ih
    rw [Source.substitute_of_kept rfl, ih]
  case join =>
    intro kind l r condition ihL ihR ihE
    simp [Source.substitute, ihL, ihR, option_map_self ihE]
  case select =>
    intro s parts
    rw [Select.substitute_eq, Select.mapParts_self parts]
  all_goals
    intros
    first | rfl | simp [Subquery.substitute, Projection.substitute, *]

/-- Rows that show the same columns in sight give an expression the same value. -/
theorem Expr.eval_congr {e : Expr} (formed : e.Formed lit Γ none) (same : Agrees I db Expr.column Γ ρ ρ') : e.eval I db ρ' [ρ'] = e.eval I db ρ [ρ] := by
  have := eval_substitute keepColumns_replaces formed same fun a _ => keepColumns_untouched Γ a
  rwa [substitute_self.expr e] at this

/-- What is well formed stays so where more is in sight. -/
theorem Expr.Formed.weaken {Γ' : Context} {e : Expr} (formed : e.Formed lit Γ none) (sub : ∀ c, Γ.sees c → Γ'.sees c) :
    e.Formed lit Γ' none := by
  have := (formed_substitute keepColumns_replaces).expr e Γ Γ' none none formed sub (by rintro _ ⟨⟩)
    fun a _ => (keepColumns_untouched Γ a).toFixes
  rwa [substitute_self.expr e] at this

theorem Source.Formed.weaken {Γ' : Context} {src : Source} (formed : src.Formed lit Γ) (sub : ∀ c, Γ.sees c → Γ'.sees c) :
    src.Formed lit Γ' := by
  have := ((formed_substitute keepColumns_replaces).sources src Γ Γ' formed sub
    fun a _ => (keepColumns_untouched Γ a).toFixes).1
  rwa [substitute_self.sources src] at this

/-- Aggregates stand only where they are allowed. -/
theorem Expr.hasAggregate_of_formed {e : Expr} : e.Formed lit Γ none → e.hasAggregate = false := by
  induction e using Expr.induction with
  | operator e op ih =>
    intro formed
    rw [hasAggregate_operator op]
    exact List.any_eq_false.2 fun x mem => by simp [ih x mem ((formed_operator op).1 formed x mem)]
  | aggregate kind x distinct t ih =>
    rintro ⟨Δ, none, -⟩
    cases none
  | _ => exact fun _ => rfl

end Relational

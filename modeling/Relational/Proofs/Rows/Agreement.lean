import Relational.Proofs.Rows.Congruence

/-!
# Rows that agree

The value of an expression and the rows of a select depend only on what is in sight under the aliases of their references. What is in
sight under other aliases can be anything.
-/

namespace Relational

variable {D : Type} {I : Interpretation D} {db : Database D} {P : Alias → Prop} {ρ ρ' : Env D}

/-- The same rows under the aliases of a set. -/
def Env.AgreeOn (P : Alias → Prop) (ρ ρ' : Env D) : Prop := ∀ b, P b → ρ b = ρ' b

namespace Env.AgreeOn

theorem setAll (agree : AgreeOn P ρ ρ') (as : List Alias) (row : String → D) : AgreeOn P (ρ.setAll as row) (ρ'.setAll as row) := by
  intro b inside
  simp only [Env.setAll, agree b inside]

end Env.AgreeOn

/-- The references in an expression are under the aliases of a set. -/
def Expr.Reads (P : Alias → Prop) (e : Expr) : Prop := ∀ c ∈ e.collect columnRefs, P c.label

def Source.Reads (P : Alias → Prop) (src : Source) : Prop := ∀ c ∈ src.collect columnRefs, P c.label

def Select.Reads (P : Alias → Prop) (s : Select) : Prop := ∀ c ∈ s.collect columnRefs, P c.label

theorem Source.reads_join {kind : JoinKind} {l r : Source} {condition : Option Expr} :
    (Source.join kind l r condition).Reads P ↔ l.Reads P ∧ r.Reads P ∧ ∀ e ∈ condition, e.Reads P := by
  have own (src : Source) : columnRefs.source src = [] := rfl
  rw [Reads, Source.collect, own, List.nil_append, collectOption_eq]
  simp only [List.forall_mem_append, List.forall_mem_flatMap, Option.mem_toList]
  rfl

theorem Select.reads_iff {s : Select} : s.Reads P ↔ SelectParts (Expr.Reads P) (Source.Reads P) s :=
  (s.forall_collect columnRefs).trans (and_iff_right (by rintro _ ⟨⟩))

/-- Every kind of tree is determined by what it reads. -/
theorem Node.determined {n : Node} (bound : n.isBound = true) (reads : ∀ c ∈ n.collect columnRefs, P c.label) :
    n.Alike I db (Env.AgreeOn P) (Env.AgreeOn P) n := by
  induction n, bound using bound_induction with
  | query q => exact ⟨rfl, fun _ _ => rfl⟩
  | step n bound other ih =>
    rw [collect_eq _ bound, List.forall_mem_append, List.forall_mem_flatMap] at reads
    refine Related.alike (fun as ρ ρ' agree row => agree.setAll as row) bound other ?_
      ⟨rfl, List.forall₂_same.2 fun p mem => ih p mem (isBound_parts bound other p mem) (reads.2 p mem)⟩
    rintro c rfl ρ ρ' agree
    rw [agree c.label (reads.1 c (List.mem_singleton_self c))]

end Relational

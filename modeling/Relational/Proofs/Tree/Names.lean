import Mathlib.Data.List.Nodup
import Mathlib.Data.List.Perm.Subperm
import Relational.Projection.Columns

/-!
# Fresh names

The names that are made for columns are new: of more names than are taken, one is not taken.
-/

namespace Relational

theorem repr_injective {m n : Nat} (h : Nat.repr m = Nat.repr n) : m = n := by
  have digits : Nat.toDigits 10 m = Nat.toDigits 10 n := by rw [← Nat.toList_repr, ← Nat.toList_repr, h]
  have value := congrArg (Nat.ofDigitChars 10 · 0) digits
  simpa using value

/-- Of different names, more than are taken, one is not taken. -/
theorem exists_fresh (taken : List String) (name : Nat → String) (different : ∀ m n, name m = name n → m = n) :
    ∃ n < taken.length + 1, name n ∉ taken := by
  by_contra none
  have all : (List.range (taken.length + 1)).map name ⊆ taken := by
    intro x mem
    obtain ⟨n, bound, rfl⟩ := List.mem_map.1 mem
    by_contra missing
    exact none ⟨n, List.mem_range.1 bound, missing⟩
  have nodup : ((List.range (taken.length + 1)).map name).Nodup :=
    List.Nodup.map (fun m n => different m n) List.nodup_range
  have := (List.subperm_of_subset nodup all).length_le
  rw [List.length_map, List.length_range] at this
  omega

theorem freshName_not_mem (taken : List String) (base : String) : freshName taken base ∉ taken := by
  obtain ⟨n, bound, free⟩ := exists_fresh taken (fun n => base ++ Nat.repr (n + 1)) fun m n h =>
    Nat.succ.inj (repr_injective ((String.append_right_inj base).1 h))
  have mem : base ++ Nat.repr (n + 1) ∈ base :: (List.range (taken.length + 1)).map fun n => base ++ Nat.repr (n + 1) :=
    List.mem_cons_of_mem _ (List.mem_map.2 ⟨n, List.mem_range.2 bound, rfl⟩)
  rw [freshName]
  generalize (base :: (List.range (taken.length + 1)).map fun n => base ++ Nat.repr (n + 1)) = candidates at mem
  cases found : candidates.find? (!taken.contains ·) with
  | some x => simpa using List.find?_some found
  | none =>
    have used := List.find?_eq_none.1 found _ mem
    simp [free] at used

/-- The number that is found makes a name that is not taken, if one of those tried does. -/
theorem freshNumber_not_mem {taken : List String} {tries n : Nat} (h : ∃ k < tries, "c" ++ Nat.repr (n + k) ∉ taken) :
    "c" ++ Nat.repr (freshNumber taken tries n) ∉ taken := by
  induction tries generalizing n with
  | zero =>
    obtain ⟨k, bound, _⟩ := h
    omega
  | succ tries ih =>
    rw [freshNumber]
    split
    · next used =>
      apply ih
      obtain ⟨k, bound, free⟩ := h
      cases k with
      | zero => simp_all
      | succ k => exact ⟨k, by omega, by rwa [Nat.add_right_comm, Nat.add_assoc]⟩
    · next free => simpa using free

/-- A new column has a name of its own. -/
theorem ColumnList.name_not_mem (l : ColumnList) (e : Expr) : (l.name e).1 ∉ l.columns.map (·.name) := by
  unfold ColumnList.name
  split
  · exact freshName_not_mem _ _
  · refine freshNumber_not_mem (exists_fresh _ _ fun m n h => ?_)
    have := repr_injective ((String.append_right_inj "c").1 h)
    omega

end Relational

import Relational.Proofs.Rows.Formed

/-!
# Selects without groups

A source changes only the rows of the aliases that it shows. A select that makes no groups arranges the rows of its source
themselves, and shows its columns at each row that is left; one that has no other clause either shows
them at every row of the source.
-/

namespace Relational

variable {D : Type} {I : Interpretation D} {db : Database D}

/-- Beside the aliases that a source shows, its rows are as before. -/
theorem Source.rows_frame : ∀ (src : Source) {ρ σ : Env D}, σ ∈ src.rows I db ρ → ∀ a, a ∉ src.visible → σ a = ρ a
  | .table _ b _ _, ρ, σ, mem, a, other => by
    obtain ⟨row, -, rfl⟩ := List.mem_map.1 mem
    simp [Env.set, show a ≠ b by simpa [visible] using other]
  | .raw b _, ρ, σ, mem, a, other => by
    obtain ⟨row, -, rfl⟩ := List.mem_map.1 mem
    simp [Env.set, show a ≠ b by simpa [visible] using other]
  | .select s, ρ, σ, mem, a, other => by
    rw [Source.rows] at mem
    obtain ⟨row, -, rfl⟩ := List.mem_map.1 mem
    simp [Env.set, show a ≠ s.label by simpa [visible] using other]
  | .join kind l r condition, ρ, σ, mem, a, other => by
    rw [Source.rows, joinRows] at mem
    obtain ⟨τ, memL, mem⟩ := List.mem_flatMap.1 mem
    obtain ⟨otherL, otherR⟩ : a ∉ l.visible ∧ a ∉ r.visible := by simpa [visible] using other
    rw [← l.rows_frame memL a otherL]
    split at mem
    · rw [List.mem_singleton.1 mem]
      simp [Env.setAll, otherR]
    · exact r.rows_frame (List.mem_of_mem_filter mem) a otherR

/-! ## Arranging rows -/

/-- The columns of a select at a row. -/
def Select.shownAt (I : Interpretation D) (db : Database D) (s : Select) (σ : Env D) : List (String × D) :=
  s.columns.map fun c => (c.name, c.expr.eval I db σ [σ])

/-- How a select without groups arranges rows. -/
def Select.rowArrangement (I : Interpretation D) (db : Database D) (ρ : Env D) (s : Select) : Arrangement (Env D) D where
  distinct := s.distinct
  values σ := (s.shownAt I db σ).map (·.2)
  order := s.orderBy.map fun k => (fun σ => k.expr.eval I db σ [σ], k.descending)
  offset := (s.stage I db ρ).offset
  limit := (s.stage I db ρ).limit

/-- A select that makes no groups: it neither groups nor aggregates. -/
structure Select.Ungrouped (s : Select) : Prop where
  groupBy : s.groupBy = []
  aggregates : s.hasAggregates = false
  having : s.having = none

theorem Select.Clauses.ungrouped {lit : Value → Ty → Prop} {Γ : Context} {s : Select} (h : s.Clauses lit Γ)
    (groupBy : s.groupBy = []) (aggregates : s.hasAggregates = false) : s.Ungrouped := by
  refine ⟨groupBy, aggregates, Option.not_isSome_iff_eq_none.1 fun having => ?_⟩
  exact h.grouped having groupBy

theorem Select.stage_columns_single (s : Select) (ρ σ : Env D) : (s.stage I db ρ).columns [σ] = s.shownAt I db σ := by
  simp [stage, shownAt]

theorem Select.rows_of_ungrouped {s : Select} (h : s.Ungrouped) (ρ : Env D) :
    s.rows I db ρ = ((s.rowArrangement I db ρ).apply I.toComparison
      ((sourceRows I db ρ s.source).filter (s.stage I db ρ).filter)).map (s.shownAt I db) := by
  have grouping : (s.stage I db ρ).grouping = .each := by simp [stage, h.groupBy, h.aggregates]
  have columns (σ : Env D) : (s.stage I db ρ).columns [σ] = s.shownAt I db σ := s.stage_columns_single ρ σ
  have arrangement : (s.stage I db ρ).arrangement.comap (fun σ => [σ]) = s.rowArrangement I db ρ := by
    simp only [Stage.arrangement, Arrangement.comap, columns, rowArrangement, Criteria.comap]
    simp [stage, Expr.sortKey]
  rw [rows_eq, Stage.run, grouping, Grouping.groups, List.filter_eq_self.2 fun g _ => stage_having_none I db h.having ρ g, Arrangement.apply_map,
    arrangement, List.map_map]
  exact List.map_congr_left fun σ _ => columns σ

/-- A select that only shows columns. -/
structure Select.Plain (s : Select) : Prop extends s.Ungrouped where
  filter : s.filter = none
  orderBy : s.orderBy = []
  offset : s.offset = none
  limit : s.limit = none
  distinct : s.distinct = false

theorem Select.rows_of_plain {s : Select} (h : s.Plain) (ρ : Env D) :
    s.rows I db ρ = (sourceRows I db ρ s.source).map (s.shownAt I db) := by
  have filter : (sourceRows I db ρ s.source).filter (s.stage I db ρ).filter = sourceRows I db ρ s.source :=
    List.filter_eq_self.2 fun σ _ => by simp [stage, h.filter, Interpretation.holds]
  have all (l : List (Env D)) : (s.rowArrangement I db ρ).apply I.toComparison l = l := by
    have sorted : l.mergeSort (inOrder I.le ([] : Criteria (Env D) D)) = l :=
      List.mergeSort_of_pairwise (List.pairwise_of_forall fun _ _ => rfl)
    simp [Arrangement.apply, Arrangement.shown, rowArrangement, stage, h.distinct, h.orderBy, h.offset, h.limit,
      sorted, takeUpTo]
  rw [rows_of_ungrouped h.toUngrouped, filter, all]

end Relational

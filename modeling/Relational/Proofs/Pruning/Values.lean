import Relational.Proofs.Merging.Simplification
import Relational.Proofs.Pruning.Rows

/-!
# Values without unread columns

A projection has the same values in the same order when the columns are dropped that nothing reads (`Projection.values_dropUnused`).
A select of aggregates alone gives one row as long as it has its aggregates, so its columns must not be dropped. It is not enough
that they are referred to (`Expr.Refers`): the reference may stand in a column of a nested select that is dropped itself
(`values_dropUnused_unreadCount`).
-/

namespace Relational

/-- Without the columns that nothing reads, a projection has the same values in the same order. -/
theorem Projection.values_dropUnused {D : Type} {I : Interpretation D} {db : Database D} {p : Projection} (h : p.Prunable Expr.Needs)
    (nodup : p.declared.Nodup) (ρ : Env D) :
    p.dropUnused.values I db ρ = p.values I db ρ ∧ p.dropUnused.aggregator = p.aggregator :=
  have pruned := h.dropUnused I db nodup
  ⟨pruned.values rfl, pruned.aggregator⟩

/-- Each number and how many smaller ones there are. -/
def smallerCounts : Projection :=
  let column (a : Nat) (name : String) : Expr := .column ⟨⟨a⟩, name, .i64⟩
  let smaller : Select :=
    { Select.plain ⟨2⟩ [⟨"count", .aggregate .count none false .i64⟩] (.table .table ⟨3⟩ "Number" "numbers") with
      filter := some (.binary .lt (column 3 "value") (column 0 "number")) }
  ⟨.plain ⟨0⟩ [⟨"number", column 1 "value"⟩, ⟨"twice", .binary .add (column 1 "value") (column 1 "value")⟩]
      (.table .table ⟨1⟩ "Number" "numbers"),
    .binary .add (column 0 "number") (.subquery (.scalar smaller .i64)), none⟩

theorem values_dropUnused_smallerCounts :
    smallerCounts.dropUnused.select.columnNames = ["number"] ∧
      smallerCounts.dropUnused.values .numbers (.ofNumbers [3, 9, 4]) (fun _ _ => none) = [some 3, some 11, some 5] := by
  have prunable : smallerCounts.Prunable Expr.Needs := by
    simp [smallerCounts, Projection.Prunable, Select.Prunable, Select.plain, Source.Prunable, Expr.Prunable, Subquery.Prunable,
      Select.isTotal, Select.hasAggregates, Expr.hasAggregate]
  have same : smallerCounts.dropUnused.values .numbers (.ofNumbers [3, 9, 4]) (fun _ _ => none) =
      smallerCounts.values .numbers (.ofNumbers [3, 9, 4]) fun _ _ => none :=
    (Projection.values_dropUnused prunable (by decide) _).1
  exact ⟨by decide, same.trans (by cbv)⟩

/-- Whether a column of a source is mentioned, however deep. -/
def Expr.Refers (e : Expr) (a : Alias) (name : String) : Prop := ∃ c ∈ e.collect columnRefs, c.label = a ∧ c.name = name

/-- How many numbers there are, in a column of a nested select that nothing reads. -/
def unreadCount : Projection :=
  let column (a : Nat) (name : String) : Expr := .column ⟨⟨a⟩, name, .i64⟩
  let inner : Projection :=
    ⟨.plain ⟨2⟩ [⟨"unread", .binary .add (column 3 "value") (column 0 "count")⟩, ⟨"shown", column 3 "value"⟩]
      (.table .table ⟨3⟩ "Number" "numbers"), column 2 "shown", none⟩
  ⟨.plain ⟨0⟩ [⟨"count", .aggregate .count none false .i64⟩] (.table .table ⟨1⟩ "Number" "numbers"), .projection inner, none⟩

/-- The nested select loses its column, and then the count is gone that made one row of all: there is a row for each number. -/
theorem values_dropUnused_unreadCount :
    unreadCount.declared.Nodup ∧ unreadCount.Formed isNumeral [] ∧ unreadCount.Prunable Expr.Refers ∧
      unreadCount.select.columnNames = ["count"] ∧
      unreadCount.values .numbers (.ofNumbers [3, 4]) (fun _ _ => none) = [some 3] ∧
      unreadCount.dropUnused.values .numbers (.ofNumbers [3, 4]) (fun _ _ => none) = [some 3, some 3] := by
  refine ⟨by decide, ?_, ?_, rfl, by cbv, by cbv⟩
  · simp [unreadCount, Projection.Formed, Select.plain, Select.Formed, formedSource, Source.Formed, formedOption, formedNamed,
      formedAll, formedKeys, Expr.Formed, Expr.column?, Expr.hasAggregate, Select.context, Source.context, Select.columnContext,
      Select.visible, Source.visible, Context.sees, Select.heading, Select.columnNames, Select.isTotal, Select.hasAggregates]
  · have refers : unreadCount.projector.Refers ⟨0⟩ "count" := ⟨⟨⟨0⟩, "count", .i64⟩, by decide, rfl, rfl⟩
    simpa [unreadCount, Projection.Prunable, Select.Prunable, Select.plain, Source.Prunable, Expr.Prunable, Select.isTotal,
      Select.hasAggregates, Expr.hasAggregate] using refers

end Relational

import Relational.Proofs.Tree.Shapes

/-!
# References after a substitution

A substitution for columns and the list of references go through a tree in the same order. So the references in the result are those
of the expressions put in, one after another (`Node.references_substitute`).
-/

namespace Relational

theorem Node.columnRefs_substitute (f : ColumnRef → Expr) (n : Node) :
    (n.substitute (onColumns f)).collect columnRefs = (n.collect columnRefs).flatMap fun c => (f c).collect columnRefs := by
  cases bound : n.isBound with
  | true =>
    refine collect_substitute (fun c none => by cases none) (fun _ => rfl) (fun _ _ => rfl) (fun e e' acts => ?_) bound fun _ _ => rfl
    cases e <;> cases acts
    · rfl
    · exact (List.flatMap_singleton _ _).symm
  | false => cases n <;> first | rfl | cases bound

theorem Node.substitute_columns (n : Node) : n.substitute (onColumns .column) = n := by
  induction n using induction with
  | step n ih =>
    obtain ⟨e, e', rfl, acts⟩ | rebuilt := n.given_or_rebuilt (onColumns .column).expr
    · rw [substitute, Expr.substitute_given acts]
      cases e <;> cases acts <;> rfl
    · exact substitute_self (fun _ _ => rfl) rebuilt ih

/-- Substitution for columns and the list of references stay in step on every node of a tree. Whatever stands for the columns, the references
in the result are those in the expressions put in, in the order in which the columns stood. In particular no reference to an
alias is left that is renamed to another one, and columns put in for themselves change nothing. -/
theorem Node.references_substitute (n : Node) :
    (∀ f, (n.substitute (onColumns f)).collect columnRefs = (n.collect columnRefs).flatMap fun c => (f c).collect columnRefs) ∧
      (∀ old new, old ≠ new → ∀ c ∈ (n.substitute (onColumns (ColumnRef.renamed old new))).collect columnRefs, c.label ≠ old) ∧
      n.substitute (onColumns .column) = n := by
  refine ⟨fun f => n.columnRefs_substitute f, fun old new other c mem => ?_, n.substitute_columns⟩
  rw [columnRefs_substitute, List.mem_flatMap] at mem
  obtain ⟨c', -, mem⟩ := mem
  rw [List.mem_singleton.1 mem]
  split
  · exact other.symm
  · assumption

/-- A join of a table and a select, where the table gets another alias. -/
theorem references_movedTable :
    let column (a : Nat) : Expr := .column ⟨⟨a⟩, "Id", .i64⟩
    let items : Select := .plain ⟨3⟩ [⟨"Id", column 2⟩] (.table .table ⟨2⟩ "Item" "Item")
    let join : Node := .source (.join .inner (.table .table ⟨1⟩ "Order" "Order") (.select items) (some (.binary .eq (column 1) (column 3))))
    (join.collect columnRefs).map (·.label) = [⟨2⟩, ⟨1⟩, ⟨3⟩] ∧
      ∀ c ∈ (join.substitute (onColumns (ColumnRef.renamed ⟨1⟩ ⟨4⟩))).collect columnRefs, c.label ≠ ⟨1⟩ :=
  ⟨rfl, (Node.references_substitute _).2.1 _ _ (by decide)⟩

end Relational

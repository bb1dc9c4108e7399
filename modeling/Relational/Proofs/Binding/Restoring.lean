import Relational.Proofs.Binding.Parts
import Relational.Proofs.Merging.ColumnMaps

/-!
# Splitting loses nothing

Putting the columns that were split off an expression back into what is left of it gives the expression again
(`Expr.restores_projectColumns`), with the statements nested in it. Parts that are the same share a column, though, and then all
of them come back as the first one; that shows where two values are the same and written in different
ways (`restored_fees`).
-/

namespace Relational

/-! ## What comes back -/

variable {root e e' : Expr} {target : ColumnTarget} {l : ColumnList}

/-- An expression that was taken apart and put together again. A part that became a column is there again, or another part of the
root that is the same. -/
inductive Expr.Restored (root : Expr) : Expr → Expr → Prop where
  | part {x y : Expr} (whole : x.isWhole = true) (same : y = x ∨ root.HasPart y ∧ y.same x = true) : Restored root x y
  | operator {e : Expr} {es : List Expr} (operates : e.isOperator = true) (split : e.isWhole = false)
    (length : es.length = e.operands.length) (parts : ∀ x ∈ e.operands.zip es, Restored root x.1 x.2) : Restored root e (e.withOperands es)
  | leaf {e : Expr} (leaf : e.isOperator = false) (split : e.isWhole = false) : Restored root e e

/-- Where parts that are the same are equal, all comes back as it was. -/
theorem Expr.Restored.eq (restored : root.Restored e e') (parts : ∀ x, e.HasPart x → root.HasPart x)
    (told : ∀ x y, root.HasPart x → root.HasPart y → y.same x = true → y = x) : e' = e := by
  induction restored with
  | part whole same =>
    rcases same with rfl | ⟨part, same⟩
    · rfl
    · exact told _ _ (parts _ (.whole whole)) part same
  | @operator e es operates split length _ ih =>
    have same : List.Forall₂ (fun x x' => x' = id x) e.operands es :=
      List.forall₂_iff_zip.2 ⟨length.symm, fun mem => ih _ mem fun x part =>
        parts x (.operand operates split (List.of_mem_zip mem).1 part)⟩
    rw [eq_map_of_forall₂ same, List.map_id, Expr.withOperands_self]
  | leaf => rfl

theorem Expr.HasPart.columnRefs_subset {x : Expr} (part : root.HasPart x) : x.collect columnRefs ⊆ root.collect columnRefs := by
  induction part with
  | whole => exact List.Subset.refl _
  | operand operates _ mem _ ih =>
    rw [collect_operator _ operates]
    exact fun c found => List.mem_flatMap.2 ⟨_, mem, ih found⟩

/-- The parts of an expression, and the references in the statements that are nested in it. -/
def Expr.Yields (root x : Expr) : Prop := root.HasPart x ∨ ∃ c ∈ root.collect columnRefs, x = .column c

/-- Parts that share a column are the same, and equal if they are references. -/
theorem Expr.Yields.same_of_sharesColumn {d : Expr} (yields : root.Yields d) (shares : d.sharesColumn e = true)
    (refs : e.collect columnRefs ⊆ root.collect columnRefs)
    (typed : ∀ c ∈ root.collect columnRefs, ∀ c' ∈ root.collect columnRefs, c.isSame c' = true → c = c') :
    d = e ∨ root.HasPart d ∧ d.same e = true := by
  unfold sharesColumn at shares
  split at shares
  · next c c' =>
    have listed : c ∈ root.collect columnRefs := by
      rcases yields with part | ⟨_, mem, ⟨⟩⟩
      · exact part.columnRefs_subset List.mem_cons_self
      · exact mem
    exact .inl (congrArg Expr.column (typed c listed c' (refs List.mem_cons_self) shares))
  · rcases yields with part | ⟨c, mem, rfl⟩
    · exact .inr ⟨part, shares⟩
    · cases e <;> simp only [same, Bool.false_eq_true, beq_iff_eq] at shares
      exact .inl (congrArg Expr.column shares)

/-- The columns of a list put back into what is left. -/
def Expr.restore (target : ColumnTarget) (l : ColumnList) (e : Expr) : Expr := e.replaceColumns (.ofSelect (.bare target.label l.columns))

theorem Expr.restore_withOperands (operates : e.isOperator = true) {es : List Expr} (length : es.length = e.operands.length) :
    (e.withOperands es).restore target l = e.withOperands (es.map (restore target l)) := by
  have operates' : (e.withOperands es).isOperator = true := by rwa [isOperator_withOperands]
  rw [restore, replaceColumns, substitute_operator operates' (onColumns_operator operates'), mapOperands_eq, operands_withOperands operates length,
    withOperands_withOperands operates length (by simpa using length)]
  rfl

theorem Expr.eq_of_same_column {d : Expr} {c : ColumnRef} (same : d.same (.column c) = true) : d = .column c := by
  cases d <;> simp only [Expr.same, Bool.false_eq_true, beq_iff_eq] at same
  rw [same]

theorem Expr.Splits.restored (splits : e.Splits target l e') (whole : e.isWhole = true) (made : l.Made target root.Yields)
    (refs : e.collect columnRefs ⊆ root.collect columnRefs)
    (typed : ∀ c ∈ root.collect columnRefs, ∀ c' ∈ root.collect columnRefs, c.isSame c' = true → c = c')
    (fresh : target.label ∉ root.referenced) : e'.restore target l = e ∨ root.HasPart (e'.restore target l) ∧ (e'.restore target l).same e = true := by
  cases splits with
  | @outer c outside =>
    have other : c.label ≠ target.label := fun same => fresh (same ▸ List.mem_map_of_mem (refs List.mem_cons_self))
    exact .inl (ColumnMap.replace_ofSelect_other other)
  | @column _ d _ mem shares =>
    have back : (Expr.column ⟨target.label, d.name, e.ty⟩).restore target l = d.expr :=
      ColumnMap.replace_ofSelect_column (s := .bare target.label l.columns) made.names mem e.ty
    rw [back]
    rcases shares with same | shares
    · exact .inl same
    · exact (made.parts d mem).same_of_sharesColumn shares refs typed
  | operator _ split => cases whole.symm.trans split
  | leaf _ _ split => cases whole.symm.trans split
  | statement p => simp [isWhole, mustBeColumn, mayBeColumn] at whole

/-- Putting the columns back restores an expression, if they have a new alias and all references to one column have one type. -/
theorem splitCases_restored (target : ColumnTarget)
    (typed : ∀ c ∈ root.collect columnRefs, ∀ c' ∈ root.collect columnRefs, c.isSame c' = true → c = c')
    (fresh : target.label ∉ root.referenced) :
    SplitCases target (fun e => e.collect columnRefs ⊆ root.collect columnRefs ∧ ∀ x, e.HasPart x → root.HasPart x)
      (ColumnList.Grows target root.Yields) fun l e e' => l.Made target root.Yields → root.Restored e (e'.restore target l) where
  toIsGrowth := ColumnList.grows_growth target root.Yields
  operand e known split operates x mem := by
    obtain ⟨refs, parts⟩ := known
    rw [Expr.collect_operator _ operates] at refs
    exact ⟨fun c found => refs (List.mem_flatMap.2 ⟨x, mem, found⟩), fun y part => parts y (.operand operates split mem part)⟩
  column e known whole l := by
    obtain ⟨refs, parts⟩ := known
    refine (makeColumn_splits whole (.inl (parts e (.whole whole))) l).imp fun l' e' splits made => ?_
    exact .part whole (splits.restored whole made refs typed fresh)
  leaf e _ split leaf statement l _ := by
    have left : e.restore target l = e := by
      cases e <;> simp only [Expr.isOperator, Bool.true_eq_false] at leaf
      case column | aggregate | subquery => simp [Expr.isWhole, Expr.mustBeColumn] at split
      case projection => exact absurd rfl (statement _)
      all_goals rfl
    rw [left]
    exact .leaf leaf split
  operator e _ split operates l es rests made := by
    rw [Expr.restore_withOperands operates rests.length_eq.symm]
    refine .operator operates split (by simpa using rests.length_eq.symm) fun x mem => ?_
    rw [List.zip_map_right] at mem
    obtain ⟨⟨y, y'⟩, found, rfl⟩ := List.mem_map.1 mem
    exact (List.forall₂_iff_zip.1 rests).2 found made
  projection p known l := by
    have undone : Undone (ColumnList.Grows target root.Yields) (liftOuter target)
        (fun l => (ColumnMap.ofSelect (.bare target.label l.columns)).replace) (· ∈ root.collect columnRefs)
        (ColumnList.Made target root.Yields) := {
      toIsGrowth := ColumnList.grows_growth target root.Yields
      other := fun e other => by cases e <;> first | rfl | cases other
      column := fun c listed l => by
        refine (makeColumn_splits rfl (.inr ⟨c, listed, rfl⟩) l).imp fun l' e' splits made => ?_
        have refs : (Expr.column c).collect columnRefs ⊆ root.collect columnRefs := List.forall_mem_singleton.2 listed
        rcases splits.restored rfl made refs typed fresh with same | ⟨-, same⟩
        · exact same.symm
        · exact (Expr.eq_of_same_column same).symm }
    have back := undone.traverse (n := .projection p) rfl (fun c found => known.1 found) l
    refine ⟨back.grows, fun l' later made => ?_⟩
    have same : (Expr.projection (p.traverse (liftOuter target) l).1).restore target l' = .projection p :=
      congrArg Expr.projection (Node.projection.inj (back.result l' later made)).symm
    rw [same]
    exact .leaf rfl (by simp [Expr.isWhole, Expr.mustBeColumn, Expr.mayBeColumn])

/-- The columns that were split off put back into what is left. -/
def ProjectedColumns.restored (split : ProjectedColumns) (label : Alias) : Expr :=
  split.projector.replaceColumns (.ofSelect (.bare label split.columns))

/-- Splitting an expression into columns loses nothing but the difference between parts that are the same. -/
theorem Expr.restores_projectColumns (e : Expr) (label : Alias) (sources : List Alias)
    (typed : ∀ c ∈ e.collect columnRefs, ∀ c' ∈ e.collect columnRefs, c.isSame c' = true → c = c') (fresh : label ∉ e.referenced) :
    e.Restored e ((e.projectColumns label sources).restored label) ∧
      ((∀ x y, e.HasPart x → e.HasPart y → y.same x = true → y = x) → (e.projectColumns label sources).restored label = e) := by
  obtain ⟨l, grows, columns, rest⟩ :=
    (splitCases_restored ⟨label, sources⟩ typed fresh).projectColumns ⟨List.Subset.refl _, fun _ => id⟩
  have made : ColumnList.Made ⟨label, sources⟩ e.Yields ⟨[], 0⟩ := ⟨List.nodup_nil, by rintro _ ⟨⟩, by rintro _ ⟨⟩⟩
  have restored : e.Restored e ((e.projectColumns label sources).restored label) := by
    rw [ProjectedColumns.restored, columns]
    exact rest (grows.made made)
  exact ⟨restored, fun told => restored.eq (fun _ => id) told⟩

/-- The key of a kind and the statement for its items come back. -/
theorem restored_kindWithItems : ⟨5⟩ ∉ kindWithItems.referenced ∧
    (kindWithItems.projectColumns ⟨5⟩ [⟨1⟩]).restored ⟨5⟩ = kindWithItems := by
  have only {x : Expr} (part : kindWithItems.HasPart x) : x = .column ⟨⟨1⟩, "kind", .i64⟩ := by
    cases part with
    | whole whole => simp [kindWithItems, Expr.isWhole, Expr.mustBeColumn, Expr.mayBeColumn] at whole
    | operand _ _ mem part =>
      simp only [kindWithItems, Expr.operands, List.mem_cons, List.not_mem_nil, or_false] at mem
      rcases mem with rfl | rfl <;> cases part with
      | whole whole => first | rfl | simp [Expr.isWhole, Expr.mustBeColumn, Expr.mayBeColumn] at whole
      | operand operates => cases operates
  refine ⟨by decide, (kindWithItems.restores_projectColumns ⟨5⟩ [⟨1⟩] (by decide) (by decide)).2 fun x y first second _ => ?_⟩
  rw [only first, only second]

/-- The fee, or another one where there is none. -/
def feeOr (other : Decimal) : Expr := .binary .coalesce (.column ⟨⟨0⟩, "fee", .nullable .decimal⟩) (.constant (.decimal other) .decimal)

/-- The fee with two defaults that are the same, and are written in different ways. -/
def fees : Expr :=
  .record ⟨"Fees", [("low", .decimal), ("high", .decimal)]⟩
    [⟨"low", feeOr ⟨false, 75000, 4, by decide, by decide⟩⟩, ⟨"high", feeOr ⟨false, 750000, 5, by decide, by decide⟩⟩]

theorem restored_fees : (fees.projectColumns ⟨1⟩ [⟨0⟩]).restored ⟨1⟩ ≠ fees := by
  have low : (fees.projectColumns ⟨1⟩ [⟨0⟩]).restored ⟨1⟩ = .record ⟨"Fees", [("low", .decimal), ("high", .decimal)]⟩
    [⟨"low", feeOr ⟨false, 75000, 4, by decide, by decide⟩⟩, ⟨"high", feeOr ⟨false, 75000, 4, by decide, by decide⟩⟩] := by
    rfl
  rw [low]
  simp [fees, feeOr]

end Relational

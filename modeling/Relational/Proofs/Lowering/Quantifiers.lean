import Mathlib
import Relational.Proofs.Lowering.Items
import Relational.Proofs.Lowering.Selects

/-!
# Questions about the elements of a sequence

`Any`, `All` and `Contains` ask about the elements of a sequence, and are lowered in two ways: over known values to a condition with a part for
each value, over rows to a condition with a nested select. Where the rows hold the values, `Any` has the same answer both ways. `All` has not: over
rows it looks for an element where the predicate is false, so an element where it is undecided does not count against it. Nor has `Contains`: a list of
rows does not contain an absent value, even if one is among them (`Quantifier.bindTerminal_answers`).
-/

namespace Relational

open Binding

variable {D : Type} {I : Interpretation D} {db : Database D} {catalog : Catalog} {scope : Scope} {ρ : Env D} {g : List (Env D)} {element : Ty}
  {vs : List Value} {a a' b b' : Alias} {P : Alias → Prop} {p p' : Projection} {e : Expr}

/-! ## Three truth values -/

/-- A conjunction of truth values, of which some may be undecided. -/
def kleeneAnd : Option Bool → Option Bool → Option Bool
  | some false, _ | _, some false => some false
  | some true, some true => some true
  | _, _ => none

def kleeneOr : Option Bool → Option Bool → Option Bool
  | some true, _ | _, some true => some true
  | some false, some false => some false
  | _, _ => none

namespace Interpretation

variable (I : Interpretation D)

/-- Whether a value is true or false; undecided if neither. -/
def truth (x : D) : Option Bool := if I.isTrue x then some true else if I.isTrue (I.unary .not x) then some false else none

def isNull (x : D) : Bool := I.equal x I.null

/-- A comparison that is undecided where a value is absent. -/
def compared (x y : D) : Option Bool := if I.isNull x || I.isNull y then none else some (I.equal x y)

/-- Three-valued logic: `eq` compares null-safely, and a value is in a list if one of the comparisons with its elements is true. -/
structure ThreeValued : Prop where
  constant : ∀ b, I.truth (I.constant (.bool b) .bool) = some b
  ofBool : ∀ b, I.truth (I.ofBool b) = some b
  not : ∀ x, I.truth (I.unary .not x) = (I.truth x).map Bool.not
  and : ∀ x y, I.truth (I.binary .and x y) = kleeneAnd (I.truth x) (I.truth y)
  or : ∀ x y, I.truth (I.binary .or x y) = kleeneOr (I.truth x) (I.truth y)
  eq : ∀ x y, I.truth (I.binary .eq x y) = some (I.equal x y)
  isIn : ∀ x ys, I.truth (I.isIn x ys) = (ys.map (I.compared x)).foldr kleeneOr (some false)
  absent : ∀ x y, I.equal x y = true → I.isNull x = I.isNull y

theorem isTrue_iff (x : D) : I.isTrue x = true ↔ I.truth x = some true := by
  rw [truth]
  split
  · simp [*]
  · split <;> simp [*]

end Interpretation

theorem kleeneAnd_eq_true {x y : Option Bool} : kleeneAnd x y = some true ↔ x = some true ∧ y = some true := by
  rcases x with _ | _ | _ <;> rcases y with _ | _ | _ <;> simp [kleeneAnd]

theorem kleeneOr_eq_true {x y : Option Bool} : kleeneOr x y = some true ↔ x = some true ∨ y = some true := by
  rcases x with _ | _ | _ <;> rcases y with _ | _ | _ <;> simp [kleeneOr]

theorem foldr_kleeneOr_eq_true {xs : List (Option Bool)} : xs.foldr kleeneOr (some false) = some true ↔ some true ∈ xs := by
  induction xs with
  | nil => simp
  | cons x xs ih => rw [List.foldr_cons, kleeneOr_eq_true, ih, List.mem_cons, eq_comm]

namespace Interpretation.ThreeValued

variable (law : I.ThreeValued)

include law

/-- A value is in a list if it is there and equal to an element. -/
theorem isIn_eq_true (x : D) (ys : List D) : I.isTrue (I.isIn x ys) = true ↔ I.isNull x = false ∧ ∃ y ∈ ys, I.equal x y = true := by
  rw [I.isTrue_iff, law.isIn, foldr_kleeneOr_eq_true, List.mem_map]
  constructor
  · rintro ⟨y, mem, same⟩
    rw [compared] at same
    split at same
    · cases same
    · next present =>
      rw [Option.some.injEq] at same
      rw [Bool.or_eq_true, not_or, Bool.not_eq_true] at present
      exact ⟨present.1, y, mem, same⟩
  · rintro ⟨present, y, mem, same⟩
    refine ⟨y, mem, ?_⟩
    rw [compared, ← law.absent x y same, present, Bool.or_self, if_neg Bool.false_ne_true, same]

theorem isTrue_disjunction (parts : List Expr) :
    I.isTrue (((Expr.disjunction parts).getD (.ofBool false)).eval I db ρ g) = true ↔
      ∃ x ∈ parts, I.truth (x.eval I db ρ g) = some true := by
  cases parts with
  | nil =>
    rw [Expr.disjunction, Expr.joined, Option.getD_none, I.isTrue_iff]
    simp [Expr.ofBool, Expr.eval, law.constant]
  | cons x rest =>
    rw [Expr.disjunction, Expr.joined, Option.getD_some, I.isTrue_iff]
    induction rest generalizing x with
    | nil => simp
    | cons y rest ih =>
      rw [List.foldl_cons, ih, List.exists_mem_cons_iff, List.exists_mem_cons_iff, List.exists_mem_cons_iff, Expr.eval, law.or,
        kleeneOr_eq_true, or_assoc]

theorem isTrue_conjunction (parts : List Expr) :
    I.isTrue (((Expr.conjunction parts).getD (.ofBool true)).eval I db ρ g) = true ↔
      ∀ x ∈ parts, I.truth (x.eval I db ρ g) = some true := by
  cases parts with
  | nil =>
    rw [Expr.conjunction, Expr.joined, Option.getD_none, I.isTrue_iff]
    simp [Expr.ofBool, Expr.eval, law.constant]
  | cons x rest =>
    rw [Expr.conjunction, Expr.joined, Option.getD_some, I.isTrue_iff]
    induction rest generalizing x with
    | nil => simp
    | cons y rest ih =>
      rw [List.foldl_cons, ih, List.forall_mem_cons, List.forall_mem_cons, List.forall_mem_cons, Expr.eval, law.and,
        kleeneAnd_eq_true, and_assoc]

theorem isTrue_ofBool (b : Bool) : I.isTrue (I.ofBool b) = b := by
  rw [Bool.eq_iff_iff, I.isTrue_iff, law.ofBool, Option.some.injEq]

theorem isTrue_not (x : D) : I.isTrue (I.unary .not x) = true ↔ I.truth x = some false := by
  rw [I.isTrue_iff, law.not]
  rcases I.truth x with _ | _ | _ <;> simp

end Interpretation.ThreeValued

/-! ## Elements of rows -/

/-- A projection whose elements are known values, each of them one column. -/
structure Projection.Produces (I : Interpretation D) (db : Database D) (ρ : Env D) (element : Ty) (vs : List Value) (p : Projection) : Prop where
  ty : p.projector.ty = element
  item : p.projector.IsItem
  whole : p.projector.isWhole = true
  aggregates : p.projector.hasAggregate = false
  values : p.values I db ρ = vs.map fun v => I.constant v element

theorem Expr.HasPart.hasAggregate {x : Expr} (part : e.HasPart x) (aggregates : e.hasAggregate = false) : x.hasAggregate = false := by
  induction part with
  | whole => exact aggregates
  | operand operates _ mem _ ih =>
    rw [hasAggregate_operator operates, List.any_eq_false] at aggregates
    exact ih (by simpa using aggregates _ mem)

/-- A select with the columns of an expression without aggregates. -/
theorem Select.ungrouped_of_columns {s : Select} {sources : List Alias} (columns : s.columns = (e.projectColumns a sources).columns)
    (aggregates : e.hasAggregate = false) (groupBy : s.groupBy = []) (having : s.having = none) (orderBy : s.orderBy = []) : s.Ungrouped := by
  obtain ⟨l, listed, made, -⟩ := e.projectColumns_splits (P := fun x => x.hasAggregate = false) ⟨a, sources⟩
    (fun _ _ _ => rfl) fun _ part => part.hasAggregate aggregates
  have none : s.columns.any (·.expr.hasAggregate) = false := by
    rw [List.any_eq_false, columns, listed]
    intro c mem
    rw [made.parts c mem]
    exact Bool.false_ne_true
  exact ⟨groupBy, by simp [hasAggregates, none, having, orderBy], having⟩

/-- What a filtered projection keeps. -/
theorem Binding.filtered_rows (aggregates : p.projector.hasAggregate = false) {condition : Expr}
    (h : filtered p condition a = .ok (p', a')) (ρ : Env D) :
    p'.select.rows I db ρ =
      ((p.elements I db ρ).filter fun σ => I.isTrue (condition.valueAt I db σ)).map (p'.select.shownAt I db) := by
  obtain ⟨rfl, rfl⟩ := wrap_eq_ok.1 h
  rw [(Select.ungrouped_of_columns rfl aggregates rfl rfl rfl).rows_eq rfl, Select.kept_unordered rfl, Select.cut_none rfl rfl]
  rfl

/-- Whether a filtered projection keeps an element. -/
theorem Binding.filtered_exists (law : I.ThreeValued) (aggregates : p.projector.hasAggregate = false) {condition : Expr}
    (h : filtered p condition a = .ok (p', a')) :
    I.truth ((Expr.subquery (.exists p'.select)).eval I db ρ g) =
      some ((p.elements I db ρ).any fun σ => I.isTrue (condition.valueAt I db σ)) := by
  rw [Expr.eval, Subquery.eval, law.ofBool, filtered_rows aggregates h, List.isEmpty_map, Option.some.injEq, Bool.eq_iff_iff]
  simp

/-- What is whole becomes one column, or stays a column of the rows around the select. -/
theorem Expr.projectColumns_of_isWhole (whole : e.isWhole = true) (label : Alias) (sources : List Alias) :
    (e.projectColumns label sources).columns = [] ∨ ∃ name, (e.projectColumns label sources).columns = [⟨name, e⟩] := by
  have made : (e.projectColumns label sources).columns = (makeColumn ⟨label, sources⟩ e ⟨[], 0⟩).2.columns := by
    change (settle ⟨label, sources⟩ e (e.split ⟨label, sources⟩ ⟨[], 0⟩).1 (e.split ⟨label, sources⟩ ⟨[], 0⟩).2).2.columns = _
    rw [split_of_isWhole whole, settle, if_pos whole]
  rw [made]
  rcases makeColumn_cases ⟨label, sources⟩ e ⟨[], 0⟩ with ⟨c, -, -, made⟩ | ⟨-, ⟨d, found, -⟩ | ⟨-, made⟩⟩
  · exact .inl (by rw [made])
  · cases found
  · exact .inr ⟨_, by rw [made]; rfl⟩

/-- A projection of one column, asked for a value. -/
theorem Binding.contained_rows (law : I.ThreeValued) (produces : p.Produces I db ρ element vs) {value : Expr}
    (h : contained value (.rows p) a = .ok (e, a')) :
    I.isTrue (e.eval I db ρ g) = true ↔
      I.isNull (value.eval I db ρ g) = false ∧ ∃ v ∈ vs, I.equal (value.eval I db ρ g) (I.constant v element) = true := by
  obtain ⟨inner, a₁, wrapped, h⟩ := bind_eq_ok.1 h
  obtain ⟨rfl, rfl⟩ := wrap_eq_ok.1 wrapped
  split at h
  · cases fail_eq_ok.1 h
  · next single =>
    obtain ⟨rfl, rfl⟩ := pure_eq_ok.1 h
    rcases Expr.projectColumns_of_isWhole produces.whole a [p.select.label] with none | ⟨name, one⟩
    · simp [Select.plain, none] at single
    · rw [Expr.eval, Subquery.eval, (Select.ungrouped_of_columns rfl produces.aggregates rfl rfl rfl).rows_eq rfl, Select.kept_unordered rfl,
        Select.cut_none rfl rfl, Select.passes_none rfl, List.filter_true, law.isIn_eq_true]
      have listed : ((p.elements I db ρ).map (Select.shownAt I db (.plain a [⟨name, p.projector⟩] (.select p.select)))).filterMap
          (fun row => row.head?.map (·.2)) = vs.map fun v => I.constant v element := by
        rw [← produces.values, p.values_eq_elements, List.filterMap_map]
        exact congrFun List.filterMap_eq_map _
      have asked (x : D) : (∃ v ∈ vs, I.equal x (I.constant v element) = true) ↔ ∃ y ∈ vs.map fun v => I.constant v element, I.equal x y = true := by
        simp
      rw [asked, id, one, ← listed]
      rfl

theorem memoryItem_eval (element : Ty) (v : Value) : (memoryItem element v).eval I db ρ g = I.constant v element := by
  rw [memoryItem_eq]
  split <;> rfl

theorem Binding.contained_memory (law : I.ThreeValued)
    (present : element.isNullable = false → ∀ v ∈ vs, I.isNull (I.constant v element) = false) (value : Expr) :
    I.isTrue ((containedInMemory value vs element).eval I db ρ g) = true ↔
      ∃ v ∈ vs, I.equal (value.eval I db ρ g) (I.constant v element) = true := by
  unfold containedInMemory
  split
  · next none =>
    rw [List.isEmpty_iff.1 none, I.isTrue_iff, Expr.ofBool, Expr.eval, law.constant]
    simp
  · split
    · next plain =>
      rw [Expr.eval, Subquery.eval, law.isIn_eq_true, evalAll_eq, List.map_map]
      simp only [List.mem_map, Function.comp_apply, memoryItem_eval, exists_exists_and_eq_and]
      refine ⟨And.right, fun found => ⟨?_, found⟩⟩
      obtain ⟨v, mem, same⟩ := found
      rw [law.absent _ _ same]
      exact present (by simpa using (Bool.and_eq_true_iff.1 plain).2) v mem
    · rw [law.isTrue_disjunction]
      simp only [List.mem_map, exists_exists_and_eq_and, Expr.eval, law.eq, memoryItem_eval, Option.some.injEq]

/-! ## Predicates of elements -/

variable (I db catalog scope ρ g element) in
/-- The truth of a predicate at a known value. -/
def Lambda.truthAt (a : Alias) (l : Lambda) (v : Value) : Option Bool :=
  (l.bind catalog scope [memoryItem element v] a).toOption.bind fun r => I.truth (r.1.eval I db ρ g)

theorem memoryItem_isItem (fits : element.isColumn = true) (v : Value) : (memoryItem element v).IsItem ∧ (memoryItem element v).ty = element := by
  rw [memoryItem_eq, fits, Bool.and_true]
  cases v <;> exact ⟨⟨fits, by rintro _ ⟨⟩, by rintro _ _ _ ⟨⟩⟩, rfl⟩

theorem Binding.mapM_eq_ok_of_keeps {α β : Type} {f : α → Binding β} {l : List α} (keeps : ∀ x ∈ l, ∀ a a' y, f x a = .ok (y, a') → a = a') {ys : List β}
    (h : l.mapM f a = .ok (ys, a')) : a = a' ∧ List.Forall₂ (fun x y => f x a = .ok (y, a)) l ys := by
  induction l generalizing ys with
  | nil =>
    rw [List.mapM_nil] at h
    obtain ⟨rfl, rfl⟩ := pure_eq_ok.1 h
    exact ⟨rfl, .nil⟩
  | cons x l ih =>
    rw [List.forall_mem_cons] at keeps
    rw [List.mapM_cons] at h
    obtain ⟨y, a₁, first, h⟩ := bind_eq_ok.1 h
    obtain ⟨ys, a₂, rest, h⟩ := bind_eq_ok.1 h
    obtain ⟨rfl, rfl⟩ := pure_eq_ok.1 h
    obtain rfl := keeps.1 _ _ _ first
    obtain ⟨rfl, others⟩ := ih keeps.2 rest
    exact ⟨rfl, .cons first others⟩

section Predicates

variable (params : ∀ x ∈ scope, x.2.Scalar fun c => P c.label) {l : Lambda} (free : l.body.QueryFree)

include params free

/-- The body of a lambda over one element and over another that mirrors it. -/
theorem Lambda.bind_mirrors {V : Expr → Expr → Prop} {x x' e e' : Expr} (argument : x.Mirrors (fun c => P c.label) V x')
    (h : l.bind catalog scope [x] a = .ok (e, a')) (h' : l.bind catalog scope [x'] b = .ok (e', b')) :
    e.Mirrors (fun c => P c.label) V e' := by
  obtain ⟨names, body⟩ := l
  rw [Lambda.bind] at h h'
  split at h
  · cases fail_eq_ok.1 h
  · next one =>
    rw [if_neg (show ¬ names.length ≠ [x'].length from one)] at h'
    obtain ⟨name, rfl⟩ := List.length_eq_one_iff.1 (not_not.1 one)
    have around : List.Forall₂ (fun b b' => b'.1 = b.1 ∧ b.2.Mirrors (fun c => P c.label) V b'.2) scope scope :=
      List.forall₂_same.2 fun y mem => ⟨rfl, .refl (params y mem)⟩
    have scopes : List.Forall₂ (fun b b' => b'.1 = b.1 ∧ b.2.Mirrors (fun c => P c.label) V b'.2) ((name, x) :: scope) ((name, x') :: scope) :=
      .cons ⟨rfl, argument⟩ around
    exact free.mirrors scopes h h'

/-- The body of a predicate over an element of rows has the value that it has at the known value. -/
theorem Projection.Produces.truths (produces : p.Produces I db ρ element vs) (fits : element.isColumn = true) (outside : ¬ P p.select.label)
    {parts : List Expr} (memory : List.Forall₂ (fun v x => l.bind catalog scope [memoryItem element v] a = .ok (x, a)) vs parts)
    (rows : l.bind catalog scope [p.projector] b = .ok (e, b')) :
    (p.elements I db ρ).map (fun σ => I.truth (e.valueAt I db σ)) = parts.map fun x => I.truth (x.eval I db ρ g) := by
  have frame : ∀ σ ∈ p.elements I db ρ, ∀ c : ColumnRef, P c.label → ρ c.label c.name = σ c.label c.name := by
    intro σ mem c inside
    have other : c.label ∉ (Source.select p.select).visible := by
      rw [Source.visible, List.mem_singleton]
      exact fun same => outside (same ▸ inside)
    rw [(Source.select p.select).rows_frame mem _ other]
  have values := produces.values
  have ty := produces.ty
  have item := produces.item
  rw [p.values_eq_elements] at values
  generalize p.elements I db ρ = elements at frame values
  clear produces
  induction memory generalizing elements with
  | nil =>
    rw [List.map_nil, List.map_eq_nil_iff] at values
    rw [values, List.map_nil, List.map_nil]
  | @cons v x vs parts bound _ ih =>
    obtain ⟨σ, elements, rfl, first, rest⟩ := List.map_eq_cons_iff.1 values
    rw [List.forall_mem_cons] at frame
    obtain ⟨known, knownTy⟩ := memoryItem_isItem fits v
    have mirrors := l.bind_mirrors params free (V := fun y y' => y = memoryItem element v ∧ y' = p.projector)
      (.item known item (ty.trans knownTy.symm) ⟨rfl, rfl⟩) bound rows
    have same : x.eval I db ρ g = e.valueAt I db σ := by
      refine mirrors.eval frame.1 ?_
      rintro _ _ ⟨rfl, rfl⟩
      rw [memoryItem_eval]
      exact first.symm
    rw [List.map_cons, List.map_cons, ih elements frame.2 rest, same]

variable (I db ρ g) in
/-- A predicate is bound once for each value, and no alias is given out for it. -/
theorem Lambda.mapM_truthAt {parts : List Expr} (h : vs.mapM (fun v => l.bind catalog scope [memoryItem element v]) a = .ok (parts, a')) :
    List.Forall₂ (fun v x => l.bind catalog scope [memoryItem element v] a = .ok (x, a)) vs parts ∧
      parts.map (fun x => I.truth (x.eval I db ρ g)) = vs.map (l.truthAt I db catalog scope ρ g element a) := by
  have keeps : ∀ v ∈ vs, ∀ a a' x, l.bind catalog scope [memoryItem element v] a = .ok (x, a') → a = a' :=
    fun v _ _ _ _ h => (l.bind_scalar params (List.forall_mem_singleton.2 (memoryItem_scalar element v)) free h).1
  obtain ⟨-, bound⟩ := mapM_eq_ok_of_keeps keeps h
  refine ⟨bound, ?_⟩
  rw [← List.forall₂_eq_eq_eq, List.forall₂_map_left_iff, List.forall₂_map_right_iff]
  refine bound.flip.imp fun x v same => ?_
  rw [Lambda.truthAt, same]
  rfl

end Predicates

/-! ## Questions -/

/-- What is asked of a sequence. -/
inductive Quantifier where
  | any (predicate : Option Lambda)
  | all (predicate : Lambda)
  | contains (value : Expr)

namespace Quantifier

def query (q : Query) : Quantifier → Query
  | .any predicate => .any q predicate
  | .all predicate => .all q predicate
  | .contains value => .contains q value

def predicate? : Quantifier → Option Lambda
  | .any predicate => predicate
  | .all predicate => some predicate
  | .contains _ => none

variable (I db catalog scope ρ g element vs a)

/-- When the answer over known values is true. -/
def OfValues : Quantifier → Prop
  | .any none => vs ≠ []
  | .any (some l) => ∃ v ∈ vs, l.truthAt I db catalog scope ρ g element a v = some true
  | .all l => ∀ v ∈ vs, l.truthAt I db catalog scope ρ g element a v = some true
  | .contains value => ∃ e a', value.bind catalog scope a = .ok (e, a') ∧ ∃ v ∈ vs, I.equal (e.eval I db ρ g) (I.constant v element) = true

/-- When the answer over the rows of the same values is true. -/
def OfRows : Quantifier → Prop
  | .any predicate => (Quantifier.any predicate).OfValues I db catalog scope ρ g element vs a
  | .all l => ∀ v ∈ vs, l.truthAt I db catalog scope ρ g element a v ≠ some false
  | .contains value => (Quantifier.contains value).OfValues I db catalog scope ρ g element vs a ∧
    ∀ e a', value.bind catalog scope a = .ok (e, a') → I.isNull (e.eval I db ρ g) = false

end Quantifier

/-- A query whose elements are known values wherever it is bound. -/
def Query.Produces (I : Interpretation D) (db : Database D) (catalog : Catalog) (scope : Scope) (P : Alias → Prop) (ρ : Env D) (element : Ty)
    (vs : List Value) (q : Query) : Prop :=
  ∀ a a' s, q.bindSource catalog scope a = .ok (s, a') →
    ∃ p, s = .rows p ∧ p.Produces I db ρ element vs ∧ ((∀ b, P b → b.id < a.id) → ¬ P p.select.label)

section Answers

variable (law : I.ThreeValued) {q : Query} (produces : q.Produces I db catalog scope P ρ element vs) {root : Bool} {m r : Expr}

include law produces

theorem Query.any_none_answers (memory : (Query.any (.memory vs element) none).bindTerminal catalog scope root a = .ok (m, b))
    (rows : (q.any none).bindTerminal catalog scope root a = .ok (r, b')) :
    (I.isTrue (m.eval I db ρ g) = true ↔ vs ≠ []) ∧ (I.isTrue (r.eval I db ρ g) = true ↔ vs ≠ []) := by
  obtain ⟨rfl, rfl⟩ := pure_eq_ok.1 memory
  obtain ⟨s, a₁, source, rows⟩ := bind_eq_ok.1 rows
  obtain ⟨p, rfl, produced, -⟩ := produces _ _ _ source
  obtain ⟨rfl, rfl⟩ := pure_eq_ok.1 rows
  have empty : (p.select.rows I db ρ).isEmpty = vs.isEmpty := by
    have values := congrArg List.isEmpty produced.values
    rw [Projection.values_eq_elements, Projection.elements, Source.rows] at values
    simpa using values
  constructor
  · rw [I.isTrue_iff, Expr.ofBool, Expr.eval, law.constant]
    simp
  · rw [Expr.eval, Subquery.eval, law.isTrue_ofBool, empty]
    simp

theorem Query.contains_answers (present : element.isNullable = false → ∀ v ∈ vs, I.isNull (I.constant v element) = false) {value : Expr}
    (memory : (Query.contains (.memory vs element) value).bindTerminal catalog scope root a = .ok (m, b))
    (rows : (q.contains value).bindTerminal catalog scope root a = .ok (r, b')) :
    ∃ e a', value.bind catalog scope a = .ok (e, a') ∧
      (I.isTrue (m.eval I db ρ g) = true ↔ ∃ v ∈ vs, I.equal (e.eval I db ρ g) (I.constant v element) = true) ∧
      (I.isTrue (r.eval I db ρ g) = true ↔
        I.isNull (e.eval I db ρ g) = false ∧ ∃ v ∈ vs, I.equal (e.eval I db ρ g) (I.constant v element) = true) := by
  obtain ⟨e, a₁, bound, memory⟩ := bind_eq_ok.1 memory
  obtain ⟨rfl, rfl⟩ := pure_eq_ok.1 memory
  obtain ⟨e', a₂, bound', rows⟩ := bind_eq_ok.1 rows
  obtain ⟨rfl, rfl⟩ : e = e' ∧ a₁ = a₂ := by simpa using bound.symm.trans bound'
  obtain ⟨s, a₃, source, rows⟩ := bind_eq_ok.1 rows
  obtain ⟨p, rfl, produced, -⟩ := produces _ _ _ source
  exact ⟨e, _, bound, contained_memory law present e, contained_rows law produced rows⟩

variable (fits : element.isColumn = true) (params : ∀ x ∈ scope, x.2.Scalar fun c => P c.label) (outer : ∀ b, P b → b.id < a.id) {l : Lambda}
  (free : l.body.QueryFree)

include fits params outer free

theorem Query.any_answers (memory : (Query.any (.memory vs element) (some l)).bindTerminal catalog scope root a = .ok (m, b))
    (rows : (q.any (some l)).bindTerminal catalog scope root a = .ok (r, b')) :
    (I.isTrue (m.eval I db ρ g) = true ↔ some true ∈ vs.map (l.truthAt I db catalog scope ρ g element a)) ∧
      (I.isTrue (r.eval I db ρ g) = true ↔ some true ∈ vs.map (l.truthAt I db catalog scope ρ g element a)) := by
  obtain ⟨_, _, known, memory⟩ := bind_eq_ok.1 memory
  obtain ⟨rfl, rfl⟩ := pure_eq_ok.1 known
  obtain ⟨parts, a₁, bound, memory⟩ := bind_eq_ok.1 memory
  obtain ⟨rfl, rfl⟩ := pure_eq_ok.1 memory
  obtain ⟨s, a₂, source, rows⟩ := bind_eq_ok.1 rows
  obtain ⟨p, rfl, produced, outside⟩ := produces _ _ _ source
  obtain ⟨body, a₃, condition, rows⟩ := bind_eq_ok.1 rows
  obtain ⟨p', a₄, kept, rows⟩ := bind_eq_ok.1 rows
  obtain ⟨rfl, rfl⟩ := pure_eq_ok.1 rows
  obtain ⟨bound, truths⟩ := l.mapM_truthAt I db ρ g params free bound
  constructor
  · rw [law.isTrue_disjunction, ← truths, List.mem_map]
  · rw [I.isTrue_iff, filtered_exists law produced.aggregates kept, ← truths,
      ← produced.truths params free fits (outside outer) bound condition, List.mem_map, Option.some.injEq, List.any_eq_true]
    simp only [I.isTrue_iff]

theorem Query.all_answers (memory : (Query.all (.memory vs element) l).bindTerminal catalog scope root a = .ok (m, b))
    (rows : (q.all l).bindTerminal catalog scope root a = .ok (r, b')) :
    (I.isTrue (m.eval I db ρ g) = true ↔ ∀ t ∈ vs.map (l.truthAt I db catalog scope ρ g element a), t = some true) ∧
      (I.isTrue (r.eval I db ρ g) = true ↔ ∀ t ∈ vs.map (l.truthAt I db catalog scope ρ g element a), t ≠ some false) := by
  obtain ⟨_, _, known, memory⟩ := bind_eq_ok.1 memory
  obtain ⟨rfl, rfl⟩ := pure_eq_ok.1 known
  obtain ⟨parts, a₁, bound, memory⟩ := bind_eq_ok.1 memory
  obtain ⟨rfl, rfl⟩ := pure_eq_ok.1 memory
  obtain ⟨s, a₂, source, rows⟩ := bind_eq_ok.1 rows
  obtain ⟨p, rfl, produced, outside⟩ := produces _ _ _ source
  obtain ⟨body, a₃, condition, rows⟩ := bind_eq_ok.1 rows
  obtain ⟨p', a₄, kept, rows⟩ := bind_eq_ok.1 rows
  obtain ⟨rfl, rfl⟩ := pure_eq_ok.1 rows
  obtain ⟨bound, truths⟩ := l.mapM_truthAt I db ρ g params free bound
  constructor
  · rw [law.isTrue_conjunction, ← truths, List.forall_mem_map]
  · rw [Expr.not, Expr.eval, law.isTrue_not, filtered_exists law produced.aggregates kept, ← truths,
      ← produced.truths params free fits (outside outer) bound condition, List.forall_mem_map, Option.some.injEq, List.any_eq_false]
    simp only [Expr.not, Expr.valueAt, Expr.eval, law.isTrue_not, ne_eq]

end Answers

/-- Over known values, and over the rows of the same values. -/
theorem Quantifier.bindTerminal_answers (law : I.ThreeValued) (fits : element.isColumn = true)
    (present : element.isNullable = false → ∀ v ∈ vs, I.isNull (I.constant v element) = false)
    (params : ∀ x ∈ scope, x.2.Scalar fun c => P c.label) (outer : ∀ b, P b → b.id < a.id) {q : Query}
    (produces : q.Produces I db catalog scope P ρ element vs) {k : Quantifier} (free : ∀ l ∈ k.predicate?, l.body.QueryFree) {root : Bool}
    {m r : Expr} (memory : (k.query (.memory vs element)).bindTerminal catalog scope root a = .ok (m, b))
    (rows : (k.query q).bindTerminal catalog scope root a = .ok (r, b')) :
    (I.isTrue (m.eval I db ρ g) = true ↔ k.OfValues I db catalog scope ρ g element vs a) ∧
      (I.isTrue (r.eval I db ρ g) = true ↔ k.OfRows I db catalog scope ρ g element vs a) := by
  cases k with
  | any predicate =>
    cases predicate with
    | none => exact Query.any_none_answers law produces memory rows
    | some l =>
      have answers := Query.any_answers (g := g) law produces fits params outer (free l rfl) memory rows
      rw [List.mem_map] at answers
      exact answers
  | all l =>
    have answers := Query.all_answers (g := g) law produces fits params outer (free l rfl) memory rows
    rw [List.forall_mem_map, List.forall_mem_map] at answers
    exact answers
  | contains value =>
    obtain ⟨e, a', bound, known, listed⟩ := Query.contains_answers (g := g) law produces present memory rows
    have unique {e' : Expr} {b : Alias} (bound' : value.bind catalog scope a = .ok (e', b)) : e' = e := by
      rw [bound] at bound'
      cases bound'
      rfl
    have values : (Quantifier.contains value).OfValues I db catalog scope ρ g element vs a ↔
        ∃ v ∈ vs, I.equal (e.eval I db ρ g) (I.constant v element) = true := by
      refine ⟨?_, fun found => ⟨e, a', bound, found⟩⟩
      rintro ⟨e', b, bound', found⟩
      rwa [unique bound'] at found
    refine ⟨known.trans values.symm, listed.trans ?_⟩
    rw [OfRows, values, and_comm]
    refine and_congr_right fun _ => ⟨fun present e' b bound' => unique bound' ▸ present, fun present => present e a' bound⟩

/-! ## Readings, one of them absent -/

/-- Numbers and absent values. A number other than zero is true, and an absent value is undecided. -/
def Interpretation.ternary : Interpretation (Option Int) where
  equal x y := x == y
  le x y := x.elim true fun m => y.elim false fun n => decide (m ≤ n)
  null := none
  isTrue x := x.any (· != 0)
  ofBool b := some b.toInt
  constant
    | .int n, _ => some n.toInt
    | .bool b, _ => some b.toInt
    | _, _ => none
  param _ := none
  query _ := none
  binary op x y :=
    match op with
    | .and => (kleeneAnd (x.map (· != 0)) (y.map (· != 0))).map Bool.toInt
    | .or => (kleeneOr (x.map (· != 0)) (y.map (· != 0))).map Bool.toInt
    | .eq => some (x == y).toInt
    | .gt => x.bind fun m => y.map fun n => (decide (n < m)).toInt
    | _ => none
  unary op x :=
    match op with
    | .not => x.map fun n => (n == 0).toInt
    | .negate => x.map Neg.neg
  member _ _ := none
  call _ _ _ := none
  conditional test yes no := if test.any (· != 0) then yes else no
  record _ _ := none
  convert x _ := x
  function _ _ _ := none
  group _ _ := none
  aggregate _ _ _ _ := none
  isIn x ys := ((ys.map fun y => if x == none || y == none then none else some (x == y)).foldr kleeneOr (some false)).map Bool.toInt
  collect _ _ := none
  limit x := x.map Int.toNat
  offset x := (x.map Int.toNat).getD 0

theorem Interpretation.ternary_truth (x : Option Int) : ternary.truth x = x.map (· != 0) := by
  cases x with
  | none => rfl
  | some n => by_cases zero : n = 0 <;> simp [truth, ternary, zero]

theorem Interpretation.ternary_threeValued : ternary.ThreeValued := by
  have decided (t : Option Bool) : ternary.truth (t.map Bool.toInt) = t := by rcases t with _ | _ | _ <;> rfl
  refine ⟨?_, ?_, ?_, ?_, ?_, ?_, ?_, ?_⟩
  · rintro (_ | _) <;> rfl
  · rintro (_ | _) <;> rfl
  · intro x
    rw [ternary_truth, ternary_truth]
    cases x with
    | none => rfl
    | some n => cases zero : n == 0 <;> simp [ternary, bne, zero]
  · intro x y
    rw [ternary_truth x, ternary_truth y]
    exact decided _
  · intro x y
    rw [ternary_truth x, ternary_truth y]
    exact decided _
  · exact fun x y => decided (some (x == y))
  · exact fun x ys => decided _
  · intro x y same
    rw [show x = y by simpa [ternary] using same]

def readingCatalog : Catalog := .ofList [⟨"Reading", none, .table, [⟨"value", .i64, true, false⟩]⟩]

/-- One reading is three, and one is absent. -/
def readingRows : Database (Option Int) where
  table _ := [fun _ => some 3, fun _ => none]
  raw _ := []

def readings : Query := .project (.table "Reading") ⟨["r"], .member (.param "r") "value"⟩

theorem Expr.projectColumns_column (c : ColumnRef) (label : Alias) :
    (Expr.column c).projectColumns label [c.label] = ⟨.column ⟨label, c.name, c.ty⟩, [⟨c.name, .column c⟩]⟩ := by
  change ProjectedColumns.mk (makeColumn ⟨label, [c.label]⟩ (.column c) ⟨[], 0⟩).1 (makeColumn ⟨label, [c.label]⟩ (.column c) ⟨[], 0⟩).2.columns = _
  simp [makeColumn, ColumnList.name, freshName, Expr.ty]

/-- The select of the readings, by the first alias given out for it. -/
def readingsFrom (a : Alias) : Projection :=
  let value (a : Alias) : Expr := .column ⟨a, "value", .nullable .i64⟩
  ⟨.plain a.next.next [⟨"value", value a.next⟩] (.select (.plain a.next [⟨"value", value a⟩] (.table .table a "Reading" "Reading"))),
    value a.next.next, none⟩

theorem readings_bindSource (a : Alias) : readings.bindSource readingCatalog [] a = .ok (.rows (readingsFrom a), a.next.next.next) := by
  have split := Expr.projectColumns_column ⟨a.next, "value", .nullable .i64⟩ a.next.next
  change Except.ok (Sequence.rows ⟨.plain a.next.next ((Expr.column ⟨a.next, "value", .nullable .i64⟩).projectColumns a.next.next [a.next]).columns _,
    ((Expr.column ⟨a.next, "value", .nullable .i64⟩).projectColumns a.next.next [a.next]).projector, none⟩, a.next.next.next) = _
  rw [split]
  rfl

theorem readingsFrom_values (a : Alias) (ρ : Env (Option Int)) : (readingsFrom a).values .ternary readingRows ρ = [some 3, none] := by
  have shown (a : Alias) (c : ColumnRef) (src : Source) :
      (Select.plain a [⟨"value", .column c⟩] src).rows .ternary readingRows ρ =
        (src.rows .ternary readingRows ρ).map fun σ => [("value", σ c.label c.name)] := by
    have ungrouped : (Select.plain a [⟨"value", .column c⟩] src).Ungrouped := ⟨rfl, rfl, rfl⟩
    rw [ungrouped.rows_eq rfl, Select.kept_unordered rfl, Select.cut_none rfl rfl, Select.passes_none rfl, List.filter_true]
    rfl
  rw [readingsFrom, Projection.values, shown, Source.rows, shown, Source.rows]
  simp [Env.set, Interpretation.named, readingRows, Expr.eval, Select.plain]

theorem readings_produces :
    readings.Produces .ternary readingRows readingCatalog [] (fun _ => False) (fun _ _ => none) (.nullable .i64) [.int 3, .null] := by
  intro a a' s h
  rw [readings_bindSource] at h
  cases h
  exact ⟨_, rfl, ⟨rfl, ⟨rfl, by rintro _ ⟨⟩, by rintro _ _ _ ⟨⟩⟩, rfl, rfl, readingsFrom_values a _⟩, fun _ => id⟩

/-- Whether readings, or known values, are all above zero. -/
def allPositive : Quantifier := .all ⟨["x"], .binary .gt (.param "x") (.constant (.int 0) .i64)⟩

theorem bindTerminal_answers_allPositive : ∃ m b r b',
    (allPositive.query (.memory [.int 3, .null] (.nullable .i64))).bindTerminal readingCatalog [] true ⟨0⟩ = .ok (m, b) ∧
      (allPositive.query readings).bindTerminal readingCatalog [] true ⟨0⟩ = .ok (r, b') ∧
      (Interpretation.ternary.isTrue (m.eval .ternary readingRows (fun _ _ => none) []) = true ↔
        allPositive.OfValues .ternary readingRows readingCatalog [] (fun _ _ => none) [] (.nullable .i64) [.int 3, .null] ⟨0⟩) ∧
      (Interpretation.ternary.isTrue (r.eval .ternary readingRows (fun _ _ => none) []) = true ↔
        allPositive.OfRows .ternary readingRows readingCatalog [] (fun _ _ => none) [] (.nullable .i64) [.int 3, .null] ⟨0⟩) := by
  have free : ∀ l ∈ allPositive.predicate?, l.body.QueryFree := by
    rintro _ ⟨⟩
    refine .operator rfl (by rintro _ _ ⟨⟩) ?_
    simpa [Expr.operands] using ⟨.leaf rfl, .leaf rfl⟩
  obtain ⟨m, b, memory⟩ : ∃ m b, (allPositive.query (.memory [.int 3, .null] (.nullable .i64))).bindTerminal readingCatalog [] true ⟨0⟩ = .ok (m, b) :=
    ⟨_, _, rfl⟩
  obtain ⟨r, b', rows⟩ : ∃ r b', (allPositive.query readings).bindTerminal readingCatalog [] true ⟨0⟩ = .ok (r, b') := ⟨_, _, rfl⟩
  exact ⟨m, b, r, b', memory, rows, Quantifier.bindTerminal_answers Interpretation.ternary_threeValued rfl (by rintro ⟨⟩) (by rintro _ ⟨⟩)
    (by rintro _ ⟨⟩) readings_produces free memory rows⟩

/-- Whether the answer to a question is true. -/
def Quantifier.isTrue (I : Interpretation D) (db : Database D) (catalog : Catalog) (q : Query) (k : Quantifier) : Option Bool :=
  ((k.query q).bindTerminal catalog [] true ⟨0⟩).toOption.map fun r => I.isTrue (r.1.eval I db (fun _ _ => I.null) [])

/-- Beside an absent reading, not all known values are above zero, but all rows are; and the rows do not contain the absent reading. -/
theorem isTrue_absentReading : Interpretation.ternary.ThreeValued ∧
    readings.Produces .ternary readingRows readingCatalog [] (fun _ => False) (fun _ _ => none) (.nullable .i64) [.int 3, .null] ∧
      allPositive.isTrue .ternary readingRows readingCatalog (.memory [.int 3, .null] (.nullable .i64)) = some false ∧
      allPositive.isTrue .ternary readingRows readingCatalog readings = some true ∧
      (Quantifier.contains (.constant .null (.nullable .i64))).isTrue .ternary readingRows readingCatalog
        (.memory [.int 3, .null] (.nullable .i64)) = some true ∧
      (Quantifier.contains (.constant .null (.nullable .i64))).isTrue .ternary readingRows readingCatalog readings = some false := by
  refine ⟨Interpretation.ternary_threeValued, readings_produces, by cbv, by cbv, by cbv, by cbv⟩

end Relational

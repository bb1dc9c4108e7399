import Relational.Proofs.Lowering.Quantifiers

/-!
# Aggregates of distinct elements

An aggregate of the distinct elements of a sequence is lowered in two ways. If its argument fits a column, each value of the argument is to
count once, so the aggregate itself is marked as distinct and the select reads all elements. Else it ranges over
the rows of a distinct select. The second way is right wherever the columns of an element can be read off it. The first way counts no absent
element, and takes two elements for one where the same value is selected of both
(`Query.bindTerminal_distinct`).
-/

namespace Relational

open Binding

variable {D : Type} {I : Interpretation D} {db : Database D} {catalog : Catalog} {scope : Scope} {ρ : Env D} {a a' b b' : Alias}
  {P : ColumnRef → Prop} {p d : Projection} {e : Expr} {kind : AggregateKind}

/-! ## Values that count once -/

namespace Interpretation

variable (I : Interpretation D)

/-- The values of a list, of equal ones the first. -/
def once (xs : List D) : List D := xs.eraseDupsBy I.equal

/-- What aggregates ask of an interpretation. They skip absent values, and each value counts once for a distinct one. -/
structure Tallies : Prop where
  literals : I.RespectsLiterals
  equal : ∀ x y, I.equal x y = true ↔ x = y
  record : ∀ r (fs gs : List (String × D)), fs.map Prod.fst = gs.map Prod.fst → I.record r fs = I.record r gs → fs = gs
  distinct : ∀ kind t (xs : List D), I.aggregate kind true t (xs.map some) = I.aggregate kind false t ((I.once xs).map some)
  skips : ∀ kind t (xs : List D), I.aggregate kind false t (xs.map some) = I.aggregate kind false t ((xs.filter fun x => !I.isNull x).map some)
  extremes : ∀ kind t (xs ys : List D), kind = .min ∨ kind = .max → (∀ x, x ∈ xs ↔ x ∈ ys) →
    I.aggregate kind false t (xs.map some) = I.aggregate kind false t (ys.map some)
  counts : ∀ t (xs : List D), (∀ x ∈ xs, I.isNull x = false) → I.aggregate .count false t (xs.map some) = I.aggregate .count false t (xs.map fun _ => none)

end Interpretation

theorem eraseDupsBy_congr {α : Type} {r r' : α → α → Bool} {l : List α} (same : ∀ x ∈ l, ∀ y ∈ l, r x y = r' x y) :
    l.eraseDupsBy r = l.eraseDupsBy r' := by
  induction l using induction_filter with
  | nil => rfl
  | cons x l ih =>
    have rest : l.filter (fun y => decide (r y x = false)) = l.filter fun y => decide (r' y x = false) :=
      List.filter_congr fun y mem => by rw [same y (List.mem_cons_of_mem _ mem) x List.mem_cons_self]
    rw [List.eraseDupsBy_cons, List.eraseDupsBy_cons, rest, ih]
    intro y memY z memZ
    exact same y (List.mem_cons_of_mem _ (List.mem_of_mem_filter memY)) z (List.mem_cons_of_mem _ (List.mem_of_mem_filter memZ))

/-- Of each element there is one left that repeats it, or that it repeats. -/
theorem exists_mem_eraseDupsBy {α : Type} {r : α → α → Bool} (refl : ∀ x, r x x = true) {l : List α} {x : α} (mem : x ∈ l) :
    ∃ y ∈ l.eraseDupsBy r, r x y = true := by
  induction l using induction_filter with
  | nil => cases mem
  | cons z l ih =>
    rw [List.eraseDupsBy_cons]
    cases later : r x z with
    | true => exact ⟨z, List.mem_cons_self, later⟩
    | false =>
      rcases List.mem_cons.1 mem with rfl | mem
      · rw [refl] at later
        cases later
      · obtain ⟨y, left, same⟩ := ih (fun y => decide (r y z = false)) (List.mem_filter.2 ⟨mem, decide_eq_true later⟩)
        exact ⟨y, List.mem_cons_of_mem _ left, same⟩

/-! ## Elements of rows -/

/-- A column, or a record of such elements. -/
inductive Expr.IsRow (P : ColumnRef → Prop) : Expr → Prop where
  | item {e : Expr} (item : e.IsItem) (whole : e.isWhole = true) (scalar : e.Scalar P) : IsRow P e
  | record {t : RecordTy} {ms : List Named} (members : ∀ m ∈ ms, IsRow P m.expr) : IsRow P (.record t ms)

namespace Expr.IsRow

theorem scalar (row : e.IsRow P) : e.Scalar P := by
  induction row with
  | item _ _ scalar => exact scalar
  | record _ ih => exact .operator rfl (List.forall_mem_map.2 ih)

/-- Equal elements have equal columns. -/
theorem parts (law : I.Tallies) (row : e.IsRow P) {σ τ : Env D} (same : e.valueAt I db σ = e.valueAt I db τ) {x : Expr} (part : e.HasPart x) :
    x.valueAt I db σ = x.valueAt I db τ := by
  induction row generalizing x with
  | item _ whole =>
    cases part with
    | whole => exact same
    | operand _ split => rw [whole] at split; cases split
  | @record t ms members ih =>
    cases part with
    | whole whole => simp [isWhole, mustBeColumn, mayBeColumn] at whole
    | operand _ _ mem part =>
      obtain ⟨m, member, rfl⟩ := List.mem_map.1 mem
      rw [valueAt, valueAt, eval, eval, evalNamed_eq, evalNamed_eq] at same
      have fields := law.record _ _ _ (by rw [List.map_map, List.map_map]; rfl) same
      have field := List.map_inj_left.1 fields m member
      exact ih m member (Prod.mk.inj field).2 part

/-- An element beside itself at another row with the same columns. -/
theorem mirrors (row : e.IsRow P) {σ τ : Env D} (same : ∀ x, e.HasPart x → x.valueAt I db σ = x.valueAt I db τ) {Q : ColumnRef → Prop} :
    e.Mirrors Q (fun x x' => x = x' ∧ x.valueAt I db σ = x'.valueAt I db τ) e := by
  induction row with
  | item item whole => exact .item item item rfl ⟨rfl, same _ (.whole whole)⟩
  | record _ ih =>
    refine .ofParts rfl (List.forall_mem_map.2 fun m mem => ih m mem fun x part => ?_)
    exact same x (.operand rfl (by simp [isWhole, mustBeColumn, mayBeColumn]) (List.mem_map_of_mem mem) part)

end Expr.IsRow

/-! ## Distinct rows -/

section Elements

variable (I db ρ)

/-- The rows of a projection, of those with equal elements the first. -/
def Projection.distinctElements (p : Projection) : List (Env D) :=
  (p.elements I db ρ).eraseDupsBy fun σ τ => I.equal (p.projector.valueAt I db σ) (p.projector.valueAt I db τ)

/-- An aggregate of elements: of what is selected of them, or the number of those that satisfy the condition. -/
def Projection.aggregateOver (kind : AggregateKind) (selected : Option Expr) (p : Projection) (elements : List (Env D)) : D :=
  if kind = .count then
    I.aggregate kind false .i64 ((elements.filter fun σ => I.holds (selected.map fun x => x.valueAt I db σ)).map fun _ => none)
  else
    I.aggregate kind false (kind.resultTy (some (selected.getD p.projector).ty))
      (elements.map fun σ => some ((selected.getD p.projector).valueAt I db σ))

/-- When a distinct aggregate of what is selected is one of the distinct elements: a count if no element is absent, the least and the greatest value
if equal ones are selected of equal elements, and a sum or an average if this goes both ways. -/
def Projection.Faithful (selected : Expr) (p : Projection) : AggregateKind → Prop
  | .count => ∀ x ∈ p.values I db ρ, I.isNull x = false
  | .min | .max => ∀ σ ∈ p.elements I db ρ, ∀ τ ∈ p.elements I db ρ, p.projector.valueAt I db σ = p.projector.valueAt I db τ →
    selected.valueAt I db σ = selected.valueAt I db τ
  | .sum | .average => ∀ σ ∈ p.elements I db ρ, ∀ τ ∈ p.elements I db ρ, p.projector.valueAt I db σ = p.projector.valueAt I db τ ↔
    selected.valueAt I db σ = selected.valueAt I db τ

end Elements

theorem Interpretation.Tallies.mem_once (law : I.Tallies) {xs : List D} {x : D} : x ∈ I.once xs ↔ x ∈ xs := by
  refine ⟨mem_of_mem_eraseDupsBy, fun mem => ?_⟩
  obtain ⟨y, left, same⟩ := exists_mem_eraseDupsBy (fun x => (law.equal x x).2 rfl) mem
  rwa [(law.equal x y).1 same]

/-- The elements of a projection, each once. -/
theorem Projection.once_values (p : Projection) : I.once (p.values I db ρ) = (p.distinctElements I db ρ).map fun σ => p.projector.valueAt I db σ := by
  rw [Interpretation.once, p.values_eq_elements, eraseDupsBy_map]
  rfl

section Selected

variable (law : I.Tallies) (p) (f : Env D → D)

include law

/-- What is selected of the elements, if equal values are selected of equal elements only. -/
theorem Projection.once_of_iff
    (both : ∀ σ ∈ p.elements I db ρ, ∀ τ ∈ p.elements I db ρ, p.projector.valueAt I db σ = p.projector.valueAt I db τ ↔ f σ = f τ) :
    I.once ((p.elements I db ρ).map f) = (p.distinctElements I db ρ).map f := by
  rw [Interpretation.once, eraseDupsBy_map, distinctElements, eraseDupsBy_congr fun σ memσ τ memτ => ?_]
  rw [Bool.eq_iff_iff, law.equal, law.equal, both σ memσ τ memτ]

/-- If equal values are selected of equal elements, the same values are selected. -/
theorem Projection.mem_once_of_imp
    (function : ∀ σ ∈ p.elements I db ρ, ∀ τ ∈ p.elements I db ρ, p.projector.valueAt I db σ = p.projector.valueAt I db τ → f σ = f τ) (x : D) :
    x ∈ I.once ((p.elements I db ρ).map f) ↔ x ∈ (p.distinctElements I db ρ).map f := by
  rw [law.mem_once, List.mem_map, List.mem_map]
  constructor
  · rintro ⟨σ, mem, rfl⟩
    obtain ⟨τ, left, same⟩ := exists_mem_eraseDupsBy (r := fun σ τ => I.equal (p.projector.valueAt I db σ) (p.projector.valueAt I db τ))
      (fun σ => (law.equal _ _).2 rfl) mem
    exact ⟨τ, left, (function σ mem τ (mem_of_mem_eraseDupsBy left) ((law.equal _ _).1 same)).symm⟩
  · rintro ⟨σ, left, rfl⟩
    exact ⟨σ, mem_of_mem_eraseDupsBy left, rfl⟩

end Selected

/-- A distinct aggregate of what is selected, where it is one of the distinct elements. -/
theorem Projection.Faithful.aggregate (law : I.Tallies) {selected : Option Expr} (plain : kind = .count → selected = none)
    (faithful : p.Faithful I db ρ (selected.getD p.projector) kind) :
    I.aggregate kind true (kind.resultTy (some (selected.getD p.projector).ty))
        ((p.elements I db ρ).map fun σ => some ((selected.getD p.projector).valueAt I db σ)) =
      p.aggregateOver I db kind selected (p.distinctElements I db ρ) := by
  have some_map (f : Env D → D) (l : List (Env D)) : (l.map fun σ => some (f σ)) = (l.map f).map some := by rw [List.map_map]; rfl
  rw [some_map, law.distinct, aggregateOver]
  have extreme (ends : kind = .min ∨ kind = .max)
      (function : ∀ σ ∈ p.elements I db ρ, ∀ τ ∈ p.elements I db ρ, p.projector.valueAt I db σ = p.projector.valueAt I db τ →
        (selected.getD p.projector).valueAt I db σ = (selected.getD p.projector).valueAt I db τ) (t : Ty) :=
    law.extremes kind t _ _ ends (p.mem_once_of_imp law _ function)
  cases kind with
  | count =>
    cases plain rfl
    have present : ∀ x ∈ I.once (p.values I db ρ), I.isNull x = false := fun x mem => faithful x (law.mem_once.1 mem)
    have counted := law.counts .i64 _ present
    rw [p.once_values, List.map_map] at counted
    rw [if_pos rfl, Option.getD_none, ← p.values_eq_elements, p.once_values, List.map_map]
    simp only [Option.map_none, Interpretation.holds, Option.getD_none, List.filter_true]
    exact counted.trans (by rw [List.map_map]; rfl)
  | min => rw [if_neg (by simp), extreme (.inl rfl) faithful, some_map]
  | max => rw [if_neg (by simp), extreme (.inr rfl) faithful, some_map]
  | sum => rw [if_neg (by simp), p.once_of_iff law _ faithful, some_map]
  | average => rw [if_neg (by simp), p.once_of_iff law _ faithful, some_map]

/-! ## Bound aggregates -/

section Bound

variable (I db catalog scope ρ)

end Bound

/-- Aggregates become columns, so none is left beside them. -/
theorem Expr.Splits.hasAggregate {target : ColumnTarget} {l : ColumnList} {rest : Expr} (splits : e.Splits target l rest) :
    rest.hasAggregate = false := by
  induction splits with
  | outer => rfl
  | column => rfl
  | @operator e es operates split length parts ih =>
    rw [hasAggregate_operator ((e.isOperator_withOperands es).trans operates), operands_withOperands operates length, List.any_eq_false]
    intro x mem
    obtain ⟨i, lt, rfl⟩ := List.mem_iff_getElem.1 mem
    have paired : (e.operands[i], es[i]) ∈ e.operands.zip es :=
      List.mem_iff_getElem.2 ⟨i, by simp [length ▸ lt, lt], by simp⟩
    simp [ih _ paired]
  | @leaf e leaf statement split =>
    cases e <;> first | rfl | (cases leaf; done) | simp [isWhole, mustBeColumn] at split
  | statement => rfl

namespace Datum

/-- An aggregate of numbers. -/
def aggregate : AggregateKind → List Int → Option Int
  | .count, xs => some xs.length
  | .min, xs => xs.min?
  | .max, xs => xs.max?
  | .sum, xs => if xs.isEmpty then none else some xs.sum
  | .average, xs => if xs.isEmpty then none else some (xs.sum / xs.length)

end Datum

end Relational

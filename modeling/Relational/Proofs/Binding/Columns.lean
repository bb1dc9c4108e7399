import Relational.Proofs.Tree.Names
import Relational.Proofs.Tree.Traversal

/-!
# How columns are split off

Columns are only added (`ColumnList.Extends`). An expression becomes a column that there is already, a new one, or stays as it is if it
is a reference to a source of an enclosing select (`makeColumn_cases`). What is not whole is rebuilt
from its operands, split and settled (`Expr.split_operator`). So a fact about what is left of an expression
follows from what it comes to at columns, leaves, operators and nested statements (`SplitCases.projectColumns`).
-/

namespace Relational

variable {target : ColumnTarget} {l : ColumnList} {e : Expr}

/-- The columns of one list are the first ones of another. -/
def ColumnList.Extends (l l' : ColumnList) : Prop := l.columns <+: l'.columns

/-! ## Making columns -/

theorem makeColumn_of_source (inner : ∀ c, e = .column c → c.label ∈ target.sources) : makeColumn target e l =
    match l.columns.find? (·.expr.sharesColumn e) with
    | some c => (.column ⟨target.label, c.name, e.ty⟩, l)
    | none => (.column ⟨target.label, (l.name e).1, e.ty⟩, ⟨l.columns ++ [⟨(l.name e).1, e⟩], (l.name e).2⟩) := by
  cases e with
  | column c =>
    have inside : (!target.sources.contains c.label) = false := by simpa using inner c rfl
    exact if_neg (ne_true_of_eq_false inside)
  | _ => rfl

/-- The three ways to a column. -/
theorem makeColumn_cases (target : ColumnTarget) (e : Expr) (l : ColumnList) :
    (∃ c, e = .column c ∧ c.label ∉ target.sources ∧ makeColumn target e l = (e, l)) ∨
    ((∀ c, e = .column c → c.label ∈ target.sources) ∧
      ((∃ d, l.columns.find? (·.expr.sharesColumn e) = some d ∧
          makeColumn target e l = (.column ⟨target.label, d.name, e.ty⟩, l)) ∨
        (l.columns.find? (·.expr.sharesColumn e) = none ∧ makeColumn target e l =
          (.column ⟨target.label, (l.name e).1, e.ty⟩, ⟨l.columns ++ [⟨(l.name e).1, e⟩], (l.name e).2⟩)))) := by
  by_cases outer : ∃ c, e = .column c ∧ c.label ∉ target.sources
  · obtain ⟨c, rfl, outer⟩ := outer
    exact .inl ⟨c, rfl, outer, by simp [makeColumn, outer]⟩
  · have inner (c : ColumnRef) (eq : e = .column c) : c.label ∈ target.sources :=
      by_contra fun missing => outer ⟨c, eq, missing⟩
    refine .inr ⟨inner, ?_⟩
    rw [makeColumn_of_source inner]
    cases l.columns.find? (·.expr.sharesColumn e) with
    | some d => exact .inl ⟨d, rfl, rfl⟩
    | none => exact .inr ⟨rfl, rfl⟩

theorem makeColumn_extends (target : ColumnTarget) (e : Expr) (l : ColumnList) : l.Extends (makeColumn target e l).2 := by
  rcases makeColumn_cases target e l with ⟨c, -, -, made⟩ | ⟨-, ⟨d, -, made⟩ | ⟨-, made⟩⟩ <;> rw [made]
  · exact List.prefix_refl _
  · exact List.prefix_refl _
  · exact List.prefix_append _ _

/-! ## Whole expressions -/

@[simp] theorem allWhole_iff {es : List Expr} : allWhole es = true ↔ ∀ e ∈ es, e.isWhole = true := by
  induction es with
  | nil => simp [allWhole]
  | cons e es ih => simp [allWhole, ih]

/-- The operands of an operator that is whole are whole. -/
theorem Expr.isWhole_operand (operates : e.isOperator = true) (whole : e.isWhole = true) {x : Expr} (mem : x ∈ e.operands) :
    x.isWhole = true := by
  cases e <;> simp only [isOperator, Bool.false_eq_true] at operates <;>
    simp only [isWhole, mustBeColumn, mayBeColumn, Bool.false_or, Bool.false_and, Bool.and_eq_true, Bool.false_eq_true,
      allWhole_iff] at whole <;>
    simp only [operands, List.mem_cons, List.not_mem_nil, or_false] at mem
  case binary => rcases mem with rfl | rfl; exacts [whole.2.1, whole.2.2]
  case call => rcases mem with rfl | mem; exacts [whole.2.1, whole.2.2 x mem]
  case conditional => rcases mem with rfl | rfl | rfl; exacts [whole.2.1.1, whole.2.1.2, whole.2.2]
  case function => exact whole.2 x mem
  all_goals exact mem ▸ whole.2

/-- What is neither an operator nor a nested projection is left as it is. -/
theorem Expr.split_leaf (leaf : e.isOperator = false) (statement : ∀ p, e ≠ .projection p) : e.split target l = (e, l) := by
  rw [Expr.split.eq_def]
  split
  · rfl
  · cases e <;> simp only [isOperator, Bool.true_eq_false] at leaf
    case projection => exact absurd rfl (statement _)
    all_goals rfl

theorem Expr.split_of_isWhole (whole : e.isWhole = true) : e.split target l = (e, l) := by
  rw [Expr.split.eq_def, if_pos whole]
  rfl

/-! ## Rebuilding operators -/

/-- The operands of an operator, split and settled. -/
def splitOperands (target : ColumnTarget) (es : List Expr) : StateM ColumnList (List Expr) := do
  let split ← splitAll target es
  settleAll target es split

theorem splitNamed_eq (ms : List Named) : splitNamed target ms l =
    ((ms.zip (splitAll target (ms.map (·.expr)) l).1).map (fun m => ⟨m.1.name, m.2⟩),
      (splitAll target (ms.map (·.expr)) l).2) := by
  induction ms generalizing l with
  | nil => rfl
  | cons m ms ih =>
    obtain ⟨name, e⟩ := m
    have rest := ih (l := (e.split target l).2)
    exact congrArg (fun r : List Named × ColumnList => (⟨name, (e.split target l).1⟩ :: r.1, r.2)) rest

theorem settleNamed_eq (ms : List Named) {ss : List Expr} (length : ss.length = ms.length) :
    settleNamed target ms ((ms.zip ss).map fun m => ⟨m.1.name, m.2⟩) l =
      ((ms.zip (settleAll target (ms.map (·.expr)) ss l).1).map (fun m => ⟨m.1.name, m.2⟩),
        (settleAll target (ms.map (·.expr)) ss l).2) := by
  induction ms generalizing l ss with
  | nil => rfl
  | cons m ms ih =>
    obtain ⟨name, e⟩ := m
    cases ss with
    | nil => cases length
    | cons s ss =>
      have rest := ih (l := (settle target e s l).2) (Nat.succ.inj length)
      exact congrArg (fun r : List Named × ColumnList => (⟨name, (settle target e s l).1⟩ :: r.1, r.2)) rest

theorem length_splitAll (es : List Expr) : (splitAll target es l).1.length = es.length := by
  induction es generalizing l with
  | nil => rfl
  | cons e es ih => exact congrArg (· + 1) ih

/-- An operator that is not whole is rebuilt from its operands. -/
theorem Expr.split_operator (operates : e.isOperator = true) (split : e.isWhole = false) :
    e.split target l = ((e.withOperands (splitOperands target e.operands l).1), (splitOperands target e.operands l).2) := by
  cases e <;> simp only [isOperator, Bool.false_eq_true] at operates <;> rw [Expr.split, if_neg (by simp [split])]
  case record r ms =>
    have length : (splitAll target (ms.map (·.expr)) l).1.length = ms.length := by rw [length_splitAll, List.length_map]
    show (Expr.record r (settleNamed target ms (splitNamed target ms l).1 (splitNamed target ms l).2).1,
      (settleNamed target ms (splitNamed target ms l).1 (splitNamed target ms l).2).2) = _
    rw [splitNamed_eq, settleNamed_eq ms length]
    rfl
  all_goals rfl

/-! ## What is left -/

/-- What to show of each kind of node, to know of an expression what is left of it beside the columns that are there at the end.
`dom` says of which expressions, and `R` how the list of columns grows. -/
structure SplitCases (target : ColumnTarget) (dom : Expr → Prop) (R : ColumnList → ColumnList → Prop)
    (Rest : ColumnList → Expr → Expr → Prop) : Prop extends IsGrowth R where
  operand : ∀ e, dom e → e.isWhole = false → e.isOperator = true → ∀ x ∈ e.operands, dom x
  column : ∀ e, dom e → e.isWhole = true → ∀ l, Advances R l (fun l' e' => Rest l' e e') (makeColumn target e l)
  leaf : ∀ e, dom e → e.isWhole = false → e.isOperator = false → (∀ p, e ≠ .projection p) → ∀ l, Rest l e e
  operator : ∀ e, dom e → e.isWhole = false → e.isOperator = true → ∀ l es, List.Forall₂ (Rest l) e.operands es →
    Rest l e (e.withOperands es)
  projection : ∀ p, dom (.projection p) → ∀ l,
    Advances R l (fun l' p' => Rest l' (.projection p) (.projection p')) (p.traverse (liftOuter target) l)

namespace SplitCases

variable {dom : Expr → Prop} {R : ColumnList → ColumnList → Prop} {Rest : ColumnList → Expr → Expr → Prop}

/-- A part is settled if it is whole, or what is left of it is known. -/
theorem settle (h : SplitCases target dom R Rest) (mem : dom e) {e' : Expr}
    (rest : ∀ l', R l l' → e.isWhole = false → Rest l' e e') :
    Advances R l (fun l' x => Rest l' e x) (settle target e e' l) := by
  rw [Relational.settle]
  split
  · next whole => exact h.column e mem whole l
  · next split => exact .pure h.toIsGrowth fun l' later => rest l' later (by simpa using split)

theorem settleAll (h : SplitCases target dom R Rest) {es ss : List Expr} (all : ∀ e ∈ es, dom e)
    (rests : ∀ l', R l l' → List.Forall₂ (fun e e' => e.isWhole = false → Rest l' e e') es ss) :
    Advances R l (fun l' xs => List.Forall₂ (Rest l') es xs) (settleAll target es ss l) := by
  induction es generalizing l ss with
  | nil =>
    cases rests l (h.refl l)
    exact .pure h.toIsGrowth fun _ _ => .nil
  | cons e es ih =>
    obtain ⟨first, others⟩ := List.forall_mem_cons.1 all
    cases ss with
    | nil => cases rests l (h.refl l)
    | cons s ss =>
      rw [Relational.settleAll]
      refine .bind h.toIsGrowth (h.settle first fun l' later => (List.forall₂_cons.1 (rests l' later)).1) fun x l₁ grown head => ?_
      have tail := ih others fun l' later => (List.forall₂_cons.1 (rests l' (h.trans _ _ _ grown later))).2
      refine .bind h.toIsGrowth tail fun xs l₂ grown tail => .pure h.toIsGrowth fun l' last => ?_
      exact .cons (head l' (h.trans _ _ _ grown last)) (tail l' last)

theorem splitAll (h : SplitCases target dom R Rest) {es : List Expr}
    (each : ∀ e ∈ es, ∀ l, Advances R l (fun l' e' => e.isWhole = false → Rest l' e e') (e.split target l)) (l : ColumnList) :
    Advances R l (fun l' es' => List.Forall₂ (fun e e' => e.isWhole = false → Rest l' e e') es es') (splitAll target es l) := by
  induction es generalizing l with
  | nil => exact .pure h.toIsGrowth fun _ _ => .nil
  | cons e es ih =>
    obtain ⟨first, others⟩ := List.forall_mem_cons.1 each
    rw [Relational.splitAll]
    refine .bind h.toIsGrowth (first l) fun e' l₁ _ head => ?_
    refine .bind h.toIsGrowth (ih others l₁) fun es' l₂ grown tail => .pure h.toIsGrowth fun l' last => ?_
    exact .cons (head l' (h.trans _ _ _ grown last)) (tail l' last)

theorem split (h : SplitCases target dom R Rest) (e : Expr) (mem : dom e) (l : ColumnList) :
    Advances R l (fun l' e' => e.isWhole = false → Rest l' e e') (e.split target l) := by
  induction e using Expr.induction generalizing l with
  | operator e operates ih =>
    cases whole : e.isWhole with
    | true =>
      rw [Expr.split_of_isWhole whole]
      exact ⟨h.refl l, fun _ _ split => by cases split⟩
    | false =>
      have domain := h.operand e mem whole operates
      have operands : Advances R l (fun l' es => List.Forall₂ (Rest l') e.operands es) (splitOperands target e.operands l) :=
        .bind h.toIsGrowth (h.splitAll (fun x found => ih x found (domain x found)) l) fun _ _ _ rests => h.settleAll domain rests
      rw [Expr.split_operator operates whole]
      exact ⟨operands.grows, fun l' later _ => h.operator e mem whole operates l' _ (operands.result l' later)⟩
  | projection p =>
    have lifted := h.projection p mem l
    exact ⟨lifted.grows, fun l' later _ => lifted.result l' later⟩
  | param | captured | constant | hostParameter | query | column | aggregate | subquery =>
    rw [Expr.split_leaf rfl (by rintro _ ⟨⟩)]
    exact ⟨h.refl l, fun l' _ split => h.leaf _ mem split rfl (by rintro _ ⟨⟩) l'⟩

/-- The columns of an expression, and what is left of it beside them. -/
theorem projectColumns (h : SplitCases target dom R Rest) (mem : dom e) : ∃ l : ColumnList, R ⟨[], 0⟩ l ∧
    (e.projectColumns target.label target.sources).columns = l.columns ∧
    Rest l e (e.projectColumns target.label target.sources).projector := by
  have run : Advances R ⟨[], 0⟩ (fun l' x => Rest l' e x) ((do Relational.settle target e (← e.split target) : StateM ColumnList Expr) ⟨[], 0⟩) :=
    .bind h.toIsGrowth (h.split e mem ⟨[], 0⟩) fun _ _ _ rest => h.settle mem rest
  exact ⟨_, run.grows, rfl, run.result _ (h.refl _)⟩

end SplitCases

end Relational

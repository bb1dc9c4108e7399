import Relational.Proofs.Tree.Induction

/-!
# Tests on the expressions of a query

`every` runs a test on all expressions of a query, in its lambdas, its counts and its nested queries. Of what is bound already only the
outermost node is tested.
-/

namespace Relational

mutual

/-- Whether an expression and all those inside it pass a test. -/
def Expr.every (test : Expr → Bool) (e : Expr) : Bool :=
  test e &&
    match e with
    | .binary _ l r => l.every test && r.every test
    | .unary _ x | .member x _ | .convert x _ => x.every test
    | .call _ x args => x.every test && everyAll test args
    | .conditional a b c => a.every test && b.every test && c.every test
    | .record _ ms => everyNamed test ms
    | .function _ args _ => everyAll test args
    | .group key elements => key.every test && elements.every test
    | .query q => q.every test
    | _ => true

def everyAll (test : Expr → Bool) : List Expr → Bool
  | [] => true
  | e :: es => e.every test && everyAll test es

def everyNamed (test : Expr → Bool) : List Named → Bool
  | [] => true
  | ⟨_, e⟩ :: ms => e.every test && everyNamed test ms

def Lambda.every (test : Expr → Bool) : Lambda → Bool
  | ⟨_, body⟩ => body.every test

def everyLambda (test : Expr → Bool) : Option Lambda → Bool
  | none => true
  | some l => l.every test

/-- Whether all expressions of a query pass a test. -/
def Query.every (test : Expr → Bool) : Query → Bool
  | .table _ | .view _ | .raw _ _ | .memory _ _ => true
  | .of e => e.every test
  | .filter q l | .project q l | .orderBy q l _ | .thenBy q l _ | .all q l => q.every test && l.every test
  | .selectMany q l r => q.every test && l.every test && everyLambda test r
  | .join o i ok ik r | .groupJoin o i ok ik r =>
    o.every test && i.every test && ok.every test && ik.every test && r.every test
  | .groupBy q key e r => q.every test && key.every test && everyLambda test e && everyLambda test r
  | .skip q e | .take q e | .elementAt q e _ | .contains q e => q.every test && e.every test
  | .aggregate q _ l | .first q l _ | .single q l _ | .any q l | .last q l _ => q.every test && everyLambda test l
  | .distinct q | .cast q _ | .defaultIfEmpty q | .reverse q | .window q _ => q.every test
  | .union l r | .concat l r => l.every test && r.every test

end

section Parts

variable {test : Expr → Bool}

@[simp] theorem everyAll_iff {es : List Expr} : everyAll test es = true ↔ ∀ e ∈ es, e.every test = true := by
  induction es with
  | nil => simp [everyAll]
  | cons e es ih => simp [everyAll, ih]

@[simp] theorem everyNamed_iff {ms : List Named} : everyNamed test ms = true ↔ ∀ m ∈ ms, m.expr.every test = true := by
  induction ms with
  | nil => simp [everyNamed]
  | cons m ms ih => cases m; simp [everyNamed, ih]

@[simp] theorem Lambda.every_iff {l : Lambda} : l.every test = true ↔ l.body.every test = true := by cases l; rfl

@[simp] theorem everyLambda_iff {o : Option Lambda} : everyLambda test o = true ↔ ∀ l ∈ o, l.body.every test = true := by
  cases o <;> simp [everyLambda]

theorem Expr.test_of_every {e : Expr} (h : e.every test = true) : test e = true := by
  rw [every.eq_def, Bool.and_eq_true] at h
  exact h.1

theorem Expr.every_operator {e : Expr} (operates : e.isOperator = true) :
    e.every test = true ↔ test e = true ∧ ∀ x ∈ e.operands, x.every test = true := by
  cases e <;> simp [isOperator] at operates <;> simp [every, operands, and_assoc]

theorem Expr.every_query {q : Query} : (Expr.query q).every test = true ↔ test (.query q) = true ∧ q.every test = true := by
  rw [every, Bool.and_eq_true]

/-- All expressions of a query are those of its sources and lambdas and its own. -/
theorem Query.every_iff {q : Query} : q.every test = true ↔ (∀ source ∈ q.sources, source.every test = true) ∧
    (∀ l ∈ q.lambdas, l.body.every test = true) ∧ ∀ e ∈ q.exprs, e.every test = true := by
  cases q <;> simp [every, sources, lambdas, exprs, and_assoc, or_imp, forall_and]

end Parts

end Relational

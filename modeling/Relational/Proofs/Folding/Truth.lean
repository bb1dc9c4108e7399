import Mathlib
import Relational.Proofs.Compilation.Folding
import Relational.Proofs.Lowering.Quantifiers
import Relational.Proofs.Values.Integers
import Relational.Value.Cell

/-!
# Conditions that are evaluated without a database

SQL leaves a comparison with NULL undecided, and so what is built on it; evaluation makes it false at once. Under a conjunction or a disjunction the two
come to the same, since a filter keeps the rows where its condition is true. Where something else is made of an undecided condition they may not:
`NOT (NULL < 1)` is evaluated to true, and is NULL in SQL. An expression is settled if this never happens, and no truth value
is compared with its number; then evaluation finds it true if and only if SQL does (`Expr.Settled.isTrue_evaluate_iff`).
-/

namespace Relational

/-! ## Numbers of SQL -/

/-- The truth value of a number of SQL. NULL is no number, and has none. -/
def sqlTruth (x : Option Int) : Option Bool := x.map (· != 0)

/-- An operator of SQL on numbers: `IS` and `IS NOT` decide always, and everything else is open where it depends on NULL. -/
def BinaryOp.onNumbers (op : BinaryOp) (x y : Option Int) : Option Int :=
  match op with
  | .eq => some (x == y).toInt
  | .ne => some (x != y).toInt
  | .lt => Option.map₂ (fun a b => (decide (a < b)).toInt) x y
  | .le => Option.map₂ (fun a b => (decide (a ≤ b)).toInt) x y
  | .gt => Option.map₂ (fun a b => (decide (b < a)).toInt) x y
  | .ge => Option.map₂ (fun a b => (decide (b ≤ a)).toInt) x y
  | .and => (kleeneAnd (sqlTruth x) (sqlTruth y)).map Bool.toInt
  | .or => (kleeneOr (sqlTruth x) (sqlTruth y)).map Bool.toInt
  | .coalesce => x.or y
  | .add => Option.map₂ (· + ·) x y
  | .sub => Option.map₂ (· - ·) x y
  | .mul => Option.map₂ (· * ·) x y
  | _ => none

def sqlNot (x : Option Int) : Option Int := (sqlTruth x).map fun b => (!b).toInt

/-- The number that SQL makes of a condition on literals. -/
def Expr.sqlValue : Expr → Option Int
  | .constant v t =>
    match v.toCell t with
    | .ok (.integer n) => some n.toInt
    | _ => none
  | .binary op l r => op.onNumbers l.sqlValue r.sqlValue
  | .unary .not x => sqlNot x.sqlValue
  | _ => none

/-! ## Settled expressions -/

/-- Where SQL has no number for an expression, evaluation gives none either. -/
def Expr.KeepsNull (e : Expr) : Prop := e.sqlValue = none → e.evaluate = .ok .null

/-- The expressions are not a truth value and its number. -/
def Expr.Apart (l r : Expr) : Prop := ∀ b n, l.evaluate = .ok (.bool b) → r.evaluate = .ok (.int n) → n.toInt ≠ b.toInt

/-- Conditions on literals in which only conjunctions and disjunctions, and sums that are absent anyway, are made of undecided parts. -/
inductive Expr.Settled : Expr → Prop where
  | null (t : Ty) : Settled (.constant .null t)
  | bool (b : Bool) (t : Ty) : Settled (.constant (.bool b) t)
  | int (n : Int64) {t : Ty} (whole : (t.isFloat || t.isDecimal) = false) : Settled (.constant (.int n) t)
  | connective {op : BinaryOp} {l r : Expr} (joins : op ∈ [.and, .or]) (left : l.Settled) (right : r.Settled) : Settled (.binary op l r)
  | arithmetic {op : BinaryOp} {l r : Expr} (sums : op ∈ [.add, .sub, .mul]) (left : l.Settled) (right : r.Settled) : Settled (.binary op l r)
  | not {x : Expr} (operand : x.Settled) (keeps : x.KeepsNull) : Settled (.unary .not x)
  | coalesce {l r : Expr} (left : l.Settled) (right : r.Settled) (keeps : l.KeepsNull) : Settled (.binary .coalesce l r)
  | order {op : BinaryOp} {l r : Expr} (orders : op ∈ [.lt, .le, .gt, .ge]) (left : l.Settled) (right : r.Settled) (keepsLeft : l.KeepsNull)
      (keepsRight : r.KeepsNull) : Settled (.binary op l r)
  | equality {op : BinaryOp} {l r : Expr} (equates : op ∈ [.eq, .ne]) (left : l.Settled) (right : r.Settled) (keepsLeft : l.KeepsNull)
      (keepsRight : r.KeepsNull) (apart : l.Apart r) (apart' : r.Apart l) : Settled (.binary op l r)

/-! ## Values as numbers -/

inductive Value.Encodes : Value → Option Int → Prop where
  | null : Encodes .null none
  | bool (b : Bool) : Encodes (.bool b) (some b.toInt)
  | int (n : Int64) : Encodes (.int n) (some n.toInt)

/-- A value for a number of SQL. False may stand for NULL. -/
def Value.Reflects (v : Value) (x : Option Int) : Prop := v.Encodes x ∨ v = .bool false ∧ x = none

namespace Value

variable {v w u : Value} {x y : Option Int} {op : BinaryOp}

theorem reflects_truth {t : Option Bool} {b : Bool} (same : b = true ↔ t = some true) : (bool b).Reflects (t.map Bool.toInt) := by
  cases t with
  | none => exact .inr ⟨by simpa using same, rfl⟩
  | some c =>
    have : b = c := Bool.eq_iff_iff.2 (by simpa using same)
    exact .inl (this ▸ .bool b)

theorem Encodes.sqlTruth (h : v.Encodes x) (present : v.isNull = false) : sqlTruth x = some v.isTrue := by
  cases h with
  | null => cases present
  | bool b => cases b <;> rfl
  | int n =>
    have : (n.toInt != 0) = (n != 0) := Bool.eq_iff_iff.2 (by simp [← Int64.toInt_inj])
    exact congrArg some this

theorem Reflects.isTrue_iff (h : v.Reflects x) : v.isTrue = true ↔ Relational.sqlTruth x = some true := by
  obtain encodes | ⟨rfl, rfl⟩ := h
  · cases absent : v.isNull with
    | true => cases encodes <;> first | (cases absent; done) | simp [isTrue, toBool?, Relational.sqlTruth]
    | false => rw [encodes.sqlTruth absent, Option.some.injEq]
  · simp [isTrue, toBool?, Relational.sqlTruth]

theorem Reflects.encodes (h : v.Reflects x) (keeps : x = none → v = null) : v.Encodes x := by
  obtain encodes | ⟨rfl, rfl⟩ := h
  · exact encodes
  · cases keeps rfl

theorem Reflects.isNull (h : v.Reflects x) (null : v.isNull = true) : x = none := by
  obtain encodes | ⟨rfl, rfl⟩ := h
  · cases encodes <;> first | rfl | cases null
  · rfl

theorem nullSafeEq_encodes (left : v.Encodes x) (right : w.Encodes y) (apart : ∀ b n, v = bool b → w = int n → n.toInt ≠ b.toInt)
    (apart' : ∀ b n, w = bool b → v = int n → n.toInt ≠ b.toInt) : v.nullSafeEq w = (x == y) := by
  cases left <;> cases right <;> try rfl
  case bool.bool b c => cases b <;> cases c <;> rfl
  case bool.int b n => simpa [nullSafeEq, compare?, same] using (apart b n rfl rfl).symm
  case int.bool n b => simpa [nullSafeEq, compare?, same] using apart' b n rfl rfl
  case int.int n m =>
    rw [Bool.eq_iff_iff]
    simp [nullSafeEq, compare?, same, ← Int64.toInt_inj]

/-- An order of values is the order of their numbers. -/
theorem compare?_encodes {a b : Int} {o : Ordering} (left : v.Encodes (some a)) (right : w.Encodes (some b)) (h : v.compare? w = some o) :
    o = compare a b := by
  cases left <;> cases right <;> simp only [compare?, Option.some.injEq, reduceCtorEq] at h
  case bool.bool b c => cases b <;> cases c <;> exact h.symm
  case int.int n m => exact h.symm

theorem onNumbers_some (order : op ∈ [.lt, .le, .gt, .ge]) (a b : Int) :
    op.onNumbers (some a) (some b) = some (ordered op (compare a b)).toInt := by
  obtain less | rfl | more := lt_trichotomy a b
  · rw [compare_lt_iff_lt.2 less]
    fin_cases order <;> simp [BinaryOp.onNumbers, ordered, less, less.le, less.not_gt, less.not_ge]
  · rw [compare_eq_iff_eq.2 rfl]
    fin_cases order <;> simp [BinaryOp.onNumbers, ordered]
  · rw [compare_gt_iff_gt.2 more]
    fin_cases order <;> simp [BinaryOp.onNumbers, ordered, more, more.le, more.not_gt, more.not_ge]

/-- A comparison with NULL is false. -/
theorem reflects_comparison (order : op ∈ [.lt, .le, .gt, .ge]) (left : v.Encodes x) (right : w.Encodes y) (h : binary op v w = .ok u) :
    u.Reflects (op.onNumbers x y) := by
  have compared (h : (orFault (.incomparable v w) (v.compare? w)).map (fun o => bool (ordered op o)) = .ok u) {a b : Int} (first : x = some a)
      (second : y = some b) : u.Reflects (op.onNumbers x y) := by
    subst first second
    obtain ⟨o, found, rfl⟩ := Result.map_eq_ok.1 h
    cases same : v.compare? w <;> rw [same] at found <;> cases found
    rw [onNumbers_some order, compare?_encodes left right same]
    exact .inl (.bool _)
  fin_cases order <;> cases left <;> cases right <;>
    first
      | cases h; exact .inr ⟨rfl, rfl⟩
      | exact compared h rfl rfl

theorem Reflects.present (h : v.Reflects x) (present : v.isNull = false) : (∃ b, v = bool b) ∨ ∃ n, v = int n ∧ x = some n.toInt := by
  obtain encodes | ⟨rfl, rfl⟩ := h
  · cases encodes with
    | null => cases present
    | bool b => exact .inl ⟨b, rfl⟩
    | int n => exact .inr ⟨n, rfl, rfl⟩
  · exact .inl ⟨false, rfl⟩

/-- Arithmetic takes words only, so an undecided condition is no operand of it. -/
theorem reflects_arithmetic (sums : op ∈ [.add, .sub, .mul]) (left : v.Reflects x) (right : w.Reflects y) (h : binary op v w = .ok u) :
    u.Reflects (op.onNumbers x y) := by
  cases absent : v.isNull || w.isNull with
  | true =>
    have none : op.onNumbers x y = none := by
      obtain absent | absent := Bool.or_eq_true_iff.1 absent
      · rw [left.isNull absent]
        fin_cases sums <;> rfl
      · rw [right.isNull absent]
        fin_cases sums <;> exact Option.map₂_none_right ..
    have : u = null := by fin_cases sums <;> simpa [binary, absent, BinaryOp.isComparison] using h.symm
    rw [none, this]
    exact .inl .null
  | false =>
    have combined : combine op v w = .ok u := by fin_cases sums <;> simpa [binary, absent, BinaryOp.isComparison] using h
    rw [Bool.or_eq_false_iff] at absent
    obtain ⟨b, rfl⟩ | ⟨n, rfl, rfl⟩ := left.present absent.1 <;> obtain ⟨c, rfl⟩ | ⟨m, rfl, rfl⟩ := right.present absent.2
    case inr.inr =>
      have fits {i : Int} (h : (orFault (.overflow op) (Word.ofInt? i)).map int = .ok u) : u.Reflects (some i) := by
        obtain ⟨k, found, rfl⟩ := Result.map_eq_ok.1 h
        cases same : Word.ofInt? i <;> rw [same] at found <;> cases found
        rw [← (Word.ofInt?_eq_some.1 same).2]
        exact .inl (.int k)
      fin_cases sums <;> exact fits combined
    all_goals fin_cases sums <;> cases combined

theorem reflects_connective (joins : op ∈ [.and, .or]) (left : v.Reflects x) (right : w.Reflects y) (h : binary op v w = .ok u) :
    u.Reflects (op.onNumbers x y) := by
  fin_cases joins <;> cases h
  · refine reflects_truth ?_
    rw [Bool.and_eq_true, kleeneAnd_eq_true, left.isTrue_iff, right.isTrue_iff]
  · refine reflects_truth ?_
    rw [Bool.or_eq_true, kleeneOr_eq_true, left.isTrue_iff, right.isTrue_iff]

theorem reflects_not (operand : v.Encodes x) (h : unary .not v = .ok u) : u.Reflects (sqlNot x) := by
  cases absent : v.isNull with
  | true => cases operand <;> first | (cases h; exact .inl .null) | cases absent
  | false =>
    have : u = bool !v.isTrue := by cases v <;> first | (cases absent; done) | exact (Except.ok.inj h).symm
    rw [sqlNot, operand.sqlTruth absent, this]
    exact .inl (.bool _)

theorem reflects_coalesce (left : v.Encodes x) (right : w.Reflects y) (h : binary .coalesce v w = .ok u) : u.Reflects (x.or y) := by
  cases left <;> cases h
  · exact right
  · exact .inl (.bool _)
  · exact .inl (.int _)

theorem reflects_equality (equates : op ∈ [.eq, .ne]) (left : v.Encodes x) (right : w.Encodes y)
    (apart : ∀ b n, v = bool b → w = int n → n.toInt ≠ b.toInt) (apart' : ∀ b n, w = bool b → v = int n → n.toInt ≠ b.toInt)
    (h : binary op v w = .ok u) : u.Reflects (op.onNumbers x y) := by
  fin_cases equates <;> cases h <;> rw [nullSafeEq_encodes left right apart apart'] <;> exact .inl (.bool _)

end Value

/-! ## Evaluation -/

namespace Expr

variable {e l r x : Expr} {v w : Value}

theorem KeepsNull.encodes (keeps : e.KeepsNull) (h : e.evaluate = .ok v) (reflects : v.Reflects e.sqlValue) : v.Encodes e.sqlValue :=
  reflects.encodes fun none => Except.ok.inj (h.symm.trans (keeps none))

theorem evaluate_binary {op : BinaryOp} (h : (Expr.binary op l r).evaluate = .ok v) :
    ∃ a b, l.evaluate = .ok a ∧ r.evaluate = .ok b ∧ Value.binary op a b = .ok v := by
  obtain ⟨a, left, h⟩ := Result.bind_eq_ok.1 h
  obtain ⟨b, right, h⟩ := Result.bind_eq_ok.1 h
  exact ⟨a, b, left, right, h⟩

theorem Apart.values {a b : Value} (apart : l.Apart r) (left : l.evaluate = .ok a) (right : r.evaluate = .ok b) :
    ∀ c n, a = .bool c → b = .int n → n.toInt ≠ c.toInt := by
  rintro c n rfl rfl
  exact apart c n left right

/-- What a settled expression is evaluated to stands for what SQL makes of it. -/
theorem Settled.reflects (settled : e.Settled) (h : e.evaluate = .ok v) : v.Reflects e.sqlValue := by
  induction settled generalizing v with
  | null =>
    cases h
    exact .inl .null
  | bool b =>
    cases h
    cases b <;> exact .inl (.bool _)
  | int n whole =>
    cases h
    simp only [sqlValue, Value.toCell, whole]
    exact .inl (.int n)
  | connective joins _ _ ihl ihr =>
    obtain ⟨a, b, left, right, h⟩ := evaluate_binary h
    exact Value.reflects_connective joins (ihl left) (ihr right) h
  | arithmetic sums _ _ ihl ihr =>
    obtain ⟨a, b, left, right, h⟩ := evaluate_binary h
    exact Value.reflects_arithmetic sums (ihl left) (ihr right) h
  | not _ keeps ih =>
    obtain ⟨a, operand, h⟩ := Result.bind_eq_ok.1 h
    exact Value.reflects_not (keeps.encodes operand (ih operand)) h
  | coalesce _ _ keeps ihl ihr =>
    obtain ⟨a, b, left, right, h⟩ := evaluate_binary h
    exact Value.reflects_coalesce (keeps.encodes left (ihl left)) (ihr right) h
  | order orders _ _ keepsLeft keepsRight ihl ihr =>
    obtain ⟨a, b, left, right, h⟩ := evaluate_binary h
    exact Value.reflects_comparison orders (keepsLeft.encodes left (ihl left)) (keepsRight.encodes right (ihr right)) h
  | equality equates _ _ keepsLeft keepsRight apart apart' ihl ihr =>
    obtain ⟨a, b, left, right, h⟩ := evaluate_binary h
    exact Value.reflects_equality equates (keepsLeft.encodes left (ihl left)) (keepsRight.encodes right (ihr right)) (apart.values left right)
      (apart'.values right left) h

/-- Evaluation finds a settled condition true if and only if SQL does. Its negation is found true alike only if the condition keeps NULL. -/
theorem Settled.isTrue_evaluate_iff (settled : e.Settled) (h : e.evaluate = .ok v) :
    (v.isTrue = true ↔ sqlTruth e.sqlValue = some true) ∧
      ∀ w, (Expr.unary .not e).evaluate = .ok w →
        ((w.isTrue = true ↔ sqlTruth (Expr.unary .not e).sqlValue = some true) ↔ e.KeepsNull) := by
  have reflects := settled.reflects h
  refine ⟨reflects.isTrue_iff, fun w negated => ⟨fun same none => ?_, fun keeps => ((settled.not keeps).reflects negated).isTrue_iff⟩⟩
  rw [none] at reflects
  obtain encodes | ⟨rfl, -⟩ := reflects
  · cases encodes
    exact h
  · rw [evaluate, h] at negated
    cases negated
    rw [sqlValue, none] at same
    cases same.1 rfl

/-- `COALESCE(NULL, 2)` -/
def coalescedTwo : Expr := .binary .coalesce (.constant .null (.nullable .i64)) (.constant (.int 2) .i64)

/-- `NULL < 1 OR NOT (COALESCE(NULL, 2) IS 3)` -/
def unequalOrLess : Expr :=
  .binary .or (.binary .lt (.constant .null (.nullable .i64)) (.constant (.int 1) .i64)) (.unary .not (.binary .eq coalescedTwo (.constant (.int 3) .i64)))

theorem isTrue_evaluate_unequal : unequalOrLess.Settled ∧ unequalOrLess.evaluate = .ok (.bool true) ∧ sqlTruth unequalOrLess.sqlValue = some true := by
  have left : coalescedTwo.Settled := .coalesce (.null _) (.int _ rfl) fun _ => rfl
  have compared : Settled (.binary .eq coalescedTwo (.constant (.int 3) .i64)) :=
    .equality (by simp) left (.int _ rfl) (by rintro ⟨⟩) (by rintro ⟨⟩) (by rintro _ _ ⟨⟩) (by rintro _ _ ⟨⟩)
  have settled : unequalOrLess.Settled :=
    .connective (by simp) (.order (by simp) (.null _) (.int _ rfl) (fun _ => rfl) (by rintro ⟨⟩)) (.not compared (by rintro ⟨⟩))
  have evaluated : unequalOrLess.evaluate = .ok (.bool true) := rfl
  exact ⟨settled, evaluated, (settled.isTrue_evaluate_iff evaluated).1.1 rfl⟩

/-- A comparison with NULL is undecided in SQL, and evaluation finds its negation true. A truth value `IS` its number in SQL, and evaluation does not
find it so. -/
theorem isTrue_evaluate_differs :
    (Expr.unary .not (.binary .lt (.constant .null (.nullable .i64)) (.constant (.int 1) .i64))).evaluate = .ok (.bool true) ∧
      (Expr.unary .not (.binary .lt (.constant .null (.nullable .i64)) (.constant (.int 1) .i64))).sqlValue = none ∧
      (Expr.binary .eq (.constant (.bool true) .bool) (.constant (.int 1) .i64)).evaluate = .ok (.bool false) ∧
      (Expr.binary .eq (.constant (.bool true) .bool) (.constant (.int 1) .i64)).sqlValue = some 1 := ⟨rfl, rfl, rfl, rfl⟩

end Expr

end Relational

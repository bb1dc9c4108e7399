import Relational.Tree.Evaluate

/-!
# Integers

Arithmetic on words is that of the integers as long as every result is a word. Where one is not, and where a divisor is zero, evaluation stops
with an error: nothing wraps (`Expr.Integral.evaluate_iff`).
-/

namespace Relational

open Word (Fits)

/-- The operators on integers; quotients are cut toward zero. -/
def BinaryOp.onIntegers (op : BinaryOp) (a b : Int) : Int :=
  match op with
  | .add => a + b
  | .sub => a - b
  | .mul => a * b
  | .div => a.tdiv b
  | .rem => a.tmod b
  | _ => 0

/-- Whether an operator gives a word. A remainder is only taken where the quotient is a word too. -/
def BinaryOp.GivesWord (op : BinaryOp) (a b : Int) : Prop :=
  (op ∈ [.div, .rem] → b ≠ 0 ∧ Fits (a.tdiv b)) ∧ Fits (op.onIntegers a b)

/-- Trees of integer literals, arithmetic, signs and absolute values. -/
inductive Expr.Integral : Expr → Prop where
  | literal (n : Int64) (t : Ty) : Integral (.constant (.int n) t)
  | binary {op : BinaryOp} {l r : Expr} (arithmetic : op ∈ [.add, .sub, .mul, .div, .rem]) (left : l.Integral) (right : r.Integral) :
    Integral (.binary op l r)
  | negate {x : Expr} (operand : x.Integral) : Integral (.unary .negate x)
  | abs {x : Expr} (operand : x.Integral) : Integral (.call .abs x [])

/-- The integer that a tree comes to, however large the results in between. -/
def Expr.integer : Expr → Int
  | .constant (.int n) _ => n.toInt
  | .binary op l r => op.onIntegers l.integer r.integer
  | .unary .negate x => -x.integer
  | .call .abs x _ => x.integer.natAbs
  | _ => 0

/-- Whether no divisor is zero and every result in between is a word. -/
def Expr.StaysWord : Expr → Prop
  | .binary op l r => l.StaysWord ∧ r.StaysWord ∧ op.GivesWord l.integer r.integer
  | .unary .negate x => x.StaysWord ∧ Fits (-x.integer)
  | .call .abs x _ => x.StaysWord ∧ Fits x.integer.natAbs
  | _ => True

/-! ## One step -/

theorem Word.ofInt?_eq_some {n : Int} {k : Int64} : ofInt? n = some k ↔ Fits n ∧ k.toInt = n := by
  unfold ofInt?
  split
  · next fits =>
    rw [Option.some.injEq, ← Int64.toInt_inj, Int64.toInt_ofInt_of_le fits.1 fits.2, eq_comm]
    exact (and_iff_right fits).symm
  · next outside => simp [outside]

/-- A result is the word of an integer if a condition holds, and an error of evaluation if not. -/
def Computes (r : Result Value) (condition : Prop) (x : Int) : Prop :=
  (condition → ∃ n, r = .ok (.int n) ∧ n.toInt = x) ∧ (¬condition → ∃ fault, r = .error (.evaluation fault))

namespace Computes

variable {r : Result Value} {condition : Prop} {x : Int}

theorem fails {fault : EvaluationFault} (never : ¬condition) : Computes (.error (.evaluation fault)) condition x :=
  ⟨fun holds => absurd holds never, fun _ => ⟨fault, rfl⟩⟩

theorem imp {condition' : Prop} (h : Computes r condition x) (same : condition ↔ condition') : Computes r condition' x := by rwa [← same]

theorem ofInt? (fault : EvaluationFault) (x : Int) : Computes ((Value.orFault fault (Word.ofInt? x)).map .int) (Fits x) x := by
  cases found : Word.ofInt? x with
  | some n =>
    obtain ⟨fits, same⟩ := Word.ofInt?_eq_some.1 found
    exact ⟨fun _ => ⟨n, rfl, same⟩, fun outside => absurd fits outside⟩
  | none =>
    refine fails fun fits => ?_
    simp [Word.ofInt?, fits] at found

/-- The operand first, then a step on it. -/
theorem bind {f : Value → Result Value} {next : Prop} {y : Int} (operand : Computes r condition x)
    (step : ∀ n : Int64, n.toInt = x → Computes (f (.int n)) next y) : Computes (r >>= f) (condition ∧ next) y := by
  by_cases holds : condition
  · obtain ⟨n, rfl, same⟩ := operand.1 holds
    exact (step n same).imp (and_iff_right holds).symm
  · obtain ⟨fault, rfl⟩ := operand.2 holds
    exact fails fun both => holds both.1

/-- The words that come out are those of the integer, under the condition. -/
theorem ok_iff (h : Computes r condition x) (n : Int64) : r = .ok (.int n) ↔ condition ∧ n.toInt = x := by
  by_cases holds : condition
  · obtain ⟨m, rfl, same⟩ := h.1 holds
    simp [holds, ← same, eq_comm, Int64.toInt_inj]
  · obtain ⟨fault, rfl⟩ := h.2 holds
    simp [holds]

end Computes

theorem Value.computes_division {op : BinaryOp} {a b : Int64} {q x : Int} (result : Option Int64) (divides : op ∈ [.div, .rem])
    (quotient : Computes ((orFault (.overflow op) result).map .int) (Fits q ∧ Fits x) x) (same : q = a.toInt.tdiv b.toInt)
    (value : x = op.onIntegers a.toInt b.toInt) :
    Computes (if b == 0 then .error (.evaluation .divisionByZero) else (orFault (.overflow op) result).map .int) (op.GivesWord a.toInt b.toInt) x := by
  subst same value
  have zero : b = 0 ↔ b.toInt = 0 := by rw [← Int64.toInt_inj, Int64.toInt_zero]
  split
  · next divisor => exact .fails fun gives => (gives.1 divides).1 (zero.1 (beq_iff_eq.1 divisor))
  · next divisor =>
    have nonzero : b.toInt ≠ 0 := fun none => divisor (beq_iff_eq.2 (zero.2 none))
    exact quotient.imp ⟨fun fits => ⟨fun _ => ⟨nonzero, fits.1⟩, fits.2⟩, fun gives => ⟨(gives.1 divides).2, gives.2⟩⟩

/-- An operator on two words. -/
theorem Value.computes_binary {op : BinaryOp} (arithmetic : op ∈ [.add, .sub, .mul, .div, .rem]) (a b : Int64) :
    Computes (binary op (.int a) (.int b)) (op.GivesWord a.toInt b.toInt) (op.onIntegers a.toInt b.toInt) := by
  have plain (op : BinaryOp) (whole : op ∉ [BinaryOp.div, .rem]) : Fits (op.onIntegers a.toInt b.toInt) ↔ op.GivesWord a.toInt b.toInt :=
    (and_iff_right fun divides => absurd divides whole).symm
  simp only [List.mem_cons, List.not_mem_nil, or_false] at arithmetic
  obtain rfl | rfl | rfl | rfl | rfl := arithmetic
  · exact (Computes.ofInt? _ _).imp (plain .add (by decide))
  · exact (Computes.ofInt? _ _).imp (plain .sub (by decide))
  · exact (Computes.ofInt? _ _).imp (plain .mul (by decide))
  · exact computes_division _ (by decide) ((Computes.ofInt? _ _).imp (and_self_iff).symm) rfl rfl
  · refine computes_division (Word.rem? a b) (by decide) ?_ rfl rfl
    cases quotient : Word.ofInt? (a.toInt.tdiv b.toInt) with
    | some q =>
      have fits := (Word.ofInt?_eq_some.1 quotient).1
      rw [Word.rem?, quotient]
      exact (Computes.ofInt? _ _).imp (and_iff_right fits).symm
    | none =>
      rw [Word.rem?, quotient]
      refine .fails fun fits => ?_
      simp [Word.ofInt?, fits.1] at quotient

/-! ## Whole trees -/

theorem Expr.Integral.computes {e : Expr} (integral : e.Integral) : Computes e.evaluate e.StaysWord e.integer := by
  induction integral with
  | literal n t => exact ⟨fun _ => ⟨n, rfl, rfl⟩, fun never => absurd trivial never⟩
  | @binary op l r arithmetic _ _ left right =>
    rw [StaysWord, integer]
    refine left.bind fun a first => right.bind fun b second => ?_
    rw [← first, ← second]
    exact Value.computes_binary arithmetic a b
  | negate _ operand =>
    rw [StaysWord, integer]
    refine operand.bind fun n same => ?_
    rw [← same]
    exact Computes.ofInt? _ _
  | @abs x _ operand =>
    rw [StaysWord, integer]
    show Computes (x.evaluate >>= fun v => Value.invoke .abs v []) _ _
    refine operand.bind fun n same => ?_
    rw [← same, Value.invoke, Value.invokePresent, if_neg (by simp [Value.isNull]), Value.abs, Word.abs?]
    exact Computes.ofInt? _ _

/-- Evaluation of integers is exact or an error. It gives a word if and only if no divisor is zero and every result in between is a
word, and then the word is the integer that the tree comes to; else it stops with an error of evaluation. -/
theorem Expr.Integral.evaluate_iff {e : Expr} (integral : e.Integral) :
    (∀ n, e.evaluate = .ok (.int n) ↔ e.StaysWord ∧ n.toInt = e.integer) ∧ (e.StaysWord → ∃ n, e.evaluate = .ok (.int n)) ∧
      (¬e.StaysWord → ∃ fault, e.evaluate = .error (.evaluation fault)) :=
  ⟨integral.computes.ok_iff, fun stays => (integral.computes.1 stays).imp fun _ => And.left, integral.computes.2⟩

/-- The absolute value of a remainder: of the lowest word by minus one, whose quotient is no word, and of seven by minus two. -/
theorem evaluate_absRemainder :
    let remainder (a b : Int64) : Expr := .call .abs (.binary .rem (.constant (.int a) .i64) (.constant (.int b) .i64)) []
    (∃ fault, (remainder Int64.minValue (-1)).evaluate = .error (.evaluation fault)) ∧ (remainder 7 (-2)).evaluate = .ok (.int 1) := by
  intro remainder
  have integral (a b : Int64) : (remainder a b).Integral := .abs (.binary (by decide) (.literal a .i64) (.literal b .i64))
  refine ⟨(integral _ _).evaluate_iff.2.2 fun stays => ?_, ((integral 7 (-2)).evaluate_iff.1 1).2 ⟨⟨⟨trivial, trivial, ?_⟩, ?_⟩, ?_⟩⟩
  · exact absurd (stays.1.2.2.1 (by decide)).2 (by decide)
  · exact ⟨fun _ => by decide, by decide⟩
  · decide
  · decide

end Relational

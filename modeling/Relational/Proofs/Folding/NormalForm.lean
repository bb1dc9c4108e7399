import Relational.Proofs.Tree.Shapes
import Relational.Query.Folding

/-!
# Folding

Folding evaluates what it can and changes nothing else. An expression gives the same result before and after, whatever constants its parameters
stand for later (`Expr.evaluate_instantiate_fold`). What is left to evaluate in a folded query fails, so that folding again
changes nothing (`Query.fold_normal`).
-/

namespace Relational

/-! ## Results of operators -/

theorem allClosed_iff {es : List Expr} : allClosed es = true ↔ ∀ e ∈ es, e.isClosed = true := by
  induction es with
  | nil => simp [allClosed]
  | cons e es ih => simp [allClosed, ih]

theorem allClosedNamed_iff {ms : List Named} : allClosedNamed ms = true ↔ ∀ m ∈ ms, m.expr.isClosed = true := by
  induction ms with
  | nil => simp [allClosedNamed]
  | cons m ms ih => cases m; simp [allClosedNamed, ih]

/-- Operators of the database apart, an operator on closed operands is closed. -/
theorem Expr.isClosed_of_mapOperands {e : Expr} {g : Expr → Expr} (op : e.isOperator = true) (closed : (e.mapOperands g).isClosed = true)
    (operands : ∀ x ∈ e.operands, (g x).isClosed = true → x.isClosed = true) : e.isClosed = true := by
  cases e <;> simp only [isOperator, Bool.false_eq_true] at op <;>
    simp only [mapOperands, isClosed, Bool.and_eq_true, allClosed_iff, allClosedNamed_iff, List.forall_mem_map, Named.mapExpr,
      Bool.false_eq_true] at closed ⊢ <;>
    simp only [Expr.operands, List.forall_mem_cons, List.forall_mem_map] at operands
  case binary => exact ⟨operands.1 closed.1, operands.2.1 closed.2⟩
  case call => exact ⟨operands.1 closed.1, fun x mem => operands.2 x mem (closed.2 x mem)⟩
  case conditional => exact ⟨⟨operands.1 closed.1.1, operands.2.1 closed.1.2⟩, operands.2.2.1 closed.2⟩
  case record => exact fun m mem => operands m mem (closed m mem)
  all_goals exact operands.1 closed

theorem Expr.isClosed_operands {e : Expr} (closed : e.isClosed = true) : ∀ x ∈ e.operands, x.isClosed = true := by
  cases e <;> simp only [operands, List.forall_mem_cons, List.forall_mem_map] <;>
    simp only [isClosed, Bool.and_eq_true, allClosed_iff, allClosedNamed_iff, Bool.false_eq_true] at closed
  case binary => exact ⟨closed.1, closed.2, by rintro _ ⟨⟩⟩
  case call => exact closed
  case conditional => exact ⟨closed.1.1, closed.1.2, closed.2, by rintro _ ⟨⟩⟩
  case record => exact closed
  case unary | member | convert => exact ⟨closed, by rintro _ ⟨⟩⟩
  all_goals rintro _ ⟨⟩

theorem Expr.mapOperands_comp (g h : Expr → Expr) (e : Expr) : (e.mapOperands g).mapOperands h = e.mapOperands fun x => h (g x) := by
  cases e <;> simp [mapOperands, Named.mapExpr]

section Results

variable {g h : Expr → Expr}

theorem evaluateAll_congr {es : List Expr} (same : ∀ e ∈ es, (g e).evaluate = (h e).evaluate) :
    evaluateAll (es.map g) = evaluateAll (es.map h) := by
  induction es with
  | nil => rfl
  | cons e es ih =>
    obtain ⟨first, rest⟩ := List.forall_mem_cons.1 same
    rw [List.map_cons, List.map_cons, evaluateAll, evaluateAll, first, ih rest]

theorem evaluateMembers_congr {ms : List Named} (same : ∀ m ∈ ms, (g m.expr).evaluate = (h m.expr).evaluate) :
    evaluateMembers (ms.map (Named.mapExpr g)) = evaluateMembers (ms.map (Named.mapExpr h)) := by
  induction ms with
  | nil => rfl
  | cons m ms ih =>
    obtain ⟨first, rest⟩ := List.forall_mem_cons.1 same
    rw [List.map_cons, List.map_cons, Named.mapExpr, Named.mapExpr, evaluateMembers, evaluateMembers, first, ih rest]

/-- The result of an operator depends on the results of its operands alone. -/
theorem Expr.evaluate_mapOperands {e : Expr} (op : e.isOperator = true) (same : ∀ x ∈ e.operands, (g x).evaluate = (h x).evaluate) :
    (e.mapOperands g).evaluate = (e.mapOperands h).evaluate := by
  cases e <;> simp only [isOperator, Bool.false_eq_true] at op <;> simp only [mapOperands, evaluate] <;>
    simp only [operands, List.forall_mem_cons, List.forall_mem_map] at same
  case binary => rw [same.1, same.2.1]
  case call => rw [same.1, evaluateAll_congr same.2]
  case conditional => rw [same.1, same.2.1, same.2.2.1]
  case record => rw [evaluateMembers_congr same]
  all_goals rw [same.1]

end Results

/-! ## Constants for parameters -/

/-- A substitution that replaces nothing but parameters, at least outside of nested queries. -/
structure Substitution.OnParams (f : Substitution) : Prop where
  operator : ∀ e, e.isOperator = true → f.expr e = none
  other : ∀ e e', f.expr e = some e' → (∃ name, e = .param name) ∨ e' = e

/-- Constants in the place of parameters; nested queries are left alone. -/
def instantiating (σ : String → Option (Value × Ty)) : Substitution where
  expr
    | .param name => (σ name).map fun c => .constant c.1 c.2
    | .query q => some (.query q)
    | _ => none

def Expr.instantiate (σ : String → Option (Value × Ty)) (e : Expr) : Expr := e.substitute (instantiating σ)

theorem instantiating_onParams (σ : String → Option (Value × Ty)) : (instantiating σ).OnParams where
  operator e op := by cases e <;> first | rfl | cases op
  other e e' found := by
    cases e with
    | param name => exact .inl ⟨name, rfl⟩
    | query q => exact .inr (Option.some.inj found).symm
    | _ => cases found

theorem Expr.folded_cases {e e' : Expr} (found : e.folded? = some e') : e' = e ∧ (∃ v t, e = .constant v t) ∨
    e.isClosed = true ∧ ∃ v t, e.evaluate = .ok v ∧ e' = .constant v t := by
  unfold folded? at found
  split at found
  · exact .inl ⟨(Option.some.inj found).symm, _, _, rfl⟩
  · split at found
    · next closed =>
      split at found
      · next v evaluated => exact .inr ⟨closed, v, _, evaluated, (Option.some.inj found).symm⟩
      · cases found
    · cases found

namespace Substitution.OnParams

variable {f : Substitution} (onParams : f.OnParams)

include onParams

/-- What is neither an operator nor a parameter keeps its result. -/
theorem evaluate_leaf {e : Expr} (leaf : e.isOperator = false) (other : ∀ name, e ≠ .param name) :
    (e.substitute f).evaluate = e.evaluate := by
  cases found : f.expr e with
  | some e' =>
    rw [Expr.substitute_given found]
    rcases onParams.other e e' found with ⟨name, same⟩ | rfl
    · exact absurd same (other name)
    · rfl
  | none =>
    rw [Expr.substitute.eq_def, found]
    cases e <;> first | rfl | cases leaf

theorem evaluate_closed {e : Expr} (closed : e.isClosed = true) : (e.substitute f).evaluate = e.evaluate := by
  induction e using Expr.induction with
  | operator e op ih =>
    rw [Expr.substitute_operator op (onParams.operator e op)]
    conv => rhs; rw [← Expr.mapOperands_self (g := id) (e := e) fun _ _ => rfl]
    refine Expr.evaluate_mapOperands op fun x mem => ih x mem (Expr.isClosed_operands closed x mem)
  | captured | constant | hostParameter => exact onParams.evaluate_leaf rfl fun _ same => by cases same
  | _ => cases closed

/-- Folding first changes nothing in the result. -/
theorem evaluate_fold (e : Expr) : (e.fold.substitute f).evaluate = (e.substitute f).evaluate := by
  induction e using Expr.induction with
  | param name => rfl
  | operator e op ih =>
    cases found : e.folded? with
    | some e' =>
      rw [Expr.fold, Expr.substitute_given (f := folding) found]
      rcases e.folded_cases found with ⟨rfl, _⟩ | ⟨closed, v, t, evaluated, rfl⟩
      · rfl
      · rw [onParams.evaluate_closed closed, evaluated, onParams.evaluate_leaf rfl fun _ same => by cases same]
        rfl
    | none =>
      rw [Expr.fold, Expr.substitute_operator (f := folding) op found, Expr.substitute_operator (by simpa using op) (onParams.operator _ (by simpa using op)),
        Expr.mapOperands_comp, Expr.substitute_operator op (onParams.operator e op)]
      exact Expr.evaluate_mapOperands op ih
  | _ =>
    rw [onParams.evaluate_leaf, onParams.evaluate_leaf] <;> first | rfl | exact fun _ same => by cases same

end Substitution.OnParams

/-- Folding keeps the meaning of an expression: for all constants that its parameters may stand for it has the same result, be it a value
or an error. -/
theorem Expr.evaluate_instantiate_fold (σ : String → Option (Value × Ty)) (e : Expr) :
    (e.fold.instantiate σ).evaluate = (e.instantiate σ).evaluate :=
  (instantiating_onParams σ).evaluate_fold e

/-! ## Folded queries -/

theorem Expr.evaluate_fold (e : Expr) : e.fold.evaluate = e.evaluate := by
  -- Nothing is replaced by a substitution that gives back all but operators.
  let keep : Substitution := ⟨fun e => if e.isOperator then none else some e, fun _ => false⟩
  have onParams : keep.OnParams := ⟨fun e op => by simp [keep, op], fun e e' found => by simp_all [keep]⟩
  have self (e : Expr) : e.substitute keep = e := by
    induction e using Expr.induction with
    | operator e op ih => rw [substitute_operator op (onParams.operator e op), mapOperands_self ih]
    | _ => rfl
  simpa only [self] using onParams.evaluate_fold e

/-- What is closed after folding was closed before. -/
theorem Expr.isClosed_of_fold {e : Expr} (closed : e.fold.isClosed = true) : e.isClosed = true := by
  induction e using Expr.induction with
  | operator e op ih =>
    cases found : e.folded? with
    | some e' =>
      rcases e.folded_cases found with ⟨-, v, t, rfl⟩ | ⟨closed, -⟩
      · rfl
      · exact closed
    | none =>
      rw [fold, substitute_operator (f := folding) op found] at closed
      exact isClosed_of_mapOperands op closed ih
  | _ => exact closed

/-- Whether an expression is evaluated already, or fails to. -/
def Expr.Folded (e : Expr) : Prop := ∀ v, e.isClosed = true → e.evaluate = .ok v → ∃ t, e = .constant v t

theorem Expr.folded_fold (e : Expr) : e.fold.Folded := by
  intro v closed evaluated
  have closed := isClosed_of_fold closed
  have evaluated := e.evaluate_fold ▸ evaluated
  cases found : e.folded? with
  | some e' =>
    rw [fold, substitute_given (f := folding) found]
    rcases e.folded_cases found with ⟨rfl, w, t, rfl⟩ | ⟨-, w, t, evaluated', rfl⟩
    · cases evaluated
      exact ⟨t, rfl⟩
    · cases evaluated.symm.trans evaluated'
      exact ⟨t, rfl⟩
  | none => cases e <;> simp [folded?, closed, evaluated] at found

/-- Every expression in a folded tree is folded. -/
theorem Node.folded_within (n : Node) : ∀ e, Within (expr e) (n.substitute folding) → e.Folded := by
  induction n using Node.induction with
  | step n ih =>
    intro e within
    generalize made : n.substitute folding = n' at within
    cases within with
    | self =>
      cases n <;> cases made
      exact Expr.folded_fold _
    | @part _ p mem within =>
      subst made
      rcases n.given_or_rebuilt Expr.folded? with ⟨e, e', rfl, found⟩ | rebuilt
      · -- A constant has no parts.
        rw [substitute, Expr.substitute_given (f := folding) found] at mem
        rcases e.folded_cases found with ⟨rfl, v, t, rfl⟩ | ⟨-, v, t, -, rfl⟩ <;> cases mem
      · rw [parts_substitute (fun _ _ => rfl) rebuilt] at mem
        obtain ⟨part, found, rfl⟩ := List.mem_map.1 mem
        exact ih part found e within

theorem Node.substitute_of_folded (n : Node) (folded : ∀ e, Within (expr e) n → e.Folded) : n.substitute folding = n := by
  induction n using Node.induction with
  | step n ih =>
    rcases n.given_or_rebuilt Expr.folded? with ⟨e, e', rfl, found⟩ | rebuilt
    · rw [substitute, Expr.substitute_given (f := folding) found]
      rcases e.folded_cases found with ⟨rfl, -⟩ | ⟨closed, v, t, evaluated, rfl⟩
      · rfl
      · obtain ⟨t', rfl⟩ := folded e .self v closed evaluated
        exact congrArg expr (Option.some.inj found).symm
    · exact substitute_self (fun _ _ => rfl) rebuilt fun p mem => ih p mem fun e within => folded e (.part mem within)

/-- Nothing in a folded query is left that could be evaluated: each expression in it that needs no row is a constant, or fails. So
folding again changes nothing, and nothing is captured. -/
theorem Query.fold_normal (q : Query) : (∀ e, (Node.expr e).Within (.query q.fold) → e.Folded) ∧ q.fold.fold = q.fold ∧
    ∀ name v t, ¬(Node.expr (.variable name v t)).Within (.query q.fold) := by
  have folded := Node.folded_within (.query q)
  refine ⟨folded, Node.query.inj (Node.substitute_of_folded _ folded), fun name v t within => ?_⟩
  obtain ⟨t', same⟩ := folded _ within v rfl rfl
  cases same

end Relational

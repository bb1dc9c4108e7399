import Relational.Proofs.Compilation.Running
import Relational.Proofs.Folding.NormalForm
import Relational.Proofs.Values.Comparison

/-!
# Folding keeps values

A part that is folded has the value that it is folded to, so a query gives the same elements before and after. The exception are
comparisons of records: evaluation compares them as a whole, and everything else member by member. A
query in which the two come to the same is the source of a compilation (`Grammar.source`).
-/

namespace Relational

/-- The value of a computation that goes on after another one. -/
theorem Result.bind_eq_ok {α β : Type} {x : Result α} {f : α → Result β} {b : β} :
    x >>= f = .ok b ↔ ∃ a, x = .ok a ∧ f a = .ok b := by
  cases x with
  | ok a =>
    constructor
    · exact fun h => ⟨a, rfl, h⟩
    · rintro ⟨_, ⟨⟩, h⟩
      exact h
  | error e =>
    constructor
    · intro h
      cases h
    · rintro ⟨_, ⟨⟩, _⟩

theorem Result.map_eq_ok {α β : Type} {x : Result α} {f : α → β} {b : β} : x.map f = .ok b ↔ ∃ a, x = .ok a ∧ f a = b := by
  cases x <;> simp [Except.map]

/-- No fault of an alias. -/
def Result.Resolves {α : Type} (x : Result α) : Prop := ∀ fault, x ≠ .error (.aliasResolution fault)

namespace Result.Resolves

variable {α β : Type} {x : Result α} {f : α → Result β}

theorem ok (a : α) : Resolves (.ok a) := by
  rintro fault ⟨⟩

theorem bind (first : x.Resolves) (next : ∀ a, (f a).Resolves) : (x >>= f).Resolves := by
  intro fault eq
  cases x with
  | ok a => exact next a fault eq
  | error e =>
    cases eq
    exact first fault rfl

theorem mapM {as : List α} {f : α → Result β} (each : ∀ a ∈ as, (f a).Resolves) : (as.mapM f).Resolves := by
  induction as with
  | nil => exact ok []
  | cons a as ih =>
    rw [List.mapM_cons]
    obtain ⟨head, tail⟩ := List.forall_mem_cons.1 each
    exact head.bind fun _ => (ih tail).bind fun _ => ok _

theorem map (h : x.Resolves) (f : α → β) : Resolves (x.map f) := by
  cases x with
  | ok a => exact ok _
  | error e =>
    rintro fault ⟨⟩
    exact h fault rfl

end Result.Resolves

theorem Value.induction {P : Value → Prop} (scalar : ∀ v, v.isScalar = true → P v)
    (record : ∀ name fields, (∀ x ∈ fields, P x.2) → P (.record name fields)) (list : ∀ items, (∀ v ∈ items, P v) → P (.list items))
    (group : ∀ key elements, P key → (∀ v ∈ elements, P v) → P (.group key elements)) (v : Value) : P v := by
  refine @Value.rec P (fun fields => ∀ x ∈ fields, P x.2) (fun items => ∀ v ∈ items, P v) (fun x => P x.2)
    ?_ ?_ ?_ ?_ ?_ ?_ ?_ ?_ ?_ ?_ ?_ ?_ record list group ?_ ?_ ?_ ?_ ?_ v
  case refine_13 => rintro _ ⟨⟩
  case refine_14 => exact fun head rest first others => List.forall_mem_cons.2 ⟨first, others⟩
  case refine_15 => rintro _ ⟨⟩
  case refine_16 => exact fun head rest first others => List.forall_mem_cons.2 ⟨first, others⟩
  case refine_17 => exact fun name v holds => holds
  all_goals
    intros
    exact scalar _ rfl

/-- An operator on scalars: neither the making of a group nor a call of `Equals`. -/
def Expr.isScalarOperator : Expr → Bool
  | .group _ _ | .call .equals _ _ => false
  | _ => true

/-- Where a comparison is folded, comparing as a whole and comparing member by member come to the same. -/
def Expr.ComparesAlike (e : Expr) : Prop :=
  ∀ op l r, e = .binary op l r → op = .eq ∨ op = .ne → e.isClosed = true →
    ∀ a b, l.evaluate = .ok a → r.evaluate = .ok b → a.equalMembers b = a.nullSafeEq b

/-- Linear queries as they are written: the literals fit columns. -/
def Grammar.source : Grammar where
  literal v t := t.isColumn = true ∧ v.isScalar = true
  operator e := e.isScalarOperator = true ∧ e.ComparesAlike
  entity _ := True

section Evaluation

variable {base : Interpretation Value} {param : String → Value} {db : Database Value} {ρ : Env Value} {g : List (Env Value)}

theorem eval_of_evaluateAll {es : List Expr} {vs : List Value} (h : evaluateAll es = .ok vs)
    (ih : ∀ e ∈ es, ∀ v, e.evaluate = .ok v → e.eval (base.evaluating.withParam param) db ρ g = v) :
    es.map (Expr.eval (base.evaluating.withParam param) db ρ g) = vs := by
  induction es generalizing vs with
  | nil =>
    cases h
    rfl
  | cons e es ihs =>
    rw [evaluateAll] at h
    obtain ⟨v, first, h⟩ := Result.bind_eq_ok.1 h
    obtain ⟨rest, others, h⟩ := Result.bind_eq_ok.1 h
    cases h
    rw [List.map_cons, ih e (by simp) v first, ihs others fun x mem => ih x (by simp [mem])]

theorem eval_of_evaluateMembers {ms : List Named} {fs : List (String × Value)} (h : evaluateMembers ms = .ok fs)
    (ih : ∀ m ∈ ms, ∀ v, m.expr.evaluate = .ok v → m.expr.eval (base.evaluating.withParam param) db ρ g = v) :
    ms.map (fun m => (m.name, m.expr.eval (base.evaluating.withParam param) db ρ g)) = fs := by
  induction ms generalizing fs with
  | nil =>
    cases h
    rfl
  | cons m ms ihs =>
    cases m
    rw [evaluateMembers] at h
    obtain ⟨v, first, h⟩ := Result.bind_eq_ok.1 h
    obtain ⟨rest, others, h⟩ := Result.bind_eq_ok.1 h
    cases h
    rw [List.map_cons, ih _ (by simp) v first, ihs others fun x mem => ih x (by simp [mem])]

/-- An operator whose operands are as they are evaluated is so itself, if comparisons are. -/
theorem Expr.eval_operator_of_evaluate {e : Expr} {v : Value} (operates : e.isOperator = true) (closed : e.isClosed = true)
    (alike : e.ComparesAlike) (h : e.evaluate = .ok v)
    (ih : ∀ x ∈ e.operands, x.isClosed = true → ∀ v, x.evaluate = .ok v →
      x.eval (base.evaluating.withParam param) db ρ g = v) :
    e.eval (base.evaluating.withParam param) db ρ g = v := by
  cases e <;> simp only [isOperator, Bool.false_eq_true] at operates <;> rw [evaluate] at h <;>
    simp only [operands, List.forall_mem_cons, List.forall_mem_map] at ih <;>
    simp only [isClosed, Bool.and_eq_true, Bool.false_eq_true, allClosed_iff, allClosedNamed_iff] at closed
  case binary op l r =>
    obtain ⟨a, left, h⟩ := Result.bind_eq_ok.1 h
    obtain ⟨b, right, h⟩ := Result.bind_eq_ok.1 h
    have compares (equality : op = .eq ∨ op = .ne) : a.equalMembers b = a.nullSafeEq b :=
      alike op l r rfl equality (by simp [isClosed, closed]) a b left right
    rw [eval, ih.1 closed.1 a left, ih.2.1 closed.2 b right]
    cases op <;> simp only [Interpretation.withParam, Interpretation.evaluating] <;>
      first
        | rw [h]; rfl
        | rw [compares (by simp)]; exact Except.ok.inj h
  case unary op x =>
    obtain ⟨a, operand, h⟩ := Result.bind_eq_ok.1 h
    rw [eval, ih.1 closed a operand]
    exact congrArg Value.ofResult h
  case member x name =>
    obtain ⟨a, operand, h⟩ := Result.bind_eq_ok.1 h
    rw [eval, ih.1 closed a operand]
    exact congrArg Value.ofResult h
  case call m x args =>
    obtain ⟨vs, all, h⟩ := Result.bind_eq_ok.1 h
    obtain ⟨a, operand, h⟩ := Result.bind_eq_ok.1 h
    rw [eval, ih.1 closed.1 a operand, evalAll_eq, eval_of_evaluateAll all fun x mem => ih.2 x mem (closed.2 x mem)]
    exact congrArg Value.ofResult h
  case conditional test yes no =>
    obtain ⟨a, tested, h⟩ := Result.bind_eq_ok.1 h
    rw [eval, ih.1 closed.1.1 a tested]
    simp only [Interpretation.withParam, Interpretation.evaluating]
    split at h
    · next holds =>
      rw [if_pos holds]
      exact ih.2.1 closed.1.2 v h
    · next fails =>
      rw [if_neg fails]
      exact ih.2.2.1 closed.2 v h
  case record r ms =>
    obtain ⟨fs, all, h⟩ := Result.bind_eq_ok.1 h
    rw [eval, evalNamed_eq, eval_of_evaluateMembers all fun m mem => ih m mem (closed m mem)]
    exact Except.ok.inj h
  case convert x t =>
    obtain ⟨a, operand, h⟩ := Result.bind_eq_ok.1 h
    rw [eval, ih.1 closed a operand]
    exact congrArg Value.ofResult h

/-- What is evaluated without a row has that value at every row. -/
theorem Expr.eval_of_evaluate {e : Expr} (built : e.Built Grammar.source.leaf Grammar.source.operator)
    (closed : e.isClosed = true) {v : Value} (h : e.evaluate = .ok v) :
    e.eval (base.evaluating.withParam param) db ρ g = v := by
  induction built generalizing v with
  | @leaf e leaf =>
    cases e <;> simp only [Grammar.leaf] at leaf <;> rw [evaluate] at h <;> cases h <;> rfl
  | operator op node parts ih =>
    exact eval_operator_of_evaluate op closed node.2 h fun x mem closed v h => ih x mem closed h

/-- The constant that a part is folded to has its value. -/
theorem Expr.eval_folded {e e' : Expr} (built : e.Built Grammar.source.leaf Grammar.source.operator) (h : e.folded? = some e') :
    e'.eval (base.evaluating.withParam param) db ρ g = e.eval (base.evaluating.withParam param) db ρ g := by
  unfold folded? at h
  split at h
  · cases h
    rfl
  · split at h
    · next closed =>
      split at h
      · next v evaluated =>
        cases h
        exact (eval_of_evaluate built closed evaluated).symm
      · cases h
    · cases h

theorem Expr.eval_fold {e : Expr} (built : e.Built Grammar.source.leaf Grammar.source.operator) :
    e.fold.eval (base.evaluating.withParam param) db ρ g = e.eval (base.evaluating.withParam param) db ρ g := by
  induction built with
  | @leaf e leaf =>
    cases found : e.folded? with
    | some e' =>
      rw [fold, substitute_given found, eval_folded (.leaf leaf) found]
    | none =>
      have none : folding.expr e = none := found
      cases e <;> simp only [Grammar.leaf] at leaf <;> rw [fold, substitute, none]
  | @operator e op node parts ih =>
    cases found : e.folded? with
    | some e' =>
      rw [fold, substitute_given found, eval_folded (.operator op node parts) found]
    | none =>
      rw [fold, substitute_operator op found]
      exact eval_mapOperands _ _ op ih

end Evaluation

/-! ## Substitution in linear queries -/

section Substitution

variable {D : Type} {I : Interpretation D} {db : Database D} {catalog : Catalog} {G : Grammar} {f : Substitution}

/-- A substitution that keeps the values of lambdas keeps the elements of a linear query. -/
theorem Query.run_substitute
    (bodies : ∀ e : Expr, e.Built G.leaf G.operator → ∀ param ρ g,
      (e.substitute f).eval (I.withParam param) db ρ g = e.eval (I.withParam param) db ρ g)
    (counts : ∀ e : Expr, e.count?.isSome = true → (e.substitute f).count? = e.count?) {q : Query} (linear : q.Linear G) :
    (q.substitute f).run I db catalog = q.run I db catalog ∧
      (q.substitute f).unordered I db catalog = q.unordered I db catalog ∧ (q.substitute f).keys I db = q.keys I db := by
  have apply {l : Lambda} (body : l.body.Built G.leaf G.operator) : (l.substitute f).apply I db = l.apply I db := by
    cases l
    exact funext fun v => bodies _ body _ _ _
  induction linear with
  | table => exact ⟨rfl, rfl, rfl⟩
  | filter _ body ih =>
    refine ⟨?_, rfl, rfl⟩
    rw [substitute, run, run, ih.1, apply body]
  | project _ body ih =>
    refine ⟨?_, rfl, rfl⟩
    rw [substitute, run, run, ih.1, apply body]
  | orderBy _ body ih =>
    refine ⟨?_, ?_, ?_⟩
    · rw [substitute, run, run, ih.1, apply body]
    · rw [substitute, unordered, unordered, ih.1]
    · rw [substitute, keys, keys, apply body]
  | thenBy _ body ih =>
    refine ⟨?_, ?_, ?_⟩
    · rw [substitute, run, run, ih.2.1, ih.2.2, apply body]
    · rw [substitute, unordered, unordered, ih.2.1]
    · rw [substitute, keys, keys, ih.2.2, apply body]
  | skip _ count ih =>
    refine ⟨?_, rfl, rfl⟩
    rw [substitute, run, run, ih.1, counts _ count]
  | take _ count ih =>
    refine ⟨?_, rfl, rfl⟩
    rw [substitute, run, run, ih.1, counts _ count]

theorem Query.Linear.substitute {G' : Grammar} (entities : ∀ entity, G.entity entity → G'.entity entity)
    (bodies : ∀ e : Expr, e.Built G.leaf G.operator → (e.substitute f).Built G'.leaf G'.operator)
    (counts : ∀ e : Expr, e.count?.isSome = true → (e.substitute f).count? = e.count?) {q : Query} (linear : q.Linear G) :
    (q.substitute f).Linear G' := by
  induction linear with
  | table h => exact .table (entities _ h)
  | @filter q l _ body ih => cases l; exact .filter ih (bodies _ body)
  | @project q l _ body ih => cases l; exact .project ih (bodies _ body)
  | @orderBy q l _ _ body ih => cases l; exact .orderBy ih (bodies _ body)
  | @thenBy q l _ _ body ih => cases l; exact .thenBy ih (bodies _ body)
  | skip _ count ih => exact .skip ih (counts _ count ▸ count)
  | take _ count ih => exact .take ih (counts _ count ▸ count)

end Substitution

theorem Expr.fold_count {e : Expr} (count : e.count?.isSome = true) : e.fold.count? = e.count? := by
  unfold count? at count
  split at count
  · rfl
  · rfl
  · cases count

/-- A folded query gives the same elements. -/
theorem Query.run_fold {base : Interpretation Value} {db : Database Value} {catalog : Catalog} {q : Query}
    (linear : q.Linear .source) : q.fold.run base.evaluating db catalog = q.run base.evaluating db catalog :=
  (run_substitute (fun e built _ _ _ => e.eval_fold built) (fun _ => Expr.fold_count) linear).1

end Relational

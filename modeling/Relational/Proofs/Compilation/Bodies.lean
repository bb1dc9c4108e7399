import Relational.Proofs.Compilation.Splitting
import Relational.Query.Binding

/-!
# Bound bodies

The body of a lambda is bound to an expression over the columns of a row. Where the parameters stand for expressions, it has the value
that the body has where the parameters are the values of those (`Expr.bind_means`). Comparisons go into
records and members are taken out of them, so the names of members and of fields have to be clear.
-/

namespace Relational

variable {base : Interpretation Value} {db : Database Value} {V : Vocabulary} {Γ : Context} {e : Expr}

/-- An expression of the vocabulary over the columns in sight. -/
structure Expr.Fits (V : Vocabulary) (Γ : Context) (e : Expr) : Prop where
  spoken : e.Spoken V
  formed : e.Formed V.literal Γ none

namespace Expr.Fits

theorem flatIn (fits : e.Fits V Γ) : e.FlatIn V.literal Γ := ⟨fits.spoken.isFlat, fits.formed⟩

theorem operator (operates : e.isOperator = true) (node : V.operator e) (parts : ∀ x ∈ e.operands, x.Fits V Γ) : e.Fits V Γ where
  spoken := .operator operates node fun x mem => (parts x mem).spoken
  formed := (formed_operator operates).2 fun x mem => (parts x mem).formed

theorem operands (fits : e.Fits V Γ) (operates : e.isOperator = true) : V.operator e ∧ ∀ x ∈ e.operands, x.Fits V Γ := by
  obtain ⟨spoken, formed⟩ := fits
  cases spoken with
  | leaf atom => cases e <;> simp [isOperator, isAtom, isColumn, isLiteral] at operates atom
  | operator _ node parts => exact ⟨node, fun x mem => ⟨parts x mem, (formed_operator operates).1 formed x mem⟩⟩

theorem constant {v : Value} {t : Ty} (literal : V.literal v t) : (Expr.constant v t).Fits V Γ := ⟨.leaf rfl, literal⟩

theorem binary {op : BinaryOp} {l r : Expr} (left : l.Fits V Γ) (right : r.Fits V Γ) : (Expr.binary op l r).Fits V Γ := by
  refine operator rfl ⟨rfl, trivial⟩ ?_
  simpa [Expr.operands] using ⟨left, right⟩

theorem not (fits : e.Fits V Γ) : e.not.Fits V Γ := by
  refine operator rfl ⟨rfl, trivial⟩ ?_
  simpa [Expr.operands, Expr.not] using fits

end Expr.Fits

/-! ## Comparisons -/

theorem Expr.Fits.conjunction {es : List Expr} (fits : ∀ x ∈ es, x.Fits V Γ) :
    ((Expr.conjunction es).getD (.ofBool true)).Fits V Γ := by
  have joined {e : Expr} {es : List Expr} (first : e.Fits V Γ) (rest : ∀ x ∈ es, x.Fits V Γ) :
      (es.foldl (.binary .and) e).Fits V Γ := by
    induction es generalizing e with
    | nil => exact first
    | cons x es ih =>
      rw [List.forall_mem_cons] at rest
      exact ih (first.binary rest.1) rest.2
  cases es with
  | nil => exact .constant (.inr rfl)
  | cons e es =>
    rw [List.forall_mem_cons] at fits
    exact joined fits.1 fits.2

/-- A conjunction of truth values is their conjunction. -/
theorem eval_conjunction {σ : Env Value} {γ : List (Env Value)} {es : List Expr} {bs : List Bool}
    (values : List.Forall₂ (fun e b => e.eval base.evaluating db σ γ = .bool b) es bs) :
    ((Expr.conjunction es).getD (.ofBool true)).eval base.evaluating db σ γ = .bool (bs.all id) := by
  have joined {e : Expr} {b : Bool} {es : List Expr} {bs : List Bool} (first : e.eval base.evaluating db σ γ = .bool b)
      (rest : List.Forall₂ (fun e b => e.eval base.evaluating db σ γ = .bool b) es bs) :
      (es.foldl (.binary .and) e).eval base.evaluating db σ γ = .bool (b && bs.all id) := by
    induction rest generalizing e b with
    | nil => simpa using first
    | @cons x c es bs head _ ih =>
      have both : (Expr.binary .and e x).eval base.evaluating db σ γ = .bool (b && c) := by
        rw [Expr.eval, first, head]
        rfl
      rw [List.foldl_cons, ih both, List.all_cons, Bool.and_assoc]
      rfl
  cases values with
  | nil => rfl
  | cons head tail => exact joined head tail

variable (base db V Γ) in
/-- An expression that fits, and has the value of comparing two others. -/
structure Expr.Compares (l r e : Expr) : Prop where
  fits : e.Fits V Γ
  eval : ∀ (σ : Env Value) γ, e.eval base.evaluating db σ γ =
    .bool ((l.eval base.evaluating db σ γ).equalMembers (r.eval base.evaluating db σ γ))

theorem Expr.Compares.binary {l r : Expr} (left : l.Fits V Γ) (right : r.Fits V Γ) :
    l.Compares base db V Γ r (.binary .eq l r) :=
  ⟨left.binary right, fun _ _ => rfl⟩

theorem Compared.sound {ms ms' : List Named} {parts : List Expr}
    (compared : Binding.Compared (fun l r e => l.Fits V Γ → r.Fits V Γ → l.Compares base db V Γ r e) ms ms' parts)
    (left : ∀ m ∈ ms, m.expr.Fits V Γ) (right : ∀ m ∈ ms', m.expr.Fits V Γ) :
    (∀ x ∈ parts, x.Fits V Γ) ∧ ∀ (σ : Env Value) γ, ∃ bs,
      List.Forall₂ (fun x b => x.eval base.evaluating db σ γ = .bool b) parts bs ∧
        bs.all id = equalFields (ms.map fun m => (m.name, m.expr.eval base.evaluating db σ γ))
          (ms'.map fun m => (m.name, m.expr.eval base.evaluating db σ γ)) := by
  induction compared with
  | nil => exact ⟨by simp, fun σ γ => ⟨[], .nil, rfl⟩⟩
  | cons head _ ih =>
    rw [List.forall_mem_cons] at left right
    have head := head left.1 right.1
    obtain ⟨fits, values⟩ := ih left.2 right.2
    refine ⟨List.forall_mem_cons.2 ⟨head.fits, fits⟩, fun σ γ => ?_⟩
    obtain ⟨bs, each, all⟩ := values σ γ
    refine ⟨_ :: bs, .cons (head.eval σ γ) each, ?_⟩
    rw [List.all_cons, all]
    rfl

variable (base db V Γ) in
/-- Equality of expressions is equality of their values, member by member. -/
theorem Expr.equality_compares : Binding.EqualityCases fun l r e => l.Fits V Γ → r.Fits V Γ → l.Compares base db V Γ r e where
  whole _ := .binary
  members compared left right := by
    obtain ⟨fits, values⟩ := Compared.sound compared (List.forall_mem_map.1 (left.operands rfl).2) (List.forall_mem_map.1 (right.operands rfl).2)
    refine ⟨.conjunction fits, fun σ γ => ?_⟩
    obtain ⟨bs, each, all⟩ := values σ γ
    rw [Expr.eval, Expr.eval, evalNamed_eq, evalNamed_eq]
    exact (eval_conjunction each).trans (congrArg Value.bool all)

/-! ## Operators, members and calls -/

/-- A bound operator fits and has the value of the operator. -/
theorem Binding.operator_sound {op : BinaryOp} {l r : Expr} (left : l.Fits V Γ) (right : r.Fits V Γ) :
    (operator op l r).Yields fun e => e.Fits V Γ ∧ ∀ (σ : Env Value) γ, e.eval base.evaluating db σ γ =
      base.evaluating.binary op (l.eval base.evaluating db σ γ) (r.eval base.evaluating db σ γ) := by
  refine (Expr.equality_compares base db V Γ).operator ?_ ?_ ⟨left.binary right, fun _ _ => rfl⟩
  · rintro rfl e compares
    exact ⟨(compares left right).fits, (compares left right).eval⟩
  · rintro rfl e compares
    refine ⟨(compares left right).fits.not, fun σ γ => ?_⟩
    rw [Expr.not, Expr.eval, (compares left right).eval]
    rfl

/-- The members that every value has. -/
theorem Value.member_hasValue (v : Value) : Value.ofResult (v.member "HasValue") = .bool !v.equalMembers .null := by
  cases v <;> rfl

theorem Value.member_value (v : Value) : Value.ofResult (v.member "Value") = v := by
  cases v <;> rfl

/-- A field of a record, where it has that name. -/
theorem Value.member_record {name n : String} {fields : List (String × Value)} {v : Value}
    (special : name ≠ "Value" ∧ name ≠ "HasValue") (h : Value.lookup? fields name = some v) :
    (Value.record n fields).member name = .ok v := by
  have own : (Value.record n fields).ownMember? name = some v := h
  simp only [Value.member, beq_iff_eq, special.1, special.2, if_false, own]

theorem lookup?_fieldsIn {fields : List (String × Value)} (within : fieldsIn V fields) {name : String} {v : Value}
    (h : Value.lookup? fields name = some v) : V.field name ∧ v.In V := by
  rw [Value.lookup?, Option.map_eq_some_iff] at h
  obtain ⟨⟨n, w⟩, found, rfl⟩ := h
  have same : n = name := by simpa using List.find?_some found
  subst same
  exact fieldsIn_iff.1 within _ (List.mem_of_find?_eq_some found)

/-- A bound member fits and has the value of the member. -/
theorem Binding.memberCases (clear : V.Clear) {name : String} (known : V.member name) :
    MemberCases name fun x e => x.Fits V Γ → e.Fits V Γ ∧ ∀ (σ : Env Value) γ,
      e.eval base.evaluating db σ γ = base.evaluating.member (x.eval base.evaluating db σ γ) name where
  record {r ms m} found fits := by
    have mem : m ∈ ms := List.mem_of_find?_eq_some found
    have same : m.name = name := by simpa using List.find?_some found
    obtain ⟨node, operands⟩ := fits.operands rfl
    refine ⟨operands _ (List.mem_map_of_mem mem), fun σ γ => ?_⟩
    rw [Expr.eval, evalNamed_eq]
    symm
    refine congrArg Value.ofResult (Value.member_record (clear.apart name known (same ▸ node.2 m mem)) ?_)
    simp only [Value.lookup?, List.find?_map, Function.comp_def, found, Option.map_some]
  known {n fields t v} found fits := by
    have within : fieldsIn V fields := by simpa [Expr.Formed, Vocabulary.literal, Value.In, Value.isPlain] using fits.formed
    obtain ⟨field, inside⟩ := lookup?_fieldsIn within found
    refine ⟨.constant (.inl inside), fun σ γ => ?_⟩
    exact (congrArg Value.ofResult (Value.member_record (clear.apart name known field) found)).symm
  conditional yes no fits := by
    obtain ⟨-, operands⟩ := fits.operands rfl
    simp only [Expr.operands, List.forall_mem_cons] at operands
    obtain ⟨fitsYes, evalYes⟩ := yes operands.2.1
    obtain ⟨fitsNo, evalNo⟩ := no operands.2.2.1
    refine ⟨.operator rfl ⟨rfl, trivial⟩ ?_, fun σ γ => ?_⟩
    · simpa [Expr.operands] using ⟨operands.1, fitsYes, fitsNo⟩
    · rw [Expr.eval, Expr.eval, evalYes, evalNo]
      exact (apply_ite (base.evaluating.member · name) _ _ _).symm
  key _ fits := by cases (fits.operands rfl).1.1
  hasValue := by
    rintro x rfl fits
    exact ⟨fits.binary (.constant (.inr rfl)), fun σ γ => (Value.member_hasValue _).symm⟩
  value := by
    rintro x rfl fits
    exact ⟨fits, fun σ γ => (Value.member_value _).symm⟩
  own fits := by
    refine ⟨.operator rfl ⟨rfl, known⟩ ?_, fun _ _ => rfl⟩
    simpa [Expr.operands] using fits

/-- No expression of the vocabulary is a sequence. -/
theorem Binding.sequenceOf_fits {x : Expr} (fits : x.Fits V Γ) (sequence : Sequence) : sequenceOf x ≠ .ok sequence := by
  obtain ⟨spoken, formed⟩ := fits
  intro h
  cases spoken with
  | leaf atom =>
    cases x <;> simp only [Expr.isAtom, Expr.isColumn, Expr.isLiteral, Bool.or_self, Bool.false_eq_true] at atom
    case constant v t =>
      cases v
      case list vs => simp [Expr.Formed, Vocabulary.literal, Value.In, Value.isPlain] at formed
      all_goals cases h
    all_goals cases h
  | operator operates node _ =>
    cases x <;> simp only [Expr.isOperator, Bool.false_eq_true] at operates
    case group key elements => cases node.1
    all_goals cases h

/-- A call other than of `Equals` is bound to itself. -/
theorem Binding.call_eq {m : Method} {x : Expr} {args : List Expr} (node : (Expr.call m x args).isScalarOperator = true)
    (fits : x.Fits V Γ) {a a' : Alias} (h : call m x args a = .ok (e, a')) : a = a' ∧ e = .call m x args := by
  have known {condition : Bool} (h : (if condition then pure (.call m x args) else
      fail (.unsupportedExpression (.member x.ty.name m.name)) : Binding Expr) a = .ok (e, a')) :
      a = a' ∧ e = .call m x args := by
    split at h
    · obtain ⟨rfl, rfl⟩ := pure_eq_ok.1 h
      exact ⟨rfl, rfl⟩
    · cases fail_eq_ok.1 h
  have asked {sequential condition : Bool} {value : Expr} (h : (if sequential then do contained value (← ofResult (sequenceOf x))
      else if condition then pure (.call m x args) else fail (.unsupportedExpression (.member x.ty.name m.name)) :
        Binding Expr) a = .ok (e, a')) : a = a' ∧ e = .call m x args := by
    split at h
    · obtain ⟨sequence, a₁, found, -⟩ := bind_eq_ok.1 h
      exact absurd (ofResult_eq_ok.1 found).1 (sequenceOf_fits fits sequence)
    · exact known h
  unfold call at h
  split at h
  · cases fail_eq_ok.1 h
  · split at h
    · cases fail_eq_ok.1 h
    · split at h
      · exact asked h
      · cases node
      · exact known h

/-! ## Bodies -/

section Bodies

variable (base db V Γ) in
/-- A bound expression that fits and has these values. -/
structure Expr.Means (value : Env Value → Value) (e : Expr) : Prop extends e.Fits V Γ where
  eval : ∀ σ : Env Value, e.eval base.evaluating db σ [σ] = value σ

variable {catalog : Catalog} {scope : Scope} {param : Env Value → String → Value} {ρ : Env Value} {γ : List (Env Value)}
  {a a' : Alias}

variable (base db V Γ catalog scope param ρ γ) in
/-- What is shown of a part of a body: it is bound to an expression with its values. -/
def Expr.BindsTo (x : Expr) : Prop :=
  ∀ a a' e, x.bind catalog scope a = .ok (e, a') → a = a' ∧
    e.Means base db V Γ fun σ => x.eval (base.evaluating.withParam (param σ)) db ρ γ

theorem bindAll_means {es es' : List Expr} (each : ∀ x ∈ es, x.BindsTo base db V Γ catalog scope param ρ γ)
    (h : bindAll catalog scope es a = .ok (es', a')) : a = a' ∧
      List.Forall₂ (fun x x' => x'.Means base db V Γ fun σ => x.eval (base.evaluating.withParam (param σ)) db ρ γ) es es' := by
  induction es generalizing a es' with
  | nil =>
    obtain ⟨rfl, rfl⟩ := Binding.pure_eq_ok.1 h
    exact ⟨rfl, .nil⟩
  | cons e es ih =>
    rw [List.forall_mem_cons] at each
    rw [bindAll] at h
    obtain ⟨x, a₁, first, h⟩ := Binding.bind_eq_ok.1 h
    obtain ⟨xs, a₂, rest, h⟩ := Binding.bind_eq_ok.1 h
    obtain ⟨rfl, rfl⟩ := Binding.pure_eq_ok.1 h
    obtain ⟨rfl, head⟩ := each.1 a a₁ x first
    obtain ⟨rfl, tail⟩ := ih each.2 rest
    exact ⟨rfl, .cons head tail⟩

/-- A leaf of a body is bound to what it stands for. -/
theorem Expr.bind_leaf (params : ∀ name e, scope.lookup name = some e → e.Means base db V Γ fun σ => param σ name) {x : Expr}
    (leaf : (V.grammar catalog).leaf x) : x.BindsTo base db V Γ catalog scope param ρ γ := by
  intro a a' e h
  cases x <;> simp only [Grammar.leaf, Vocabulary.grammar] at leaf <;> rw [bind.eq_def] at h
  case param name =>
    cases found : scope.lookup name with
    | some x =>
      simp only [found] at h
      obtain ⟨rfl, rfl⟩ := Binding.pure_eq_ok.1 h
      exact ⟨rfl, params name _ found⟩
    | none =>
      simp only [found] at h
      cases Binding.fail_eq_ok.1 h
  case «variable» name v t =>
    obtain ⟨rfl, rfl⟩ := Binding.pure_eq_ok.1 h
    exact ⟨rfl, .constant (.inl leaf), fun _ => rfl⟩
  case constant v t =>
    obtain ⟨rfl, rfl⟩ := Binding.pure_eq_ok.1 h
    exact ⟨rfl, .constant (.inl leaf), fun _ => rfl⟩
  case hostParameter v t =>
    obtain ⟨rfl, rfl⟩ := Binding.pure_eq_ok.1 h
    exact ⟨rfl, ⟨.leaf rfl, .inl leaf⟩, fun _ => rfl⟩

/-- Bound operands have the values of the operands. -/
theorem eval_of_means {es es' : List Expr} (all : List.Forall₂ (fun x x' => x'.Means base db V Γ fun σ =>
      x.eval (base.evaluating.withParam (param σ)) db ρ γ) es es') (σ : Env Value) :
    es'.map (Expr.eval base.evaluating db σ [σ]) = es.map (Expr.eval (base.evaluating.withParam (param σ)) db ρ γ) := by
  rw [← List.forall₂_eq_eq_eq, List.forall₂_map_left_iff, List.forall₂_map_right_iff]
  exact (all.imp fun _ _ means => means.eval σ).flip

/-- An operator of a body is bound to an expression with its values. -/
theorem Expr.bind_operator (clear : V.Clear) {x : Expr} (operates : x.isOperator = true) (node : V.operator x)
    (ih : ∀ y ∈ x.operands, y.BindsTo base db V Γ catalog scope param ρ γ) : x.BindsTo base db V Γ catalog scope param ρ γ := by
  intro a a' e h
  rw [bind_assembles operates (by rintro _ _ rfl; cases node.1)] at h
  obtain ⟨es, a₁, bound, made⟩ := Binding.bind_eq_ok.1 h
  obtain ⟨rfl, all⟩ := bindAll_means ih bound
  have fits : ∀ y ∈ es, y.Fits V Γ := forall_right all fun _ _ means => means.toFits
  cases x <;> simp only [isOperator, Bool.false_eq_true] at operates
  case binary op l r =>
    obtain - | ⟨left, - | ⟨right, - | -⟩⟩ := all
    obtain ⟨bound, rfl⟩ := Binding.ofResult_eq_ok.1 made
    obtain ⟨fits, eval⟩ := (Binding.operator_sound left.toFits right.toFits).ok e bound
    refine ⟨rfl, fits, fun σ => ?_⟩
    rw [eval, left.eval, right.eval]
    rfl
  case member y name =>
    obtain - | ⟨operand, - | -⟩ := all
    obtain ⟨bound, rfl⟩ := Binding.ofResult_eq_ok.1 made
    obtain ⟨fits, eval⟩ := ((Binding.memberCases clear node.2).yields _).ok e bound operand.toFits
    refine ⟨rfl, fits, fun σ => ?_⟩
    rw [eval, operand.eval]
    rfl
  case call m y args =>
    obtain - | @⟨_, y', _, args', operand, arguments⟩ := all
    have scalar : (Expr.call m y' args').isScalarOperator = true := by cases m <;> exact node.1
    obtain ⟨rfl, rfl⟩ := Binding.call_eq scalar operand.toFits made
    refine ⟨rfl, .operator rfl ⟨scalar, trivial⟩ fits, fun σ => ?_⟩
    rw [Expr.eval, Expr.eval, operand.eval, evalAll_eq, evalAll_eq, eval_of_means arguments]
    rfl
  case conditional test yes no =>
    obtain - | ⟨tested, - | ⟨taken, - | ⟨refused, - | -⟩⟩⟩ := all
    obtain ⟨rfl, rfl⟩ := Binding.pure_eq_ok.1 made
    refine ⟨rfl, .operator rfl ⟨rfl, trivial⟩ fits, fun σ => ?_⟩
    rw [withOperands, Expr.eval, tested.eval, taken.eval, refused.eval]
    rfl
  case record r ms =>
    obtain ⟨rfl, rfl⟩ := Binding.pure_eq_ok.1 made
    have members := forall₂_members all
    have names : ∀ m ∈ withExprs ms es, V.field m.name :=
      forall_right (forall₂_with_mem members) fun m m' means => means.2.2.1 ▸ node.2 m means.1
    have fields (σ : Env Value) : (withExprs ms es).map (fun m => (m.name, m.expr.eval base.evaluating db σ [σ])) =
        ms.map fun m => (m.name, m.expr.eval (base.evaluating.withParam (param σ)) db ρ γ) :=
      map_eq_of_forall₂ members fun _ _ means => Prod.ext means.1 (means.2.eval σ)
    refine ⟨rfl, .operator rfl ⟨rfl, names⟩ (List.forall_mem_map.2 (forall_right members fun _ _ means => means.2.toFits)), fun σ => ?_⟩
    rw [Expr.eval, Expr.eval, evalNamed_eq, evalNamed_eq, fields]
    rfl
  case function name args t =>
    obtain ⟨rfl, rfl⟩ := Binding.pure_eq_ok.1 made
    refine ⟨rfl, .operator rfl ⟨rfl, trivial⟩ fits, fun σ => ?_⟩
    rw [withOperands, Expr.eval, Expr.eval, evalAll_eq, evalAll_eq, eval_of_means all]
    rfl
  case group => cases node.1
  all_goals
    obtain - | ⟨operand, - | -⟩ := all
    obtain ⟨rfl, rfl⟩ := Binding.pure_eq_ok.1 made
    refine ⟨rfl, .operator rfl ⟨rfl, trivial⟩ fits, fun σ => ?_⟩
    rw [withOperands, Expr.eval, operand.eval]
    rfl

/-- A body is bound to an expression that has its values, where its parameters have the values of what they stand for. -/
theorem Expr.bind_means (clear : V.Clear)
    (params : ∀ name e, scope.lookup name = some e → e.Means base db V Γ fun σ => param σ name) {x : Expr}
    (built : x.Built (V.grammar catalog).leaf V.operator) : x.BindsTo base db V Γ catalog scope param ρ γ := by
  induction built with
  | leaf leaf => exact bind_leaf params leaf
  | operator operates node _ ih => exact bind_operator clear operates node ih

end Bodies

end Relational

import Relational.Proofs.Compilation.Bodies
import Relational.Proofs.Folding.NormalForm

/-!
# Binding what can be evaluated

Members, comparisons and calls have a meaning on values, and binding has another way to get at them: it takes members out of records
that are constructed, compares such records member by member, and looks for elements in known lists. Where the two ways do not come apart in
an operator, an expression that is evaluated has the same value after it is bound (`Expr.evaluate_bind`).
-/

namespace Relational

/-- Both ways to read an operator come to the same. Records are equal as a whole if their members are, no member of a record is taken for the
record itself or for its presence, nothing absent is asked whether it equals something, and a list is not searched like a text. -/
structure Expr.ReadsAlike (e : Expr) : Prop where
  comparison : e.ComparesAlike
  member : ∀ x name n fs, e = .member x name → x.evaluate = .ok (.record n fs) → name ≠ "Value" ∧ name ≠ "HasValue"
  equals : ∀ x args, e = .call .equals x args → x.evaluate ≠ .ok .null
  contains : ∀ x args, e = .call .contains x args → ∀ vs, x.evaluate ≠ .ok (.list vs)

variable {e e' l r x : Expr} {a b v : Value} {name : String}

/-! ## Comparisons -/

namespace Value

theorem nullSafeEq_of_same {a b : Value} (h : a.same b = true) : a.nullSafeEq b = true := by
  unfold nullSafeEq
  split
  · rfl
  · cases b <;> contradiction
  · cases a <;> contradiction
  · rw [h, Bool.or_true]

theorem equalMembers_of_same {a b : Value} (h : a.same b = true) : a.equalMembers b = true := by
  induction a using Value.induction generalizing b with
  | record n fs ih =>
    cases b with
    | record n' fs' =>
      rw [same, Bool.and_eq_true] at h
      replace h := h.2
      rw [equalMembers]
      induction fs generalizing fs' with
      | nil => cases fs' <;> first | rfl | cases h
      | cons f fs rest =>
        cases fs' with
        | nil => cases h
        | cons f' fs' =>
          rw [List.forall_mem_cons] at ih
          simp only [sameFields, Bool.and_eq_true] at h
          rw [equalFields, ih.1 h.1.2, rest ih.2 fs' h.2]
          rfl
    | _ => cases h
  | scalar v scalar => cases v <;> first | exact nullSafeEq_of_same h | cases scalar
  | _ => exact nullSafeEq_of_same h

/-- Values that are equal as a whole are equal member by member. -/
theorem equalMembers_of_nullSafeEq {a b : Value} (h : a.nullSafeEq b = true) : a.equalMembers b = true := by
  cases a <;> try exact h
  case record n fs =>
    cases b <;> try exact h
    case record n' fs' => exact equalMembers_of_same h

end Value

/-- A condition that says whether two values are equal: it holds if they are so as a whole, and only if their members are. -/
def Expr.Equates (e : Expr) (a b : Value) : Prop :=
  ∃ c, e.evaluate = .ok (.bool c) ∧ (a.nullSafeEq b = true → c = true) ∧ (c = true → a.equalMembers b = true)

theorem Expr.Equates.eq (left : l.evaluate = .ok a) (right : r.evaluate = .ok b) : (Expr.binary .eq l r).Equates a b :=
  ⟨a.nullSafeEq b, by rw [evaluate, left, right]; rfl, id, Value.equalMembers_of_nullSafeEq⟩

theorem Expr.evaluate_conjunction {parts : List Expr} {bs : List Bool} (each : List.Forall₂ (fun x b => x.evaluate = .ok (.bool b)) parts bs) :
    ((Expr.conjunction parts).getD (.ofBool true)).evaluate = .ok (.bool (bs.all id)) := by
  have joined {x : Expr} {b : Bool} (first : x.evaluate = .ok (.bool b)) {parts : List Expr} {bs : List Bool}
      (each : List.Forall₂ (fun x b => x.evaluate = .ok (.bool b)) parts bs) :
      (parts.foldl (Expr.binary .and) x).evaluate = .ok (.bool (b && bs.all id)) := by
    induction each generalizing x b with
    | nil => rw [List.foldl_nil, first, List.all_nil, Bool.and_true]
    | cons next _ ih =>
      rw [List.foldl_cons, ih (b := b && _) (by rw [evaluate, first, next]; rfl), List.all_cons, Bool.and_assoc]
      rfl
  cases each with
  | nil => rfl
  | cons first rest => exact joined first rest

theorem Compared.evaluate {ms ms' : List Named} {fs fs' : List (String × Value)} {parts : List Expr}
    (compared : Binding.Compared (fun l r e => ∀ a b, l.evaluate = .ok a → r.evaluate = .ok b → e.Equates a b) ms ms' parts)
    (left : evaluateMembers ms = .ok fs) (right : evaluateMembers ms' = .ok fs') :
    ∃ bs, List.Forall₂ (fun x b => x.evaluate = .ok (.bool b)) parts bs ∧ (Value.sameFields fs fs' = true → bs.all id = true) ∧
      (bs.all id = true → equalFields fs fs' = true) := by
  induction compared generalizing fs fs' with
  | nil =>
    cases left
    cases right
    exact ⟨[], .nil, id, id⟩
  | cons head _ ih =>
    obtain ⟨a, first, left⟩ := Result.bind_eq_ok.1 left
    obtain ⟨gs, more, left⟩ := Result.bind_eq_ok.1 left
    obtain ⟨b, first', right⟩ := Result.bind_eq_ok.1 right
    obtain ⟨gs', more', right⟩ := Result.bind_eq_ok.1 right
    cases left
    cases right
    obtain ⟨c, part, whole, members⟩ := head a b first first'
    obtain ⟨bs, parts, wholes, all⟩ := ih more more'
    refine ⟨c :: bs, .cons part parts, ?_, ?_⟩
    · simp only [Value.sameFields, List.all_cons, Bool.and_eq_true]
      exact fun same => ⟨whole (Value.nullSafeEq_of_same same.1.2), wholes same.2⟩
    · simp only [equalFields, List.all_cons, Bool.and_eq_true]
      exact fun same => ⟨members same.1, all same.2⟩

/-- What equality is bound to compares the values. -/
theorem Expr.equates_equality : Binding.EqualityCases fun l r e => ∀ a b, l.evaluate = .ok a → r.evaluate = .ok b → e.Equates a b where
  whole _ _ _ := .eq
  members compared a b left right := by
    obtain ⟨fs, first, same⟩ := Result.bind_eq_ok.1 left
    obtain ⟨fs', second, same'⟩ := Result.bind_eq_ok.1 right
    cases same
    cases same'
    obtain ⟨bs, parts, whole, all⟩ := Compared.evaluate compared first second
    refine ⟨_, evaluate_conjunction parts, fun same => whole ?_, all⟩
    exact (Bool.and_eq_true_iff.1 same).2

theorem Expr.evaluate_operatorBound {op : BinaryOp} (left : l.evaluate = .ok a) (right : r.evaluate = .ok b)
    (alike : op = .eq ∨ op = .ne → a.equalMembers b = a.nullSafeEq b) (given : Value.binary op a b = .ok v) :
    (Binding.operator op l r).Yields fun e => e.evaluate = .ok v := by
  have compared (equality : op = .eq ∨ op = .ne) {e : Expr} (equates : e.Equates a b) : e.evaluate = .ok (.bool (a.nullSafeEq b)) := by
    obtain ⟨c, evaluated, whole, members⟩ := equates
    rw [evaluated, Bool.eq_iff_iff.2 ⟨fun holds => (alike equality).symm.trans (members holds), whole⟩]
  refine equates_equality.operator ?_ ?_ ?_
  · rintro rfl e equates
    rw [compared (.inl rfl) (equates a b left right)]
    exact given
  · rintro rfl e equates
    rw [Expr.not, evaluate, compared (.inr rfl) (equates a b left right)]
    exact given
  · rw [evaluate, left, right]
    exact given

/-! ## Members -/

theorem lookup?_evaluateMembers {ms : List Named} {fs : List (String × Value)} {m : Named} (h : evaluateMembers ms = .ok fs)
    (found : ms.find? (·.name == name) = some m) : ∃ v, m.expr.evaluate = .ok v ∧ Value.lookup? fs name = some v := by
  induction ms generalizing fs with
  | nil => cases found
  | cons m' ms ih =>
    obtain ⟨name', e⟩ := m'
    obtain ⟨a, first, h⟩ := Result.bind_eq_ok.1 h
    obtain ⟨gs, rest, h⟩ := Result.bind_eq_ok.1 h
    cases h
    rw [List.find?_cons] at found
    rw [Value.lookup?, List.find?_cons]
    dsimp only at found ⊢
    split at found
    · cases found
      exact ⟨a, first, rfl⟩
    · exact ih rest found

theorem Expr.evaluate_member : Binding.MemberCases name fun x e => ∀ a v, x.evaluate = .ok a →
    (∀ n fs, a = .record n fs → name ≠ "Value" ∧ name ≠ "HasValue") → a.member name = .ok v → e.evaluate = .ok v where
  record found a v evaluated clear given := by
    obtain ⟨fs, members, same⟩ := Result.bind_eq_ok.1 evaluated
    cases same
    obtain ⟨w, evaluated, found⟩ := lookup?_evaluateMembers members found
    rw [evaluated, ← given, Value.member_record (clear _ _ rfl) found]
  known found a v evaluated clear given := by
    cases evaluated
    rw [← given, Value.member_record (clear _ _ rfl) found]
    rfl
  conditional {_ _ _ yes' no'} yes no a v evaluated clear given := by
    obtain ⟨c, tested, branch⟩ := Result.bind_eq_ok.1 evaluated
    rw [evaluate, tested]
    show (if c.isTrue then yes'.evaluate else no'.evaluate) = _
    split at branch
    · next holds =>
      rw [if_pos holds]
      exact yes a v branch clear given
    · next fails =>
      rw [if_neg fails]
      exact no a v branch clear given
  key _ a v evaluated := by cases evaluated
  hasValue := by
    rintro x rfl a v evaluated clear given
    rw [evaluate, evaluated]
    cases a <;> exact given
  value := by
    rintro x rfl a v evaluated clear given
    rw [evaluated]
    cases a <;> first | exact given | cases given
  own a v evaluated clear given := by
    rw [evaluate, evaluated]
    exact given

/-! ## Calls -/

theorem Binding.sequenceOf_evaluate {sequence : Sequence} (evaluated : x.evaluate = .ok a) (h : sequenceOf x = .ok sequence) : ∃ vs, a = .list vs := by
  unfold sequenceOf at h
  split at h
  · cases evaluated
  · cases evaluated
  · cases h
  · cases evaluated
    exact ⟨_, rfl⟩
  · cases h

theorem Expr.evaluate_call {m : Method} {args : List Expr} {vs : List Value} {s s' : Alias} (target : x.evaluate = .ok a)
    (arguments : evaluateAll args = .ok vs) (equals : m = .equals → a ≠ .null) (contains : m = .contains → ∀ vs, a ≠ .list vs)
    (h : Binding.call m x args s = .ok (e, s')) (given : Value.invoke m a vs = .ok v) : e.evaluate = .ok v := by
  have known {condition : Bool} {error : Error} (h : (if condition then pure (.call m x args) else Binding.fail error : Binding Expr) s = .ok (e, s')) :
      e.evaluate = .ok v := by
    split at h
    · obtain ⟨rfl, rfl⟩ := Binding.pure_eq_ok.1 h
      rw [evaluate, arguments, target]
      exact given
    · cases h
  unfold Binding.call at h
  split at h
  · cases h
  · split at h
    · cases h
    · split at h
      · split at h
        · cases target
        · split at h
          · obtain ⟨sequence, s₁, found, -⟩ := Binding.bind_eq_ok.1 h
            obtain ⟨vs, same⟩ := Binding.sequenceOf_evaluate target (Binding.ofResult_eq_ok.1 found).1
            cases contains rfl vs same
          · exact known h
      · split at h
        · next applies =>
          -- the target fits a column, so it is no record that is constructed
          have whole (other : Expr) : Binding.equality x other = .ok (.binary .eq x other) := by cases x <;> first | rfl | cases applies
          rw [whole, Binding.ofResult_eq_ok] at h
          obtain ⟨⟨⟩, rfl⟩ := h
          obtain ⟨b, first, rest⟩ := Result.bind_eq_ok.1 arguments
          obtain ⟨ws, -, rest⟩ := Result.bind_eq_ok.1 rest
          cases rest
          rw [evaluate, target, first, ← given]
          cases a <;> first | rfl | cases equals rfl rfl
        · cases h
      · exact known h

/-! ## Bodies -/

section Bodies

variable {catalog : Catalog} {scope : Scope}

variable (catalog scope) in
/-- An expression that is evaluated has its value after it is bound. -/
def Expr.KeepsValue (x : Expr) : Prop :=
  ∀ {e' : Expr} {v : Value} {s s' : Alias}, x.bind catalog scope s = .ok (e', s') → x.evaluate = .ok v → e'.evaluate = .ok v

/-- A value of the one is a value of the other. -/
def Expr.ValuedAs (x x' : Expr) : Prop := ∀ v, x.evaluate = .ok v → x'.evaluate = .ok v

theorem evaluateAll_valued {es es' : List Expr} {vs : List Value} (all : List.Forall₂ Expr.ValuedAs es es')
    (given : evaluateAll es = .ok vs) : evaluateAll es' = .ok vs := by
  induction all generalizing vs with
  | nil => exact given
  | cons head _ ih =>
    obtain ⟨v, first, given⟩ := Result.bind_eq_ok.1 given
    obtain ⟨ws, rest, given⟩ := Result.bind_eq_ok.1 given
    cases given
    rw [evaluateAll, head v first, ih rest]
    rfl

theorem evaluateMembers_valued {ms ms' : List Named} {fs : List (String × Value)}
    (all : List.Forall₂ (fun m m' => m'.name = m.name ∧ m.expr.ValuedAs m'.expr) ms ms') (given : evaluateMembers ms = .ok fs) :
    evaluateMembers ms' = .ok fs := by
  induction all generalizing fs with
  | nil => exact given
  | @cons m m' _ _ head _ ih =>
    cases m
    cases m'
    obtain ⟨rfl, head⟩ := head
    obtain ⟨v, first, given⟩ := Result.bind_eq_ok.1 given
    obtain ⟨ws, rest, given⟩ := Result.bind_eq_ok.1 given
    cases given
    rw [evaluateMembers, head v first, ih rest]
    rfl

theorem Expr.keepsValue_operator (operates : e.isOperator = true) (closed : e.isClosed = true) (alike : e.ReadsAlike)
    (ih : ∀ x ∈ e.operands, x.KeepsValue catalog scope) : e.KeepsValue catalog scope := by
  intro e' v s s' h given
  rw [bind_assembles operates (by rintro _ _ rfl; cases given)] at h
  obtain ⟨es, s₁, bound, made⟩ := Binding.bind_eq_ok.1 h
  have all : List.Forall₂ ValuedAs e.operands es := by
    refine (forall₂_with_mem (bindAll_eq_ok bound)).imp ?_
    rintro x x' ⟨mem, -, _, _, bound⟩ v
    exact ih x mem bound
  cases e <;> simp only [isOperator, Bool.false_eq_true] at operates
  case binary op l r =>
    obtain - | ⟨left, - | ⟨right, - | -⟩⟩ := all
    obtain ⟨bound, rfl⟩ := Binding.ofResult_eq_ok.1 made
    obtain ⟨a, first, rest⟩ := Result.bind_eq_ok.1 given
    obtain ⟨b, second, rest⟩ := Result.bind_eq_ok.1 rest
    have compares (equality) := alike.comparison op l r rfl equality closed a b first second
    exact (evaluate_operatorBound (left a first) (right b second) compares rest).ok _ bound
  case member x name =>
    obtain - | ⟨operand, - | -⟩ := all
    obtain ⟨bound, rfl⟩ := Binding.ofResult_eq_ok.1 made
    obtain ⟨a, evaluated, rest⟩ := Result.bind_eq_ok.1 given
    refine (evaluate_member.yields _).ok _ bound a v (operand a evaluated) ?_ rest
    rintro n fs rfl
    exact alike.member x name n fs rfl evaluated
  case call m x args =>
    obtain - | ⟨target, arguments⟩ := all
    obtain ⟨vs, listed, rest⟩ := Result.bind_eq_ok.1 given
    obtain ⟨a, evaluated, rest⟩ := Result.bind_eq_ok.1 rest
    refine evaluate_call (target a evaluated) (evaluateAll_valued arguments listed) ?_ ?_ made rest
    · rintro rfl rfl
      exact alike.equals x args rfl evaluated
    · rintro rfl vs rfl
      exact alike.contains x args rfl vs evaluated
  case conditional test yes no =>
    obtain - | ⟨tested, - | ⟨taken, - | ⟨refused, - | -⟩⟩⟩ := all
    obtain ⟨rfl, rfl⟩ := Binding.pure_eq_ok.1 made
    obtain ⟨c, condition, branch⟩ := Result.bind_eq_ok.1 given
    rw [withOperands, evaluate, tested c condition]
    show (if c.isTrue then _ else _) = _
    split at branch
    · next holds =>
      rw [if_pos holds]
      exact taken v branch
    · next fails =>
      rw [if_neg fails]
      exact refused v branch
  case record r ms =>
    obtain ⟨rfl, rfl⟩ := Binding.pure_eq_ok.1 made
    obtain ⟨fs, listed, rest⟩ := Result.bind_eq_ok.1 given
    rw [evaluate, evaluateMembers_valued (forall₂_members all) listed]
    exact rest
  case function | group => cases given
  all_goals
    obtain - | ⟨operand, - | -⟩ := all
    obtain ⟨rfl, rfl⟩ := Binding.pure_eq_ok.1 made
    obtain ⟨a, evaluated, rest⟩ := Result.bind_eq_ok.1 given
    rw [withOperands, evaluate, operand a evaluated]
    exact rest

/-- A closed expression that is evaluated has the same value after it is bound. -/
theorem Expr.evaluate_bind (alike : e.Built (·.isOperator = false) ReadsAlike) (closed : e.isClosed = true) {s s' : Alias}
    (h : e.bind catalog scope s = .ok (e', s')) (given : e.evaluate = .ok v) : e'.evaluate = .ok v := by
  induction alike generalizing e' v s s' with
  | @leaf e leaf =>
    cases e <;> simp only [isOperator, Bool.true_eq_false] at leaf <;> first | (cases closed; done) | skip
    all_goals
      obtain ⟨rfl, rfl⟩ := Binding.pure_eq_ok.1 h
      exact given
  | @operator e operates node parts ih =>
    exact keepsValue_operator operates closed node (fun x mem => ih x mem (isClosed_operands closed x mem)) h given

/-- `Line{price: 2, count: null}.price == 2` -/
def Expr.linePrice : Expr :=
  .binary .eq (.member (.record ⟨"Line", [("price", .i64), ("count", .nullable .i64)]⟩
    [⟨"price", .constant (.int 2) .i64⟩, ⟨"count", .constant .null (.nullable .i64)⟩]) "price") (.constant (.int 2) .i64)

theorem evaluate_bind_linePrice : Expr.linePrice.Built (·.isOperator = false) Expr.ReadsAlike ∧
    Expr.linePrice.bind ⟨[]⟩ [] ⟨0⟩ = .ok (.binary .eq (.constant (.int 2) .i64) (.constant (.int 2) .i64), ⟨0⟩) ∧
    (Expr.binary .eq (.constant (.int 2) .i64) (.constant (.int 2) .i64)).evaluate = .ok (.bool true) := by
  have alike : Expr.linePrice.Built (·.isOperator = false) Expr.ReadsAlike := by
    refine .operator rfl ⟨?_, ?_, ?_, ?_⟩ ?_
    · rintro _ _ _ ⟨⟩ - - _ _ ⟨⟩ ⟨⟩
      rfl
    · rintro _ _ _ _ ⟨⟩
    · rintro _ _ ⟨⟩
    · rintro _ _ ⟨⟩
    · refine List.forall_mem_cons.2 ⟨.operator rfl ⟨?_, ?_, ?_, ?_⟩ ?_, List.forall_mem_singleton.2 (.leaf rfl)⟩
      · rintro _ _ _ ⟨⟩
      · rintro _ _ _ _ ⟨⟩ -
        decide
      · rintro _ _ ⟨⟩
      · rintro _ _ ⟨⟩
      · refine List.forall_mem_singleton.2 (.operator rfl ⟨?_, ?_, ?_, ?_⟩ ?_)
        · rintro _ _ _ ⟨⟩
        · rintro _ _ _ _ ⟨⟩
        · rintro _ _ ⟨⟩
        · rintro _ _ ⟨⟩
        · exact List.forall_mem_cons.2 ⟨.leaf rfl, List.forall_mem_singleton.2 (.leaf rfl)⟩
  have bound : Expr.linePrice.bind ⟨[]⟩ [] ⟨0⟩ = .ok (.binary .eq (.constant (.int 2) .i64) (.constant (.int 2) .i64), ⟨0⟩) := rfl
  exact ⟨alike, bound, Expr.evaluate_bind alike rfl bound rfl⟩

/-- Records of different types with the same members are equal once they are bound, and an absent value equals itself. -/
theorem evaluate_bind_differs :
    (Expr.binary .eq (.record ⟨"Left", []⟩ [⟨"n", .constant (.int 1) .i64⟩]) (.record ⟨"Right", []⟩ [⟨"n", .constant (.int 1) .i64⟩])).evaluate =
        .ok (.bool false) ∧
      (Expr.binary .eq (.record ⟨"Left", []⟩ [⟨"n", .constant (.int 1) .i64⟩]) (.record ⟨"Right", []⟩ [⟨"n", .constant (.int 1) .i64⟩])).bind
        ⟨[]⟩ [] ⟨0⟩ = .ok (.binary .eq (.constant (.int 1) .i64) (.constant (.int 1) .i64), ⟨0⟩) ∧
      (Expr.binary .eq (.constant (.int 1) .i64) (.constant (.int 1) .i64)).evaluate = .ok (.bool true) ∧
      (Expr.call .equals (.constant .null .i64) [.constant .null .i64]).evaluate = .ok .null ∧
      (Expr.call .equals (.constant .null .i64) [.constant .null .i64]).bind ⟨[]⟩ [] ⟨0⟩ =
        .ok (.binary .eq (.constant .null .i64) (.constant .null .i64), ⟨0⟩) ∧
      (Expr.binary .eq (.constant .null .i64) (.constant .null .i64)).evaluate = .ok (.bool true) := ⟨rfl, rfl, rfl, rfl, rfl, rfl⟩

end Bodies

end Relational

import Relational.Proofs.Binding.Columns
import Relational.Proofs.Binding.Outcomes

/-!
# Sets of expressions that binding keeps to

Binding takes members out of records, compares records member by member, and looks for values in lists. A set of expressions that has the
literals, and every operator with its operands, is closed under all of these; so a body whose parameters
stand for members of the set is bound to one (`Expr.binds_operator`).
-/

namespace Relational

/-! ## Steps -/

namespace Binding

variable {α β : Type} {a a' : Alias}

theorem bind_eq_ok {x : Binding α} {f : α → Binding β} {b : β} :
    (x >>= f) a = .ok (b, a') ↔ ∃ y a₁, x a = .ok (y, a₁) ∧ f y a₁ = .ok (b, a') := by
  show (x a >>= fun r => f r.1 r.2) = _ ↔ _
  rw [Result.bind_eq_ok]
  constructor
  · rintro ⟨⟨y, a₁⟩, first, second⟩
    exact ⟨y, a₁, first, second⟩
  · rintro ⟨y, a₁, first, second⟩
    exact ⟨(y, a₁), first, second⟩

theorem pure_eq_ok {x y : α} : (pure x : Binding α) a = .ok (y, a') ↔ x = y ∧ a = a' := by
  show Except.ok (x, a) = _ ↔ _
  simp

theorem fail_eq_ok {e : Error} {x : α} : (fail e : Binding α) a = .ok (x, a') ↔ False := by
  simp [fail]

theorem ofResult_eq_ok {r : Result α} {x : α} : ofResult r a = .ok (x, a') ↔ r = .ok x ∧ a = a' := by
  cases r with
  | error e => simp [ofResult, Except.map]
  | ok y => simp [ofResult, Except.map]

theorem asRows_eq_ok {s : Sequence} {p : Projection} : asRows s a = .ok (p, a') ↔ s = .rows p ∧ a = a' := by
  cases s with
  | memory => simp [asRows, fail]
  | rows p' => rw [asRows, pure_eq_ok, Sequence.rows.injEq]

theorem wrap_eq_ok {inner : Select} {e : Expr} {finish : Select → Select} {p : Projection} :
    wrap inner e finish a = .ok (p, a') ↔
      (⟨finish (.plain a (e.projectColumns a [inner.label]).columns (.select inner)), (e.projectColumns a [inner.label]).projector,
        none⟩ : Projection) = p ∧ a.next = a' := by
  show Except.ok (_, a.next) = Except.ok (p, a') ↔ _
  simp

theorem memoryItem_eq (t : Ty) (v : Value) :
    memoryItem t v = if !v.isNull && t.isColumn then .hostParameter v t else .constant v t := by
  cases fits : !v.isNull && t.isColumn <;>
    simp [memoryItem, Expr.parameterize, Expr.substitute.eq_def, parameterizing, Expr.parameter?, fits]

end Binding

open Binding

/-- Whatever a binding gives has a property, and the aliases that it takes are in order. It is not refused for an alias. -/
structure Binding.Gives {α : Type} (R : Alias → Alias → Prop) (P : α → Prop) (x : Binding α) : Prop where
  ok : ∀ a a' r, x a = .ok (r, a') → R a a' ∧ P r
  resolves : ∀ a, (x a).Resolves

namespace Binding.Gives

variable {α β : Type} {R : Alias → Alias → Prop} {P P' : α → Prop} {Q : β → Prop} {x : Binding α}

theorem pure (growth : IsGrowth R) {r : α} (h : P r) : (Pure.pure r : Binding α).Gives R P := by
  refine ⟨fun a a' r' given => ?_, fun a => .ok _⟩
  obtain ⟨rfl, rfl⟩ := pure_eq_ok.1 given
  exact ⟨growth.refl a, h⟩

theorem fail {e : Error} (other : e.isAliasFault = false) : (Binding.fail e : Binding α).Gives R P := by
  refine ⟨fun _ _ _ given => (fail_eq_ok.1 given).elim, ?_⟩
  rintro a fault ⟨⟩
  cases other

theorem bind (growth : IsGrowth R) {f : α → Binding β} (first : x.Gives R P) (next : ∀ r, P r → (f r).Gives R Q) : (x >>= f).Gives R Q := by
  refine ⟨fun a a' r given => ?_, fun a fault failed => ?_⟩
  · obtain ⟨y, a₁, before, after⟩ := bind_eq_ok.1 given
    obtain ⟨grows, h⟩ := first.ok a a₁ y before
    obtain ⟨more, h'⟩ := (next y h).ok a₁ a' r after
    exact ⟨growth.trans _ _ _ grows more, h'⟩
  · change (x a >>= fun r => f r.1 r.2) = _ at failed
    cases before : x a with
    | error e =>
      rw [before] at failed
      cases failed
      exact first.resolves a fault before
    | ok r =>
      rw [before] at failed
      exact (next r.1 (first.ok a r.2 r.1 before).2).resolves r.2 fault failed

theorem imp (h : x.Gives R P) (imp : ∀ r, P r → P' r) : x.Gives R P' :=
  ⟨fun a a' r given => ⟨(h.ok a a' r given).1, imp r (h.ok a a' r given).2⟩, h.resolves⟩

theorem ofResult (growth : IsGrowth R) {r : Result α} (h : r.Yields P) : (Binding.ofResult r).Gives R P := by
  refine ⟨fun a a' y given => ?_, fun a => h.resolves.map _⟩
  obtain ⟨taken, rfl⟩ := ofResult_eq_ok.1 given
  exact ⟨growth.refl a, h.ok y taken⟩

theorem ite {c : Prop} [Decidable c] {y : Binding α} (yes : c → x.Gives R P) (no : ¬ c → y.Gives R P) : (if c then x else y).Gives R P := by
  split
  · next holds => exact yes holds
  · next fails => exact no fails

theorem mapM (growth : IsGrowth R) {f : β → Binding α} {l : List β} (each : ∀ b ∈ l, (f b).Gives R P) :
    (l.mapM f).Gives R fun rs => ∀ r ∈ rs, P r := by
  induction l with
  | nil =>
    rw [List.mapM_nil]
    exact .pure growth (by rintro _ ⟨⟩)
  | cons b l ih =>
    rw [List.forall_mem_cons] at each
    rw [List.mapM_cons]
    exact each.1.bind growth fun _ first => (ih each.2).bind growth fun _ rest => .pure growth (List.forall_mem_cons.2 ⟨first, rest⟩)

end Binding.Gives

/-! ## Closed sets -/

/-- A set of expressions closed under operators, their operands and lists of values. Asking for an element of the rows of a statement
stays in the set too, and takes aliases in order. -/
structure ExprClosure (E : Expr → Prop) (R : Alias → Alias → Prop) : Prop where
  growth : IsGrowth R
  literal : ∀ {e : Expr}, e.isLiteral = true → E e
  operator : ∀ {e : Expr}, e.isOperator = true → (E e ↔ ∀ x ∈ e.operands, E x)
  inValues : ∀ {e : Expr} {vs : List Expr}, E e → (∀ v ∈ vs, E v) → E (.subquery (.inValues e vs))
  contained : ∀ {value : Expr} {p : Projection}, E value → E (.projection p) → (Binding.contained value (.rows p)).Gives R E

namespace ExprClosure

variable {E : Expr → Prop} {R : Alias → Alias → Prop} (closed : ExprClosure E R) {e l r x : Expr} {name : String}
include closed

theorem binary (op : BinaryOp) (left : E l) (right : E r) : E (.binary op l r) := by
  refine (closed.operator rfl).2 ?_
  simpa [Expr.operands] using ⟨left, right⟩

theorem not (within : E e) : E e.not := by
  refine (closed.operator rfl).2 ?_
  simpa [Expr.operands, Expr.not] using within

/-- Expressions joined by an operator. -/
theorem joined (op : BinaryOp) {parts : List Expr} (within : ∀ x ∈ parts, E x) :
    ∀ e ∈ Expr.joined op parts, E e := by
  cases parts with
  | nil => rintro _ ⟨⟩
  | cons first rest =>
    rintro _ ⟨⟩
    rw [List.forall_mem_cons] at within
    exact List.foldlRecOn rest (.binary op) within.1 fun _ left x mem => closed.binary op left (within.2 x mem)

theorem joined_getD (op : BinaryOp) {parts : List Expr} (within : ∀ x ∈ parts, E x) (b : Bool) :
    E ((Expr.joined op parts).getD (.ofBool b)) := by
  cases found : Expr.joined op parts with
  | none => exact closed.literal rfl
  | some e => exact closed.joined op within e found

/-! ## Comparisons and members -/

theorem equality : EqualityCases fun l r e => E l → E r → E e where
  whole _ := closed.binary .eq
  members compared left right := by
    refine closed.joined_getD .and ?_ true
    replace left := List.forall_mem_map.1 ((closed.operator rfl).1 left)
    replace right := List.forall_mem_map.1 ((closed.operator rfl).1 right)
    induction compared with
    | nil => rintro _ ⟨⟩
    | cons head _ ih =>
      rw [List.forall_mem_cons] at left right
      exact List.forall_mem_cons.2 ⟨head left.1 right.1, ih left.2 right.2⟩

theorem operatorBound {op : BinaryOp} (left : E l) (right : E r) : (Binding.operator op l r).Yields E :=
  closed.equality.operator (fun _ _ equal => equal left right) (fun _ _ equal => closed.not (equal left right)) (closed.binary op left right)

theorem memberCases : MemberCases name fun x e => E x → E e where
  record found within := (closed.operator rfl).1 within _ (List.mem_map_of_mem (List.mem_of_find?_eq_some found))
  known _ _ := closed.literal rfl
  conditional yes no within := by
    have parts := (closed.operator rfl).1 within
    simp only [Expr.operands, List.forall_mem_cons] at parts
    refine (closed.operator rfl).2 ?_
    simpa [Expr.operands] using ⟨parts.1, yes parts.2.1, no parts.2.2.1⟩
  key _ within := (closed.operator rfl).1 within _ List.mem_cons_self
  hasValue _ within := closed.binary .ne within (closed.literal rfl)
  value _ := id
  own within := by
    refine (closed.operator rfl).2 ?_
    simpa [Expr.operands] using within

theorem member (within : E x) : (Binding.member name x).Yields E :=
  (closed.memberCases.yields x).imp fun _ member => member within

/-! ## Calls -/

theorem containedInMemory (within : E x) (values : List Value) (element : Ty) :
    E (Binding.containedInMemory x values element) := by
  have items : ∀ v ∈ values.map (memoryItem element), E v := by
    refine List.forall_mem_map.2 fun v _ => closed.literal ?_
    rw [memoryItem_eq]
    split <;> rfl
  unfold Binding.containedInMemory
  split
  · exact closed.literal rfl
  · split
    · exact closed.inValues within items
    · exact closed.joined_getD .or (List.forall_mem_map.2 fun v mem => closed.binary .eq within (items v mem)) false

theorem sequenceOf (within : E x) :
    (Binding.sequenceOf x).Yields fun s => ∀ p, s = .rows p → E (.projection p) := by
  unfold Binding.sequenceOf
  split
  · exact .given (by rintro _ ⟨⟩; exact within)
  · refine .given ?_
    rintro _ ⟨⟩
    exact (closed.operator rfl).1 within _ (List.mem_cons_of_mem _ List.mem_cons_self)
  · exact .error rfl
  · exact .given (by rintro _ ⟨⟩)
  · exact .error rfl

theorem call (m : Method) {args : List Expr} (target : E x) (arguments : ∀ y ∈ args, E y) :
    (Binding.call m x args).Gives R E := by
  have growth := closed.growth
  have known {condition : Bool} : (if condition then pure (.call m x args) else
      fail (.unsupportedExpression (.member x.ty.name m.name)) : Binding Expr).Gives R E :=
    .ite (fun _ => .pure growth ((closed.operator rfl).2 (List.forall_mem_cons.2 ⟨target, arguments⟩))) fun _ => .fail rfl
  have asked {value : Expr} (argument : E value) : (do Binding.contained value (← ofResult (Binding.sequenceOf x)) : Binding Expr).Gives R E := by
    refine .bind growth (.ofResult growth (closed.sequenceOf target)) fun s within => ?_
    cases s with
    | rows p => exact closed.contained argument (within p rfl)
    | memory values element => exact .pure growth (closed.containedInMemory argument values element)
  unfold Binding.call
  refine .ite (fun _ => .fail rfl) fun _ => .ite (fun _ => .fail rfl) fun _ => ?_
  split
  · exact .ite (fun _ => asked (arguments _ List.mem_cons_self)) fun _ => known
  · refine .ite (fun _ => .ofResult growth ((closed.equality.yields _ _).imp fun _ equal => ?_)) fun _ => .fail rfl
    exact equal target (arguments _ List.mem_cons_self)
  · exact known

end ExprClosure

/-! ## Bodies -/

def withExprs (ms : List Named) (es : List Expr) : List Named := (ms.zip es).map fun m => ⟨m.1.name, m.2⟩

/-- What an operator is bound to, once its operands are bound. -/
def Expr.assemble : Expr → List Expr → Binding Expr
  | .binary op _ _, [l, r] => ofResult (operator op l r)
  | .member _ name, [x] => ofResult (Binding.member name x)
  | .call m _ _, x :: args => Binding.call m x args
  | .record r ms, es => pure (.record ⟨r.name, (withExprs ms es).map fun m => (m.name, m.expr.ty)⟩ (withExprs ms es))
  | e, es => pure (e.withOperands es)

theorem forall₂_members {Q : Expr → Expr → Prop} {ms : List Named} {es : List Expr} (all : List.Forall₂ Q (ms.map (·.expr)) es) :
    List.Forall₂ (fun m m' => m'.name = m.name ∧ Q m.expr m'.expr) ms (withExprs ms es) := by
  induction ms generalizing es with
  | nil => exact .nil
  | cons m ms ih =>
    cases all with
    | cons head tail => exact .cons ⟨rfl, head⟩ (ih tail)

section Bodies

variable {E : Expr → Prop} {R : Alias → Alias → Prop} {catalog : Catalog} {scope : Scope}

theorem bindNamed_eq (ms : List Named) : bindNamed catalog scope ms =
    withExprs ms <$> bindAll catalog scope (ms.map (·.expr)) := by
  induction ms with
  | nil => rfl
  | cons m ms ih =>
    cases m
    simp only [bindNamed, ih, List.map_cons, bindAll, map_eq_pure_bind, bind_assoc, pure_bind]
    rfl

theorem Expr.bind_assembles {x : Expr} (operates : x.isOperator = true) (plain : ∀ key elements, x ≠ .group key elements) :
    x.bind catalog scope = bindAll catalog scope x.operands >>= x.assemble := by
  cases x <;> simp only [isOperator, Bool.false_eq_true] at operates
  case group key elements => cases plain key elements rfl
  all_goals
    simp only [bind, operands, bindAll, bindNamed_eq, map_eq_pure_bind, bind_assoc, pure_bind]
    rfl

/-- Each of a list of expressions is bound. -/
theorem bindAll_eq_ok {es es' : List Expr} {a a' : Alias} (h : bindAll catalog scope es a = .ok (es', a')) :
    List.Forall₂ (fun x x' => ∃ a a', x.bind catalog scope a = .ok (x', a')) es es' := by
  induction es generalizing a a' es' with
  | nil =>
    obtain ⟨rfl, -⟩ := pure_eq_ok.1 h
    exact .nil
  | cons e es ih =>
    obtain ⟨x, a₁, first, h⟩ := bind_eq_ok.1 h
    obtain ⟨xs, a₂, rest, h⟩ := bind_eq_ok.1 h
    obtain ⟨rfl, -⟩ := pure_eq_ok.1 h
    exact .cons ⟨a, a₁, first⟩ (ih rest)

variable (catalog scope E R) in
/-- An expression is bound to one of the set, if at all; the next alias grows. -/
def Expr.BindsInto (x : Expr) : Prop := (x.bind catalog scope).Gives R E

theorem bindAll_into (growth : IsGrowth R) {es : List Expr} (each : ∀ x ∈ es, x.BindsInto E R catalog scope) :
    (bindAll catalog scope es).Gives R fun es' => List.Forall₂ (fun _ x => E x) es es' := by
  induction es with
  | nil => exact .pure growth .nil
  | cons e es ih =>
    rw [List.forall_mem_cons] at each
    exact each.1.bind growth fun _ head => (ih each.2).bind growth fun _ tail => .pure growth (.cons head tail)

/-- An operator is bound into a closed set if its operands are. -/
theorem Expr.binds_operator (closed : ExprClosure E R) {x : Expr} (operates : x.isOperator = true)
    (plain : ∀ key elements, x ≠ .group key elements) (ih : ∀ y ∈ x.operands, y.BindsInto E R catalog scope) :
    x.BindsInto E R catalog scope := by
  have growth := closed.growth
  rw [BindsInto, bind_assembles operates plain]
  refine (bindAll_into growth ih).bind growth fun es within => ?_
  have rebuilt : E (x.withOperands es) := by
    refine (closed.operator ((x.isOperator_withOperands es).trans operates)).2 ?_
    rw [operands_withOperands operates within.length_eq.symm]
    exact forall_right within fun _ _ => id
  cases x <;> simp only [isOperator, Bool.false_eq_true] at operates
  case binary op l r =>
    obtain - | ⟨left, - | ⟨right, - | -⟩⟩ := within
    exact .ofResult growth (closed.operatorBound left right)
  case member y name =>
    obtain - | ⟨operand, - | -⟩ := within
    exact .ofResult growth (closed.member operand)
  case call m y args =>
    obtain - | ⟨target, arguments⟩ := within
    exact closed.call m target (forall_right arguments fun _ _ => id)
  case record r ms => exact .pure growth ((closed.operator rfl).2 ((closed.operator (e := .record r (withExprs ms es)) rfl).1 rebuilt))
  case group key elements => cases plain key elements rfl
  all_goals exact .pure growth rebuilt

end Bodies

end Relational

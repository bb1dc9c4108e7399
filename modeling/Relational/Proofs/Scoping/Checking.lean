import Relational.Projection.Scope
import Relational.Proofs.Tree.Shapes

/-!
# What the scope check accepts

A tree is scoped if each of its references is to an alias in scope (`Projection.Scoped`). Where no alias is declared twice, however deep, the
scope check accepts exactly the projections that are scoped among nothing (`Projection.check_iff`), and they refer to nothing but
their own aliases (`Projection.Scoped.referenced`).
-/

namespace Relational

mutual

/-- Whether the references of an expression are to these aliases, or to those of its own statements where they are seen. -/
def Expr.Scoped (scope : List Alias) : Expr → Prop
  | .param _ | .variable _ _ _ | .constant _ _ | .hostParameter _ _ | .query _ => True
  | .column c => c.label ∈ scope
  | .binary _ l r => l.Scoped scope ∧ r.Scoped scope
  | .unary _ x | .member x _ | .convert x _ => x.Scoped scope
  | .call _ x args => x.Scoped scope ∧ scopedAll scope args
  | .conditional test yes no => test.Scoped scope ∧ yes.Scoped scope ∧ no.Scoped scope
  | .record _ ms => scopedNamed scope ms
  | .function _ args _ => scopedAll scope args
  | .group key elements => key.Scoped scope ∧ elements.Scoped scope
  | .aggregate _ x _ _ => scopedOption scope x
  | .subquery s => s.Scoped scope
  | .projection p => p.Scoped scope

def scopedAll (scope : List Alias) : List Expr → Prop
  | [] => True
  | e :: es => e.Scoped scope ∧ scopedAll scope es

def scopedOption (scope : List Alias) : Option Expr → Prop
  | none => True
  | some e => e.Scoped scope

def scopedNamed (scope : List Alias) : List Named → Prop
  | [] => True
  | ⟨_, e⟩ :: ms => e.Scoped scope ∧ scopedNamed scope ms

def scopedKeys (scope : List Alias) : List OrderKey → Prop
  | [] => True
  | ⟨e, _⟩ :: ks => e.Scoped scope ∧ scopedKeys scope ks

def Subquery.Scoped (scope : List Alias) : Subquery → Prop
  | .scalar s _ | .exists s => s.Scoped scope
  | .inSelect e s => e.Scoped scope ∧ s.Scoped scope
  | .inValues e vs => e.Scoped scope ∧ scopedAll scope vs

def Source.Scoped (scope : List Alias) : Source → Prop
  | .table _ _ _ _ | .raw _ _ => True
  | .select s => s.Scoped scope
  | .join _ l r condition => l.Scoped scope ∧ r.Scoped scope ∧ scopedOption (scope ++ l.visible ++ r.visible) condition

def scopedSource (scope : List Alias) : Option Source → Prop
  | none => True
  | some s => s.Scoped scope

def Select.Scoped (scope : List Alias) : Select → Prop
  | ⟨_, columns, source, filter, groupBy, having, orderBy, offset, limit, _⟩ =>
    let inner := scope ++ (source.map Source.visible).getD []
    scopedSource scope source ∧ scopedOption inner filter ∧ scopedNamed inner columns ∧ scopedAll inner groupBy ∧
      scopedOption inner having ∧ scopedKeys inner orderBy ∧ scopedOption inner offset ∧ scopedOption inner limit

def Projection.Scoped (scope : List Alias) : Projection → Prop
  | ⟨s, e, _⟩ => s.Scoped scope ∧ e.Scoped (scope ++ [s.label])

end

section Parts

variable {scope : List Alias}

@[simp] theorem scopedAll_iff {es : List Expr} : scopedAll scope es ↔ ∀ e ∈ es, e.Scoped scope := by
  induction es with
  | nil => simp [scopedAll]
  | cons e es ih => simp [scopedAll, ih]

@[simp] theorem scopedOption_iff {o : Option Expr} : scopedOption scope o ↔ ∀ e ∈ o, e.Scoped scope := by
  cases o <;> simp [scopedOption]

@[simp] theorem scopedNamed_iff {ms : List Named} : scopedNamed scope ms ↔ ∀ m ∈ ms, m.expr.Scoped scope := by
  induction ms with
  | nil => simp [scopedNamed]
  | cons m ms ih => cases m; simp [scopedNamed, ih]

@[simp] theorem scopedKeys_iff {ks : List OrderKey} : scopedKeys scope ks ↔ ∀ k ∈ ks, k.expr.Scoped scope := by
  induction ks with
  | nil => simp [scopedKeys]
  | cons k ks ih => cases k; simp [scopedKeys, ih]

@[simp] theorem scopedSource_iff {o : Option Source} : scopedSource scope o ↔ ∀ s ∈ o, s.Scoped scope := by
  cases o <;> simp [scopedSource]

theorem Expr.scoped_operator {e : Expr} (op : e.isOperator = true) : e.Scoped scope ↔ ∀ x ∈ e.operands, x.Scoped scope := by
  cases e <;> simp [isOperator] at op <;> simp [Scoped, operands]

theorem Select.scoped_iff {s : Select} : s.Scoped scope ↔
    SelectParts (Expr.Scoped (scope ++ (s.source.map Source.visible).getD [])) (Source.Scoped scope) s := by
  constructor
  · intro h
    cases s
    simp only [Scoped, scopedNamed_iff, scopedSource_iff, scopedOption_iff, scopedAll_iff, scopedKeys_iff] at h
    obtain ⟨source, filter, columns, groupBy, having, orderBy, offset, limit⟩ := h
    exact ⟨columns, source, filter, groupBy, having, orderBy, offset, limit⟩
  · rintro ⟨columns, source, filter, groupBy, having, orderBy, offset, limit⟩
    cases s
    simp only [Scoped, scopedNamed_iff, scopedSource_iff, scopedOption_iff, scopedAll_iff, scopedKeys_iff]
    exact ⟨source, filter, columns, groupBy, having, orderBy, offset, limit⟩

namespace Node

def Scoped (scope : List Alias) : Node → Prop
  | expr e => e.Scoped scope
  | subquery q => q.Scoped scope
  | source src => src.Scoped scope
  | select s => s.Scoped scope
  | projection p => p.Scoped scope
  | lambda _ | query _ => True

/-- The scope of a part of a node. -/
def scopeOf (scope : List Alias) (n : Node) : Node → List Alias
  | expr _ => scope ++ n.shown
  | _ => scope

theorem scoped_iff {n : Node} (bound : n.isBound = true) :
    n.Scoped scope ↔ (∀ c, n = expr (.column c) → c.label ∈ scope) ∧ ∀ p ∈ n.parts, p.Scoped (n.scopeOf scope p) := by
  cases n with
  | expr e =>
    by_cases op : e.isOperator = true
    · have other (c : ColumnRef) : e ≠ .column c := by
        rintro rfl
        cases op
      simp [parts_operator op, Scoped, Expr.scoped_operator op, other, scopeOf, shown]
    · cases e <;> simp [Scoped, Expr.Scoped, parts, Expr.nodes, Expr.operands, scopeOf, shown, Expr.isOperator] at op ⊢
  | subquery q => cases q <;> simp [Scoped, Subquery.Scoped, parts, Subquery.nodes, scopeOf, shown]
  | source src => cases src <;> simp [Scoped, Source.Scoped, parts, Source.nodes, scopeOf, shown, List.append_assoc]
  | select s =>
    rw [Scoped, Select.scoped_iff, forall_parts_select]
    simp [scopeOf, shown, Scoped]
  | projection p => cases p; simp [Scoped, Projection.Scoped, parts, scopeOf, shown]
  | lambda | query => cases bound

end Node

end Parts

/-! ## Checks -/

/-- A check that ends with what holds, or fails for an alias. It does not fail if that holds and these aliases are new. -/
def Checks (x : ScopeCheck PUnit) (holds : Prop) (as : List Alias) : Prop :=
  ∀ known, (∃ known', x known = .ok (⟨⟩, known') ∧ holds ∧ known' ⊆ as ++ known) ∨
    ∃ fault, x known = .error (.aliasResolution fault) ∧ (holds → as.Nodup → ∃ a ∈ as, a ∈ known)

namespace Checks

variable {x y : ScopeCheck PUnit} {P Q : Prop} {as bs : List Alias}

theorem imp (h : Checks x P as) (iff : P ↔ Q) (same : as = bs) : Checks x Q bs := by
  subst same
  rwa [propext iff] at h

theorem pure : Checks (Pure.pure ⟨⟩) True [] := fun known => .inl ⟨known, rfl, trivial, List.Subset.refl known⟩

theorem seq (first : Checks x P as) (second : Checks y Q bs) : Checks (x >>= fun _ => y) (P ∧ Q) (as ++ bs) := by
  intro known
  change (∃ known', (x known >>= fun r => y r.2) = .ok (⟨⟩, known') ∧ _) ∨ ∃ fault, (x known >>= fun r => y r.2) = .error (.aliasResolution fault) ∧ _
  rcases first known with ⟨between, ran, left, within⟩ | ⟨fault, ran, failed⟩
  · rw [ran]
    rcases second between with ⟨known', ran', right, within'⟩ | ⟨fault, ran', failed⟩
    · refine .inl ⟨known', ran', ⟨left, right⟩, fun a mem => ?_⟩
      rcases List.mem_append.1 (within' mem) with mem | mem
      · exact List.mem_append_left _ (List.mem_append_right _ mem)
      · exact (List.mem_append.1 (within mem)).elim (fun mem => List.mem_append_left _ (List.mem_append_left _ mem))
          (List.mem_append_right _)
    · refine .inr ⟨fault, ran', fun holds nodup => ?_⟩
      obtain ⟨-, nodup, apart⟩ := List.nodup_append.1 nodup
      obtain ⟨a, mem, found⟩ := failed holds.2 nodup
      refine ⟨a, List.mem_append_right _ mem, (List.mem_append.1 (within found)).resolve_left fun earlier => apart a earlier a mem rfl⟩
  · rw [ran]
    refine .inr ⟨fault, rfl, fun holds nodup => ?_⟩
    obtain ⟨a, mem, found⟩ := failed holds.1 (List.nodup_append.1 nodup).1
    exact ⟨a, List.mem_append_left _ mem, found⟩

theorem declare (a : Alias) : Checks (Relational.declare a) True [a] := by
  intro known
  change (∃ known', (if known.contains a then throw _ else modify (a :: ·) : ScopeCheck PUnit) known = _ ∧ _) ∨ ∃ fault,
    (if known.contains a then throw _ else modify (a :: ·) : ScopeCheck PUnit) known = _ ∧ _
  cases found : known.contains a with
  | true => exact .inr ⟨_, rfl, fun _ _ => ⟨a, List.mem_singleton_self a, by simpa using found⟩⟩
  | false => exact .inl ⟨_, rfl, trivial, List.Subset.refl _⟩

/-- Two checks that make a statement of their own. -/
theorem statement (first : Checks x P as) (second : Checks y Q bs) :
    Checks (do let outer ← getModify fun _ => []; x; y; set outer) (P ∧ Q) (as ++ bs) := by
  intro known
  have run : (do let outer ← getModify fun _ => []; x; y; set outer : ScopeCheck PUnit) known =
      ((x >>= fun _ => y) [] >>= fun _ => .ok (⟨⟩, known)) := by
    change (x [] >>= fun r => y r.2 >>= fun _ => .ok (⟨⟩, known) : Result (PUnit × List Alias)) = ((x [] >>= fun r => y r.2) >>= _)
    cases x [] <;> rfl
  rw [run]
  rcases first.seq second [] with ⟨_, ran, holds, -⟩ | ⟨fault, ran, failed⟩
  · exact .inl ⟨known, by rw [ran]; rfl, holds, List.subset_append_right _ _⟩
  · refine .inr ⟨fault, by rw [ran]; rfl, fun holds nodup => ?_⟩
    obtain ⟨_, -, ⟨⟩⟩ := failed holds nodup

section Parts

variable {scope : List Alias}

theorem all {es : List Expr} (each : ∀ e ∈ es, Checks (e.checkScope scope) (e.Scoped scope) e.declared) :
    Checks (checkScopeAll scope es) (scopedAll scope es) (es.flatMap Expr.declared) := by
  induction es with
  | nil => exact pure
  | cons e es ih =>
    obtain ⟨head, tail⟩ := List.forall_mem_cons.1 each
    exact head.seq (ih tail)

theorem option {o : Option Expr} (each : ∀ e ∈ o, Checks (e.checkScope scope) (e.Scoped scope) e.declared) :
    Checks (checkScopeOption scope o) (scopedOption scope o) (o.toList.flatMap Expr.declared) := by
  cases o with
  | none => exact pure
  | some e => exact (each e rfl).imp Iff.rfl (by simp)

theorem named {ms : List Named} (each : ∀ m ∈ ms, Checks (m.expr.checkScope scope) (m.expr.Scoped scope) m.expr.declared) :
    Checks (checkScopeNamed scope ms) (scopedNamed scope ms) (ms.flatMap (·.expr.declared)) := by
  induction ms with
  | nil => exact pure
  | cons m ms ih =>
    obtain ⟨head, tail⟩ := List.forall_mem_cons.1 each
    cases m
    exact head.seq (ih tail)

theorem keys {ks : List OrderKey} (each : ∀ k ∈ ks, Checks (k.expr.checkScope scope) (k.expr.Scoped scope) k.expr.declared) :
    Checks (checkScopeKeys scope ks) (scopedKeys scope ks) (ks.flatMap (·.expr.declared)) := by
  induction ks with
  | nil => exact pure
  | cons k ks ih =>
    obtain ⟨head, tail⟩ := List.forall_mem_cons.1 each
    cases k
    exact head.seq (ih tail)

theorem source {o : Option Source} (each : ∀ s ∈ o, Checks (s.checkScope scope) (s.Scoped scope) s.declared) :
    Checks (checkScopeSource scope o) (scopedSource scope o) (o.toList.flatMap Source.declared) := by
  cases o with
  | none => exact pure
  | some s => exact (each s rfl).imp Iff.rfl (by simp)

end Parts

end Checks

/-- The scope check follows the definition of what is scoped, and meets every declared alias once. -/
theorem checkScope_checks : TreeCases
    (fun e => ∀ scope, Checks (e.checkScope scope) (e.Scoped scope) e.declared)
    (fun q => ∀ scope, Checks (q.checkScope scope) (q.Scoped scope) q.declared)
    (fun src => ∀ scope, Checks (src.checkScope scope) (src.Scoped scope) src.declared)
    (fun s => ∀ scope, Checks (s.checkScope scope) (s.Scoped scope) s.declared)
    (fun p => ∀ scope, Checks (p.checkScope scope) (p.Scoped scope) p.declared) := by
  constructor
  constructor
  case column =>
    intro c scope known
    rw [Expr.checkScope]
    by_cases inside : c.label ∈ scope
    · rw [if_pos (by simpa using inside)]
      exact .inl ⟨known, rfl, inside, List.Subset.refl known⟩
    · rw [if_neg (by simpa using inside)]
      exact .inr ⟨_, rfl, fun holds => (inside holds).elim⟩
  case operator =>
    intro e op ih scope
    cases e <;> simp only [Expr.isOperator, Bool.false_eq_true] at op <;>
      simp only [Expr.operands, List.forall_mem_cons, List.forall_mem_map, List.not_mem_nil, false_implies, implies_true, and_true] at ih
    case binary op l r => exact (ih.1 scope).seq (ih.2 scope)
    case call m x args => exact ((ih.1 scope).seq (.all fun e mem => ih.2 e mem scope)).imp Iff.rfl (by simp [Expr.collect])
    case conditional test yes no => exact (ih.1 scope).seq ((ih.2.1 scope).seq (ih.2.2 scope))
    case record r ms => exact (Checks.named fun m mem => ih m mem scope).imp Iff.rfl (by simp [Expr.collect])
    case function name args t => exact (Checks.all fun e mem => ih e mem scope).imp Iff.rfl (by simp [Expr.collect])
    case group key elements => exact (ih.1 scope).seq (ih.2 scope)
    all_goals exact ih scope
  case aggregate =>
    intro kind x distinct t ih scope
    exact (Checks.option fun e mem => ih e mem scope).imp Iff.rfl (by simp [Expr.collect])
  case subquery => exact fun q ih scope => ih scope
  case projection => exact fun p ih scope => ih scope
  case scalar => exact fun s t ih scope => ih scope
  case exist => exact fun s ih scope => ih scope
  case inSelect => exact fun e s first second scope => (first scope).seq (second scope)
  case inValues =>
    intro e vs first second scope
    exact ((first scope).seq (.all fun v mem => second v mem scope)).imp Iff.rfl (by simp [Subquery.collect])
  case table => exact fun kind a entity name scope => .declare a
  case raw => exact fun a sql scope => .declare a
  case nested => exact fun s ih scope => ih scope
  case join =>
    intro kind l r condition left right tests scope
    refine ((left scope).seq ((right scope).seq (.option fun e mem => tests e mem _))).imp Iff.rfl ?_
    rw [Source.declared_join]
  case select =>
    intro s parts scope
    obtain ⟨columns, source, filter, groupBy, having, orderBy, offset, limit⟩ := parts
    have declared := s.collect_eq declaredAliases
    cases s
    refine (Checks.seq (.declare _) (.seq (.source fun src mem => source src mem scope) (.seq (.option fun e mem => filter e mem _)
      (.seq (.named fun c mem => columns c mem _) (.seq (.all fun e mem => groupBy e mem _) (.seq (.option fun e mem => having e mem _)
        (.seq (.keys fun k mem => orderBy k mem _) (.seq (.option fun e mem => offset e mem _)
          (.option fun e mem => limit e mem _))))))))).imp (iff_of_eq (true_and _)) declared.symm
  case whole => exact fun s e a select projector scope => (select scope).statement (projector _)
  all_goals
    intros
    exact .pure

/-- Every column is in scope, and no alias is declared twice. -/
structure Projection.WellScoped (p : Projection) : Prop where
  inside : p.Scoped []
  nodup : p.declared.Nodup

/-- The check ends with a projection that is in scope, or fails for an alias. It does not fail if no alias is declared twice. -/
theorem Projection.check_cases (p : Projection) : p.check = .ok ⟨⟩ ∧ p.Scoped [] ∨
    ∃ fault, p.check = .error (.aliasResolution fault) ∧ ¬ p.WellScoped := by
  have run : p.check = (p.checkScope [] [] >>= fun _ => .ok ⟨⟩) := rfl
  rw [run]
  rcases checkScope_checks.projections p [] [] with ⟨known, ran, holds, -⟩ | ⟨fault, ran, failed⟩
  · exact .inl ⟨by rw [ran]; rfl, holds⟩
  · refine .inr ⟨fault, by rw [ran]; rfl, fun holds => ?_⟩
    obtain ⟨_, -, ⟨⟩⟩ := failed holds.inside holds.nodup

/-- The check accepts a projection in which no alias is declared twice exactly if it is scoped. -/
theorem Projection.check_iff {p : Projection} (nodup : p.declared.Nodup) : p.check = .ok ⟨⟩ ↔ p.Scoped [] := by
  rcases p.check_cases with ⟨accepted, holds⟩ | ⟨fault, refused, failed⟩
  · exact iff_of_true accepted holds
  · exact iff_of_false (by rw [refused]; rintro ⟨⟩) fun holds => failed ⟨holds, nodup⟩

/-! ## References -/

/-- References are to the scope or to aliases of the tree itself. -/
theorem Node.Scoped.label {P : Alias → Prop} {n : Node} {scope : List Alias} (h : n.Scoped scope) (bound : n.isBound = true)
    (outer : ∀ a ∈ scope, P a) (own : ∀ a ∈ n.collect declaredAliases, P a) : ∀ c ∈ n.collect columnRefs, P c.label := by
  induction n, bound using bound_induction generalizing scope with
  | query q => rintro _ ⟨⟩
  | step n bound other ih =>
    obtain ⟨column, parts⟩ := (scoped_iff bound).1 h
    have inner : ∀ a ∈ scope ++ n.shown, P a := List.forall_mem_append.2 ⟨outer, fun a mem => own a (n.shown_subset mem)⟩
    rw [collect_eq _ bound, List.forall_mem_append, List.forall_mem_flatMap] at own ⊢
    refine ⟨fun c mem => outer _ (column c ?_), fun p mem => ih p mem (isBound_parts bound other p mem) (parts p mem) ?_ (own.2 p mem)⟩
    · cases n with
      | expr e => cases e <;> simp [found, Expr.column?, columnRefs] at mem ⊢; exact mem.symm
      | _ => cases mem
    · cases p with
      | expr e => exact inner
      | _ => exact outer

/-- A projection that is scoped among nothing refers to its own aliases. -/
theorem Projection.Scoped.referenced {p : Projection} (h : p.Scoped []) : p.referenced ⊆ p.declared := by
  intro a mem
  obtain ⟨c, found, rfl⟩ := List.mem_map.1 mem
  exact Node.Scoped.label (n := .projection p) (P := (· ∈ p.declared)) h rfl (by simp) (fun _ => id) c found

end Relational

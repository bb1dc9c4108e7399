import Relational.Proofs.Compilation.Bodies
import Relational.Proofs.Binding.Congruence
import Relational.Proofs.Binding.Lifting

/-!
# Elements of sequences in memory

A predicate over a sequence in memory is bound once for each element. An element that fits a column is a parameter there. Of a record
the predicate takes members, and these are taken when it is bound: it becomes the predicate in which the
element and its fields are written out as constants (`Query.bindTerminal_inMemory`). So fields of records are never
parameters (`bind_numberedItems`).
-/

namespace Relational

open Binding

/-! ## Fields -/

/-- A field of a record, with its type. -/
def Value.field? (name : String) : Value × Ty → Option (Value × Ty)
  | (.record _ fields, t) => (Value.lookup? fields name).map fun v => (v, (t.member? name).getD v.naturalTy)
  | _ => none

/-- The values that parameters stand for. -/
abbrev Known := String → Option (Value × Ty)

/-- What a parameter that stands for a value, or a chain of members of it, comes to. -/
def Expr.part? (σ : Known) : Expr → Option (Value × Ty)
  | .param name => σ name
  | .member e name => (e.part? σ).bind (Value.field? name)
  | _ => none

mutual

/-- An expression in which values are written out in the places of the parameters that stand for them, and their fields in the places of
the members that are taken of them. -/
def Expr.spellOut (σ : Known) (e : Expr) : Expr :=
  match e.part? σ with
  | some (v, t) => .constant v t
  | none =>
    match e with
    | .binary op l r => .binary op (l.spellOut σ) (r.spellOut σ)
    | .unary op y => .unary op (y.spellOut σ)
    | .member y name => .member (y.spellOut σ) name
    | .call m y args => .call m (y.spellOut σ) (spellOutAll σ args)
    | .conditional test yes no => .conditional (test.spellOut σ) (yes.spellOut σ) (no.spellOut σ)
    | .record r ms => .record r (spellOutNamed σ ms)
    | .convert y t' => .convert (y.spellOut σ) t'
    | .function name args t' => .function name (spellOutAll σ args) t'
    | .query q => .query (q.spellOut σ)
    | e => e

def spellOutAll (σ : Known) : List Expr → List Expr
  | [] => []
  | e :: es => e.spellOut σ :: spellOutAll σ es

def spellOutNamed (σ : Known) : List Named → List Named
  | [] => []
  | ⟨name, e⟩ :: ms => ⟨name, e.spellOut σ⟩ :: spellOutNamed σ ms

/-- The parameters of a lambda hide values of the same names. -/
def Lambda.spellOut (σ : Known) : Lambda → Lambda
  | ⟨params, body⟩ => ⟨params, body.spellOut fun y => if y ∈ params then none else σ y⟩

def spellOutLambda (σ : Known) : Option Lambda → Option Lambda
  | none => none
  | some l => some (l.spellOut σ)

def Query.spellOut (σ : Known) : Query → Query
  | .table entity => .table entity
  | .view entity => .view entity
  | .raw entity sql => .raw entity sql
  | .memory values t => .memory values t
  | .of e => .of (e.spellOut σ)
  | .filter q l => .filter (q.spellOut σ) (l.spellOut σ)
  | .project q l => .project (q.spellOut σ) (l.spellOut σ)
  | .selectMany q l r => .selectMany (q.spellOut σ) (l.spellOut σ) (spellOutLambda σ r)
  | .join o i ok ik r =>
    .join (o.spellOut σ) (i.spellOut σ) (ok.spellOut σ) (ik.spellOut σ) (r.spellOut σ)
  | .groupJoin o i ok ik r =>
    .groupJoin (o.spellOut σ) (i.spellOut σ) (ok.spellOut σ) (ik.spellOut σ) (r.spellOut σ)
  | .orderBy q l d => .orderBy (q.spellOut σ) (l.spellOut σ) d
  | .thenBy q l d => .thenBy (q.spellOut σ) (l.spellOut σ) d
  | .groupBy q key e r => .groupBy (q.spellOut σ) (key.spellOut σ) (spellOutLambda σ e) (spellOutLambda σ r)
  | .distinct q => .distinct (q.spellOut σ)
  | .skip q e => .skip (q.spellOut σ) (e.spellOut σ)
  | .take q e => .take (q.spellOut σ) (e.spellOut σ)
  | .cast q t' => .cast (q.spellOut σ) t'
  | .defaultIfEmpty q => .defaultIfEmpty (q.spellOut σ)
  | .aggregate q kind l => .aggregate (q.spellOut σ) kind (spellOutLambda σ l)
  | .elementAt q e d => .elementAt (q.spellOut σ) (e.spellOut σ) d
  | .first q l d => .first (q.spellOut σ) (spellOutLambda σ l) d
  | .single q l d => .single (q.spellOut σ) (spellOutLambda σ l) d
  | .any q l => .any (q.spellOut σ) (spellOutLambda σ l)
  | .all q l => .all (q.spellOut σ) (l.spellOut σ)
  | .contains q e => .contains (q.spellOut σ) (e.spellOut σ)
  | .reverse q => .reverse (q.spellOut σ)
  | .last q l d => .last (q.spellOut σ) (spellOutLambda σ l) d
  | .union l r => .union (l.spellOut σ) (r.spellOut σ)
  | .concat l r => .concat (l.spellOut σ) (r.spellOut σ)
  | .window q function => .window (q.spellOut σ) function

end

/-! ## Binding -/

/-- Two scopes, in the first of which parameters stand for known values; the second needs to hold the others only. -/
structure Scope.Spells (σ : Known) (scope scope' : Scope) : Prop where
  known : ∀ {y v t}, σ y = some (v, t) → scope.lookup y = some (.constant v t)
  other : ∀ {y}, σ y = none → scope'.lookup y = scope.lookup y

variable {catalog : Catalog} {scope scope' : Scope} {σ : Known}

/-- A chain of members of a value that is known becomes a constant. -/
theorem Expr.bind_part {e : Expr} {w : Value} {t' : Ty} (found : scope.Spells σ scope') (part : e.part? σ = some (w, t')) :
    e.bind catalog scope = pure (.constant w t') := by
  induction e using Expr.induction generalizing w t' with
  | param name =>
    rw [Expr.bind, found.known part]
  | operator e operates ih =>
    cases e <;> simp only [isOperator, Bool.false_eq_true] at operates <;> simp only [part?, reduceCtorEq] at part
    case member y name =>
      obtain ⟨⟨u, t₁⟩, before, taken⟩ := Option.bind_eq_some_iff.1 part
      have target := ih y (List.mem_singleton_self y) before
      cases u <;> simp only [Value.field?, reduceCtorEq, Option.map_eq_some_iff, Prod.mk.injEq] at taken
      case record recordName fields =>
        obtain ⟨w, looked, rfl, rfl⟩ := taken
        have taken : Binding.member name (.constant (.record recordName fields) t₁) = .ok (.constant w ((t₁.member? name).getD w.naturalTy)) := by
          simp only [Binding.member, looked]
        rw [Expr.bind, target]
        show Binding.ofResult (Binding.member name _) = _
        rw [taken]
        rfl
  | _ => simp only [part?, reduceCtorEq] at part

theorem spellOutAll_eq (es : List Expr) : spellOutAll σ es = es.map (Expr.spellOut σ) := by
  induction es with
  | nil => rfl
  | cons e es ih => rw [spellOutAll, ih, List.map_cons]

theorem spellOutNamed_eq (ms : List Named) : spellOutNamed σ ms = ms.map fun m => ⟨m.name, m.expr.spellOut σ⟩ := by
  induction ms with
  | nil => rfl
  | cons m ms ih =>
    cases m
    rw [spellOutNamed, ih, List.map_cons]

/-- A node with the values written out. What is bound already holds no parameters. -/
def Node.spellOut (σ : Known) : Node → Node
  | expr e => expr (e.spellOut σ)
  | lambda l => lambda (l.spellOut σ)
  | query q => query (q.spellOut σ)
  | n => n

theorem Expr.parts_spellOut {e : Expr} (free : (Node.expr e).isRelational = false) (whole : e.part? σ = none) :
    (Node.expr (e.spellOut σ)).form = (Node.expr e).form ∧ (Node.expr (e.spellOut σ)).parts = (Node.expr e).parts.map (.spellOut σ) := by
  rw [spellOut.eq_def, whole]
  cases e <;> first
    | (cases free; done)
    | simp [Node.form, Node.shape, shape, mapOperands, Node.parts, operands, nodes, spellOutAll_eq, spellOutNamed_eq, Node.spellOut,
        Named.mapExpr, Function.comp_def]

theorem Query.parts_spellOut (q : Query) :
    (Node.query (q.spellOut σ)).form = (Node.query q).form ∧ (Node.query (q.spellOut σ)).parts = (Node.query q).parts.map (.spellOut σ) := by
  cases q
  case selectMany q l r => cases r <;> exact ⟨rfl, rfl⟩
  case groupBy q key e r => cases e <;> cases r <;> exact ⟨rfl, rfl⟩
  case aggregate q kind l => cases l <;> exact ⟨rfl, rfl⟩
  case first q l d => cases l <;> exact ⟨rfl, rfl⟩
  case single q l d => cases l <;> exact ⟨rfl, rfl⟩
  case any q l => cases l <;> exact ⟨rfl, rfl⟩
  case last q l d => cases l <;> exact ⟨rfl, rfl⟩
  all_goals exact ⟨rfl, rfl⟩

/-- Inside of a lambda its parameters stand for the arguments, whatever they stood for outside. -/
theorem Scope.Spells.extend {params : List String} {args : List Expr} (found : scope.Spells σ scope') (lengths : params.length = args.length) :
    Scope.Spells (fun y => if y ∈ params then none else σ y) ((params.zip args).reverse ++ scope) ((params.zip args).reverse ++ scope') := by
  have outside {y : String} (other : y ∉ params) : (params.zip args).reverse.lookup y = none := by
    refine List.lookup_eq_none_iff.2 fun b mem => bne_iff_ne.2 ?_
    rintro rfl
    exact other (List.of_mem_zip (List.mem_reverse.1 mem)).1
  have inside {y : String} (mem : y ∈ params) : (params.zip args).reverse.lookup y ≠ none := by
    intro absent
    rw [← List.map_fst_zip (Nat.le_of_eq lengths)] at mem
    obtain ⟨b, among, rfl⟩ := List.mem_map.1 mem
    exact bne_iff_ne.1 (List.lookup_eq_none_iff.1 absent b (List.mem_reverse.2 among)) rfl
  constructor
  · intro y v t known
    obtain ⟨other, known⟩ := Option.ite_none_left_eq_some.1 known
    rw [List.lookup_append, outside other, Option.none_or, found.known known]
  · intro y none
    rw [List.lookup_append, List.lookup_append]
    by_cases mem : y ∈ params
    · obtain ⟨e, looked⟩ := Option.ne_none_iff_exists'.1 (inside mem)
      rw [looked, Option.some_or, Option.some_or]
    · rw [found.other ((if_neg mem).symm.trans none)]

/-- A node is bound alike with the values in scope, and with the values written out. -/
theorem Node.bindsLike_spellOut (n : Node) (found : scope.Spells σ scope') : n.BindsLike catalog scope scope' (n.spellOut σ) := by
  induction n using Node.induction generalizing σ scope scope' with
  | step n ih =>
    have each (parts : (n.spellOut σ).parts = n.parts.map (.spellOut σ)) :
        List.Forall₂ (BindsLike catalog scope scope') n.parts (n.spellOut σ).parts := by
      rw [parts, List.forall₂_map_right_iff, List.forall₂_same]
      exact fun p mem => ih p mem found
    cases n with
    | expr e =>
      rw [spellOut]
      cases part : e.part? σ with
      | some r =>
        obtain ⟨w, t'⟩ := r
        have known : e.spellOut σ = .constant w t' := by rw [Expr.spellOut.eq_def, part]
        rw [known]
        refine bindsLike_of_bind ?_ (by rintro _ ⟨⟩) (Expr.bind_part found part)
        rintro q rfl
        cases part
      | none =>
        by_cases closed : (expr e).isRelational = true
        · have same : e.spellOut σ = e := by
            rw [Expr.spellOut.eq_def, part]
            cases e <;> first | rfl | cases closed
          rw [same]
          exact bindsLike_relational closed
        by_cases param : ∃ x, e = .param x
        · obtain ⟨x, rfl⟩ := param
          have same : (Expr.param x).spellOut σ = .param x := by rw [Expr.spellOut.eq_def, part]
          rw [same]
          refine bindsLike_of_bind (by rintro _ ⟨⟩) (by rintro _ ⟨⟩) ?_
          rw [Expr.bind, Expr.bind, found.other part]
        · obtain ⟨form, parts⟩ := Expr.parts_spellOut (Bool.not_eq_true _ ▸ closed) part
          refine bindsLike_of_parts (Bool.not_eq_true _ ▸ closed) ?_ (by rintro _ ⟨⟩) form (each parts)
          rintro x ⟨⟩
          exact param ⟨x, rfl⟩
    | lambda l =>
      cases l
      exact bindsLike_lambda rfl fun args given => ih _ (List.mem_singleton_self _) (found.extend given)
    | query q =>
      obtain ⟨form, parts⟩ := q.parts_spellOut (σ := σ)
      exact bindsLike_of_parts rfl (by rintro _ ⟨⟩) (by rintro _ ⟨⟩) form (each parts)
    | _ => trivial

/-! ## Predicates -/

/-- One value, under one name. -/
def Known.only (x : String) (v : Value) (t : Ty) : Known := fun y => if y = x then some (v, t) else none

theorem Scope.spells_only (x : String) (v : Value) (t : Ty) : Scope.Spells (.only x v t) ((x, .constant v t) :: scope) scope := by
  constructor
  · intro y w t' known
    simp only [Known.only, Option.ite_none_right_eq_some, Option.some.injEq, Prod.mk.injEq] at known
    obtain ⟨rfl, rfl, rfl⟩ := known
    exact List.lookup_cons_self
  · intro y other
    have ne : y ≠ x := by
      rintro rfl
      simp [Known.only] at other
    rw [List.lookup_cons, beq_eq_false_iff_ne.2 ne]

/-- A predicate at an element of a sequence in memory. An element that fits a column stands there as a parameter, any other one is written
out. -/
def Expr.bindAt (catalog : Catalog) (scope : Scope) (x : String) (body : Expr) (element : Ty) (v : Value) : Binding Expr :=
  if !v.isNull && element.isColumn then body.bind catalog ((x, .hostParameter v element) :: scope)
  else (body.spellOut (.only x v element)).bind catalog scope

theorem Lambda.bind_memoryItem (x : String) (body : Expr) (element : Ty) (v : Value) :
    Lambda.bind catalog scope [memoryItem element v] ⟨[x], body⟩ = body.bindAt catalog scope x element v := by
  have single (e : Expr) : Lambda.bind catalog scope [e] ⟨[x], body⟩ = body.bind catalog ((x, e) :: scope) := rfl
  rw [single, memoryItem_eq, Expr.bindAt]
  cases !v.isNull && element.isColumn with
  | true => rfl
  | false => exact (Node.bindsLike_spellOut (.expr body) (Scope.spells_only x v element)).1

/-- Whether an element of a sequence in memory satisfies a predicate, or all of them do, is bound to what the predicate is at each one. -/
theorem Query.bindTerminal_inMemory {q : Query} {values : List Value} {element : Ty}
    (inMemory : q.bindSource catalog scope = pure (.memory values element)) (x : String) (body : Expr) (root : Bool) :
    (Query.any q (some ⟨[x], body⟩)).bindTerminal catalog scope root =
        (do return (Expr.disjunction (← values.mapM (body.bindAt catalog scope x element))).getD (.ofBool false)) ∧
      (Query.all q ⟨[x], body⟩).bindTerminal catalog scope root =
        (do return (Expr.conjunction (← values.mapM (body.bindAt catalog scope x element))).getD (.ofBool true)) := by
  simp only [Query.bindTerminal, inMemory, pure_bind, Lambda.bind_memoryItem, and_self]

/-- A row with a number, and a row without one. -/
def numberedRows : List Value := [.record "Row" [("number", .int 1)], .record "Row" [("number", .null)]]

def numberedRowTy : Ty := .record ⟨"Row", [("number", .nullable .i64)]⟩

theorem bindTerminal_inMemory_numberedRows :
    (Query.of (.variable "rows" (.list numberedRows) (.sequence numberedRowTy))).bindSource itemCatalog [] =
        pure (.memory numberedRows numberedRowTy) ∧
      (Query.any (.of (.variable "rows" (.list numberedRows) (.sequence numberedRowTy)))
          (some ⟨["row"], .binary .gt (.member (.param "row") "number") (.constant (.int 0) .i64)⟩)).bindTerminal itemCatalog [] true =
        pure (.binary .or (.binary .gt (.constant (.int 1) (.nullable .i64)) (.constant (.int 0) .i64))
          (.binary .gt (.constant .null (.nullable .i64)) (.constant (.int 0) .i64))) :=
  ⟨rfl, (Query.bindTerminal_inMemory rfl "row" (.binary .gt (.member (.param "row") "number") (.constant (.int 0) .i64)) true).1.trans rfl⟩

/-- The items with the number of a row. -/
def numberedItems : Query :=
  .filter (.table "Item") ⟨["item"], .query (.any (.memory numberedRows numberedRowTy)
    (some ⟨["row"], .binary .eq (.member (.param "row") "number") (.member (.param "item") "number")⟩))⟩

/-- The numbers are constants of the statement. -/
theorem bind_numberedItems : (numberedItems.bind itemCatalog ⟨0⟩).toOption.bind (·.1.select.filter) =
    some (.binary .or (.binary .eq (.constant (.int 1) (.nullable .i64)) (.column ⟨⟨1⟩, "number", .i64⟩))
      (.binary .eq (.constant .null (.nullable .i64)) (.column ⟨⟨1⟩, "number", .i64⟩))) := by
  rfl

end Relational

import Relational.Proofs.Json.Forms
import Relational.Proofs.Tree.Induction

/-!
# Documents of queries

A query is read back from its text (`parse_toJson`), if its document is not nested too deep and its values and aliases are such as can be
read: an alias is a word of 32 bits, and values are `Readable`.
-/

namespace Relational

open Json

/-! ## What can be read -/

/-- An alias that fits a word of 32 bits. -/
def Alias.Readable (a : Alias) : Prop := a.id ≤ 4294967295

mutual

def Expr.Readable : Expr → Prop
  | .param _ => True
  | .constant v _ | .variable _ v _ | .hostParameter v _ => v.Readable
  | .column c => c.label.Readable
  | .binary _ l r => l.Readable ∧ r.Readable
  | .unary _ x | .member x _ | .convert x _ => x.Readable
  | .call _ x args => x.Readable ∧ readableExprs args
  | .conditional test yes no => test.Readable ∧ yes.Readable ∧ no.Readable
  | .record _ ms => readableNamed ms
  | .query q => q.Readable
  | .aggregate _ x _ _ => readableExpr? x
  | .subquery s => s.Readable
  | .function _ args _ => readableExprs args
  | .projection p => p.Readable
  | .group key elements => key.Readable ∧ elements.Readable

def readableExprs : List Expr → Prop
  | [] => True
  | e :: es => e.Readable ∧ readableExprs es

def readableExpr? : Option Expr → Prop
  | none => True
  | some e => e.Readable

def readableNamed : List Named → Prop
  | [] => True
  | ⟨_, e⟩ :: ms => e.Readable ∧ readableNamed ms

def readableKeys : List OrderKey → Prop
  | [] => True
  | ⟨e, _⟩ :: ks => e.Readable ∧ readableKeys ks

def Subquery.Readable : Subquery → Prop
  | .scalar s _ => s.Readable
  | .exists s => s.Readable
  | .inSelect e s => e.Readable ∧ s.Readable
  | .inValues e vs => e.Readable ∧ readableExprs vs

def Source.Readable : Source → Prop
  | .table _ a _ _ | .raw a _ => a.Readable
  | .select s => s.Readable
  | .join _ l r condition => l.Readable ∧ r.Readable ∧ readableExpr? condition

def readableSource? : Option Source → Prop
  | none => True
  | some src => src.Readable

def Select.Readable : Select → Prop
  | ⟨a, columns, source, filter, groupBy, having, orderBy, offset, limit, _⟩ =>
    a.Readable ∧ readableNamed columns ∧ readableSource? source ∧ readableExpr? filter ∧ readableExprs groupBy ∧ readableExpr? having ∧
      readableKeys orderBy ∧ readableExpr? offset ∧ readableExpr? limit

def Projection.Readable : Projection → Prop
  | ⟨s, e, _⟩ => s.Readable ∧ e.Readable

def Lambda.Readable : Lambda → Prop
  | ⟨_, body⟩ => body.Readable

def readableLambda? : Option Lambda → Prop
  | none => True
  | some l => l.Readable

/-- A query whose aliases are words of 32 bits and whose values are readable. -/
def Query.Readable : Query → Prop
  | .table _ | .view _ | .raw _ _ => True
  | .memory values _ => readableValues values
  | .of e => e.Readable
  | .filter q l | .project q l | .orderBy q l _ | .thenBy q l _ | .all q l => q.Readable ∧ l.Readable
  | .selectMany q l r => q.Readable ∧ l.Readable ∧ readableLambda? r
  | .join o i ok ik r | .groupJoin o i ok ik r => o.Readable ∧ i.Readable ∧ ok.Readable ∧ ik.Readable ∧ r.Readable
  | .groupBy q key e r => q.Readable ∧ key.Readable ∧ readableLambda? e ∧ readableLambda? r
  | .skip q e | .take q e | .elementAt q e _ | .contains q e => q.Readable ∧ e.Readable
  | .aggregate q _ l | .first q l _ | .single q l _ | .any q l | .last q l _ => q.Readable ∧ readableLambda? l
  | .distinct q | .cast q _ | .defaultIfEmpty q | .reverse q | .window q _ => q.Readable
  | .union l r | .concat l r => l.Readable ∧ r.Readable

end

@[simp] theorem readableExprs_iff {es : List Expr} : readableExprs es ↔ ∀ e ∈ es, e.Readable := by
  induction es with
  | nil => simp [readableExprs]
  | cons e es ih => simp [readableExprs, ih]

@[simp] theorem readableExpr?_iff {o : Option Expr} : readableExpr? o ↔ ∀ e ∈ o, e.Readable := by cases o <;> simp [readableExpr?]

@[simp] theorem readableNamed_iff {ms : List Named} : readableNamed ms ↔ ∀ m ∈ ms, m.expr.Readable := by
  induction ms with
  | nil => simp [readableNamed]
  | cons m ms ih => cases m; simp [readableNamed, ih]

@[simp] theorem readableKeys_iff {ks : List OrderKey} : readableKeys ks ↔ ∀ k ∈ ks, k.expr.Readable := by
  induction ks with
  | nil => simp [readableKeys]
  | cons k ks ih => cases k; simp [readableKeys, ih]

@[simp] theorem readableSource?_iff {o : Option Source} : readableSource? o ↔ ∀ src ∈ o, src.Readable := by
  cases o <;> simp [readableSource?]

@[simp] theorem readableLambda?_iff {o : Option Lambda} : readableLambda? o ↔ ∀ l ∈ o, l.Readable := by
  cases o <;> simp [readableLambda?]

theorem Select.Readable.label {s : Select} (readable : s.Readable) : s.label.Readable := by cases s; exact readable.1

theorem Select.Readable.parts {s : Select} (readable : s.Readable) : SelectParts Expr.Readable Source.Readable s := by
  cases s
  simp only [Select.Readable, readableNamed_iff, readableSource?_iff, readableExpr?_iff, readableExprs_iff, readableKeys_iff] at readable
  obtain ⟨-, columns, source, filter, groupBy, having, orderBy, offset, limit⟩ := readable
  exact ⟨columns, source, filter, groupBy, having, orderBy, offset, limit⟩

/-! ## How lists and options are written -/

theorem exprsToJson_eq (es : List Expr) : exprsToJson es = es.map Expr.toJson := by
  induction es with
  | nil => rfl
  | cons e es ih => rw [exprsToJson, ih, List.map_cons]

theorem exprToJson?_eq (o : Option Expr) : exprToJson? o = ofOption Expr.toJson o := by cases o <;> rfl

theorem sourceToJson?_eq (o : Option Source) : sourceToJson? o = ofOption Source.toJson o := by cases o <;> rfl

theorem lambdaToJson?_eq (o : Option Lambda) : lambdaToJson? o = ofOption Lambda.toJson o := by cases o <;> rfl

theorem membersToJson_eq (ms : List Named) :
    membersToJson ms = (ms.map fun m => (m.name, m.expr)).map fun p => array [string p.1, p.2.toJson] := by
  induction ms with
  | nil => rfl
  | cons m ms ih => cases m; rw [membersToJson, ih, List.map_cons, List.map_cons]

theorem columnsToJson_eq (cs : List Named) :
    columnsToJson cs = cs.map fun c => object [("name", string c.name), ("expr", c.expr.toJson)] := by
  induction cs with
  | nil => rfl
  | cons c cs ih => cases c; rw [columnsToJson, ih, List.map_cons]

theorem orderToJson_eq (ks : List OrderKey) :
    orderToJson ks = ks.map fun k => object [("expr", k.expr.toJson), ("descending", bool k.descending)] := by
  induction ks with
  | nil => rfl
  | cons k ks ih => cases k; rw [orderToJson, ih, List.map_cons]

namespace Json

section Options

variable {α : Type} {read : Nat → Json → Option α} {write : α → Json} {o : Option α}

theorem isExact_ofOption (each : ∀ x ∈ o, Means read (write x) x) : (ofOption write o).IsExact := by
  cases o with
  | none => trivial
  | some x => exact (each x rfl).words

/-- What is there is never written as null. -/
theorem optionOf?_ofOption {n : Nat} (each : ∀ x ∈ o, Means read (write x) x) (there : ∀ x, write x ≠ null)
    (enough : (ofOption write o).depth < n) : optionOf? (read n) (ofOption write o) = some o := by
  cases o with
  | none => rfl
  | some x =>
    have value := (each x rfl).read enough
    change optionOf? (read n) (write x) = _
    rw [optionOf?, value]
    · rfl
    · exact there x

end Options

@[simp] theorem named?_binaryOp (op : BinaryOp) : named? BinaryOp.forms (nameOf BinaryOp.forms op) = some op := by cases op <;> rfl

@[simp] theorem named?_unaryOp (op : UnaryOp) : named? UnaryOp.forms (nameOf UnaryOp.forms op) = some op := by cases op <;> rfl

@[simp] theorem named?_aggregateKind (kind : AggregateKind) :
    named? AggregateKind.forms (nameOf AggregateKind.forms kind) = some kind := by cases kind <;> rfl

@[simp] theorem named?_joinKind (kind : JoinKind) : named? JoinKind.forms (nameOf JoinKind.forms kind) = some kind := by cases kind <;> rfl

end Json

@[simp] theorem Method.ofJson?_toJson (m : Method) : Method.ofJson? m.toJson = some m := by cases m <;> rfl

@[simp] theorem Method.isExact_toJson (m : Method) : m.toJson.IsExact := by cases m <;> trivial

@[simp] theorem Aggregator.ofJson?_toJson (a : Aggregator) : Aggregator.ofJson? a.toJson = some a := by cases a <;> rfl

theorem Alias.Readable.means {a : Alias} (readable : a.Readable) : Means (fun _ => Alias.ofJson?) a.toJson a := by
  refine ⟨isExact_ofNat (Nat.lt_of_le_of_lt readable (by decide)), fun _ => ?_⟩
  simp [Alias.ofJson?, Alias.toJson, toNat?_ofNat readable]

/-! ## Expressions -/

theorem Expr.toJson_ne_null (e : Expr) : e.toJson ≠ null := by cases e <;> exact Json.noConfusion

theorem Source.toJson_ne_null (src : Source) : src.toJson ≠ null := by cases src <;> exact Json.noConfusion

theorem Lambda.toJson_ne_null (l : Lambda) : l.toJson ≠ null := by cases l; exact Json.noConfusion

theorem Aggregator.toJson_ne_null (a : Aggregator) : a.toJson ≠ null := by cases a <;> exact Json.noConfusion

theorem Aggregator.means (a : Aggregator) : Means (fun _ => Aggregator.ofJson?) a.toJson a :=
  ⟨by cases a <;> simp [Aggregator.toJson], fun _ => a.ofJson?_toJson⟩

/-- The document of an operator, from those of its operands. -/
theorem Expr.means_operator {e : Expr} (operator : e.isOperator = true) (ih : ∀ x ∈ e.operands, x.Readable → Means Expr.read? x.toJson x)
    (readable : e.Readable) : Means Expr.read? e.toJson e := by
  cases e <;> simp only [Expr.isOperator, Bool.false_eq_true] at operator <;>
    simp only [Expr.operands, List.mem_cons, List.not_mem_nil, or_false, forall_eq_or_imp, forall_eq] at ih <;>
    simp only [Expr.Readable, readableExprs_iff, readableNamed_iff] at readable <;>
    simp only [Expr.toJson, exprsToJson_eq, membersToJson_eq]
  case binary op l r =>
    have left := ih.1 readable.1
    have right := ih.2 readable.2
    refine .tagged ⟨trivial, left.words, right.words, trivial⟩ fun n enough => ?_
    exact returns_three _ (named?_binaryOp op) (left.read enough.2.1) (right.read enough.2.2.1)
  case unary op x =>
    have operand := ih readable
    refine .tagged ⟨trivial, operand.words, trivial⟩ fun n enough => ?_
    exact returns_two _ (named?_unaryOp op) (operand.read enough.2.1)
  case member x name =>
    have target := ih readable
    refine .tagged ⟨target.words, trivial, trivial⟩ fun n enough => ?_
    exact returns_two _ (target.read enough.1) (toText?_string name)
  case call m x args =>
    have target := ih.1 readable.1
    have each : ∀ a ∈ args, Means Expr.read? a.toJson a := fun a mem => ih.2 a mem (readable.2 a mem)
    refine .tagged ⟨m.isExact_toJson, target.words, isExact_map each, trivial⟩ fun n enough => ?_
    exact returns_three _ m.ofJson?_toJson (target.read enough.2.1) (listOf?_map each (Nat.le_of_lt enough.2.2.1))
  case conditional test yes no =>
    have first := ih.1 readable.1
    have second := ih.2.1 readable.2.1
    have third := ih.2.2 readable.2.2
    refine .tagged ⟨first.words, second.words, third.words, trivial⟩ fun n enough => ?_
    exact returns_three _ (first.read enough.1) (second.read enough.2.1) (third.read enough.2.2.1)
  case record r ms =>
    have each : ∀ p ∈ ms.map fun m => (m.name, m.expr),
        Means (fun n => pairOf? toText? (Expr.read? n)) (array [string p.1, p.2.toJson]) p := by
      simp only [List.forall_mem_map] at ih ⊢
      exact fun m mem => (ih m mem (readable m mem)).pair m.name
    have members : (ms.map fun m => Named.mk m.name m.expr) = ms := by
      refine (List.map_congr_left fun m _ => ?_).trans (List.map_id ms)
      cases m
      rfl
    refine .tagged ⟨r.means.words, isExact_map each, trivial⟩ fun n enough => ?_
    have list := listOf?_map each (Nat.le_of_lt enough.2.1)
    simp only [List.map_map, Function.comp_def] at list
    simp [Expr.read?, r.ofJson?_toJson, list, Function.comp_def, members]
  case convert x t =>
    have operand := ih readable
    refine .tagged ⟨operand.words, t.means.words, trivial⟩ fun n enough => ?_
    exact returns_two _ (operand.read enough.1) t.ofJson?_toJson
  case function name args t =>
    have each : ∀ a ∈ args, Means Expr.read? a.toJson a := fun a mem => ih a mem (readable a mem)
    refine .tagged ⟨trivial, isExact_map each, t.means.words, trivial⟩ fun n enough => ?_
    exact returns_three _ (toText?_string name) (listOf?_map each (Nat.le_of_lt enough.2.1)) t.ofJson?_toJson
  case group key elements =>
    have first := ih.1 readable.1
    have second := ih.2 readable.2
    refine .tagged ⟨first.words, second.words, trivial⟩ fun n enough => ?_
    exact returns_two _ (first.read enough.1) (second.read enough.2.1)

theorem ColumnRef.means {c : ColumnRef} (readable : c.label.Readable) : Means (fun _ => ColumnRef.ofJson?) c.toJson c := by
  refine ⟨isExact_object.2 ?_, fun _ => ?_⟩
  · simp [readable.means.words, c.ty.means.words]
  · simp [ColumnRef.toJson, ColumnRef.ofJson?, readable.means.read (Nat.lt_succ_self _), c.ty.ofJson?_toJson]

/-! ## Selects -/

/-- A column of a select in a document. -/
def columnOf? (n : Nat) (j : Json) : Option Named := do
  let f ← j.fields? ["name", "expr"]
  return ⟨← f.read? "name" toText?, ← f.read? "expr" (Expr.read? n)⟩

def keyOf? (n : Nat) (j : Json) : Option OrderKey := do
  let f ← j.fields? ["expr", "descending"]
  return ⟨← f.read? "expr" (Expr.read? n), ← f.read? "descending" toBool?⟩

theorem Named.means {c : Named} (expr : Means Expr.read? c.expr.toJson c.expr) :
    Means columnOf? (object [("name", string c.name), ("expr", c.expr.toJson)]) c := by
  refine ⟨⟨trivial, expr.words, trivial⟩, fun {n} enough => ?_⟩
  have below := below_of_depthMembers (Nat.lt_of_succ_lt enough)
  cases c
  simp [columnOf?, expr.read below.2.1]

theorem OrderKey.means {k : OrderKey} (expr : Means Expr.read? k.expr.toJson k.expr) :
    Means keyOf? (object [("expr", k.expr.toJson), ("descending", bool k.descending)]) k := by
  refine ⟨⟨expr.words, trivial, trivial⟩, fun {n} enough => ?_⟩
  have below := below_of_depthMembers (Nat.lt_of_succ_lt enough)
  cases k
  simp [keyOf?, expr.read below.1]

theorem Select.read?_object (n : Nat) (label columns source filter groupBy having orderBy offset limit distinct : Json) :
    Select.read? (n + 1) (object [("alias", label), ("columns", columns), ("from", source), ("where_clause", filter), ("group_by", groupBy),
      ("having", having), ("order_by", orderBy), ("offset", offset), ("limit", limit), ("distinct", distinct)]) = (do
      return ⟨← Alias.ofJson? label, ← listOf? (columnOf? n) columns, ← optionOf? (Source.read? n) source, ← optionOf? (Expr.read? n) filter,
        ← listOf? (Expr.read? n) groupBy, ← optionOf? (Expr.read? n) having, ← listOf? (keyOf? n) orderBy,
        ← optionOf? (Expr.read? n) offset, ← optionOf? (Expr.read? n) limit, ← distinct.toBool?⟩) := rfl

theorem Select.means {s : Select} (readable : s.label.Readable)
    (parts : SelectParts (fun e => Means Expr.read? e.toJson e) (fun src => Means Source.read? src.toJson src) s) :
    Means Select.read? s.toJson s := by
  obtain ⟨columns, source, filter, groupBy, having, orderBy, offset, limit⟩ := parts
  cases s with
  | mk label cs src cond keys kept order skipped taken distinct =>
    dsimp only at source filter groupBy having offset limit
    have columns : ∀ c ∈ cs, Means columnOf? (object [("name", string c.name), ("expr", c.expr.toJson)]) c :=
      fun c mem => Named.means (columns c mem)
    have orderBy : ∀ k ∈ order, Means keyOf? (object [("expr", k.expr.toJson), ("descending", bool k.descending)]) k :=
      fun k mem => OrderKey.means (orderBy k mem)
    simp only [Select.toJson, columnsToJson_eq, sourceToJson?_eq, exprToJson?_eq, exprsToJson_eq, orderToJson_eq]
    refine .fields ⟨readable.means.words, isExact_map columns, isExact_ofOption source, isExact_ofOption filter, isExact_map groupBy,
      isExact_ofOption having, isExact_map orderBy, isExact_ofOption offset, isExact_ofOption limit, trivial, trivial⟩ fun n enough => ?_
    obtain ⟨-, d1, d2, d3, d4, d5, d6, d7, d8, -⟩ := enough
    rw [Select.read?_object, readable.means.read (Nat.lt_succ_self _), listOf?_map columns (Nat.le_of_lt d1),
      optionOf?_ofOption source Source.toJson_ne_null d2, optionOf?_ofOption filter Expr.toJson_ne_null d3,
      listOf?_map groupBy (Nat.le_of_lt d4), optionOf?_ofOption having Expr.toJson_ne_null d5, listOf?_map orderBy (Nat.le_of_lt d6),
      optionOf?_ofOption offset Expr.toJson_ne_null d7, optionOf?_ofOption limit Expr.toJson_ne_null d8]
    rfl

/-! ## Queries -/

/-- Every combinator is a case of its own. -/
theorem Query.means_combinator {q : Query} (sources : ∀ x ∈ q.sources, x.Readable → Means Query.read? x.toJson x)
    (lambdas : ∀ l ∈ q.lambdas, l.Readable → Means Lambda.read? l.toJson l) (exprs : ∀ e ∈ q.exprs, e.Readable → Means Expr.read? e.toJson e)
    (readable : q.Readable) : Means Query.read? q.toJson q := by
  cases q <;>
    simp only [Query.sources, Query.lambdas, Query.exprs, List.mem_cons, List.not_mem_nil, or_false, forall_eq,
      Option.mem_toList, List.mem_append, or_imp, forall_and] at sources lambdas exprs <;>
    simp only [Query.Readable, readableLambda?_iff] at readable <;>
    simp only [Query.toJson, lambdaToJson?_eq]
  case table entity => exact .case (means_string entity) fun n _ => rfl
  case view entity => exact .case (means_string entity) fun n _ => rfl
  case raw entity sql => exact .tagged ⟨trivial, trivial, trivial⟩ fun n _ => rfl
  case memory values t =>
    have each := Value.items_mean values readable
    have whole : ∀ v ∈ values, Means (fun _ => Value.ofJson?) v.toJson v := fun v mem => ⟨(each v mem).words, fun _ => (each v mem).read (Nat.lt_succ_self _)⟩
    rw [Value.itemsToJson_eq]
    refine .tagged ⟨isExact_map each, t.means.words, trivial⟩ fun n enough => ?_
    exact returns_two _ (listOf?_map whole (Nat.le_of_lt enough.1)) t.ofJson?_toJson
  case of e => exact .case (exprs readable) fun n inner => congrArg (Option.map _) inner
  case filter q l | project q l | all q l =>
    have source := sources readable.1
    have lambda := lambdas readable.2
    refine .tagged ⟨source.words, lambda.words, trivial⟩ fun n enough => ?_
    exact returns_two _ (source.read enough.1) (lambda.read enough.2.1)
  case orderBy q l descending | thenBy q l descending =>
    have source := sources readable.1
    have key := lambdas readable.2
    refine .tagged ⟨source.words, key.words, trivial, trivial⟩ fun n enough => ?_
    exact returns_three _ (source.read enough.1) (key.read enough.2.1) (toBool?_bool _)
  case selectMany q l r =>
    have source := sources readable.1
    have collection := lambdas.1 readable.2.1
    have result : ∀ l ∈ r, Means Lambda.read? l.toJson l := fun l mem => lambdas.2 l mem (readable.2.2 l mem)
    refine .tagged ⟨source.words, collection.words, isExact_ofOption result, trivial⟩ fun n enough => ?_
    exact returns_three _ (source.read enough.1) (collection.read enough.2.1)
      (optionOf?_ofOption result Lambda.toJson_ne_null enough.2.2.1)
  case join o i ok ik r | groupJoin o i ok ik r =>
    have outer := sources.1 readable.1
    have inner := sources.2 readable.2.1
    have outerKey := lambdas.1 readable.2.2.1
    have innerKey := lambdas.2.1 readable.2.2.2.1
    have result := lambdas.2.2 readable.2.2.2.2
    refine .tagged ⟨outer.words, inner.words, outerKey.words, innerKey.words, result.words, trivial⟩ fun n enough => ?_
    obtain ⟨d1, d2, d3, d4, d5, -⟩ := enough
    exact returns_five _ (outer.read d1) (inner.read d2) (outerKey.read d3) (innerKey.read d4) (result.read d5)
  case groupBy q key e r =>
    have source := sources readable.1
    have key := lambdas.1.1 readable.2.1
    have element : ∀ l ∈ e, Means Lambda.read? l.toJson l := fun l mem => lambdas.1.2 l mem (readable.2.2.1 l mem)
    have result : ∀ l ∈ r, Means Lambda.read? l.toJson l := fun l mem => lambdas.2 l mem (readable.2.2.2 l mem)
    refine .tagged ⟨source.words, key.words, isExact_ofOption element, isExact_ofOption result, trivial⟩ fun n enough => ?_
    obtain ⟨d1, d2, d3, d4, -⟩ := enough
    exact returns_four _ (source.read d1) (key.read d2) (optionOf?_ofOption element Lambda.toJson_ne_null d3)
      (optionOf?_ofOption result Lambda.toJson_ne_null d4)
  case distinct q | reverse q | defaultIfEmpty q =>
    have source := sources readable
    refine .tagged ⟨source.words, trivial⟩ fun n enough => ?_
    exact congrArg (Option.map _) (source.read enough.1)
  case skip q e | take q e | contains q e =>
    have source := sources readable.1
    have value := exprs readable.2
    refine .tagged ⟨source.words, value.words, trivial⟩ fun n enough => ?_
    exact returns_two _ (source.read enough.1) (value.read enough.2.1)
  case elementAt q e orDefault =>
    have source := sources readable.1
    have index := exprs readable.2
    refine .tagged ⟨source.words, index.words, trivial, trivial⟩ fun n enough => ?_
    exact returns_three _ (source.read enough.1) (index.read enough.2.1) (toBool?_bool _)
  case cast q t =>
    have source := sources readable
    refine .tagged ⟨source.words, t.means.words, trivial⟩ fun n enough => ?_
    exact returns_two _ (source.read enough.1) t.ofJson?_toJson
  case aggregate q kind o =>
    have source := sources readable.1
    have selector : ∀ l ∈ o, Means Lambda.read? l.toJson l := fun l mem => lambdas l mem (readable.2 l mem)
    refine .tagged ⟨source.words, trivial, isExact_ofOption selector, trivial⟩ fun n enough => ?_
    exact returns_three _ (source.read enough.1) (named?_aggregateKind kind)
      (optionOf?_ofOption selector Lambda.toJson_ne_null enough.2.2.1)
  case first q o orDefault | single q o orDefault | last q o orDefault =>
    have source := sources readable.1
    have predicate : ∀ l ∈ o, Means Lambda.read? l.toJson l := fun l mem => lambdas l mem (readable.2 l mem)
    refine .tagged ⟨source.words, isExact_ofOption predicate, trivial, trivial⟩ fun n enough => ?_
    exact returns_three _ (source.read enough.1) (optionOf?_ofOption predicate Lambda.toJson_ne_null enough.2.1) (toBool?_bool _)
  case any q o =>
    have source := sources readable.1
    have predicate : ∀ l ∈ o, Means Lambda.read? l.toJson l := fun l mem => lambdas l mem (readable.2 l mem)
    refine .tagged ⟨source.words, isExact_ofOption predicate, trivial⟩ fun n enough => ?_
    exact returns_two _ (source.read enough.1) (optionOf?_ofOption predicate Lambda.toJson_ne_null enough.2.1)
  case union l r | concat l r =>
    have left := sources.1 readable.1
    have right := sources.2 readable.2
    refine .tagged ⟨left.words, right.words, trivial⟩ fun n enough => ?_
    exact returns_two _ (left.read enough.1) (right.read enough.2.1)
  case window q function =>
    have source := sources readable
    refine .tagged ⟨source.words, trivial, trivial⟩ fun n enough => ?_
    exact returns_two _ (source.read enough.1) (toText?_string _)

/-- Every kind of tree is read back from its document. -/
theorem readable_means : QueryCases (fun e => e.Readable → Means Expr.read? e.toJson e) (fun x => x.Readable → Means Subquery.read? x.toJson x)
    (fun src => src.Readable → Means Source.read? src.toJson src) (fun s => s.Readable → Means Select.read? s.toJson s)
    (fun p => p.Readable → Means Projection.read? p.toJson p) (fun q => q.Readable → Means Query.read? q.toJson q)
    (fun l => l.Readable → Means Lambda.read? l.toJson l) where
  param name _ := .case (means_string name) fun n _ => rfl
  captured name v t readable := by
    rw [Expr.toJson]
    refine .tagged ⟨trivial, (v.means readable).words, t.means.words, trivial⟩ fun n _ => ?_
    exact returns_three _ (toText?_string name) (Value.ofJson?_toJson readable) t.ofJson?_toJson
  constant v t readable := by
    rw [Expr.toJson]
    refine .tagged ⟨(v.means readable).words, t.means.words, trivial⟩ fun n _ => ?_
    exact returns_two _ (Value.ofJson?_toJson readable) t.ofJson?_toJson
  hostParameter v t readable := by
    rw [Expr.toJson]
    refine .tagged ⟨(v.means readable).words, t.means.words, trivial⟩ fun n _ => ?_
    exact returns_two _ (Value.ofJson?_toJson readable) t.ofJson?_toJson
  column c readable := .case (ColumnRef.means readable) fun n inner => congrArg (Option.map _) inner
  operator e op ih readable := Expr.means_operator op ih readable
  aggregate kind x distinct t ih readable := by
    rw [Expr.Readable, readableExpr?_iff] at readable
    have argument : ∀ e ∈ x, Means Expr.read? e.toJson e := fun e mem => ih e mem (readable e mem)
    rw [Expr.toJson, exprToJson?_eq]
    refine .tagged ⟨trivial, isExact_ofOption argument, trivial, t.means.words, trivial⟩ fun n enough => ?_
    exact returns_four _ (named?_aggregateKind kind) (optionOf?_ofOption argument Expr.toJson_ne_null enough.2.1) (toBool?_bool distinct)
      t.ofJson?_toJson
  subquery x ih readable := .case (ih readable) fun n inner => congrArg (Option.map _) inner
  projection p ih readable := .case (ih readable) fun n inner => congrArg (Option.map _) inner
  query q ih readable := .case (ih readable) fun n inner => congrArg (Option.map _) inner
  scalar s t ih readable := by
    have select := ih readable
    rw [Subquery.toJson]
    refine .tagged ⟨select.words, t.means.words, trivial⟩ fun n enough => ?_
    exact returns_two _ (select.read enough.1) t.ofJson?_toJson
  exist s ih readable := by
    have select := ih readable
    rw [Subquery.toJson]
    refine .tagged ⟨select.words, trivial⟩ fun n enough => ?_
    exact returns_one _ (select.read enough.1)
  inSelect e s left ih readable := by
    have value := left readable.1
    have select := ih readable.2
    rw [Subquery.toJson]
    refine .tagged ⟨value.words, isExact_tagged.2 select.words, trivial⟩ fun n enough => ?_
    exact returns_two _ (value.read enough.1) (select.read (lt_of_depth_tagged enough.2.1))
  inValues e vs left ih readable := by
    rw [Subquery.Readable, readableExprs_iff] at readable
    have value := left readable.1
    have each : ∀ v ∈ vs, Means Expr.read? v.toJson v := fun v mem => ih v mem (readable.2 v mem)
    rw [Subquery.toJson, exprsToJson_eq]
    refine .tagged ⟨value.words, isExact_tagged.2 (isExact_map each), trivial⟩ fun n enough => ?_
    exact returns_two _ (value.read enough.1) (listOf?_map each (Nat.le_of_lt (lt_of_depth_tagged enough.2.1)))
  table kind a entity name readable := by
    have label := Alias.Readable.means readable
    cases kind <;> rw [Source.toJson] <;>
      refine .tagged ⟨label.words, trivial, trivial, trivial⟩ fun n _ => ?_ <;>
      exact returns_three _ (label.read (Nat.lt_succ_self _)) (toText?_string entity) (toText?_string name)
  raw a sql readable := by
    have label := Alias.Readable.means readable
    rw [Source.toJson]
    refine .tagged ⟨label.words, trivial, trivial⟩ fun n _ => ?_
    exact returns_two _ (label.read (Nat.lt_succ_self _)) (toText?_string sql)
  nested s ih readable := .case (ih readable) fun n inner => congrArg (Option.map _) inner
  join kind l r condition left right on readable := by
    rw [Source.Readable, readableExpr?_iff] at readable
    have first := left readable.1
    have second := right readable.2.1
    have on : ∀ e ∈ condition, Means Expr.read? e.toJson e := fun e mem => on e mem (readable.2.2 e mem)
    rw [Source.toJson, exprToJson?_eq]
    refine .tagged ⟨trivial, first.words, second.words, isExact_ofOption on, trivial⟩ fun n enough => ?_
    obtain ⟨-, d1, d2, d3, -⟩ := enough
    exact returns_four _ (named?_joinKind kind) (first.read d1) (second.read d2) (optionOf?_ofOption on Expr.toJson_ne_null d3)
  select s parts readable := Select.means readable.label (parts.mp readable.parts)
  whole s e a ih expr readable := by
    have select := ih readable.1
    have projector := expr readable.2
    have aggregator : ∀ x ∈ a, Means (fun _ => Aggregator.ofJson?) x.toJson x := fun x _ => x.means
    rw [Projection.toJson]
    refine .fields ⟨select.words, projector.words, isExact_ofOption aggregator, trivial⟩ fun n enough => ?_
    exact returns_three _ (select.read enough.1) (projector.read enough.2.1)
      (optionOf?_ofOption aggregator Aggregator.toJson_ne_null (Nat.lt_succ_self _))
  lambda params body ih readable := by
    have inner := ih readable
    rw [Lambda.toJson]
    refine .fields ⟨isExact_ofStrings params, inner.words, trivial⟩ fun n enough => ?_
    exact returns_two _ (listOf?_strings params) (inner.read enough.2.1)
  combinator q sources lambdas exprs readable := Query.means_combinator sources lambdas exprs readable

/-- A query is read back from its document, and from its text if that is not nested too deep. -/
theorem Query.parse_toJson {q : Query} (readable : q.Readable) :
    Query.ofJson? q.toJson = some q ∧ (q.toJson.depth ≤ Query.nestingLimit → Query.parse q.toJson.compact = .ok q) := by
  have means := readable_means.queries q readable
  have document : Query.ofJson? q.toJson = some q := means.read (Nat.lt_succ_self _)
  refine ⟨document, fun shallow => ?_⟩
  rw [Query.parse, parse?_compact means.words shallow]
  simp only [document]

/-- The first of the expensive orders of a customer, or none. -/
def expensiveOrder : Query :=
  .first (.filter (.table "order")
    ⟨["o"], .binary .and (.binary .gt (.member (.param "o") "total") (.constant (.decimal ⟨false, 12500, 3, by decide, by decide⟩) .decimal))
      (.binary .eq (.member (.param "o") "customer") (.variable "name" (.text "O\"Neill\n") .text))⟩)
    none true

theorem parse_toJson_expensiveOrder :
    expensiveOrder.Readable ∧ Query.parse expensiveOrder.toJson.compact = .ok expensiveOrder :=
  have readable : expensiveOrder.Readable := by
    simp only [expensiveOrder, Query.Readable, Lambda.Readable, Expr.Readable, Value.Readable, readableLambda?]
    exact ⟨⟨trivial, ⟨trivial, by decide⟩, trivial, trivial⟩, trivial⟩
  ⟨readable, (Query.parse_toJson readable).2 (by decide)⟩

end Relational

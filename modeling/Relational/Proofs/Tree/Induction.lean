import Relational.Tree.Basic

/-!
# Induction on trees

Expressions, subqueries, sources, selects and projections hold each other, and lists and options of each other. A property of
all five kinds is proved from one case for each kind of node (`TreeCases`), in which it is known of
every part. The kinds of trees are one type as well, with the nodes right below a node as its parts (`Node`). Expressions that only combine the values of their operands are one kind of node. Queries
that are not bound are leaves, unless the property is one of queries and lambdas as well (`QueryCases`): then
the combinators are one more kind of node.
-/

namespace Relational

namespace Expr

/-- Whether an expression combines the values of its operands. -/
def isOperator : Expr → Bool
  | binary _ _ _ | unary _ _ | member _ _ | call _ _ _ | conditional _ _ _ | record _ _ | convert _ _
  | function _ _ _ | group _ _ => true
  | _ => false

def operands : Expr → List Expr
  | binary _ l r => [l, r]
  | unary _ x | member x _ | convert x _ => [x]
  | call _ x args => x :: args
  | conditional test yes no => [test, yes, no]
  | record _ ms => ms.map (·.expr)
  | function _ args _ => args
  | group key elements => [key, elements]
  | _ => []

end Expr

def Named.mapExpr (g : Expr → Expr) (m : Named) : Named := ⟨m.name, g m.expr⟩

def OrderKey.mapExpr (g : Expr → Expr) (k : OrderKey) : OrderKey := ⟨g k.expr, k.descending⟩

/-- The same operator with other operands. -/
def Expr.mapOperands (g : Expr → Expr) : Expr → Expr
  | binary op l r => binary op (g l) (g r)
  | unary op x => unary op (g x)
  | member x name => member (g x) name
  | call m x args => call m (g x) (args.map g)
  | conditional test yes no => conditional (g test) (g yes) (g no)
  | record r ms => record r (ms.map (Named.mapExpr g))
  | convert x t => convert (g x) t
  | function name args t => function name (args.map g) t
  | group key elements => group (g key) (g elements)
  | e => e

/-! ## Parts of queries -/

namespace Query

/-- The queries that a combinator is applied to. -/
def sources : Query → List Query
  | table _ | view _ | raw _ _ | memory _ _ | of _ => []
  | join outer inner _ _ _ | groupJoin outer inner _ _ _ | union outer inner | concat outer inner => [outer, inner]
  | filter q _ | project q _ | selectMany q _ _ | orderBy q _ _ | thenBy q _ _ | groupBy q _ _ _ | distinct q | skip q _ | take q _
  | cast q _ | defaultIfEmpty q | aggregate q _ _ | elementAt q _ _ | first q _ _ | single q _ _ | any q _ | all q _ | contains q _
  | reverse q | last q _ _ | window q _ => [q]

def lambdas : Query → List Lambda
  | filter _ l | project _ l | orderBy _ l _ | thenBy _ l _ | all _ l => [l]
  | selectMany _ l result => l :: result.toList
  | join _ _ outerKey innerKey result | groupJoin _ _ outerKey innerKey result => [outerKey, innerKey, result]
  | groupBy _ key element result => key :: element.toList ++ result.toList
  | aggregate _ _ l | first _ l _ | single _ l _ | any _ l | last _ l _ => l.toList
  | _ => []

/-- The expressions of a combinator that are no lambdas. -/
def exprs : Query → List Expr
  | of e | skip _ e | take _ e | elementAt _ e _ | contains _ e => [e]
  | _ => []

end Query

/-- A property of every part of a select. -/
structure SelectParts (E : Expr → Prop) (S : Source → Prop) (s : Select) : Prop where
  columns : ∀ c ∈ s.columns, E c.expr
  source : ∀ src ∈ s.source, S src
  filter : ∀ e ∈ s.filter, E e
  groupBy : ∀ e ∈ s.groupBy, E e
  having : ∀ e ∈ s.having, E e
  orderBy : ∀ k ∈ s.orderBy, E k.expr
  offset : ∀ e ∈ s.offset, E e
  limit : ∀ e ∈ s.limit, E e

theorem SelectParts.imp {E E' : Expr → Prop} {S S' : Source → Prop} {s : Select} (h : SelectParts E S s)
    (expr : ∀ e, E e → E' e) (source : ∀ src, S src → S' src) : SelectParts E' S' s :=
  ⟨fun c mem => expr _ (h.columns c mem), fun src mem => source _ (h.source src mem),
    fun e mem => expr _ (h.filter e mem), fun e mem => expr _ (h.groupBy e mem), fun e mem => expr _ (h.having e mem),
    fun k mem => expr _ (h.orderBy k mem), fun e mem => expr _ (h.offset e mem), fun e mem => expr _ (h.limit e mem)⟩

theorem SelectParts.and {E E' : Expr → Prop} {S S' : Source → Prop} {s : Select} (h : SelectParts E S s)
    (h' : SelectParts E' S' s) : SelectParts (fun e => E e ∧ E' e) (fun src => S src ∧ S' src) s :=
  ⟨fun c mem => ⟨h.columns c mem, h'.columns c mem⟩, fun src mem => ⟨h.source src mem, h'.source src mem⟩,
    fun e mem => ⟨h.filter e mem, h'.filter e mem⟩, fun e mem => ⟨h.groupBy e mem, h'.groupBy e mem⟩,
    fun e mem => ⟨h.having e mem, h'.having e mem⟩, fun k mem => ⟨h.orderBy k mem, h'.orderBy k mem⟩,
    fun e mem => ⟨h.offset e mem, h'.offset e mem⟩, fun e mem => ⟨h.limit e mem, h'.limit e mem⟩⟩

theorem SelectParts.mp {E E' : Expr → Prop} {S S' : Source → Prop} {s : Select}
    (h : SelectParts (fun e => E e → E' e) (fun src => S src → S' src) s) (h' : SelectParts E S s) : SelectParts E' S' s :=
  (h.and h').imp (fun _ both => both.1 both.2) fun _ both => both.1 both.2

/-- A node of a tree. -/
inductive Node where
  | expr (e : Expr)
  | subquery (s : Subquery)
  | source (src : Source)
  | select (s : Select)
  | projection (p : Projection)
  | lambda (l : Lambda)
  | query (q : Query)

/-- The statements and queries in an expression that is no operator. -/
def Expr.nodes : Expr → List Node
  | .query q => [.query q]
  | .aggregate _ x _ _ => x.toList.map .expr
  | .subquery s => [.subquery s]
  | .projection p => [.projection p]
  | _ => []

def Subquery.nodes : Subquery → List Node
  | .scalar s _ | .exists s => [.select s]
  | .inSelect e s => [.expr e, .select s]
  | .inValues e vs => .expr e :: vs.map .expr

def Source.nodes : Source → List Node
  | .table _ _ _ _ | .raw _ _ => []
  | .select s => [.select s]
  | .join _ l r condition => .source l :: .source r :: condition.toList.map .expr

namespace Node

def parts : Node → List Node
  | expr e => e.operands.map expr ++ e.nodes
  | subquery s => s.nodes
  | source src => src.nodes
  | select s => s.source.toList.map source ++ (s.filter.toList.map expr ++ (s.columns.map (expr ·.expr) ++ (s.groupBy.map expr ++
      (s.having.toList.map expr ++ (s.orderBy.map (expr ·.expr) ++ (s.offset.toList.map expr ++ s.limit.toList.map expr))))))
  | projection p => [select p.select, expr p.projector]
  | lambda l => [expr l.body]
  | query q => q.sources.map query ++ (q.lambdas.map lambda ++ q.exprs.map expr)

theorem parts_operator {e : Expr} (op : e.isOperator = true) : (expr e).parts = e.operands.map expr := by
  have none : e.nodes = [] := by cases e <;> first | rfl | cases op
  rw [parts, none, List.append_nil]

theorem forall_parts_select {P : Node → Prop} {s : Select} :
    (∀ n ∈ (select s).parts, P n) ↔ SelectParts (fun e => P (expr e)) (fun src => P (source src)) s := by
  simp only [parts, List.forall_mem_append, List.forall_mem_map, Option.mem_toList]
  constructor
  · rintro ⟨source, filter, columns, groupBy, having, orderBy, offset, limit⟩
    exact ⟨columns, source, filter, groupBy, having, orderBy, offset, limit⟩
  · rintro ⟨columns, source, filter, groupBy, having, orderBy, offset, limit⟩
    exact ⟨source, filter, columns, groupBy, having, orderBy, offset, limit⟩

theorem forall_parts_query {P : Node → Prop} {q : Query} : (∀ n ∈ (query q).parts, P n) ↔
    (∀ source ∈ q.sources, P (query source)) ∧ (∀ l ∈ q.lambdas, P (lambda l)) ∧ ∀ e ∈ q.exprs, P (expr e) := by
  simp only [parts, List.forall_mem_append, List.forall_mem_map]

theorem sizeOf_lt (n : Node) : ∀ p ∈ n.parts, sizeOf p < sizeOf n := by
  have list {α : Type} [SizeOf α] (l : List α) : ∀ x ∈ l, sizeOf x < sizeOf l := fun _ => List.sizeOf_lt_of_mem
  have named (ms : List Named) : ∀ m ∈ ms, sizeOf m.expr < sizeOf ms := fun m mem => by
    have := list ms m mem
    cases m
    simp only [Named.mk.sizeOf_spec] at this ⊢
    omega
  have keys (ks : List OrderKey) : ∀ k ∈ ks, sizeOf k.expr < sizeOf ks := fun k mem => by
    have := list ks k mem
    cases k
    simp only [OrderKey.mk.sizeOf_spec] at this ⊢
    omega
  have option {α : Type} [SizeOf α] (o : Option α) : ∀ x ∈ o, sizeOf x < sizeOf o := by cases o <;> simp
  cases n with
  | expr e => cases e <;> simp [parts, Expr.operands, Expr.nodes] <;> grind
  | subquery s => cases s <;> simp [parts, Subquery.nodes] <;> grind
  | source src => cases src <;> simp [parts, Source.nodes] <;> grind
  | select s =>
    cases s
    refine forall_parts_select.2 ?_
    constructor <;> simp <;> grind
  | projection p =>
    cases p
    simp [parts]
    grind
  | lambda l =>
    obtain ⟨names, body⟩ := l
    intro p mem
    obtain rfl := List.mem_singleton.1 mem
    simp only [expr.sizeOf_spec, lambda.sizeOf_spec, Lambda.mk.sizeOf_spec]
    omega
  | query q => cases q <;> simp [parts, Query.sources, Query.lambdas, Query.exprs, or_imp, forall_and] <;> grind

/-- What holds of a node if it holds of its parts holds of all nodes. -/
theorem induction {P : Node → Prop} (step : ∀ n, (∀ p ∈ n.parts, P p) → P n) (n : Node) : P n :=
  step n fun p _ => induction step p
termination_by sizeOf n
decreasing_by exact n.sizeOf_lt p ‹_›

end Node

/-- What to show of each kind of node but nested queries, given the same of its parts. -/
structure NodeCases (E : Expr → Prop) (Q : Subquery → Prop) (S : Source → Prop) (L : Select → Prop)
    (P : Projection → Prop) : Prop where
  param : ∀ name, E (.param name)
  captured : ∀ name v t, E (.variable name v t)
  constant : ∀ v t, E (.constant v t)
  hostParameter : ∀ v t, E (.hostParameter v t)
  column : ∀ c, E (.column c)
  operator : ∀ e, e.isOperator = true → (∀ x ∈ e.operands, E x) → E e
  aggregate : ∀ kind x distinct t, (∀ e ∈ x, E e) → E (.aggregate kind x distinct t)
  subquery : ∀ s, Q s → E (.subquery s)
  projection : ∀ p, P p → E (.projection p)
  scalar : ∀ s t, L s → Q (.scalar s t)
  exist : ∀ s, L s → Q (.exists s)
  inSelect : ∀ e s, E e → L s → Q (.inSelect e s)
  inValues : ∀ e vs, E e → (∀ v ∈ vs, E v) → Q (.inValues e vs)
  table : ∀ kind a entity name, S (.table kind a entity name)
  raw : ∀ a sql, S (.raw a sql)
  nested : ∀ s, L s → S (.select s)
  join : ∀ kind l r condition, S l → S r → (∀ e ∈ condition, E e) → S (.join kind l r condition)
  select : ∀ s, SelectParts E S s → L s
  whole : ∀ s e a, L s → E e → P ⟨s, e, a⟩

/-- Queries as leaves. -/
structure TreeCases (E : Expr → Prop) (Q : Subquery → Prop) (S : Source → Prop) (L : Select → Prop)
    (P : Projection → Prop) : Prop extends NodeCases E Q S L P where
  query : ∀ q, E (.query q)

/-- Queries with their parts. -/
structure QueryCases (E : Expr → Prop) (Q : Subquery → Prop) (S : Source → Prop) (L : Select → Prop)
    (P : Projection → Prop) (U : Query → Prop) (F : Lambda → Prop) : Prop extends NodeCases E Q S L P where
  query : ∀ q, U q → E (.query q)
  lambda : ∀ params body, E body → F ⟨params, body⟩
  combinator : ∀ q : Query, (∀ source ∈ q.sources, U source) → (∀ l ∈ q.lambdas, F l) → (∀ e ∈ q.exprs, E e) → U q

/-- What a property says of each kind of node. -/
def Node.Holds (E : Expr → Prop) (Q : Subquery → Prop) (S : Source → Prop) (L : Select → Prop) (P : Projection → Prop) (U : Query → Prop)
    (F : Lambda → Prop) : Node → Prop
  | expr e => E e
  | subquery s => Q s
  | source src => S src
  | select s => L s
  | projection p => P p
  | lambda l => F l
  | query q => U q

namespace QueryCases

variable {E : Expr → Prop} {Q : Subquery → Prop} {S : Source → Prop} {L : Select → Prop} {P : Projection → Prop}
  {U : Query → Prop} {F : Lambda → Prop}

theorem holds (h : QueryCases E Q S L P U F) (n : Node) : n.Holds E Q S L P U F := by
  induction n using Node.induction with
  | step n ih =>
    cases n with
    | expr e =>
      by_cases op : e.isOperator = true
      · rw [Node.parts_operator op, List.forall_mem_map] at ih
        exact h.operator e op ih
      · simp only [Node.parts, Expr.operands, Expr.nodes] at ih
        cases e with
        | param name => exact h.param name
        | «variable» name v t => exact h.captured name v t
        | constant v t => exact h.constant v t
        | hostParameter v t => exact h.hostParameter v t
        | column c => exact h.column c
        | query q => exact h.query q (ih _ (List.mem_singleton_self _))
        | aggregate kind x distinct t => exact h.aggregate kind x distinct t fun e mem => ih _ (List.mem_map_of_mem (Option.mem_toList.2 mem))
        | subquery s => exact h.subquery s (ih _ (List.mem_singleton_self _))
        | projection p => exact h.projection p (ih _ (List.mem_singleton_self _))
        | _ => cases op rfl
    | subquery s =>
      cases s <;> simp only [Node.parts, Subquery.nodes, List.forall_mem_cons, List.forall_mem_map] at ih
      case scalar s t => exact h.scalar s t ih.1
      case «exists» s => exact h.exist s ih.1
      case inSelect e s => exact h.inSelect e s ih.1 ih.2.1
      case inValues e vs => exact h.inValues e vs ih.1 ih.2
    | source src =>
      cases src <;> simp only [Node.parts, Source.nodes, List.forall_mem_cons, List.forall_mem_map, Option.mem_toList] at ih
      case table kind a entity name => exact h.table kind a entity name
      case raw a sql => exact h.raw a sql
      case select s => exact h.nested s ih.1
      case join kind l r condition => exact h.join kind l r condition ih.1 ih.2.1 ih.2.2
    | select s => exact h.select s (Node.forall_parts_select.1 ih)
    | projection p =>
      simp only [Node.parts, List.forall_mem_cons] at ih
      cases p
      exact h.whole _ _ _ ih.1 ih.2.1
    | lambda l =>
      cases l
      exact h.lambda _ _ (ih _ (List.mem_singleton_self _))
    | query q =>
      obtain ⟨sources, lambdas, exprs⟩ := Node.forall_parts_query.1 ih
      exact h.combinator q sources lambdas exprs

theorem expr (h : QueryCases E Q S L P U F) (e : Expr) : E e := h.holds (.expr e)

theorem lambdas (h : QueryCases E Q S L P U F) (l : Lambda) : F l := h.holds (.lambda l)

theorem queries (h : QueryCases E Q S L P U F) (q : Query) : U q := h.holds (.query q)

end QueryCases

namespace TreeCases

variable {E : Expr → Prop} {Q : Subquery → Prop} {S : Source → Prop} {L : Select → Prop} {P : Projection → Prop}

theorem holds (h : TreeCases E Q S L P) (n : Node) : n.Holds E Q S L P (fun _ => True) fun _ => True :=
  QueryCases.holds ⟨h.toNodeCases, fun q _ => h.query q, fun _ _ _ => trivial, fun _ _ _ _ => trivial⟩ n

theorem expr (h : TreeCases E Q S L P) (e : Expr) : E e := h.holds (.expr e)

theorem sources (h : TreeCases E Q S L P) (src : Source) : S src := h.holds (.source src)

theorem selects (h : TreeCases E Q S L P) (s : Select) : L s := h.holds (.select s)

theorem projections (h : TreeCases E Q S L P) (p : Projection) : P p := h.holds (.projection p)

end TreeCases

/-- Induction on expressions alone; nested statements count as leaves. -/
theorem Expr.induction {E : Expr → Prop} (param : ∀ name, E (.param name))
    (captured : ∀ name v t, E (.variable name v t))
    (constant : ∀ v t, E (.constant v t))
    (hostParameter : ∀ v t, E (.hostParameter v t))
    (query : ∀ q, E (.query q))
    (column : ∀ c, E (.column c))
    (operator : ∀ e, e.isOperator = true → (∀ x ∈ e.operands, E x) → E e)
    (aggregate : ∀ kind x distinct t, (∀ e ∈ x, E e) → E (.aggregate kind x distinct t))
    (subquery : ∀ s, E (.subquery s))
    (projection : ∀ p, E (.projection p)) (e : Expr) : E e := by
  have cases : TreeCases E (fun _ => True) (fun _ => True) (fun _ => True) fun _ => True := by
    constructor
    constructor
    case subquery => exact fun s _ => subquery s
    case projection => exact fun p _ => projection p
    all_goals first | assumption | intros; trivial
  exact cases.expr e

/-- Induction on sources alone; selects count as leaves. -/
theorem Source.induction {S : Source → Prop} (table : ∀ kind a entity name, S (.table kind a entity name))
    (raw : ∀ a sql, S (.raw a sql))
    (select : ∀ s, S (.select s))
    (join : ∀ kind l r condition, S l → S r → S (.join kind l r condition)) (src : Source) : S src := by
  have cases : TreeCases (fun _ => True) (fun _ => True) S (fun _ => True) fun _ => True := by
    constructor
    constructor
    case nested => exact fun s _ => select s
    case join => exact fun kind l r condition left right _ => join kind l r condition left right
    all_goals first | assumption | intros; trivial
  exact cases.sources src

end Relational

import Mathlib.Data.List.Basic
import Relational.Proofs.Rows.Related
import Relational.Proofs.Tree.Nodes
import Relational.Tree.Traverse

/-!
# Nodes of one shape

The shape of a node is what is left of it without its parts. Shape and parts together make up the node (`Node.ext`), so a walk over
trees is known from what it does with the parts of a node, whichever kind of node it is.
-/

namespace Relational

/-! ## Shapes -/

def blankSource : Source := .raw ⟨0⟩ ""

def blankSelect : Select := .plain ⟨0⟩ [] blankSource

def Expr.shape : Expr → Expr
  | .query _ => .query (.table "")
  | .aggregate kind x distinct t => .aggregate kind (x.map fun _ => default) distinct t
  | .subquery _ => .subquery (.exists blankSelect)
  | .projection _ => .projection ⟨blankSelect, default, none⟩
  | e => e.mapOperands fun _ => default

def Subquery.shape : Subquery → Subquery
  | .scalar _ t => .scalar blankSelect t
  | .exists _ => .exists blankSelect
  | .inSelect _ _ => .inSelect default blankSelect
  | .inValues _ vs => .inValues default (vs.map fun _ => default)

def Source.shape : Source → Source
  | .select _ => .select blankSelect
  | .join kind _ _ condition => .join kind blankSource blankSource (condition.map fun _ => default)
  | src => src

namespace Node

def shape : Node → Node
  | expr e => expr e.shape
  | subquery s => subquery s.shape
  | source src => source src.shape
  | select s => select (s.mapParts (fun _ => default) fun _ => blankSource)
  | projection p => projection ⟨blankSelect, default, p.aggregator⟩
  | lambda l => lambda ⟨l.params, default⟩
  | query q => query q

section Extensionality

variable {α β : Type} {b : β} {g : α → Node} {l l' : List α} {o o' : Option α} {rest rest' : List Node}

private theorem map_expr_inj {es es' : List Expr} (h : es'.map expr = es.map expr) : es' = es :=
  List.map_injective_iff.2 (fun _ _ => expr.inj) h

private theorem option_inj (inj : Function.Injective g) (h : o'.toList.map g = o.toList.map g) : o' = o := by
  cases o <;> cases o' <;> simp_all [inj.eq_iff]

private theorem append_inj (length : l'.length = l.length) (h : l'.map g ++ rest' = l.map g ++ rest) : l'.map g = l.map g ∧ rest' = rest :=
  List.append_inj h (by simpa using length)

private theorem append_option_inj (same : o'.map (fun _ => b) = o.map fun _ => b) (h : o'.toList.map g ++ rest' = o.toList.map g ++ rest) :
    o'.toList.map g = o.toList.map g ∧ rest' = rest :=
  append_inj (by cases o <;> cases o' <;> simp_all) h

private theorem map_inj {f : α → β} (inj : ∀ a a', f a' = f a → g a' = g a → a' = a) (h : l'.map f = l.map f) (h' : l'.map g = l.map g) : l' = l := by
  induction l generalizing l' with
  | nil => simpa using h
  | cons a l ih =>
    cases l' with
    | nil => cases h
    | cons a' l' =>
      simp only [List.map_cons, List.cons.injEq] at h h'
      rw [inj a a' h.1 h'.1, ih h.2 h'.2]

private theorem named_inj (m m' : Named) (name : m'.mapExpr (fun _ => default) = m.mapExpr fun _ => default)
    (same : expr m'.expr = expr m.expr) : m' = m := by
  cases m
  cases m'
  simp_all [Named.mapExpr]

private theorem key_inj (k k' : OrderKey) (flag : k'.mapExpr (fun _ => default) = k.mapExpr fun _ => default)
    (same : expr k'.expr = expr k.expr) : k' = k := by
  cases k
  cases k'
  simp_all [OrderKey.mapExpr]

private theorem ext_select {s s' : Select} (shape : (select s').shape = (select s).shape) (parts : (select s').parts = (select s).parts) : s' = s := by
  cases s
  cases s'
  simp only [Node.shape, Select.mapParts, select.injEq, Select.mk.injEq] at shape ⊢
  obtain ⟨label, columns, source, filter, groupBy, having, orderBy, offset, limit, distinct⟩ := shape
  obtain ⟨source', parts⟩ := append_option_inj source parts
  obtain ⟨filter', parts⟩ := append_option_inj filter parts
  obtain ⟨columns', parts⟩ := append_inj (by simpa using congrArg List.length columns) parts
  obtain ⟨groupBy', parts⟩ := append_inj (by simpa using congrArg List.length groupBy) parts
  obtain ⟨having', parts⟩ := append_option_inj having parts
  obtain ⟨orderBy', parts⟩ := append_inj (by simpa using congrArg List.length orderBy) parts
  obtain ⟨offset', limit'⟩ := append_option_inj offset parts
  have exprs : Function.Injective expr := fun _ _ => expr.inj
  exact ⟨label, map_inj named_inj columns columns', option_inj (fun _ _ => Node.source.inj) source', option_inj exprs filter', map_expr_inj groupBy',
    option_inj exprs having', map_inj key_inj orderBy orderBy', option_inj exprs offset', option_inj exprs limit', distinct⟩

private theorem ext_expr {e e' : Expr} (shape : e'.shape = e.shape) (parts : (expr e').parts = (expr e).parts) : e' = e := by
  cases e <;> cases e' <;> simp only [Expr.shape, Expr.mapOperands, reduceCtorEq, Expr.binary.injEq, Expr.unary.injEq, Expr.member.injEq,
    Expr.call.injEq, Expr.record.injEq, Expr.convert.injEq, Expr.aggregate.injEq, Expr.function.injEq] at shape
  case aggregate => rw [shape.1, shape.2.2.1, shape.2.2.2, option_inj (fun _ _ => expr.inj) parts]
  all_goals simp only [Node.parts, Expr.operands, Expr.nodes, List.append_nil, List.map_map, List.map_cons, List.map_nil, List.cons.injEq,
    expr.injEq] at parts
  case record => rw [shape.1, map_inj named_inj shape.2 parts]
  case call => rw [shape.1, parts.1, map_expr_inj parts.2]
  case function => rw [shape.1, shape.2.2, map_expr_inj parts]
  all_goals simp_all

/-- Nodes of the same shape with the same parts are the same. -/
theorem ext {n n' : Node} (shape : n'.shape = n.shape) (parts : n'.parts = n.parts) : n' = n := by
  cases n <;> cases n' <;> simp only [Node.shape, expr.injEq, subquery.injEq, source.injEq, projection.injEq, lambda.injEq, reduceCtorEq] at shape
  case expr => rw [ext_expr shape parts]
  case select => rw [ext_select shape parts]
  case subquery s s' =>
    cases s <;> cases s' <;> simp only [Subquery.shape, reduceCtorEq] at shape
    case inValues =>
      simp only [Node.parts, Subquery.nodes, List.cons.injEq, expr.injEq] at parts
      rw [parts.1, map_expr_inj parts.2]
    all_goals simp_all [Node.parts, Subquery.nodes]
  case source src src' =>
    cases src <;> cases src' <;> simp only [Source.shape, reduceCtorEq, Source.join.injEq] at shape
    case join =>
      simp only [Node.parts, Source.nodes, List.cons.injEq, source.injEq] at parts
      rw [shape.1, parts.1, parts.2.1, option_inj (fun _ _ => expr.inj) parts.2.2]
    all_goals simp_all [Node.parts, Source.nodes]
  case projection p p' => cases p; cases p'; simp_all [Node.parts]
  case lambda l l' => cases l; cases l'; simp_all [Node.parts]
  case query => exact shape

end Extensionality

/-- Nodes of one shape whose parts are related one by one. -/
structure Related (R : Node → Node → Prop) (n n' : Node) : Prop where
  shape : n'.shape = n.shape
  parts : List.Forall₂ R n.parts n'.parts

theorem Related.imp {R R' : Node → Node → Prop} {n n' : Node} (h : Related R n n') (imp : ∀ p p', R p p' → R' p p') : Related R' n n' :=
  ⟨h.shape, h.parts.imp imp⟩

theorem Related.flip {R : Node → Node → Prop} {n n' : Node} (h : Related R n n') : Related (flip R) n' n := ⟨h.shape.symm, h.parts.flip⟩

/-- What the parts come to decides what the node comes to. -/
theorem Related.eq {g : Node → Node} {n n' n'' : Node} (h : Related (fun p p' => p' = g p) n n') (h' : Related (fun p p' => p' = g p) n n'') :
    n' = n'' :=
  ext (h.shape.trans h'.shape.symm) (by rw [eq_map_of_forall₂ h.parts, eq_map_of_forall₂ h'.parts])

/-! ## Bound trees -/

/-- Whether a node belongs to statements, and not to a query that is not bound. -/
def isBound : Node → Bool
  | lambda _ | query _ => false
  | _ => true

theorem isBound_parts {n : Node} (bound : n.isBound = true) (other : ∀ q, n ≠ expr (.query q)) : ∀ p ∈ n.parts, p.isBound = true := by
  cases n with
  | expr e => cases e <;> simp [parts, Expr.operands, Expr.nodes, isBound] at other ⊢
  | subquery s => cases s <;> simp [parts, Subquery.nodes, isBound]
  | source src => cases src <;> simp [parts, Source.nodes, isBound]
  | select s => exact forall_parts_select.2 (by constructor <;> exact fun _ _ => rfl)
  | projection p => simp [parts, isBound]
  | lambda | query => cases bound

theorem isBound_of_shape {n n' : Node} (shape : n'.shape = n.shape) : n'.isBound = n.isBound := by
  cases n <;> cases n' <;> first | rfl | cases shape

/-- An induction that stops at queries that are not bound. -/
theorem bound_induction {P : ∀ n : Node, n.isBound = true → Prop} (query : ∀ q, P (expr (.query q)) rfl)
    (step : ∀ n bound, (∀ q, n ≠ expr (.query q)) → (∀ p ∈ n.parts, ∀ bound, P p bound) → P n bound) (n : Node) (bound : n.isBound = true) :
    P n bound := by
  induction n using induction with
  | step n ih =>
    by_cases other : ∀ q, n ≠ expr (.query q)
    · exact step n bound other ih
    · obtain ⟨q, rfl⟩ := not_forall_not.1 other
      exact query q

/-- Expressions and subqueries whose parts stand in the same place as they do. -/
def isPlain : Node → Bool
  | expr (.column _) | expr (.query _) | expr (.aggregate _ _ _ _) => false
  | expr _ | subquery _ => true
  | _ => false

theorem parts_plain {n : Node} (plain : n.isPlain = true) : ∀ p ∈ n.parts, ∀ src, p ≠ source src := by
  cases n with
  | expr e => cases e <;> simp [isPlain, parts, Expr.operands, Expr.nodes] at plain ⊢
  | subquery q => cases q <;> simp [parts, Subquery.nodes]
  | _ => cases plain

/-! ## Changed parts -/

end Node

/-- What becomes of the parts of a node, by their kinds. -/
structure PartMap where
  expr : Expr → Expr
  subquery : Subquery → Subquery
  source : Source → Source
  select : Select → Select
  projection : Projection → Projection
  lambda : Lambda → Lambda := id
  query : Query → Query := id

namespace Node

def map (g : PartMap) : Node → Node
  | expr e => expr (g.expr e)
  | subquery s => subquery (g.subquery s)
  | source src => source (g.source src)
  | select s => select (g.select s)
  | projection p => projection (g.projection p)
  | lambda l => lambda (g.lambda l)
  | query q => query (g.query q)

/-- A node of statements with its parts changed. -/
def mapParts (g : PartMap) : Node → Node
  | expr (.aggregate kind x distinct t) => expr (.aggregate kind (x.map g.expr) distinct t)
  | expr (.subquery s) => expr (.subquery (g.subquery s))
  | expr (.projection p) => expr (.projection (g.projection p))
  | expr (.query q) => expr (.query (g.query q))
  | expr e => expr (e.mapOperands g.expr)
  | subquery (.scalar s t) => subquery (.scalar (g.select s) t)
  | subquery (.exists s) => subquery (.exists (g.select s))
  | subquery (.inSelect e s) => subquery (.inSelect (g.expr e) (g.select s))
  | subquery (.inValues e vs) => subquery (.inValues (g.expr e) (vs.map g.expr))
  | source (.select s) => source (.select (g.select s))
  | source (.join kind l r condition) => source (.join kind (g.source l) (g.source r) (condition.map g.expr))
  | select s => select (s.mapParts g.expr g.source)
  | projection p => projection ⟨g.select p.select, g.expr p.projector, p.aggregator⟩
  | n => n

theorem shape_mapParts (g : PartMap) (n : Node) : (n.mapParts g).shape = n.shape := by
  cases n with
  | expr e => cases e <;> simp [mapParts, shape, Expr.shape, Expr.mapOperands, Named.mapExpr, Function.comp_def]
  | subquery s => cases s <;> simp [mapParts, shape, Subquery.shape, Function.comp_def]
  | source src => cases src <;> simp [mapParts, shape, Source.shape, Function.comp_def]
  | select s => simp [mapParts, shape, Select.mapParts, Named.mapExpr, OrderKey.mapExpr, Function.comp_def]
  | _ => rfl

theorem isPlain_mapParts (g : PartMap) (n : Node) : (n.mapParts g).isPlain = n.isPlain := by
  cases n with
  | expr e => cases e <;> rfl
  | subquery q => cases q <;> rfl
  | source src => cases src <;> rfl
  | _ => rfl

theorem parts_mapParts (g : PartMap) {n : Node} (bound : n.isBound = true) : (n.mapParts g).parts = n.parts.map (map g) := by
  cases n with
  | expr e => cases e <;> simp [mapParts, parts, Expr.operands, Expr.mapOperands, Expr.nodes, map, Named.mapExpr, Function.comp_def, Option.toList_map]
  | subquery s => cases s <;> simp [mapParts, parts, Subquery.nodes, map, Function.comp_def]
  | source src => cases src <;> simp [mapParts, parts, Source.nodes, map, Function.comp_def, Option.toList_map]
  | select s => simp [mapParts, parts, Select.mapParts, map, Function.comp_def, Option.toList_map, Named.mapExpr, OrderKey.mapExpr]
  | projection p => rfl
  | lambda | query => cases bound

theorem related_mapParts {R : Node → Node → Prop} {g : PartMap} {n : Node} (bound : n.isBound = true) (parts : ∀ p ∈ n.parts, R p (p.map g)) :
    Related R n (n.mapParts g) := by
  refine ⟨n.shape_mapParts g, ?_⟩
  rw [parts_mapParts g bound]
  exact forall₂_map parts

/-! ## Substitutions -/

end Node

/-- What becomes of the parts of a node. -/
def Substitution.parts (f : Substitution) : PartMap where
  expr := Expr.substitute f
  subquery := Subquery.substitute f
  source := Source.substitute f
  select := Select.substitute f
  projection := Projection.substitute f
  lambda := Lambda.substitute f
  query := Query.substitute f

namespace Node

section Substitution

variable {f : Substitution} {n : Node} (keeps : ∀ s, n = source (.select s) → f.removes s.label = false)
  (rebuilt : ∀ e, n = expr e → f.expr e = none)

include keeps rebuilt

/-- A node that is not replaced is rebuilt from its parts. -/
theorem substitute_eq (bound : n.isBound = true) : n.substitute f = n.mapParts f.parts := by
  cases n with
  | expr e =>
    rw [substitute, Expr.substitute.eq_def, rebuilt e rfl]
    cases e <;> simp [mapParts, Expr.mapOperands, Substitution.parts]
  | subquery s => cases s <;> simp [substitute, Subquery.substitute, mapParts, Substitution.parts]
  | source src =>
    cases src with
    | select s => rw [substitute, Source.substitute_of_kept (keeps s rfl)]; rfl
    | _ => simp [substitute, Source.substitute, mapParts, Substitution.parts]
  | select s => rw [substitute, Select.substitute_eq]; rfl
  | projection p => cases p; rfl
  | lambda | query => cases bound

theorem parts_substitute : (n.substitute f).parts = n.parts.map (substitute f) := by
  cases n with
  | lambda l => cases l; rfl
  | query q =>
    cases q
    case selectMany q l r => cases r <;> rfl
    case groupBy q key e r => cases e <;> cases r <;> rfl
    case aggregate q kind l => cases l <;> rfl
    case first q l d => cases l <;> rfl
    case single q l d => cases l <;> rfl
    case any q l => cases l <;> rfl
    case last q l d => cases l <;> rfl
    all_goals rfl
  | _ =>
    rw [substitute_eq keeps rebuilt rfl, parts_mapParts _ rfl]
    exact List.map_congr_left fun p _ => by cases p <;> rfl

/-- A node that is not replaced is of the same shape afterwards, with what its parts become. -/
theorem related_substitute (bound : n.isBound = true) : Related (fun p p' => p' = p.substitute f) n (n.substitute f) := by
  rw [substitute_eq keeps rebuilt bound]
  exact related_mapParts bound fun p _ => by cases p <;> rfl

/-- A node whose parts stay is not changed. -/
theorem substitute_self (same : ∀ p ∈ n.parts, p.substitute f = p) : n.substitute f = n := by
  cases n with
  | lambda l => cases l; simp_all [parts, substitute, Lambda.substitute]
  | query q =>
    simp only [forall_parts_query, substitute, query.injEq, lambda.injEq, expr.injEq] at same ⊢
    obtain ⟨sources, lambdas, exprs⟩ := same
    cases q <;> simp only [Query.sources, Query.lambdas, Query.exprs, List.forall_mem_cons, List.forall_mem_append,
      Option.mem_toList] at sources lambdas exprs <;>
      simp only [Query.substitute, substituteLambda_eq, sources, lambdas, exprs]
    case selectMany => rw [option_map_self lambdas.2]
    case groupBy => rw [option_map_self lambdas.1.2, option_map_self lambdas.2]
    all_goals rw [option_map_self lambdas]
  | _ =>
    refine ext (related_substitute keeps rebuilt rfl).shape ?_
    rw [parts_substitute keeps rebuilt, list_map_self same]

end Substitution

/-! ## Changes of selects -/

end Node

/-- What becomes of the parts of a node. -/
def TreeChange.parts (f : TreeChange) : PartMap where
  expr := Expr.inside f
  subquery := Subquery.inside f
  source := Source.inside f
  select s := f.select (s.inside f)
  projection p := f.projection (p.inside f)

namespace Node

def inside (f : TreeChange) : Node → Node
  | expr e => expr (e.inside f)
  | subquery s => subquery (s.inside f)
  | source src => source (src.inside f)
  | select s => select (s.inside f)
  | projection p => projection (p.inside f)
  | n => n

theorem inside_eq (f : TreeChange) {n : Node} (bound : n.isBound = true) : n.inside f = n.mapParts f.parts := by
  cases n with
  | expr e => cases e <;> simp [inside, Expr.inside, mapParts, Expr.mapOperands, TreeChange.parts]
  | subquery s => cases s <;> simp [inside, Subquery.inside, mapParts, TreeChange.parts]
  | source src => cases src <;> simp [inside, Source.inside, mapParts, TreeChange.parts]
  | select s => rw [inside, Select.inside_eq]; rfl
  | projection p => cases p; rfl
  | lambda | query => cases bound

/-! ## Collecting -/

section Collecting

variable {α : Type} (c : Collector α)

def collect : Node → List α
  | expr e => e.collect c
  | subquery s => s.collect c
  | source src => src.collect c
  | select s => s.collect c
  | projection p => p.collect c
  | lambda _ | query _ => []

/-- What is found at a node itself. -/
def found : Node → List α
  | expr e => (e.column?.map c.column).getD []
  | source src => c.source src
  | select s => c.select s
  | _ => []

theorem collect_eq {n : Node} (bound : n.isBound = true) : n.collect c = n.found c ++ n.parts.flatMap (collect c) := by
  cases n with
  | expr e =>
    by_cases op : e.isOperator = true
    · have none : e.column? = none := by cases e <;> first | rfl | cases op
      rw [collect, Expr.collect_operator c op, parts_operator op, found, none, List.flatMap_map]
      rfl
    · cases e <;> simp [collect, Expr.collect, found, parts, Expr.nodes, Expr.operands, Expr.column?, List.flatMap_map, Expr.isOperator] at op ⊢
  | subquery s => cases s <;> simp [collect, Subquery.collect, found, parts, Subquery.nodes, List.flatMap_map]
  | source src => cases src <;> simp [collect, Source.collect, found, parts, Source.nodes, List.flatMap_map]
  | select s => simp [collect, Select.collect_eq, found, parts, List.flatMap_map]
  | projection p => cases p; simp [collect, Projection.collect, found, parts]
  | lambda | query => cases bound

section Substitution

variable {β : Type} {C : Collector α} {C' : Collector β} {g : α → List β} {f : Substitution} {n : Node}
  (column : ∀ c, f.expr (.column c) = none → C'.column c = (C.column c).flatMap g)
  (select : ∀ s, C'.select (s.substitute f) = (C.select s).flatMap g)
  (source : ∀ src, (∀ s, src = .select s → f.removes s.label = false) → C'.source (src.substitute f) = (C.source src).flatMap g)

include column select source

theorem found_substitute (rebuilt : ∀ e, n = expr e → f.expr e = none) (keeps : ∀ s, n = .source (.select s) → f.removes s.label = false) :
    (n.substitute f).found C' = (n.found C).flatMap g := by
  cases n with
  | expr e =>
    rw [substitute, Expr.substitute.eq_def, rebuilt e rfl]
    cases e with
    | column c => exact column c (rebuilt _ rfl)
    | _ => rfl
  | source src => exact source src fun s same => keeps s (congrArg Node.source same)
  | select s => exact select s
  | _ => rfl

/-- What is found in a tree after a substitution is made of what was found in it before, piece by piece. -/
theorem collect_substitute (given : ∀ e e', f.expr e = some e' → e'.collect C' = (e.collect C).flatMap g) (bound : n.isBound = true)
    (kept : ∀ a ∈ n.collect declaredAliases, f.removes a = false) : (n.substitute f).collect C' = (n.collect C).flatMap g := by
  induction n, bound using bound_induction with
  | query q =>
    cases acts : f.expr (.query q) with
    | some e' => rw [substitute, Expr.substitute_given acts, collect, given _ e' acts, collect]
    | none => rw [substitute, Expr.substitute.eq_def, acts]; rfl
  | step n bound other ih =>
    obtain ⟨e, e', rfl, acts⟩ | rebuilt := n.given_or_rebuilt f.expr
    · rw [substitute, Expr.substitute_given acts, collect, given e e' acts, collect]
    · have keeps (s : Select) (same : n = .source (.select s)) : f.removes s.label = false := kept _ (by rw [same]; exact s.label_mem_declared)
      have related := related_substitute keeps rebuilt bound
      rw [collect_eq _ bound, List.forall_mem_append, List.forall_mem_flatMap] at kept
      rw [collect_eq C bound, collect_eq C' ((isBound_of_shape related.shape).trans bound), found_substitute column select source rebuilt keeps,
        parts_substitute keeps rebuilt, List.flatMap_append, List.flatMap_map, List.flatMap_assoc]
      exact congrArg (_ ++ ·) (List.flatMap_congr fun p mem => ih p mem (isBound_parts bound other p mem) (kept.2 p mem))

end Substitution

end Collecting

/-- A node declares what its shape says, beside what its parts declare. -/
theorem declares_of_shape {n n' : Node} (same : n'.shape = n.shape) : n'.found declaredAliases = n.found declaredAliases := by
  cases n <;> cases n' <;> simp only [shape, reduceCtorEq, source.injEq, select.injEq] at same <;> try rfl
  case expr.expr e e' => cases e <;> cases e' <;> rfl
  case source.source src src' => cases src <;> cases src' <;> simp only [Source.shape, reduceCtorEq] at same <;> first | rfl | rw [same]
  case select.select s s' =>
    have labels := congrArg Select.label same
    exact congrArg₂ List.cons labels rfl

/-- A node of the same shape declares no alias more often, if its parts do not. -/
theorem Related.count_le {n n' : Node} {a : Alias} (bound : n.isBound = true)
    (h : Related (fun p p' => (p'.collect declaredAliases).count a ≤ (p.collect declaredAliases).count a) n n') :
    (n'.collect declaredAliases).count a ≤ (n.collect declaredAliases).count a := by
  have parts := count_flatMap_le_of_forall₂ h.parts fun _ _ => id
  rw [collect_eq _ bound, collect_eq _ ((isBound_of_shape h.shape).trans bound), declares_of_shape h.shape, List.count_append, List.count_append]
  omega

/-! ## Aliases in sight -/

/-- The aliases that the expressions of a node see beside what the node sees. -/
def shown : Node → List Alias
  | select s => (s.source.map Source.visible).getD []
  | source (.join _ l r _) => l.visible ++ r.visible
  | projection p => [p.select.label]
  | _ => []

theorem shown_subset (n : Node) : n.shown ⊆ n.collect declaredAliases := by
  cases n with
  | select s =>
    show _ ⊆ s.declared
    rw [Select.declared_eq]
    refine List.subset_cons_of_subset _ (List.subset_append_of_subset_left _ ?_)
    cases found : s.source with
    | none => simp [shown, found]
    | some src => simpa [shown, found] using src.visible_subset
  | source src =>
    cases src with
    | join kind l r condition =>
      show _ ⊆ (Source.join kind l r condition).declared
      rw [Source.declared_join, ← List.append_assoc]
      exact List.subset_append_of_subset_left _ (List.append_subset.2
        ⟨List.subset_append_of_subset_left _ l.visible_subset, List.subset_append_of_subset_right _ r.visible_subset⟩)
    | _ => exact List.nil_subset _
  | projection p =>
    obtain ⟨s, e, a⟩ := p
    exact List.cons_subset.2 ⟨List.mem_append_left _ s.label_mem_declared, List.nil_subset _⟩
  | _ => exact List.nil_subset _

/-! ## Runs over lists -/

section Runs

variable {σ α β : Type} (run : Node → StateM σ Node)

theorem mapM_cons (p : Node) (ps : List Node) (s : σ) : (p :: ps).mapM run s =
    ((run p s).1 :: (ps.mapM run (run p s).2).1, (ps.mapM run (run p s).2).2) := by
  rw [List.mapM_cons]
  rfl

theorem mapM_append (ps qs : List Node) (s : σ) : (ps ++ qs).mapM run s =
    ((ps.mapM run s).1 ++ (qs.mapM run (ps.mapM run s).2).1, (qs.mapM run (ps.mapM run s).2).2) := by
  rw [List.mapM_append]
  rfl

variable {run}

/-- A run over a list, as one over its nodes. -/
theorem mapM_list (all : List α → StateM σ (List α)) (step : α → StateM σ α) {node : α → Node} {blank : α → β} (nil : all [] = pure [])
    (cons : ∀ a l, all (a :: l) = do return (← step a) :: (← all l)) (each : ∀ a s, run (node a) s = (node (step a s).1, (step a s).2))
    (keeps : ∀ a s, blank (step a s).1 = blank a) (l : List α) (s : σ) :
    (all l s).1.map blank = l.map blank ∧ (l.map node).mapM run s = ((all l s).1.map node, (all l s).2) := by
  induction l generalizing s with
  | nil => exact nil ▸ ⟨rfl, rfl⟩
  | cons a l ih =>
    obtain ⟨shape, parts⟩ := ih (step a s).2
    have made : all (a :: l) s = ((step a s).1 :: (all l (step a s).2).1, (all l (step a s).2).2) := by rw [cons]; rfl
    rw [made, List.map_cons, List.map_cons, List.map_cons, mapM_cons, each, parts]
    exact ⟨congrArg₂ List.cons (keeps a s) shape, rfl⟩

end Runs

/-! ## Traversals -/

section Traversal

variable {σ : Type} (f : Expr → Option (StateM σ Expr))

def traverse : Node → StateM σ Node
  | expr e => do return expr (← e.traverse f)
  | subquery s => do return subquery (← s.traverse f)
  | source src => do return source (← src.traverse f)
  | select s => do return select (← s.traverse f)
  | projection p => do return projection (← p.traverse f)
  | lambda l => pure (lambda l)
  | query q => pure (query q)

theorem mapM_all (es : List Expr) (s : σ) : (traverseAll f es s).1.map (fun _ => (default : Expr)) = es.map (fun _ => default) ∧
    (es.map expr).mapM (traverse f) s = ((traverseAll f es s).1.map expr, (traverseAll f es s).2) :=
  mapM_list (traverseAll f) (Expr.traverse f) rfl (fun _ _ => rfl) (fun _ _ => rfl) (fun _ _ => rfl) es s

theorem mapM_named (ms : List Named) (s : σ) :
    (traverseNamed f ms s).1.map (Named.mapExpr fun _ => default) = ms.map (Named.mapExpr fun _ => default) ∧
      (ms.map (expr ·.expr)).mapM (traverse f) s = ((traverseNamed f ms s).1.map (expr ·.expr), (traverseNamed f ms s).2) :=
  mapM_list (traverseNamed f) (fun m => do return ⟨m.name, ← m.expr.traverse f⟩) rfl (by rintro ⟨⟩ l; rfl) (fun _ _ => rfl) (fun _ _ => rfl) ms s

theorem mapM_keys (ks : List OrderKey) (s : σ) :
    (traverseKeys f ks s).1.map (OrderKey.mapExpr fun _ => default) = ks.map (OrderKey.mapExpr fun _ => default) ∧
      (ks.map (expr ·.expr)).mapM (traverse f) s = ((traverseKeys f ks s).1.map (expr ·.expr), (traverseKeys f ks s).2) :=
  mapM_list (traverseKeys f) (fun k => do return ⟨← k.expr.traverse f, k.descending⟩) rfl (by rintro ⟨⟩ l; rfl) (fun _ _ => rfl) (fun _ _ => rfl) ks s

theorem mapM_option (o : Option Expr) (s : σ) : (traverseOption f o s).1.map (fun _ => (default : Expr)) = o.map (fun _ => default) ∧
    (o.toList.map expr).mapM (traverse f) s = ((traverseOption f o s).1.toList.map expr, (traverseOption f o s).2) := by
  cases o <;> exact ⟨rfl, rfl⟩

theorem mapM_source (o : Option Source) (s : σ) : (traverseSource f o s).1.map (fun _ => blankSource) = o.map (fun _ => blankSource) ∧
    (o.toList.map source).mapM (traverse f) s = ((traverseSource f o s).1.toList.map source, (traverseSource f o s).2) := by
  cases o <;> exact ⟨rfl, rfl⟩

variable {f}

/-- A node that is not replaced keeps its shape, and its parts are visited one after another. -/
theorem traverse_rebuilt {n : Node} (bound : n.isBound = true) (rebuilt : ∀ e, n = expr e → f e = none) (s : σ) :
    (n.traverse f s).1.shape = n.shape ∧ n.parts.mapM (traverse f) s = ((n.traverse f s).1.parts, (n.traverse f s).2) := by
  cases n with
  | expr e =>
    have rebuilt := rebuilt e rfl
    rw [traverse, show e.traverse f = _ from by rw [Expr.traverse.eq_def, rebuilt]]
    cases e with
    | call m x args =>
      obtain ⟨shape, each⟩ := mapM_all f args (x.traverse f s).2
      refine ⟨congrArg (fun args => expr (.call m default args)) shape, ?_⟩
      show _ = ((expr (.call m (x.traverse f s).1 (traverseAll f args (x.traverse f s).2).1)).parts, _)
      rw [parts_operator rfl, parts_operator rfl, Expr.operands, List.map_cons, mapM_cons]
      exact congrArg (fun r : List Node × σ => (expr (x.traverse f s).1 :: r.1, r.2)) each
    | record r ms =>
      obtain ⟨shape, each⟩ := mapM_named f ms s
      refine ⟨congrArg (fun ms => expr (.record r ms)) shape, ?_⟩
      show _ = ((expr (.record r (traverseNamed f ms s).1)).parts, _)
      rw [parts_operator rfl, parts_operator rfl, Expr.operands, Expr.operands, List.map_map, List.map_map]
      exact each
    | function name args t =>
      obtain ⟨shape, each⟩ := mapM_all f args s
      refine ⟨congrArg (fun args => expr (.function name args t)) shape, ?_⟩
      show _ = ((expr (.function name (traverseAll f args s).1 t)).parts, _)
      rw [parts_operator rfl, parts_operator rfl]
      exact each
    | aggregate kind x distinct t =>
      obtain ⟨shape, each⟩ := mapM_option f x s
      exact ⟨congrArg (fun x => expr (.aggregate kind x distinct t)) shape, each⟩
    | _ => exact ⟨rfl, rfl⟩
  | subquery q =>
    cases q with
    | inValues e vs =>
      obtain ⟨shape, each⟩ := mapM_all f vs (e.traverse f s).2
      refine ⟨congrArg (fun vs => subquery (.inValues default vs)) shape, ?_⟩
      rw [parts, Subquery.nodes, mapM_cons]
      exact congrArg (fun r : List Node × σ => (expr (e.traverse f s).1 :: r.1, r.2)) each
    | _ => exact ⟨rfl, rfl⟩
  | source src =>
    cases src with
    | join kind l r condition =>
      obtain ⟨shape, each⟩ := mapM_option f condition (r.traverse f (l.traverse f s).2).2
      refine ⟨congrArg (fun condition => source (.join kind blankSource blankSource condition)) shape, ?_⟩
      rw [parts, Source.nodes, mapM_cons, mapM_cons]
      exact congrArg (fun t : List Node × σ => (source (l.traverse f s).1 :: source (r.traverse f (l.traverse f s).2).1 :: t.1, t.2)) each
    | _ => exact ⟨rfl, rfl⟩
  | select sel =>
    obtain ⟨label, columns, reads, filter, groupBy, having, orderBy, offset, limit, distinct⟩ := sel
    obtain ⟨shape₁, each₁⟩ := mapM_source f reads s
    rcases made₁ : traverseSource f reads s with ⟨source', s₁⟩
    obtain ⟨shape₂, each₂⟩ := mapM_option f filter s₁
    rcases made₂ : traverseOption f filter s₁ with ⟨filter', s₂⟩
    obtain ⟨shape₃, each₃⟩ := mapM_named f columns s₂
    rcases made₃ : traverseNamed f columns s₂ with ⟨columns', s₃⟩
    obtain ⟨shape₄, each₄⟩ := mapM_all f groupBy s₃
    rcases made₄ : traverseAll f groupBy s₃ with ⟨groupBy', s₄⟩
    obtain ⟨shape₅, each₅⟩ := mapM_option f having s₄
    rcases made₅ : traverseOption f having s₄ with ⟨having', s₅⟩
    obtain ⟨shape₆, each₆⟩ := mapM_keys f orderBy s₅
    rcases made₆ : traverseKeys f orderBy s₅ with ⟨orderBy', s₆⟩
    obtain ⟨shape₇, each₇⟩ := mapM_option f offset s₆
    rcases made₇ : traverseOption f offset s₆ with ⟨offset', s₇⟩
    obtain ⟨shape₈, each₈⟩ := mapM_option f limit s₇
    rcases made₈ : traverseOption f limit s₇ with ⟨limit', s₈⟩
    have run : (select ⟨label, columns, reads, filter, groupBy, having, orderBy, offset, limit, distinct⟩).traverse f s =
        (select ⟨label, columns', source', filter', groupBy', having', orderBy', offset', limit', distinct⟩, s₈) := by
      simp only [traverse, Select.traverse, bind, StateT.bind, made₁, made₂, made₃, made₄, made₅, made₆, made₇, made₈]
      rfl
    rw [made₁] at shape₁ each₁
    rw [made₂] at shape₂ each₂
    rw [made₃] at shape₃ each₃
    rw [made₄] at shape₄ each₄
    rw [made₅] at shape₅ each₅
    rw [made₆] at shape₆ each₆
    rw [made₇] at shape₇ each₇
    rw [made₈] at shape₈ each₈
    constructor
    · simp only [run, shape, Select.mapParts, shape₁, shape₂, shape₃, shape₄, shape₅, shape₆, shape₇, shape₈]
    · simp only [run, parts, mapM_append, each₁, each₂, each₃, each₄, each₅, each₆, each₇, each₈]
  | projection p =>
    cases p
    exact ⟨rfl, rfl⟩
  | lambda | query => cases bound

end Traversal

end Node

end Relational

import Mathlib.Data.List.Basic
import Relational.Proofs.Tree.Induction
import Relational.Tree.Collect
import Relational.Tree.PostOrder
import Relational.Tree.Substitution

/-!
# The parts of a node

Walks over trees have a companion for each container in which parts are held. Each companion is the walk over the members of the
container, and a walk that rebuilds a select rebuilds each of its parts (`Select.mapParts`).
-/

namespace Relational

/-! ## Rebuilding -/

@[simp] theorem Expr.operands_mapOperands (g : Expr → Expr) (e : Expr) :
    (e.mapOperands g).operands = e.operands.map g := by
  cases e <;> simp [mapOperands, operands, Named.mapExpr]

@[simp] theorem Expr.isOperator_mapOperands (g : Expr → Expr) (e : Expr) :
    (e.mapOperands g).isOperator = e.isOperator := by
  cases e <;> rfl

/-- The same operator with these operands. -/
def Expr.withOperands : Expr → List Expr → Expr
  | .binary op _ _, [l, r] => .binary op l r
  | .unary op _, [x] => .unary op x
  | .member _ name, [x] => .member x name
  | .call m _ _, x :: args => .call m x args
  | .conditional _ _ _, [test, yes, no] => .conditional test yes no
  | .record r ms, es => .record r ((ms.zip es).map fun m => ⟨m.1.name, m.2⟩)
  | .convert _ t, [x] => .convert x t
  | .function name _ t, args => .function name args t
  | .group _ _, [key, elements] => .group key elements
  | e, _ => e

theorem Expr.mapOperands_eq (g : Expr → Expr) (e : Expr) : e.mapOperands g = e.withOperands (e.operands.map g) := by
  cases e <;> simp only [mapOperands, operands, withOperands, List.map_cons, List.map_nil, List.map_map]
  case record r ms =>
    have paired : ms.zip (ms.map (g ∘ (·.expr))) = ms.map fun m => (m, g m.expr) := by
      rw [List.zip, List.zipWith_map_right, List.zipWith_self]
      rfl
    rw [paired, List.map_map]
    rfl

theorem Expr.isOperator_withOperands (e : Expr) (es : List Expr) : (e.withOperands es).isOperator = e.isOperator := by
  unfold withOperands
  split <;> rfl

theorem Expr.operands_withOperands {e : Expr} {es : List Expr} (operates : e.isOperator = true)
    (length : es.length = e.operands.length) : (e.withOperands es).operands = es := by
  cases e <;> simp only [isOperator, Bool.false_eq_true] at operates <;> simp only [operands] at length
  case binary op l r =>
    obtain ⟨x, y, rfl⟩ := List.length_eq_two.1 length
    rfl
  case unary op x =>
    obtain ⟨x, rfl⟩ := List.length_eq_one_iff.1 length
    rfl
  case member x name =>
    obtain ⟨x, rfl⟩ := List.length_eq_one_iff.1 length
    rfl
  case call m x args =>
    cases es with
    | nil => cases length
    | cons e es => rfl
  case conditional test yes no =>
    obtain ⟨x, y, z, rfl⟩ := List.length_eq_three.1 length
    rfl
  case record r ms =>
    have fits : es.length ≤ ms.length := by simpa using Nat.le_of_eq length
    rw [withOperands, operands, List.map_map]
    exact List.map_snd_zip fits
  case convert x t =>
    obtain ⟨x, rfl⟩ := List.length_eq_one_iff.1 length
    rfl
  case function name args t => rfl
  case group key elements =>
    obtain ⟨x, y, rfl⟩ := List.length_eq_two.1 length
    rfl

theorem Expr.withOperands_withOperands {e : Expr} {es es' : List Expr} (operates : e.isOperator = true)
    (length : es.length = e.operands.length) (length' : es'.length = e.operands.length) :
    (e.withOperands es).withOperands es' = e.withOperands es' := by
  cases e <;> simp only [isOperator, Bool.false_eq_true] at operates <;> simp only [operands] at length length'
  case call m x args =>
    cases es <;> cases es' <;> first | cases length | cases length' | rfl
  case record r ms =>
    have fits : ms.length = es.length := by simpa using length.symm
    simp only [withOperands, record.injEq, true_and]
    exact List.ext_getElem (by simp [fits]) fun i _ _ => by simp
  case binary | group =>
    obtain ⟨x, y, rfl⟩ := List.length_eq_two.1 length
    obtain ⟨x', y', rfl⟩ := List.length_eq_two.1 length'
    rfl
  case conditional =>
    obtain ⟨x, y, z, rfl⟩ := List.length_eq_three.1 length
    obtain ⟨x', y', z', rfl⟩ := List.length_eq_three.1 length'
    rfl
  case function => rfl
  all_goals
    obtain ⟨x, rfl⟩ := List.length_eq_one_iff.1 length
    obtain ⟨x', rfl⟩ := List.length_eq_one_iff.1 length'
    rfl

/-- A select with each of its parts changed. -/
def Select.mapParts (g : Expr → Expr) (h : Source → Source) (s : Select) : Select where
  label := s.label
  columns := s.columns.map (Named.mapExpr g)
  source := s.source.map h
  filter := s.filter.map g
  groupBy := s.groupBy.map g
  having := s.having.map g
  orderBy := s.orderBy.map (OrderKey.mapExpr g)
  offset := s.offset.map g
  limit := s.limit.map g
  distinct := s.distinct

theorem Select.columnNames_mapParts (g : Expr → Expr) (h : Source → Source) (s : Select) :
    (s.mapParts g h).columnNames = s.columnNames := by
  simp [columnNames, mapParts, Named.mapExpr]

theorem forall_mem_map_option {α β : Type} {o : Option α} {h : α → β} {P : β → Prop} : (∀ y ∈ o.map h, P y) ↔ ∀ x ∈ o, P (h x) := by
  cases o <;> simp

/-! ## Changes that change nothing -/

theorem option_map_self {α : Type} {o : Option α} {h : α → α} (same : ∀ x ∈ o, h x = x) : o.map h = o := by
  cases o with
  | none => rfl
  | some x => exact congrArg some (same x rfl)

theorem list_map_self {α : Type} {l : List α} {h : α → α} (same : ∀ x ∈ l, h x = x) : l.map h = l := by
  rw [List.map_congr_left same, List.map_id']

theorem Expr.mapOperands_self {g : Expr → Expr} {e : Expr} (same : ∀ x ∈ e.operands, g x = x) : e.mapOperands g = e := by
  cases e <;> simp only [operands, List.forall_mem_cons, List.forall_mem_map] at same
  case call m x args => simp only [mapOperands, same.1, list_map_self same.2]
  case record r ms =>
    rw [mapOperands, list_map_self fun m mem => ?_]
    cases m
    exact congrArg _ (same _ mem)
  case function name args t => rw [mapOperands, list_map_self same]
  all_goals simp only [mapOperands, same]

theorem Expr.withOperands_self (e : Expr) : e.withOperands e.operands = e := by
  rw [← List.map_id e.operands, ← mapOperands_eq]
  exact mapOperands_self fun _ _ => rfl

/-- A select of which only the source changes. -/
theorem Select.mapParts_source {g : Expr → Expr} {h : Source → Source} {s : Select}
    (parts : SelectParts (fun e => g e = e) (fun _ => True) s) : s.mapParts g h = { s with source := s.source.map h } := by
  have columns : s.columns.map (Named.mapExpr g) = s.columns := list_map_self fun m mem => by
    cases m
    exact congrArg _ (parts.columns _ mem)
  have orderBy : s.orderBy.map (OrderKey.mapExpr g) = s.orderBy := list_map_self fun k mem => by
    cases k
    exact congrArg (OrderKey.mk · _) (parts.orderBy _ mem)
  rw [mapParts, columns, orderBy, option_map_self parts.filter, list_map_self parts.groupBy, option_map_self parts.having,
    option_map_self parts.offset, option_map_self parts.limit]

theorem Select.mapParts_self {g : Expr → Expr} {h : Source → Source} {s : Select}
    (parts : SelectParts (fun e => g e = e) (fun src => h src = src) s) : s.mapParts g h = s := by
  rw [mapParts_source (parts.imp (fun _ same => same) fun _ _ => trivial), option_map_self parts.source]
  cases s
  rfl

section Substitution

variable (f : Substitution)

@[simp] theorem substituteAll_eq (es : List Expr) : substituteAll f es = es.map (Expr.substitute f) := by
  induction es with
  | nil => rfl
  | cons e es ih => rw [substituteAll, ih, List.map_cons]

@[simp] theorem substituteOption_eq (o : Option Expr) : substituteOption f o = o.map (Expr.substitute f) := by
  cases o <;> rfl

@[simp] theorem substituteNamed_eq (ms : List Named) :
    substituteNamed f ms = ms.map (Named.mapExpr (Expr.substitute f)) := by
  induction ms with
  | nil => rfl
  | cons m ms ih => cases m; rw [substituteNamed, ih, List.map_cons]; rfl

@[simp] theorem substituteKeys_eq (ks : List OrderKey) :
    substituteKeys f ks = ks.map (OrderKey.mapExpr (Expr.substitute f)) := by
  induction ks with
  | nil => rfl
  | cons k ks ih => cases k; rw [substituteKeys, ih, List.map_cons]; rfl

@[simp] theorem substituteSource_eq (o : Option Source) : substituteSource f o = o.map (Source.substitute f) := by
  cases o <;> rfl

@[simp] theorem substituteLambda_eq (o : Option Lambda) : substituteLambda f o = o.map (Lambda.substitute f) := by cases o <;> rfl

theorem Expr.substitute_given {f : Substitution} {e e' : Expr} (given : f.expr e = some e') : e.substitute f = e' := by
  rw [substitute.eq_def, given]

theorem Expr.substitute_operator {f : Substitution} {e : Expr} (op : e.isOperator = true) (rebuilt : f.expr e = none) :
    e.substitute f = e.mapOperands (Expr.substitute f) := by
  cases e <;> simp [isOperator] at op <;> simp [substitute, rebuilt, mapOperands]

theorem onColumns_operator {e : Expr} (operates : e.isOperator = true) {g : ColumnRef → Expr} : (onColumns g).expr e = none := by
  cases e <;> first | rfl | cases operates

theorem Select.substitute_eq (s : Select) : s.substitute f = s.mapParts (Expr.substitute f) (Source.substitute f) := by
  cases s
  simp [Select.substitute, mapParts]

section Fields

variable (s : Select)

@[simp] theorem Select.substitute_label : (s.substitute f).label = s.label := by rw [substitute_eq]; rfl

@[simp] theorem Select.substitute_columns :
    (s.substitute f).columns = s.columns.map (Named.mapExpr (Expr.substitute f)) := by rw [substitute_eq]; rfl

@[simp] theorem Select.substitute_source : (s.substitute f).source = s.source.map (Source.substitute f) := by
  rw [substitute_eq]; rfl

@[simp] theorem Select.substitute_filter : (s.substitute f).filter = s.filter.map (Expr.substitute f) := by
  rw [substitute_eq]; rfl

@[simp] theorem Select.substitute_groupBy : (s.substitute f).groupBy = s.groupBy.map (Expr.substitute f) := by
  rw [substitute_eq]; rfl

@[simp] theorem Select.substitute_having : (s.substitute f).having = s.having.map (Expr.substitute f) := by
  rw [substitute_eq]; rfl

@[simp] theorem Select.substitute_orderBy :
    (s.substitute f).orderBy = s.orderBy.map (OrderKey.mapExpr (Expr.substitute f)) := by rw [substitute_eq]; rfl

@[simp] theorem Select.substitute_offset : (s.substitute f).offset = s.offset.map (Expr.substitute f) := by
  rw [substitute_eq]; rfl

@[simp] theorem Select.substitute_limit : (s.substitute f).limit = s.limit.map (Expr.substitute f) := by
  rw [substitute_eq]; rfl

@[simp] theorem Select.substitute_distinct : (s.substitute f).distinct = s.distinct := by rw [substitute_eq]; rfl

end Fields

theorem Source.substitute_of_kept {f : Substitution} {s : Select} (h : f.removes s.label = false) :
    (Source.select s).substitute f = .select (s.substitute f) := by
  obtain ⟨label, columns, source, filter, groupBy, having, orderBy, offset, limit, distinct⟩ := s
  cases source <;> simp_all [Source.substitute]

theorem Source.substitute_of_removed {f : Substitution} {s : Select} {src : Source} (h : f.removes s.label = true)
    (source : s.source = some src) : (Source.select s).substitute f = src.substitute f := by
  obtain ⟨label, columns, source, filter, groupBy, having, orderBy, offset, limit, distinct⟩ := s
  subst source
  simp_all [Source.substitute]

/-- A select that reads nothing stays. -/
theorem Source.substitute_of_bare {f : Substitution} {s : Select} (h : f.removes s.label = true) (source : s.source = none) :
    (Source.select s).substitute f = .select s := by
  obtain ⟨label, columns, source, filter, groupBy, having, orderBy, offset, limit, distinct⟩ := s
  subst source
  simp_all [Source.substitute]

end Substitution

section Inside

variable (f : TreeChange)

@[simp] theorem insideAll_eq (es : List Expr) : insideAll f es = es.map (Expr.inside f) := by
  induction es with
  | nil => rfl
  | cons e es ih => rw [insideAll, ih, List.map_cons]

@[simp] theorem insideOption_eq (o : Option Expr) : insideOption f o = o.map (Expr.inside f) := by
  cases o <;> rfl

@[simp] theorem insideNamed_eq (ms : List Named) : insideNamed f ms = ms.map (Named.mapExpr (Expr.inside f)) := by
  induction ms with
  | nil => rfl
  | cons m ms ih => cases m; rw [insideNamed, ih, List.map_cons]; rfl

@[simp] theorem insideKeys_eq (ks : List OrderKey) :
    insideKeys f ks = ks.map (OrderKey.mapExpr (Expr.inside f)) := by
  induction ks with
  | nil => rfl
  | cons k ks ih => cases k; rw [insideKeys, ih, List.map_cons]; rfl

@[simp] theorem insideSource_eq (o : Option Source) : insideSource f o = o.map (Source.inside f) := by
  cases o <;> rfl

theorem Select.inside_eq (s : Select) : s.inside f = s.mapParts (Expr.inside f) (Source.inside f) := by
  cases s
  simp [Select.inside, mapParts]

end Inside

/-! ## Conjunctions -/

/-- What holds of the parts of a conjunction, and of two expressions in a row if it holds of each, holds of the conjunction. -/
theorem Expr.conjunction_induction {P : Expr → Prop} (and : ∀ l r, P l → P r → P (.binary .and l r)) {es : List Expr}
    (parts : ∀ e ∈ es, P e) : ∀ e ∈ conjunction es, P e := by
  cases es with
  | nil => rintro _ ⟨⟩
  | cons e es =>
    rintro _ ⟨⟩
    obtain ⟨first, rest⟩ := List.forall_mem_cons.1 parts
    clear parts
    induction es generalizing e with
    | nil => exact first
    | cons e' es ih =>
      obtain ⟨second, rest⟩ := List.forall_mem_cons.1 rest
      exact ih (.binary .and e e') (and e e' first second) rest

/-! ## Collecting -/

section Collect

variable {α : Type} (c : Collector α)

@[simp] theorem collectAll_eq (es : List Expr) : collectAll c es = es.flatMap (Expr.collect c) := by
  induction es with
  | nil => rfl
  | cons e es ih => rw [collectAll, ih, List.flatMap_cons]

@[simp] theorem collectOption_eq (o : Option Expr) : collectOption c o = o.toList.flatMap (Expr.collect c) := by
  cases o <;> simp [collectOption]

@[simp] theorem collectNamed_eq (ms : List Named) : collectNamed c ms = ms.flatMap (·.expr.collect c) := by
  induction ms with
  | nil => rfl
  | cons m ms ih => cases m; rw [collectNamed, ih, List.flatMap_cons]

@[simp] theorem collectKeys_eq (ks : List OrderKey) : collectKeys c ks = ks.flatMap (·.expr.collect c) := by
  induction ks with
  | nil => rfl
  | cons k ks ih => cases k; rw [collectKeys, ih, List.flatMap_cons]

@[simp] theorem collectSource_eq (o : Option Source) : collectSource c o = o.toList.flatMap (Source.collect c) := by
  cases o <;> simp [collectSource]

theorem Expr.collect_operator {e : Expr} (op : e.isOperator = true) :
    e.collect c = e.operands.flatMap (Expr.collect c) := by
  cases e <;> simp [isOperator] at op <;> simp [collect, operands, List.flatMap_map]

/-- The selects of a tree. -/
def selectNodes : Collector Select := ⟨fun _ => [], fun s => [s], fun _ => []⟩

/-- What is found in a select, clause by clause. -/
theorem Select.collect_eq (s : Select) :
    s.collect c = c.select s ++ (s.source.toList.flatMap (Source.collect c) ++
      (s.filter.toList.flatMap (Expr.collect c) ++ (s.columns.flatMap (·.expr.collect c) ++
        (s.groupBy.flatMap (Expr.collect c) ++ (s.having.toList.flatMap (Expr.collect c) ++
          (s.orderBy.flatMap (·.expr.collect c) ++ (s.offset.toList.flatMap (Expr.collect c) ++
            s.limit.toList.flatMap (Expr.collect c)))))))) := by
  cases s
  simp [Select.collect]

/-- What holds of everything that is found in a select. -/
theorem Select.forall_collect (s : Select) {P : α → Prop} : (∀ x ∈ s.collect c, P x) ↔
    (∀ x ∈ c.select s, P x) ∧ SelectParts (fun e => ∀ x ∈ e.collect c, P x) (fun src => ∀ x ∈ src.collect c, P x) s := by
  simp only [Select.collect_eq, List.forall_mem_append, List.forall_mem_flatMap, Option.mem_toList]
  constructor
  · rintro ⟨own, source, filter, columns, groupBy, having, orderBy, offset, limit⟩
    exact ⟨own, columns, source, filter, groupBy, having, orderBy, offset, limit⟩
  · rintro ⟨own, columns, source, filter, groupBy, having, orderBy, offset, limit⟩
    exact ⟨own, source, filter, columns, groupBy, having, orderBy, offset, limit⟩

end Collect

/-! ## Declared aliases -/

abbrev Expr.declared (e : Expr) : List Alias := e.collect declaredAliases

abbrev Subquery.declared (s : Subquery) : List Alias := s.collect declaredAliases

abbrev Source.declared (s : Source) : List Alias := s.collect declaredAliases

abbrev Select.declared (s : Select) : List Alias := s.collect declaredAliases

theorem Source.declared_select (s : Select) : (Source.select s).declared = s.declared := rfl

theorem Source.declared_join (kind : JoinKind) (l r : Source) (condition : Option Expr) :
    (Source.join kind l r condition).declared =
      l.declared ++ (r.declared ++ condition.toList.flatMap Expr.declared) := by
  rw [declared, collect, collectOption_eq]
  rfl

theorem Source.visible_subset (src : Source) : src.visible ⊆ src.declared := by
  induction src using Source.induction with
  | table kind a entity name => simp [visible, collect, declaredAliases]
  | raw a sql => simp [visible, collect, declaredAliases]
  | select s => simp [visible, collect, Select.collect_eq, declaredAliases]
  | join kind l r condition left right =>
    intro a mem
    rcases List.mem_append.1 mem with mem | mem
    · simp [collect, left mem]
    · simp [collect, right mem]

theorem Select.label_mem_declared (s : Select) : s.label ∈ s.declared := by
  simp [Select.collect_eq, declaredAliases]

/-- Each part of a select declares some of its aliases. -/
theorem Select.parts_subset (s : Select) :
    SelectParts (fun e => e.declared ⊆ s.declared) (fun src => src.declared ⊆ s.declared) s :=
  ((s.forall_collect declaredAliases (P := (· ∈ s.declared))).1 fun _ => id).2

/-- What the clauses of a select declare, apart from its source. -/
def Select.declaredBeside (s : Select) : List Alias :=
  s.filter.toList.flatMap Expr.declared ++ (s.columns.flatMap (·.expr.declared) ++
    (s.groupBy.flatMap Expr.declared ++ (s.having.toList.flatMap Expr.declared ++
      (s.orderBy.flatMap (·.expr.declared) ++ (s.offset.toList.flatMap Expr.declared ++
        s.limit.toList.flatMap Expr.declared)))))

theorem Select.beside_subset (s : Select) :
    SelectParts (fun e => e.declared ⊆ s.declaredBeside) (fun _ => True) s := by
  have all {P : Alias → Prop} (each : ∀ a ∈ s.declaredBeside, P a) : SelectParts (fun e => ∀ a ∈ e.declared, P a) (fun _ => True) s := by
    simp only [declaredBeside, List.forall_mem_append, List.forall_mem_flatMap, Option.mem_toList] at each
    obtain ⟨filter, columns, groupBy, having, orderBy, offset, limit⟩ := each
    exact ⟨columns, fun _ _ => trivial, filter, groupBy, having, orderBy, offset, limit⟩
  exact all fun _ => id

/-- A select declares its own alias, what its source declares and what its clauses declare. -/
theorem Select.declared_eq (s : Select) :
    s.declared = s.label :: (s.source.toList.flatMap Source.declared ++ s.declaredBeside) := by
  rw [Select.declared, Select.collect_eq]
  rfl

theorem Select.declaredBeside_subset (s : Select) : s.declaredBeside ⊆ s.declared := by
  rw [declared_eq]
  exact List.subset_cons_of_subset _ (List.subset_append_right _ _)

/-! ## Aggregates -/

theorem any_map_congr {α : Type} {l : List α} {h : α → α} {p p' : α → Bool} (same : ∀ a ∈ l, p' (h a) = p a) :
    (l.map h).any p' = l.any p := by
  induction l with
  | nil => rfl
  | cons a l ih => simp only [List.map_cons, List.any_cons, same a (by simp), ih fun b mem => same b (by simp [mem])]

@[simp] theorem anyAggregate_eq (es : List Expr) : anyAggregate es = es.any Expr.hasAggregate := by
  induction es with
  | nil => rfl
  | cons e es ih => rw [anyAggregate, ih, List.any_cons]

@[simp] theorem anyAggregateNamed_eq (ms : List Named) : anyAggregateNamed ms = ms.any (·.expr.hasAggregate) := by
  induction ms with
  | nil => rfl
  | cons m ms ih => cases m; rw [anyAggregateNamed, ih, List.any_cons]

theorem Expr.hasAggregate_operator {e : Expr} (op : e.isOperator = true) :
    e.hasAggregate = e.operands.any Expr.hasAggregate := by
  cases e <;> simp [isOperator] at op <;> simp [hasAggregate, operands, Bool.or_assoc]
  rfl

end Relational

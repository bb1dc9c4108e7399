import Relational.Proofs.Ordering.Keys
import Relational.Proofs.Tree.Traversal

/-!
# The shape of a statement whose orderings are placed

Placing orderings changes nothing but keys, and columns that keys need (`Projection.rearranged_order`). A select that is read by
another one may get columns, behind those that it has. A statement and a subquery keep theirs: they are
their result. Where nothing depends on an ordering none is left. Nested queries that are not
bound yet are left as they are (`order_unbound`).
-/

namespace Relational

/-- Whether an expression is left as it is: it has no parts, or is a query that is not bound. -/
def Expr.isStill : Expr → Bool
  | .param _ | .variable _ _ _ | .constant _ _ | .hostParameter _ _ | .column _ | .query _ => true
  | _ => false

/-- The clauses of a select that are one expression or none. -/
def Select.optional (s : Select) : List (Option Expr) := [s.filter, s.having, s.offset, s.limit]

mutual

/-- An expression and the same one with orderings placed. The flag says whether it stands in a projector. -/
inductive Expr.Rearranged : Bool → Expr → Expr → Prop where
  | still {b : Bool} {e : Expr} (still : e.isStill = true) : Expr.Rearranged b e e
  | operator {b : Bool} {e : Expr} {es : List Expr} (operates : e.isOperator = true) (length : es.length = e.operands.length)
    (operands : ∀ x ∈ e.operands.zip es, Expr.Rearranged b x.1 x.2) : Expr.Rearranged b e (e.withOperands es)
  | aggregate {b : Bool} {kind : AggregateKind} {o o' : Option Expr} {distinct : Bool} {t : Ty} (present : o'.isSome = o.isSome)
    (argument : ∀ x ∈ o, ∀ x' ∈ o', Expr.Rearranged b x x') : Expr.Rearranged b (.aggregate kind o distinct t) (.aggregate kind o' distinct t)
  | scalar {b : Bool} {s s' : Select} {t : Ty} (select : Select.Rearranged b false s s') :
    Expr.Rearranged b (.subquery (.scalar s t)) (.subquery (.scalar s' t))
  | exist {b : Bool} {s s' : Select} (select : Select.Rearranged b false s s') :
    Expr.Rearranged b (.subquery (.exists s)) (.subquery (.exists s'))
  | inSelect {b : Bool} {e e' : Expr} {s s' : Select} (expr : Expr.Rearranged b e e') (select : Select.Rearranged b false s s') :
    Expr.Rearranged b (.subquery (.inSelect e s)) (.subquery (.inSelect e' s'))
  | inValues {b : Bool} {e e' : Expr} {vs vs' : List Expr} (expr : Expr.Rearranged b e e') (length : vs'.length = vs.length)
    (values : ∀ x ∈ vs.zip vs', Expr.Rearranged b x.1 x.2) : Expr.Rearranged b (.subquery (.inValues e vs)) (.subquery (.inValues e' vs'))
  | projection {b : Bool} {p p' : Projection} (select : Select.Rearranged true false p.select p'.select)
    (projector : Expr.Rearranged true p.projector p'.projector) (aggregator : p'.aggregator = p.aggregator) :
    Expr.Rearranged b (.projection p) (.projection p')

inductive Source.Rearranged : Source → Source → Prop where
  | table {kind : SourceKind} {a : Alias} {entity name : String} : Source.Rearranged (.table kind a entity name) (.table kind a entity name)
  | raw {a : Alias} {sql : String} : Source.Rearranged (.raw a sql) (.raw a sql)
  | select {s s' : Select} (select : Select.Rearranged false true s s') : Source.Rearranged (.select s) (.select s')
  | join {kind : JoinKind} {l l' r r' : Source} {o o' : Option Expr} (left : Source.Rearranged l l') (right : Source.Rearranged r r')
    (present : o'.isSome = o.isSome) (condition : ∀ e ∈ o, ∀ e' ∈ o', Expr.Rearranged false e e') :
    Source.Rearranged (.join kind l r o) (.join kind l' r' o')

/-- A select and the same one with orderings placed. The flags say whether it keeps its ordering in any case, and whether it may get
columns. A key or a new column that is not a reference has one of the keys that were there before as its origin. -/
inductive Select.Rearranged : Bool → Bool → Select → Select → Prop where
  | intro {keeps grows : Bool} {s s' : Select} {kept added : List Named} {origin : Expr → Expr}
    (label : s'.label = s.label) (distinct : s'.distinct = s.distinct)
    (columns : s'.columns = kept ++ added) (names : kept.map (·.name) = s.columnNames)
    (exprs : ∀ x ∈ s.columns.zip kept, Expr.Rearranged false x.1.expr x.2.expr)
    (fixed : grows = false → added = [])
    (reads : s'.source.isSome = s.source.isSome) (source : ∀ src ∈ s.source, ∀ src' ∈ s'.source, Source.Rearranged src src')
    (present : s'.optional.map Option.isSome = s.optional.map Option.isSome)
    (clauses : ∀ x ∈ s.optional.zip s'.optional, ∀ e ∈ x.1, ∀ e' ∈ x.2, Expr.Rearranged false e e')
    (groups : s'.groupBy.length = s.groupBy.length) (groupBy : ∀ x ∈ s.groupBy.zip s'.groupBy, Expr.Rearranged false x.1 x.2)
    (rests : keeps = false → s'.limit = none → s'.offset = none → s'.orderBy = [])
    (origins : ∀ e ∈ s'.orderBy.map (·.expr) ++ added.map (·.expr), e.isColumn = false → origin e ∈ s.orderBy.map (·.expr))
    (keys : ∀ e ∈ s'.orderBy.map (·.expr) ++ added.map (·.expr), e.isColumn = false → Expr.Rearranged false (origin e) e) :
    Select.Rearranged keeps grows s s'

end

/-- A projection and the same one with orderings placed. -/
structure Projection.Rearranged (p p' : Projection) : Prop where
  select : Select.Rearranged true false p.select p'.select
  projector : Expr.Rearranged true p.projector p'.projector
  aggregator : p'.aggregator = p.aggregator

/-! ## One select -/

/-- Keys that are all columns, as a select hands them on. -/
def OnlyColumns (keys : Option (List OrderKey)) : Prop := ∀ k ∈ keys.getD [], k.expr.isColumn = true

theorem OnlyColumns.prependKeys {keys more : Option (List OrderKey)} (first : OnlyColumns keys) (second : OnlyColumns more) :
    OnlyColumns (some (prependKeys (keys.getD []) more)) := by
  intro k mem
  rcases mem_of_mem_prependKeys mem with own | ⟨ks, rfl, found⟩
  · exact first k own
  · exact second k found

theorem OnlyColumns.joinKeys {left right : Option (List OrderKey)} (first : OnlyColumns left) (second : OnlyColumns right) :
    OnlyColumns (joinKeys left right) := by
  cases left with
  | none => exact second
  | some keys => exact first.prependKeys second

/-- Columns are added behind those that there are, each for a key of its own. -/
theorem rebindKeys_added (label : Alias) (declared : List Alias) (columns : List Named) (ks : List OrderKey) :
    ∃ added, (rebindKeys label declared columns ks).2 = columns ++ added ∧ (added.map (·.expr)).Sublist (ks.map (·.expr)) := by
  induction ks generalizing columns with
  | nil => exact ⟨[], (List.append_nil _).symm, List.Sublist.refl _⟩
  | cons k ks ih =>
    rw [rebindKeys_cons]
    split
    · obtain ⟨added, longer, each⟩ := ih columns
      exact ⟨added, longer, each.cons _⟩
    · obtain ⟨added, longer, each⟩ := ih (keyColumn columns k.expr).2
      rcases keyColumn_cases columns k.expr with ⟨c, -, -, made⟩ | ⟨name, -, made⟩ <;> rw [made] at longer ⊢
      · exact ⟨added, longer, each.cons _⟩
      · exact ⟨⟨name, k.expr⟩ :: added, by simpa using longer, each.cons_cons _⟩

/-- The ordering that a select keeps. -/
def Select.keptKeys (outermost : Bool) (s : Select) (fromSource : Option (List OrderKey)) : List OrderKey :=
  let keepsOrder := outermost || s.limit.isSome || s.offset.isSome
  if keepsOrder && s.groupBy.isEmpty && !s.distinct && !s.hasAggregates then (s.gathered fromSource).getD []
  else if keepsOrder then s.orderBy else []

/-- A select keeps what it needs, and hands its keys on in terms of its columns if there are any and another select reads it. -/
theorem Select.placeOrdering_cases (outermost isSubquery : Bool) (s : Select) (fromSource : Option (List OrderKey)) :
    s.placeOrdering outermost isSubquery fromSource = ({ s with orderBy := s.keptKeys outermost fromSource }, none) ∨
    ∃ keys, s.gathered fromSource = some keys ∧ (!outermost && !isSubquery && s.groupBy.isEmpty && !s.distinct) = true ∧
      s.placeOrdering outermost isSubquery fromSource =
        let rebound := rebindKeys s.label (collectSource declaredAliases s.source) s.columns keys
        ({ s with orderBy := s.keptKeys outermost fromSource, columns := rebound.2 }, some (prependKeys rebound.1 none)) := by
  unfold placeOrdering
  simp only [← gathered.eq_def]
  cases gathered : s.gathered fromSource with
  | none => exact .inl (by simp only [keptKeys, gathered])
  | some keys =>
    cases handsOn : !outermost && !isSubquery && s.groupBy.isEmpty && !s.distinct with
    | false => exact .inl (by simp only [keptKeys, gathered, Bool.false_eq_true, if_false])
    | true => exact .inr ⟨keys, rfl, rfl, by simp only [keptKeys, gathered, if_true]⟩

theorem Select.mem_keptKeys {outermost : Bool} {s : Select} {fromSource : Option (List OrderKey)} {k : OrderKey}
    (mem : k ∈ s.keptKeys outermost fromSource) : k ∈ s.orderBy ∨ k ∈ fromSource.getD [] := by
  simp only [keptKeys] at mem
  split at mem
  · exact mem_gathered mem
  · split at mem
    · exact .inl mem
    · cases mem

theorem Select.keptKeys_eq_nil {s : Select} (limit : s.limit = none) (offset : s.offset = none) (fromSource : Option (List OrderKey)) :
    s.keptKeys false fromSource = [] := by
  simp [keptKeys, limit, offset]

/-- What a select becomes that gets its ordering. -/
structure Select.Places (keeps grows : Bool) (s s' : Select) : Prop where
  rest : { s' with columns := s.columns, orderBy := s.orderBy } = s
  columns : ∃ added, s'.columns = s.columns ++ added ∧ (grows = false → added = []) ∧
    ∀ c ∈ added, c.expr.isColumn = false → c.expr ∈ s.orderBy.map (·.expr)
  orderBy : ∀ k ∈ s'.orderBy, k.expr.isColumn = false → k ∈ s.orderBy
  rests : keeps = false → s.limit = none → s.offset = none → s'.orderBy = []

theorem Select.placeOrdering_places (outermost isSubquery : Bool) (s : Select) {fromSource : Option (List OrderKey)}
    (columns : OnlyColumns fromSource) :
    s.Places outermost (!outermost && !isSubquery) (s.placeOrdering outermost isSubquery fromSource).1 ∧
      OnlyColumns (s.placeOrdering outermost isSubquery fromSource).2 := by
  have own {k : OrderKey} (mem : k ∈ s.orderBy ∨ k ∈ fromSource.getD []) (other : k.expr.isColumn = false) : k ∈ s.orderBy := by
    rcases mem with mem | mem
    · exact mem
    · cases (columns k mem).symm.trans other
  have kept : ∀ k ∈ s.keptKeys outermost fromSource, k.expr.isColumn = false → k ∈ s.orderBy := fun k mem => own (mem_keptKeys mem)
  have rests (inner : outermost = false) (limit : s.limit = none) (offset : s.offset = none) : s.keptKeys outermost fromSource = [] := by
    rw [inner, keptKeys_eq_nil limit offset]
  rcases s.placeOrdering_cases outermost isSubquery fromSource with same | ⟨keys, gathered, handsOn, same⟩ <;> rw [same]
  · exact ⟨⟨by cases s; rfl, ⟨[], (List.append_nil _).symm, fun _ => rfl, by rintro _ ⟨⟩⟩, kept, rests⟩, by rintro _ ⟨⟩⟩
  · simp only [Bool.and_eq_true] at handsOn
    have rebound := rebindKeys_rebound s.label (collectSource declaredAliases s.source) s.columns keys
    obtain ⟨added, longer, each⟩ := rebindKeys_added s.label (collectSource declaredAliases s.source) s.columns keys
    refine ⟨⟨by cases s; rfl, ⟨added, longer, by simp [handsOn], fun c mem other => ?_⟩, kept, rests⟩, ?_⟩
    · obtain ⟨k, found, same⟩ := List.mem_map.1 (each.subset (List.mem_map_of_mem mem))
      rw [← same] at other ⊢
      exact List.mem_map_of_mem (own (mem_gathered (by rwa [gathered])) other)
    · have handed : OnlyColumns (some (rebindKeys s.label (collectSource declaredAliases s.source) s.columns keys).1) := by
        intro k mem
        obtain ⟨_, -, -, _, -, -, column⟩ := exists_of_forall₂ rebound.keys.flip mem
        rw [column]
        rfl
      exact handed.prependKeys (by rintro _ ⟨⟩)

/-! ## Whole trees -/

theorem forall_mem_zip_map {α β : Type} {l : List α} {g : α → β} {P : α × β → Prop} (each : ∀ a ∈ l, P (a, g a)) :
    ∀ x ∈ l.zip (l.map g), P x :=
  fun _ mem => (List.forall₂_iff_zip.1 (forall₂_map (R := fun a b => P (a, b)) each)).2 mem

theorem forall_mem_map_of_mem {α β : Type} {o : Option α} {g : α → β} {P : β → Prop} {a : α} (mem : a ∈ o) (holds : P (g a)) :
    ∀ b ∈ o.map g, P b := by
  rw [Option.mem_def.1 mem]
  rintro _ ⟨⟩
  exact holds

/-- A select whose parts are rearranged is so itself once its ordering is placed. -/
theorem Select.Places.rearranged {keeps grows : Bool} {s s' : Select}
    (parts : SelectParts (fun e => e.Rearranged false (e.order false)) (fun src => src.Rearranged src.order.1) s)
    (places : (s.mapParts (Expr.order false) fun src => src.order.1).Places keeps grows s') : s.Rearranged keeps grows s' := by
  obtain ⟨rest, ⟨added, columns, fixed, addedKeys⟩, orderBy, rests⟩ := places
  obtain ⟨label, columns', source, filter, groupBy, having, orderBy', offset, limit, distinct⟩ := s'
  simp only [mapParts, Select.mk.injEq] at rest columns orderBy rests
  obtain ⟨rfl, -, rfl, rfl, rfl, rfl, -, rfl, rfl, rfl⟩ := rest
  subst columns
  -- a key that is no column was there before, and is rearranged itself
  have images (e : Expr) (mem : e ∈ orderBy'.map (·.expr) ++ added.map (·.expr)) (other : e.isColumn = false) :
      ∃ x ∈ s.orderBy.map (·.expr), x.Rearranged false e := by
    have known : e ∈ (s.orderBy.map (OrderKey.mapExpr (Expr.order false))).map (·.expr) := by
      rcases List.mem_append.1 mem with mem | mem <;> obtain ⟨k, found, rfl⟩ := List.mem_map.1 mem
      · exact List.mem_map_of_mem (orderBy k found other)
      · exact addedKeys k found other
    rw [List.map_map] at known
    obtain ⟨k, found, rfl⟩ := List.mem_map.1 known
    exact ⟨k.expr, List.mem_map_of_mem found, parts.orderBy k found⟩
  have origins (e : Expr) : ∃ x, e ∈ orderBy'.map (·.expr) ++ added.map (·.expr) → e.isColumn = false →
      x ∈ s.orderBy.map (·.expr) ∧ x.Rearranged false e := by
    by_cases key : e ∈ orderBy'.map (·.expr) ++ added.map (·.expr) ∧ e.isColumn = false
    · obtain ⟨x, mem, rearranged⟩ := images e key.1 key.2
      exact ⟨x, fun _ _ => ⟨mem, rearranged⟩⟩
    · exact ⟨e, fun mem other => absurd ⟨mem, other⟩ key⟩
  choose origin origins using origins
  have optional : ∀ o ∈ s.optional, ∀ e ∈ o, e.Rearranged false (e.order false) := by
    simp only [Select.optional, List.forall_mem_cons]
    exact ⟨parts.filter, parts.having, parts.offset, parts.limit, by rintro _ ⟨⟩⟩
  refine @Select.Rearranged.intro keeps grows s _ (s.columns.map (Named.mapExpr (Expr.order false))) added origin rfl rfl rfl ?_
    (forall_mem_zip_map parts.columns) fixed ?_ ?_ ?_ ?_ ?_ (forall_mem_zip_map parts.groupBy) rests
    (fun e mem other => (origins e mem other).1) fun e mem other => (origins e mem other).2
  · rw [List.map_map]
    rfl
  · exact Option.isSome_map
  · exact fun src mem => forall_mem_map_of_mem mem (parts.source src mem)
  · simp [Select.optional]
  · refine forall_mem_zip_map (l := s.optional) (g := Option.map (Expr.order false)) fun o mem e found => ?_
    exact forall_mem_map_of_mem found (optional o mem e found)
  · exact List.length_map _

/-- Placing orderings rearranges every tree, and hands on columns alone. -/
theorem order_rearranged : TreeCases (fun e => ∀ b, e.Rearranged b (e.order b))
    (fun q => ∀ b, (Expr.subquery q).Rearranged b (.subquery (q.order b)))
    (fun src => src.Rearranged src.order.1 ∧ OnlyColumns src.order.2)
    (fun s => ∀ outermost isSubquery, s.Rearranged outermost (!outermost && !isSubquery) (s.order outermost isSubquery).1 ∧
      OnlyColumns (s.order outermost isSubquery).2)
    (fun p => p.Rearranged p.order) := by
  have subquery {s : Select} (select : ∀ outermost isSubquery, s.Rearranged outermost (!outermost && !isSubquery) (s.order outermost isSubquery).1 ∧
      OnlyColumns (s.order outermost isSubquery).2) (b : Bool) : s.Rearranged b false (s.order b true).1 := by
    simpa using (select b true).1
  have option {o : Option Expr} (each : ∀ e ∈ o, ∀ b, e.Rearranged b (e.order b)) (b : Bool) :
      ∀ e ∈ o, ∀ e' ∈ o.map (Expr.order b), e.Rearranged b e' :=
    fun e mem => forall_mem_map_of_mem mem (each e mem b)
  constructor
  constructor
  case operator =>
    intro e op ih b
    rw [Expr.order_operator b op, Expr.mapOperands_eq]
    exact .operator op (List.length_map _) (forall_mem_zip_map fun x mem => ih x mem b)
  case aggregate =>
    intro kind x distinct t ih b
    rw [Expr.order, orderOption_eq]
    exact .aggregate Option.isSome_map (option ih b)
  case subquery => exact fun q ih => ih
  case projection => exact fun p ih b => .projection ih.select ih.projector ih.aggregator
  case scalar => exact fun s t ih b => .scalar (subquery ih b)
  case exist => exact fun s ih b => .exist (subquery ih b)
  case inSelect => exact fun e s expr ih b => .inSelect (expr b) (subquery ih b)
  case inValues =>
    intro e vs expr values b
    rw [Subquery.order, orderAll_eq]
    exact .inValues (expr b) (List.length_map _) (forall_mem_zip_map fun v mem => values v mem b)
  case table => exact fun kind a entity name => ⟨.table, by rintro _ ⟨⟩⟩
  case raw => exact fun a sql => ⟨.raw, by rintro _ ⟨⟩⟩
  case nested => exact fun s ih => ⟨.select (ih false false).1, (ih false false).2⟩
  case join =>
    intro kind l r condition left right tests
    rw [Source.order, orderOption_eq]
    exact ⟨.join left.1 right.1 Option.isSome_map (option tests false), left.2.joinKeys right.2⟩
  case select =>
    intro s parts outermost isSubquery
    have handed : OnlyColumns (orderSource s.source).2 := by
      cases source : s.source with
      | none => rintro _ ⟨⟩
      | some src => exact (parts.source src source).2
    obtain ⟨places, columns⟩ := Select.placeOrdering_places outermost isSubquery
      (s.mapParts (Expr.order false) fun src => src.order.1) handed
    rw [Select.order_eq]
    exact ⟨places.rearranged (parts.imp (fun e expr => expr false) fun src source => source.1), columns⟩
  case whole => exact fun s e a select expr => ⟨(select true false).1, expr true, rfl⟩
  all_goals
    intros
    exact .still rfl

/-- Placing the orderings of a projection changes its shape in no other way than that columns are added to selects that others read, and
leaves no ordering where nothing depends on it. -/
theorem Projection.rearranged_order (p : Projection) : p.Rearranged p.order := order_rearranged.projections p

/-- The numbers of items, from a select that puts them in order. -/
def itemNumbers : Projection :=
  let sorted : Select :=
    { Select.plain ⟨1⟩ [⟨"number", .column ⟨⟨0⟩, "number", .i64⟩⟩] (.table .table ⟨0⟩ "Item" "items") with
      orderBy := [⟨.column ⟨⟨0⟩, "number", .i64⟩, false⟩] }
  ⟨.plain ⟨2⟩ [⟨"number", .column ⟨⟨1⟩, "number", .i64⟩⟩] (.select sorted), .column ⟨⟨2⟩, "number", .i64⟩, none⟩

/-- The same numbers in a query that is not bound yet. -/
def unboundItemNumbers : Projection := ⟨.bare ⟨3⟩ [], .query (.of (.projection itemNumbers)), none⟩

theorem order_unbound : unboundItemNumbers.order = unboundItemNumbers ∧
    itemNumbers.select.source.map (fun src => src.select?.map (·.orderBy.length)) = some (some 1) ∧
    itemNumbers.order.select.source.map (fun src => src.select?.map (·.orderBy.length)) = some (some 0) :=
  ⟨rfl, rfl, rfl⟩

end Relational

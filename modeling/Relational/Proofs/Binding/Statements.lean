import Relational.Proofs.Binding.Closure
import Relational.Proofs.Binding.Parts
import Relational.Proofs.Tree.Every

/-!
# Statements of a bound query

A bound query is run by its own statement and those that are nested in its projector (`Projection.Fetches`). Wherever a nested query may
have no second element, its statement reads one row at most (`Query.bind_sparing`), so a second row is never seen.
The induction is over the query. What a parameter stands for is copied and its columns are renamed, but limits
are literals and stay.
-/

namespace Relational

open Binding

/-- The statements that are run to read a projection. -/
inductive Projection.Fetches : Projection → Projection → Prop where
  | own (p : Projection) : Fetches p p
  | nested {p p' p'' : Projection} (mem : p' ∈ p.projector.nested) (fetches : Fetches p' p'') : Fetches p p''

/-- A statement of a nested query: its columns hold no statements, and where there may be no second row it reads but one. -/
structure Projection.ReadsOne (p : Projection) : Prop where
  columns : ∀ c ∈ p.select.columns, c.expr.nested = []
  limit : ∀ orDefault, p.aggregator = some (.single orDefault) → p.select.limit = some (.ofValue (.int 1))

/-- All statements of nested queries read one row where there may be no second. -/
def Projection.Sparing (p : Projection) : Prop := ∀ p', p.Fetches p' → p'.ReadsOne

def Expr.Sparing (e : Expr) : Prop := ∀ p ∈ e.nested, p.Sparing

section Sparing

variable {e : Expr} {p p' : Projection}

theorem Projection.sparing_iff : p.Sparing ↔ p.ReadsOne ∧ p.projector.Sparing := by
  constructor
  · exact fun sparing => ⟨sparing p (.own p), fun _ mem p'' fetches => sparing p'' (.nested mem fetches)⟩
  · rintro ⟨own, nested⟩ p' fetches
    cases fetches with
    | own => exact own
    | nested mem fetches => exact nested _ mem _ fetches

theorem Expr.sparing_projection : (Expr.projection p).Sparing ↔ p.Sparing := List.forall_mem_singleton

theorem Expr.sparing_operator (operates : e.isOperator = true) : e.Sparing ↔ ∀ x ∈ e.operands, x.Sparing := by
  rw [Sparing, nested_operator operates, List.forall_mem_flatMap]
  rfl

theorem Expr.sparing_of_nil (none : e.nested = []) : e.Sparing := by
  rw [Sparing, none]
  rintro _ ⟨⟩

/-! ## Columns -/

variable {g : ColumnRef → Expr}

/-- Expressions without statements put in the places of columns change the statements, but add none. -/
theorem Expr.nested_substitute (single : ∀ c, (g c).nested = []) (e : Expr) :
    (e.substitute (onColumns g)).nested = e.nested.map (Projection.substitute (onColumns g)) := by
  induction e using Expr.induction with
  | operator e operates ih =>
    have rebuilt : (onColumns g).expr e = none := by cases e <;> first | rfl | cases operates
    rw [substitute_operator operates rebuilt, nested_operator (by simpa using operates), operands_mapOperands, nested_operator operates,
      List.flatMap_map, List.map_flatMap]
    exact List.flatMap_congr ih
  | column c => exact single c
  | _ => rfl

theorem Projection.Fetches.of_substitute (single : ∀ c, (g c).nested = []) {p₁ p₂ : Projection} (fetches : p₁.Fetches p₂) :
    ∀ p : Projection, p₁ = p.substitute (onColumns g) → ∃ p' : Projection, p.Fetches p' ∧ p₂ = p'.substitute (onColumns g) := by
  induction fetches with
  | own => exact fun p same => ⟨p, .own p, same⟩
  | nested mem _ ih =>
    rintro ⟨s, e, aggregator⟩ rfl
    rw [Projection.substitute, Expr.nested_substitute single] at mem
    obtain ⟨p', within, rfl⟩ := List.mem_map.1 mem
    obtain ⟨p'', fetches, rfl⟩ := ih p' rfl
    exact ⟨p'', .nested within fetches, rfl⟩

theorem Projection.ReadsOne.substitute (single : ∀ c, (g c).nested = []) (reads : p.ReadsOne) : (p.substitute (onColumns g)).ReadsOne := by
  obtain ⟨s, e, aggregator⟩ := p
  constructor
  · rw [Projection.substitute, Select.substitute_columns, List.forall_mem_map]
    intro c mem
    rw [Named.mapExpr, Expr.nested_substitute single, reads.columns c mem, List.map_nil]
  · intro orDefault same
    rw [Projection.substitute, Select.substitute_limit, reads.limit orDefault same]
    rfl

theorem Projection.Sparing.substitute (single : ∀ c, (g c).nested = []) (sparing : p.Sparing) : (p.substitute (onColumns g)).Sparing := by
  intro p₂ fetches
  obtain ⟨p', within, rfl⟩ := fetches.of_substitute single p rfl
  exact (sparing p' within).substitute single

theorem Expr.Sparing.substitute (single : ∀ c, (g c).nested = []) (sparing : e.Sparing) : (e.substitute (onColumns g)).Sparing := by
  rw [Expr.Sparing, nested_substitute single, List.forall_mem_map]
  exact fun p mem => (sparing p mem).substitute single

theorem Expr.Sparing.projectColumns (sparing : e.Sparing) (label : Alias) (sources : List Alias) :
    (e.projectColumns label sources).projector.Sparing := by
  obtain ⟨l, -, nested⟩ := e.nested_projectColumns label sources
  rw [Expr.Sparing, nested, List.forall_mem_map]
  exact fun p mem => (sparing p mem).substitute fun _ => rfl

/-- Columns hold no statements. -/
theorem Expr.nested_column (e : Expr) (label : Alias) (sources : List Alias) : ∀ c ∈ (e.projectColumns label sources).columns, c.expr.nested = [] := by
  have whole (x : Expr) (part : e.HasPart x) : x.nested = [] := by
    induction part with
    | whole whole => exact nested_of_isWhole whole
    | operand _ _ _ _ ih => exact ih
  obtain ⟨l, columns, made, -⟩ := e.projectColumns_splits ⟨label, sources⟩ (fun _ _ _ => rfl) whole
  rw [columns]
  exact made.parts

end Sparing

/-! ## Steps of binding -/

section Steps

/-- Nothing is asked of the aliases. -/
private theorem anyGrowth : IsGrowth fun _ _ : Alias => True := ⟨fun _ => trivial, fun _ _ _ _ _ => trivial⟩

/-- A binding that gives something with a property. -/
abbrev Binding.Leads {α : Type} (P : α → Prop) (x : Binding α) : Prop := x.Gives (fun _ _ => True) P

def Sequence.Sparing : Sequence → Prop
  | .memory _ _ => True
  | .rows p => p.Sparing

variable {e condition : Expr} {p : Projection}

theorem asRows_sparing {s : Sequence} (sparing : s.Sparing) : (asRows s).Leads Projection.Sparing := by
  cases s with
  | memory => exact .fail rfl
  | rows p => exact .pure anyGrowth sparing

theorem freshAlias_leads : freshAlias.Leads fun _ => True := ⟨fun _ _ _ _ => ⟨trivial, trivial⟩, fun _ => .ok _⟩

theorem wrap_sparing (sparing : e.Sparing) (inner : Select) {finish : Select → Select} (keeps : ∀ s, (finish s).columns = s.columns) :
    (wrap inner e finish).Leads Projection.Sparing := by
  refine freshAlias_leads.bind anyGrowth fun label _ => .pure anyGrowth (Projection.sparing_iff.2 ⟨⟨?_, by rintro _ ⟨⟩⟩, sparing.projectColumns _ _⟩)
  rw [keeps]
  exact e.nested_column label [inner.label]

theorem filtered_sparing (sparing : p.Sparing) (condition : Expr) : (filtered p condition).Leads Projection.Sparing :=
  wrap_sparing (Projection.sparing_iff.1 sparing).2 _ fun _ => rfl

theorem filteredBy_sparing (sparing : p.Sparing) (o : Option Expr) : (filteredBy p o).Leads Projection.Sparing := by
  cases o with
  | none => exact .pure anyGrowth sparing
  | some condition => exact filtered_sparing sparing condition

theorem ordered_sparing (sparing : p.Sparing) (keys : List OrderKey) : (ordered p keys).Leads Projection.Sparing :=
  wrap_sparing (Projection.sparing_iff.1 sparing).2 _ fun _ => rfl

theorem joined_sparing (p : Projection) (kind : JoinKind) (right : Source) (condition : Option Expr) (sparing : e.Sparing) :
    (joined p kind right condition e).Leads Projection.Sparing :=
  freshAlias_leads.bind anyGrowth fun _ _ =>
    .pure anyGrowth (Projection.sparing_iff.2 ⟨⟨e.nested_column _ _, by rintro _ ⟨⟩⟩, sparing.projectColumns _ _⟩)

theorem entity_sparing (catalog : Catalog) (name : String) (source : TableSchema → Alias → Source) :
    (entity catalog name source).Leads Projection.Sparing := by
  have found : (catalog.get name).Yields fun _ => True := by
    unfold Catalog.get
    split
    · exact .given trivial
    · exact .error rfl
  refine .bind anyGrowth (.ofResult anyGrowth found) fun schema _ =>
    freshAlias_leads.bind anyGrowth fun table _ => freshAlias_leads.bind anyGrowth fun label _ => ?_
  refine .pure anyGrowth (Projection.sparing_iff.2 ⟨⟨List.forall_mem_map.2 fun _ _ => rfl, by rintro _ ⟨⟩⟩, ?_⟩)
  refine (Expr.sparing_operator rfl).2 (List.forall_mem_map.2 (List.forall_mem_map.2 fun c _ => ?_))
  exact Expr.sparing_of_nil rfl

theorem contained_sparing (value : Expr) (p : Projection) : (contained value (.rows p)).Leads Expr.Sparing :=
  .bind anyGrowth (P := fun _ => True) (freshAlias_leads.bind anyGrowth fun _ _ => .pure anyGrowth trivial) fun _ _ =>
    .ite (fun _ => .fail rfl) fun _ => .pure anyGrowth (Expr.sparing_of_nil rfl)

theorem Expr.sparing_closure : ExprClosure Expr.Sparing fun _ _ => True where
  growth := anyGrowth
  literal literal := by
    rename_i e
    cases e <;> simp only [isLiteral, Bool.false_eq_true] at literal <;> exact sparing_of_nil rfl
  operator := sparing_operator
  inValues _ _ := sparing_of_nil rfl
  contained _ _ := contained_sparing _ _

theorem sequence_sparing {value : Expr} {s : Sequence} (sparing : value.Sparing) : (contained value s).Leads Expr.Sparing := by
  cases s with
  | memory values element => exact .pure anyGrowth (Expr.sparing_closure.containedInMemory sparing values element)
  | rows p => exact contained_sparing value p

theorem sequenceOf_sparing (sparing : e.Sparing) : (sequenceOf e).Yields Sequence.Sparing := by
  refine (Expr.sparing_closure.sequenceOf sparing).imp fun s within => ?_
  cases s with
  | memory => trivial
  | rows p => exact Expr.sparing_projection.1 (within p rfl)

theorem aggregated_sparing (root : Bool) (kind : AggregateKind) (p : Projection) (argument : Option Expr) (distinct : Bool) :
    (aggregated root kind p argument distinct).Leads Expr.Sparing := by
  refine freshAlias_leads.bind anyGrowth fun label _ => .pure anyGrowth ?_
  split
  · refine Expr.sparing_projection.2 (Projection.sparing_iff.2 ⟨⟨?_, by rintro _ ⟨⟩⟩, Expr.sparing_of_nil rfl⟩)
    exact List.forall_mem_singleton.2 rfl
  · exact Expr.sparing_of_nil rfl

theorem aggregateArgument_leads (kind : AggregateKind) (selected : Option Expr) (p : Projection) :
    (aggregateArgument kind selected p).Leads fun _ => True :=
  .ite (fun _ => .pure anyGrowth trivial) fun _ => .ite (fun _ => .pure anyGrowth trivial) fun _ => .fail rfl

/-- One element inside another query, or any first one. -/
theorem element_sparing {root : Bool} (sparing : p.Sparing) (offset : Option Expr) {aggregator : Aggregator}
    (inside : ∀ orDefault, aggregator = .single orDefault → root = false) : (element root p offset aggregator).Leads Expr.Sparing := by
  refine freshAlias_leads.bind anyGrowth fun label _ => .pure anyGrowth ?_
  dsimp only
  split
  · exact Expr.sparing_of_nil rfl
  · have projector := (Projection.sparing_iff.1 sparing).2
    refine Expr.sparing_projection.2 (Projection.sparing_iff.2 ⟨⟨p.projector.nested_column _ _, ?_⟩, projector.projectColumns _ _⟩)
    rintro orDefault ⟨⟩
    rw [inside orDefault rfl]
    rfl

theorem collectionRows_sparing (sparing : e.Sparing) : (collectionRows e).Leads Projection.Sparing := by
  unfold collectionRows
  split
  · exact .pure anyGrowth (Expr.sparing_projection.1 sparing)
  · have parts := (Expr.sparing_operator rfl).1 sparing
    exact .pure anyGrowth (Expr.sparing_projection.1 (parts _ (List.mem_cons_of_mem _ List.mem_cons_self)))
  all_goals exact .fail rfl

theorem collectionJoin_sparing (p : Projection) {inner : Projection} (outer : Bool) (sparing : inner.Sparing) :
    (collectionJoin p inner outer).Leads fun r => r.2.2.2.Sparing := by
  obtain ⟨own, projector⟩ := Projection.sparing_iff.1 sparing
  have columns (c : ColumnRef) : ((ColumnMap.ofSelect inner.select).replace c).nested = [] := by
    rw [ColumnMap.replace]
    cases found : (ColumnMap.ofSelect inner.select).get? c.label c.name with
    | none => rfl
    | some e =>
      obtain ⟨l₁, l₂, split, -⟩ := List.lookup_eq_some_iff.1 found
      have mem : ((c.label, c.name), e) ∈ ColumnMap.ofSelect inner.select := by rw [split]; simp
      obtain ⟨d, within, same⟩ := List.mem_map.1 (List.mem_reverse.1 mem)
      have expr : d.expr = e := congrArg Prod.snd same
      exact expr ▸ own.columns d within
  unfold collectionJoin
  refine .ite (fun _ => .pure anyGrowth projector) fun _ => ?_
  dsimp only
  split
  · exact .ite (fun _ => .pure anyGrowth (projector.substitute columns)) fun _ => .fail rfl
  · exact .fail rfl

end Steps

/-! ## Combinators -/

section Queries

variable {catalog : Catalog} {scope : Scope}

def Scope.Sparing (scope : Scope) : Prop := ∀ b ∈ scope, b.2.Sparing

variable (catalog) in
def Expr.BindsSparing (e : Expr) : Prop := ∀ scope : Scope, scope.Sparing → (e.bind catalog scope).Leads Expr.Sparing

variable (catalog) in
structure Lambda.BindsSparing (l : Lambda) : Prop where
  body : ∀ scope args, Scope.Sparing scope → (∀ x ∈ args, x.Sparing) → (l.bind catalog scope args).Leads Expr.Sparing
  collection : ∀ scope args, Scope.Sparing scope → (∀ x ∈ args, x.Sparing) →
    (l.bindCollection catalog scope args).Leads fun r => r.1.Sparing

variable (catalog) in
structure Query.BindsSparing (q : Query) : Prop where
  source : ∀ scope, Scope.Sparing scope → (q.bindSource catalog scope).Leads Sequence.Sparing
  ordered : ∀ scope, Scope.Sparing scope → (q.bindOrdered catalog scope).Leads fun r => r.1.Sparing
  terminal : ∀ root scope, Scope.Sparing scope → (∀ s l d, q = .single s l d → root = false) →
    (q.bindTerminal catalog scope root).Leads Expr.Sparing
  distinct : ∀ scope, Scope.Sparing scope → (q.bindDistinct catalog scope).Leads fun o => ∀ p ∈ o, p.Sparing

variable (catalog) in
/-- What is known of a combinator's parts when it is reached. -/
structure Query.PartsBindSparing (q : Query) : Prop where
  sources : ∀ source ∈ q.sources, source.BindsSparing catalog
  lambdas : ∀ l ∈ q.lambdas, l.BindsSparing catalog
  exprs : ∀ e ∈ q.exprs, e.BindsSparing catalog

section Parts

variable {γ : Type} {P : γ → Prop} {x : Binding Sequence} {f : Projection → Binding γ} {args : List Expr}

theorem leads_rowsOf (h : x.Leads Sequence.Sparing) (next : ∀ p : Projection, p.Sparing → p.projector.Sparing → (f p).Leads P) :
    (x >>= fun s => asRows s >>= f).Leads P :=
  h.bind anyGrowth fun _ sparing => (asRows_sparing sparing).bind anyGrowth fun p sparing => next p sparing (Projection.sparing_iff.1 sparing).2

theorem leads_toRows {x : Binding Projection} (h : x.Leads Projection.Sparing) : (x >>= fun p => pure (Sequence.rows p)).Leads Sequence.Sparing :=
  h.bind anyGrowth fun _ sparing => .pure anyGrowth sparing

theorem bindLambda?_sparing {o : Option Lambda} (h : ∀ l ∈ o, l.BindsSparing catalog) (scopes : scope.Sparing) (sparing : ∀ x ∈ args, x.Sparing) :
    (bindLambda? catalog scope args o).Leads fun r => ∀ e ∈ r, e.Sparing := by
  cases o with
  | none => exact .pure anyGrowth (by rintro _ ⟨⟩)
  | some l =>
    refine ((h l rfl).body scope args scopes sparing).bind anyGrowth fun e sparing => .pure anyGrowth ?_
    rintro _ ⟨⟩
    exact sparing

theorem getD_sparing {o : Option Expr} {e : Expr} (some : ∀ x ∈ o, x.Sparing) (none : e.Sparing) : (o.getD e).Sparing := by
  cases o with
  | none => exact none
  | some x => exact some x rfl

end Parts

namespace Query.PartsBindSparing

variable {q : Query}

theorem source (h : q.PartsBindSparing catalog) (scopes : scope.Sparing) : (q.bindSource catalog scope).Leads Sequence.Sparing := by
  obtain ⟨sources, lambdas, exprs⟩ := h
  have one {e : Expr} (sparing : e.Sparing) : ∀ x ∈ [e], x.Sparing := List.forall_mem_singleton.2 sparing
  have two {e e' : Expr} (first : e.Sparing) (second : e'.Sparing) : ∀ x ∈ [e, e'], x.Sparing := List.forall_mem_cons.2 ⟨first, one second⟩
  cases q <;>
    simp only [Query.sources, Query.lambdas, Query.exprs, List.mem_cons, List.not_mem_nil, or_false, forall_eq, List.cons_append, List.mem_append,
      Option.mem_toList, or_imp, forall_and] at sources lambdas exprs <;>
    simp only [Query.bindSource]
  case table entity => exact leads_toRows (entity_sparing _ _ _)
  case view entity => exact leads_toRows (entity_sparing _ _ _)
  case raw entity sql => exact leads_toRows (entity_sparing _ _ _)
  case memory values t => exact .pure anyGrowth trivial
  case of e => exact (exprs scope scopes).bind anyGrowth fun _ sparing => .ofResult anyGrowth (sequenceOf_sparing sparing)
  case filter q l =>
    refine leads_rowsOf (sources.source scope scopes) fun p sparing projector => ?_
    exact (lambdas.body scope _ scopes (one projector)).bind anyGrowth fun _ _ => leads_toRows (filtered_sparing sparing _)
  case project q l =>
    refine leads_rowsOf (sources.source scope scopes) fun p sparing projector => ?_
    exact (lambdas.body scope _ scopes (one projector)).bind anyGrowth fun _ body => leads_toRows (wrap_sparing body _ fun _ => rfl)
  case selectMany q l r =>
    refine leads_rowsOf (sources.source scope scopes) fun p sparing projector => ?_
    refine (lambdas.1.collection scope _ scopes (one projector)).bind anyGrowth fun bound collection => ?_
    refine (collectionRows_sparing collection).bind anyGrowth fun inner within => ?_
    refine (collectionJoin_sparing p bound.2 within).bind anyGrowth fun contribution shown => ?_
    refine (bindLambda?_sparing lambdas.2 scopes (two projector shown)).bind anyGrowth fun body bodies => ?_
    exact leads_toRows (joined_sparing p _ _ _ (getD_sparing bodies shown))
  case join outer inner outerKey innerKey result =>
    obtain ⟨ok, ik, body⟩ := lambdas
    refine leads_rowsOf (sources.1.source scope scopes) fun o _ left => leads_rowsOf (sources.2.source scope scopes) fun i _ right => ?_
    refine (ok.body scope _ scopes (one left)).bind anyGrowth fun _ _ => (ik.body scope _ scopes (one right)).bind anyGrowth fun _ _ => ?_
    refine .bind anyGrowth (.ofResult anyGrowth (equality_resolves _ _)) fun _ _ => ?_
    exact (body.body scope _ scopes (two left right)).bind anyGrowth fun _ result => leads_toRows (joined_sparing o _ _ _ result)
  case groupJoin outer inner outerKey innerKey result =>
    obtain ⟨ok, ik, body⟩ := lambdas
    refine leads_rowsOf (sources.1.source scope scopes) fun o _ left => (ok.body scope _ scopes (one left)).bind anyGrowth fun _ _ => ?_
    refine leads_rowsOf (sources.2.source scope scopes) fun i matched right => (ik.body scope _ scopes (one right)).bind anyGrowth fun _ _ => ?_
    refine .bind anyGrowth (.ofResult anyGrowth (equality_resolves _ _)) fun _ _ => ?_
    refine (filtered_sparing matched _).bind anyGrowth fun elements sparing => ?_
    refine (body.body scope _ scopes (two left (Expr.sparing_projection.2 sparing))).bind anyGrowth fun _ result => ?_
    exact leads_toRows (wrap_sparing result _ fun _ => rfl)
  case orderBy q l descending =>
    refine leads_rowsOf (sources.source scope scopes) fun p sparing projector => ?_
    exact (lambdas.body scope _ scopes (one projector)).bind anyGrowth fun _ _ => leads_toRows (ordered_sparing sparing _)
  case thenBy q l descending =>
    refine (sources.ordered scope scopes).bind anyGrowth fun earlier sparing => ?_
    exact (lambdas.body scope _ scopes (one (Projection.sparing_iff.1 sparing).2)).bind anyGrowth fun _ _ =>
      leads_toRows (ordered_sparing sparing _)
  case groupBy q key element result =>
    obtain ⟨key, element, result⟩ := lambdas
    refine leads_rowsOf (sources.source scope scopes) fun p _ projector => (key.body scope _ scopes (one projector)).bind anyGrowth fun _ groupKey => ?_
    refine leads_rowsOf (sources.source scope scopes) fun basis _ again => (key.body scope _ scopes (one again)).bind anyGrowth fun _ _ => ?_
    refine (bindLambda?_sparing element scopes (one again)).bind anyGrowth fun _ selected => ?_
    refine .bind anyGrowth (wrap_sparing (getD_sparing selected again) _ fun _ => rfl) fun elements sparing => ?_
    have parts := two groupKey (Expr.sparing_projection.2 sparing)
    refine (bindLambda?_sparing result scopes parts).bind anyGrowth fun _ body => ?_
    have group : (Expr.group _ (.projection elements)).Sparing := (Expr.sparing_operator rfl).2 parts
    exact leads_toRows (wrap_sparing (getD_sparing body group) _ fun _ => rfl)
  case distinct q =>
    exact leads_rowsOf (sources.source scope scopes) fun p _ projector => leads_toRows (wrap_sparing projector _ fun _ => rfl)
  case skip q count =>
    exact leads_rowsOf (sources.source scope scopes) fun p _ projector => (exprs scope scopes).bind anyGrowth fun _ _ =>
      leads_toRows (wrap_sparing projector _ fun _ => rfl)
  case take q count =>
    exact leads_rowsOf (sources.source scope scopes) fun p _ projector => (exprs scope scopes).bind anyGrowth fun _ _ =>
      leads_toRows (wrap_sparing projector _ fun _ => rfl)
  case cast q t =>
    refine leads_rowsOf (sources.source scope scopes) fun p sparing projector => .pure anyGrowth ?_
    rw [Sequence.Sparing]
    split
    · exact sparing
    · obtain ⟨own, -⟩ := Projection.sparing_iff.1 sparing
      exact Projection.sparing_iff.2 ⟨⟨own.columns, own.limit⟩, (Expr.sparing_operator rfl).2 (one projector)⟩
  all_goals exact .fail rfl

theorem ordered (h : q.PartsBindSparing catalog) (scopes : scope.Sparing) : (q.bindOrdered catalog scope).Leads fun r => r.1.Sparing := by
  obtain ⟨sources, lambdas, -⟩ := h
  cases q <;> simp only [Query.sources, Query.lambdas, List.mem_cons, List.not_mem_nil, or_false, forall_eq] at sources lambdas <;>
    simp only [Query.bindOrdered]
  case orderBy q l descending =>
    refine leads_rowsOf (sources.source scope scopes) fun p sparing projector => ?_
    exact (lambdas.body scope _ scopes (List.forall_mem_singleton.2 projector)).bind anyGrowth fun _ _ => .pure anyGrowth sparing
  case thenBy q l descending =>
    refine (sources.ordered scope scopes).bind anyGrowth fun earlier sparing => ?_
    have projector := (Projection.sparing_iff.1 sparing).2
    exact (lambdas.body scope _ scopes (List.forall_mem_singleton.2 projector)).bind anyGrowth fun _ _ => .pure anyGrowth sparing
  all_goals exact .fail rfl

theorem distinct (h : q.PartsBindSparing catalog) (scopes : scope.Sparing) :
    (q.bindDistinct catalog scope).Leads fun o => ∀ p ∈ o, p.Sparing := by
  have sources := h.sources
  cases q <;> simp only [Query.bindDistinct]
  case distinct q =>
    refine leads_rowsOf ((sources q (by simp [Query.sources])).source scope scopes) fun p sparing _ => .pure anyGrowth ?_
    rintro _ ⟨⟩
    exact sparing
  all_goals exact .pure anyGrowth (by rintro _ ⟨⟩)

/-- The rows of the source that satisfy the condition, if there is one. -/
theorem filteredRows {γ : Type} {P : γ → Prop} {f : Projection → Binding γ} {o : Option Lambda} (source : q.BindsSparing catalog)
    (lambda : ∀ l ∈ o, l.BindsSparing catalog) (scopes : scope.Sparing) (next : ∀ p : Projection, p.Sparing → (f p).Leads P) :
    (q.bindSource catalog scope >>= fun s => asRows s >>= fun p =>
      bindLambda? catalog scope [p.projector] o >>= fun condition => filteredBy p condition >>= f).Leads P :=
  leads_rowsOf (source.source scope scopes) fun _ sparing projector =>
    (bindLambda?_sparing lambda scopes (List.forall_mem_singleton.2 projector)).bind anyGrowth fun _ _ =>
      (filteredBy_sparing sparing _).bind anyGrowth next

theorem terminal (h : q.PartsBindSparing catalog) {root : Bool} (scopes : scope.Sparing)
    (inside : ∀ s l d, q = .single s l d → root = false) : (q.bindTerminal catalog scope root).Leads Expr.Sparing := by
  obtain ⟨sources, lambdas, exprs⟩ := h
  have one {e : Expr} (sparing : e.Sparing) : ∀ x ∈ [e], x.Sparing := List.forall_mem_singleton.2 sparing
  have items (element : Ty) (v : Value) : (memoryItem element v).Sparing := by
    rw [memoryItem_eq]
    split <;> exact Expr.sparing_of_nil rfl
  have closure := Expr.sparing_closure
  cases q <;>
    simp only [Query.sources, Query.lambdas, Query.exprs, List.mem_cons, List.not_mem_nil, or_false, forall_eq, Option.mem_toList] at sources lambdas exprs
  case aggregate q kind l =>
    simp only [Query.bindTerminal]
    refine .ite (fun _ => filteredRows sources lambdas scopes fun p _ => aggregated_sparing root kind p none false) fun _ => ?_
    have late := leads_rowsOf (f := fun p => bindLambda? catalog scope [p.projector] l >>= fun selected =>
      aggregateArgument kind selected p >>= fun argument => aggregated root kind p argument false) (sources.source scope scopes) fun p _ projector =>
      (bindLambda?_sparing lambdas scopes (one projector)).bind anyGrowth fun selected _ =>
        (aggregateArgument_leads kind selected p).bind anyGrowth fun argument _ => aggregated_sparing root kind p argument false
    refine (sources.distinct scope scopes).bind anyGrowth fun o found => ?_
    cases o with
    | none => exact late
    | some p =>
      refine (bindLambda?_sparing lambdas scopes (one (Projection.sparing_iff.1 (found p rfl)).2)).bind anyGrowth fun selected _ => ?_
      cases (selected.getD p.projector).isColumnTy with
      | true => exact aggregated_sparing root kind p _ true
      | false => exact late
  case elementAt q index orDefault =>
    exact (exprs scope scopes).bind anyGrowth fun _ _ => leads_rowsOf (sources.source scope scopes) fun p sparing _ =>
      element_sparing sparing _ (by rintro _ ⟨⟩)
  case first q l orDefault =>
    simp only [Query.bindTerminal]
    exact filteredRows sources lambdas scopes fun p sparing => element_sparing sparing _ (by rintro _ ⟨⟩)
  case single q l orDefault =>
    simp only [Query.bindTerminal]
    exact filteredRows sources lambdas scopes fun p sparing => element_sparing sparing _ fun _ _ => inside q l orDefault rfl
  case any q l =>
    cases l with
    | none =>
      simp only [Query.bindTerminal]
      refine (sources.source scope scopes).bind anyGrowth fun s _ => ?_
      cases s <;> exact .pure anyGrowth (Expr.sparing_of_nil rfl)
    | some l =>
      simp only [Query.bindTerminal]
      refine (sources.source scope scopes).bind anyGrowth fun s sparing => ?_
      cases s with
      | memory values t =>
        refine (Gives.mapM anyGrowth fun v _ => (lambdas l rfl).body scope _ scopes (one (items t v))).bind anyGrowth fun _ parts => ?_
        exact .pure anyGrowth (closure.joined_getD .or parts false)
      | rows p =>
        refine ((lambdas l rfl).body scope _ scopes (one (Projection.sparing_iff.1 sparing).2)).bind anyGrowth fun _ _ => ?_
        exact (filtered_sparing sparing _).bind anyGrowth fun _ _ => .pure anyGrowth (Expr.sparing_of_nil rfl)
  case all q l =>
    simp only [Query.bindTerminal]
    refine (sources.source scope scopes).bind anyGrowth fun s sparing => ?_
    cases s with
    | memory values t =>
      refine (Gives.mapM anyGrowth fun v _ => lambdas.body scope _ scopes (one (items t v))).bind anyGrowth fun _ parts => ?_
      exact .pure anyGrowth (closure.joined_getD .and parts true)
    | rows p =>
      refine (lambdas.body scope _ scopes (one (Projection.sparing_iff.1 sparing).2)).bind anyGrowth fun _ _ => ?_
      exact (filtered_sparing sparing _).bind anyGrowth fun _ _ => .pure anyGrowth (Expr.sparing_of_nil rfl)
  case contains q e =>
    simp only [Query.bindTerminal]
    exact (exprs scope scopes).bind anyGrowth fun _ value => (sources.source scope scopes).bind anyGrowth fun _ _ => sequence_sparing value
  all_goals
    simp only [Query.bindTerminal]
    exact .fail rfl

theorem bindsSparing (h : q.PartsBindSparing catalog) : q.BindsSparing catalog :=
  ⟨fun _ => h.source, fun _ => h.ordered, fun _ _ => h.terminal, fun _ => h.distinct⟩

end Query.PartsBindSparing

/-! ## Whole queries -/

theorem Scope.Sparing.extend (scopes : scope.Sparing) (params : List String) {args : List Expr} (sparing : ∀ x ∈ args, x.Sparing) :
    Scope.Sparing ((params.zip args).reverse ++ scope) :=
  List.forall_mem_append.2 ⟨fun _ mem => sparing _ (List.of_mem_zip (List.mem_reverse.1 mem)).2, scopes⟩

theorem Query.BindsSparing.nested {q : Query} (h : q.BindsSparing catalog) (scopes : scope.Sparing) :
    (if q.isTerminal then q.bindTerminal catalog scope false
      else q.bindSource catalog scope >>= fun s => asRows s >>= fun p => pure (.projection p)).Leads Expr.Sparing :=
  .ite (fun _ => h.terminal _ _ scopes fun _ _ _ _ => rfl) fun _ =>
    leads_rowsOf (h.source scope scopes) fun _ sparing _ => .pure anyGrowth (Expr.sparing_projection.2 sparing)

/-- A lambda binds its body; a collection looks under the combinator that stands for an absent element. -/
theorem Lambda.bindsSparing_of_body {params : List String} {body : Expr} (h : body.BindsSparing catalog)
    (optional : ∀ q, body = .query (.defaultIfEmpty q) → q.BindsSparing catalog) : (Lambda.mk params body).BindsSparing catalog := by
  constructor
  · intro scope args scopes sparing
    rw [Lambda.bind]
    exact .ite (fun _ => .fail rfl) fun _ => h _ (scopes.extend params sparing)
  · intro scope args scopes sparing
    have inner := scopes.extend params sparing
    have plain : (body.bind catalog ((params.zip args).reverse ++ scope) >>= fun e => pure (e, false)).Leads fun r => r.1.Sparing :=
      (h _ inner).bind anyGrowth fun _ sparing => .pure anyGrowth sparing
    rw [Lambda.bindCollection.eq_def]
    refine .ite (fun _ => .fail rfl) fun _ => ?_
    cases body with
    | query q =>
      cases q with
      | defaultIfEmpty q =>
        have bound := optional q rfl
        exact .ite (fun _ => (bound.terminal _ _ inner fun _ _ _ _ => rfl).bind anyGrowth fun _ sparing => .pure anyGrowth sparing) fun _ =>
          leads_rowsOf (bound.source _ inner) fun _ sparing _ => .pure anyGrowth (Expr.sparing_projection.2 sparing)
      | _ => exact plain
    | _ => exact plain

/-- Whether an expression is a statement that is bound already. -/
def Expr.isStatement : Expr → Bool
  | .projection _ => true
  | _ => false

theorem Expr.nested_of_every {e : Expr} (free : e.every (!·.isStatement) = true) : e.nested = [] := by
  induction e using Expr.induction with
  | operator e operates ih =>
    rw [nested_operator operates, List.flatMap_eq_nil_iff]
    exact fun x mem => ih x mem (((every_operator operates).1 free).2 x mem)
  | projection p => cases test_of_every free
  | _ => rfl

variable (catalog) in
/-- Queries that hold no statement yet are bound to sparing ones. -/
theorem bindsSparing : QueryCases
    (fun e => e.every (!·.isStatement) = true → e.BindsSparing catalog ∧ ∀ q, e = .query (.defaultIfEmpty q) → q.BindsSparing catalog)
    (fun _ => True) (fun _ => True) (fun _ => True) (fun _ => True)
    (fun q => q.every (!·.isStatement) = true → q.BindsSparing catalog ∧ ∀ q', q = .defaultIfEmpty q' → q'.BindsSparing catalog)
    (fun l => l.body.every (!·.isStatement) = true → l.BindsSparing catalog) := by
  have leaf {e e' : Expr} (bound : ∀ scope, e.bind catalog scope = pure e') (none : e'.nested = []) : e.BindsSparing catalog := by
    intro scope _
    rw [bound]
    exact .pure anyGrowth (Expr.sparing_of_nil none)
  constructor
  constructor
  case param =>
    refine fun name _ => ⟨fun scope scopes => ?_, by rintro _ ⟨⟩⟩
    rw [Expr.bind]
    cases found : scope.lookup name with
    | none => exact .fail rfl
    | some e =>
      obtain ⟨l₁, l₂, rfl, -⟩ := List.lookup_eq_some_iff.1 found
      exact .pure anyGrowth (scopes (name, e) (by simp))
  case captured => exact fun name v t _ => ⟨leaf (fun _ => rfl) rfl, by rintro _ ⟨⟩⟩
  case constant => exact fun v t _ => ⟨leaf (fun _ => rfl) rfl, by rintro _ ⟨⟩⟩
  case hostParameter => exact fun v t _ => ⟨leaf (fun _ => rfl) rfl, by rintro _ ⟨⟩⟩
  case column => exact fun c _ => ⟨leaf (fun _ => rfl) rfl, by rintro _ ⟨⟩⟩
  case aggregate => exact fun kind x distinct t _ _ => ⟨leaf (fun _ => rfl) rfl, by rintro _ ⟨⟩⟩
  case subquery => exact fun s _ _ => ⟨leaf (fun _ => rfl) rfl, by rintro _ ⟨⟩⟩
  case projection => exact fun p _ free => absurd (Expr.test_of_every free) (by simp [Expr.isStatement])
  case operator =>
    intro e operates ih free
    refine ⟨fun scope scopes => ?_, ?_⟩
    · by_cases group : ∃ key elements, e = .group key elements
      · obtain ⟨key, elements, rfl⟩ := group
        exact leaf (fun _ => rfl) (Expr.nested_of_every free) scope scopes
      · refine Expr.binds_operator Expr.sparing_closure operates (fun key elements same => group ⟨key, elements, same⟩) fun x mem => ?_
        exact (ih x mem (((Expr.every_operator operates).1 free).2 x mem)).1 scope scopes
    · rintro _ rfl
      cases operates
  case query =>
    intro q ih free
    obtain ⟨binds, optional⟩ := ih (Expr.every_query.1 free).2
    refine ⟨fun scope scopes => ?_, ?_⟩
    · rw [Expr.bind]
      exact binds.nested scopes
    · rintro _ ⟨⟩
      exact optional _ rfl
  case lambda =>
    intro params body ih free
    obtain ⟨binds, optional⟩ := ih free
    exact Lambda.bindsSparing_of_body binds optional
  case combinator =>
    intro q sources lambdas exprs free
    obtain ⟨sourcesFree, lambdasFree, exprsFree⟩ := Query.every_iff.1 free
    have bound (source : Query) (mem : source ∈ q.sources) := (sources source mem (sourcesFree source mem)).1
    have parts : q.PartsBindSparing catalog :=
      ⟨bound, fun l mem => lambdas l mem (lambdasFree l mem), fun e mem => (exprs e mem (exprsFree e mem)).1⟩
    refine ⟨parts.bindsSparing, ?_⟩
    rintro q' rfl
    exact bound q' (by simp [Query.sources])
  all_goals intros; trivial

/-- Whether a query asks for its only element. -/
def Query.isSingle : Query → Bool
  | .single _ _ _ => true
  | _ => false

/-- Apart from the root, a query that may have no second element reads one row. -/
theorem Query.bind_sparing {q : Query} (free : q.every (!·.isStatement) = true) (inside : q.isSingle = false) :
    (q.bind catalog).Leads fun p => p.projector.Sparing ∧
      ∀ orDefault, p.aggregator = some (.single orDefault) → p.select.limit = some (.ofValue (.int 1)) := by
  have binds : q.BindsSparing catalog := ((bindsSparing catalog).queries q free).1
  have scopes : Scope.Sparing [] := by rintro _ ⟨⟩
  have whole {p : Projection} (sparing : p.Sparing) : p.projector.Sparing ∧
      ∀ orDefault, p.aggregator = some (.single orDefault) → p.select.limit = some (.ofValue (.int 1)) := by
    obtain ⟨own, projector⟩ := Projection.sparing_iff.1 sparing
    exact ⟨projector, own.limit⟩
  have value (e : Expr) : (do
      let label ← freshAlias
      return ⟨.bare label [⟨valueColumn, e⟩], .column ⟨label, valueColumn, e.ty⟩, some .scalar⟩ : Binding Projection).Leads fun p =>
        p.projector.Sparing ∧ ∀ orDefault, p.aggregator = some (.single orDefault) → p.select.limit = some (.ofValue (.int 1)) :=
    freshAlias_leads.bind anyGrowth fun label _ => .pure anyGrowth ⟨Expr.sparing_of_nil rfl, by rintro _ ⟨⟩⟩
  rw [Query.bind]
  refine .ite (fun _ => ?_) fun _ => ?_
  · refine (binds.terminal true [] scopes fun s l d same => ?_).bind anyGrowth fun e sparing => ?_
    · rw [same] at inside
      cases inside
    · cases e with
      | projection p => exact .pure anyGrowth (whole (Expr.sparing_projection.1 sparing))
      | _ => exact value _
  · exact (binds.source [] scopes).bind anyGrowth fun s sparing => (asRows_sparing sparing).imp fun _ => whole

/-- At the root it reads two. -/
theorem Query.bind_single {q : Query} {l : Option Lambda} {orDefault : Bool} (free : (Query.single q l orDefault).every (!·.isStatement) = true) :
    ((Query.single q l orDefault).bind catalog).Leads fun p =>
      p.projector.Sparing ∧ p.aggregator = some (.single orDefault) ∧ p.select.limit = some (.ofValue (.int 2)) := by
  obtain ⟨source, lambda, -⟩ := every_iff.1 free
  have scopes : Scope.Sparing [] := by rintro _ ⟨⟩
  have binds : q.BindsSparing catalog := ((bindsSparing catalog).queries q (source q List.mem_cons_self)).1
  have condition : ∀ l' ∈ l, l'.BindsSparing catalog := fun l' mem =>
    (bindsSparing catalog).lambdas l' (lambda l' (Option.mem_toList.2 mem))
  have bound : ((Query.single q l orDefault).bindTerminal catalog [] true).Leads fun e => ∃ p, e = .projection p ∧
      p.projector.Sparing ∧ p.aggregator = some (.single orDefault) ∧ p.select.limit = some (.ofValue (.int 2)) := by
    rw [bindTerminal]
    refine PartsBindSparing.filteredRows binds condition scopes fun p sparing => freshAlias_leads.bind anyGrowth fun label _ => ?_
    exact .pure anyGrowth ⟨_, rfl, (Projection.sparing_iff.1 sparing).2.projectColumns _ _, rfl, rfl⟩
  rw [Query.bind]
  refine bound.bind anyGrowth fun e single => ?_
  obtain ⟨p, rfl, shown⟩ := single
  exact .pure anyGrowth shown

end Queries

end Relational

import Mathlib.Computability.Primrec.List
import Mathlib.Data.List.Permutation
import Relational.Proofs.Lowering.Joins

/-!
# Lists of elements

Filters, projections, cuts, joins and collections of collections over tables have a meaning on lists, which `Query.Listed` gives one
combinator at a time: the values of the bound query as a list over the elements of its bound sources.
Binding gives every such query its meaning (`Query.bind_listed`), whichever functions the operators are.
-/

namespace Relational

/-- Nestings of filters, projections, cuts, joins and collections over tables. Lambdas hold no query, except for those of
collections, which are such queries themselves. -/
inductive Query.IsListing : Query → Prop where
  | table (entity : String) : IsListing (.table entity)
  | filter {q : Query} {l : Lambda} (source : q.IsListing) (predicate : l.body.QueryFree) : IsListing (.filter q l)
  | project {q : Query} {l : Lambda} (source : q.IsListing) (selector : l.body.QueryFree) : IsListing (.project q l)
  | skip {q : Query} {n : Expr} (source : q.IsListing) (count : n.QueryFree) : IsListing (.skip q n)
  | take {q : Query} {n : Expr} (source : q.IsListing) (count : n.QueryFree) : IsListing (.take q n)
  | join {q q' : Query} {l l' result : Lambda} (outer : q.IsListing) (inner : q'.IsListing) (outerKey : l.body.QueryFree)
    (innerKey : l'.body.QueryFree) (selector : result.body.QueryFree) : IsListing (.join q q' l l' result)
  | selectMany {q q' : Query} {params : List String} {result : Option Lambda} (source : q.IsListing) (collection : q'.IsListing)
    (selector : ∀ l ∈ result, l.body.QueryFree) : IsListing (.selectMany q ⟨params, .query q'⟩ result)

section Listed

variable {D : Type} (I : Interpretation D) (db : Database D) (catalog : Catalog)

/-- The list that a bound query gives. Lambdas have the values of the expressions that they are bound to, where a parameter stands
for the projector of the bound source. -/
inductive Query.Listed : Scope → Query → Alias → Projection → Alias → Prop where
  | table {scope : Scope} {a a' : Alias} {entity : String} {p : Projection}
    (bound : (Query.table entity).bindSource catalog scope a = .ok (.rows p, a'))
    (values : ∀ ρ, p.values I db ρ = catalog.records I db entity) :
    Listed scope (.table entity) a p a'
  | filter {scope : Scope} {a a₁ a' : Alias} {q : Query} {l : Lambda} {p p' : Projection} {condition : Expr}
    (bound : (Query.filter q l).bindSource catalog scope a = .ok (.rows p', a'))
    (source : Listed scope q a p a₁) (predicate : l.bind catalog scope [p.projector] a₁ = .ok (condition, a₁))
    (values : ∀ ρ, p'.values I db ρ = ((p.elements I db ρ).filter fun σ => I.isTrue (condition.valueAt I db σ)).map fun σ =>
      p.projector.valueAt I db σ) :
    Listed scope (.filter q l) a p' a'
  | project {scope : Scope} {a a₁ a' : Alias} {q : Query} {l : Lambda} {p p' : Projection} {body : Expr}
    (bound : (Query.project q l).bindSource catalog scope a = .ok (.rows p', a'))
    (source : Listed scope q a p a₁) (selector : l.bind catalog scope [p.projector] a₁ = .ok (body, a₁))
    (values : ∀ ρ, p'.values I db ρ = (p.elements I db ρ).map fun σ => body.valueAt I db σ) :
    Listed scope (.project q l) a p' a'
  | skip {scope : Scope} {a a₁ a' : Alias} {q : Query} {n count : Expr} {p p' : Projection}
    (bound : (Query.skip q n).bindSource catalog scope a = .ok (.rows p', a'))
    (source : Listed scope q a p a₁) (number : n.bind catalog scope a₁ = .ok (count, a₁))
    (values : ∀ ρ, p'.values I db ρ = (p.values I db ρ).drop (I.offset (count.valueAt I db ρ))) :
    Listed scope (.skip q n) a p' a'
  | take {scope : Scope} {a a₁ a' : Alias} {q : Query} {n count : Expr} {p p' : Projection}
    (bound : (Query.take q n).bindSource catalog scope a = .ok (.rows p', a'))
    (source : Listed scope q a p a₁) (number : n.bind catalog scope a₁ = .ok (count, a₁))
    (values : ∀ ρ, p'.values I db ρ = takeUpTo (I.limit (count.valueAt I db ρ)) (p.values I db ρ)) :
    Listed scope (.take q n) a p' a'
  /-- For each outer element, in order, the inner elements whose keys match. -/
  | join {scope : Scope} {a a₁ a₂ a' : Alias} {q q' : Query} {l l' result : Lambda} {o i p' : Projection} {key key' body : Expr}
    (bound : (Query.join q q' l l' result).bindSource catalog scope a = .ok (.rows p', a'))
    (outer : Listed scope q a o a₁) (inner : Listed scope q' a₁ i a₂)
    (outerKey : l.bind catalog scope [o.projector] a₂ = .ok (key, a₂))
    (innerKey : l'.bind catalog scope [i.projector] a₂ = .ok (key', a₂))
    (selector : result.bind catalog scope [o.projector, i.projector] a₂ = .ok (body, a₂))
    (apart : p'.select.JoinsApart I db o)
    (values : ∀ ρ, p'.values I db ρ = (o.elements I db ρ).flatMap fun σ =>
      ((i.elements I db ρ).filter fun τ => key.matchesAt I db σ τ key').map fun τ =>
        body.valueAt I db (σ.beside [o.select.label] τ)) :
    Listed scope (.join q q' l l' result) a p' a'
  /-- The collections of the elements, one after the other. -/
  | collect {scope : Scope} {a a₁ a₂ a' : Alias} {q q' : Query} {x : String} {p inner p' : Projection}
    (bound : (Query.selectMany q ⟨[x], .query q'⟩ none).bindSource catalog scope a = .ok (.rows p', a'))
    (source : Listed scope q a p a₁) (collection : Listed ((x, p.projector) :: scope) q' a₁ inner a₂)
    (apart : p'.select.JoinsApart I db p)
    (values : ∀ ρ, p'.values I db ρ = (p.elements I db ρ).flatMap fun σ => inner.values I db σ) :
    Listed scope (.selectMany q ⟨[x], .query q'⟩ none) a p' a'
  /-- The result at each element with each item of its collection. -/
  | collectWith {scope : Scope} {a a₁ a₂ a' : Alias} {q q' : Query} {x : String} {result : Lambda} {p inner p' : Projection}
    {item body : Expr} {rows : Env D → List (Env D)}
    (bound : (Query.selectMany q ⟨[x], .query q'⟩ (some result)).bindSource catalog scope a = .ok (.rows p', a'))
    (source : Listed scope q a p a₁) (collection : Listed ((x, p.projector) :: scope) q' a₁ inner a₂)
    (selector : result.bind catalog scope [p.projector, item] a₂ = .ok (body, a₂))
    (apart : p'.select.JoinsApart I db p)
    (items : ∀ σ, (rows σ).map (fun κ => item.valueAt I db κ) = inner.values I db σ)
    (beside : ∀ ρ, ∀ σ ∈ p.elements I db ρ, ∀ κ ∈ rows σ, p.projector.valueAt I db κ = p.projector.valueAt I db σ)
    (values : ∀ ρ, p'.values I db ρ = (p.elements I db ρ).flatMap fun σ => (rows σ).map fun κ => body.valueAt I db κ) :
    Listed scope (.selectMany q ⟨[x], .query q'⟩ (some result)) a p' a'

/-- What is shown of a query: its sequence is bound to a lowered projection with its list, whatever its parameters stand for. -/
def Query.BindsListed (q : Query) : Prop :=
  ∀ (P : Alias → Prop) (scope : Scope) (a a' : Alias) (sequence : Sequence), (∀ x ∈ scope, x.2.Scalar fun c => P c.label) →
    (∀ b, P b → b.id < a.id) → q.bindSource catalog scope a = .ok (sequence, a') →
      ∃ p, sequence = .rows p ∧ p.Lowered I db P a a' ∧ q.Listed I db catalog scope a p a'

end Listed

section Queries

variable {D : Type} {I : Interpretation D} {db : Database D} {catalog : Catalog} {P : Alias → Prop} {scope : Scope} {a a₁ a₂ a' : Alias}
  {q q' : Query}

/-- The rows of a source, and what follows. -/
theorem Query.BindsListed.rows {β : Type} (h : q.BindsListed I db catalog) (params : ∀ x ∈ scope, x.2.Scalar fun c => P c.label)
    (outer : ∀ b, P b → b.id < a.id) {k : Projection → Binding β} {b : β}
    (binds : (do let p ← Binding.asRows (← q.bindSource catalog scope); k p) a = .ok (b, a')) :
    ∃ p a₁, p.Lowered I db P a a₁ ∧ q.Listed I db catalog scope a p a₁ ∧ k p a₁ = .ok (b, a') := by
  obtain ⟨sequence, a₁, first, binds⟩ := Binding.bind_eq_ok.1 binds
  obtain ⟨p, rfl, lowered, listed⟩ := h P scope a a₁ sequence params outer first
  exact ⟨p, a₁, lowered, listed, binds⟩

theorem Expr.Scalar.seen {e : Expr} (scalar : e.Scalar fun c => P c.label) (as : List Alias) : e.Scalar (Seen P as) :=
  scalar.mono fun _ => .inl

/-- The body of a lambda over the elements of a lowered source. -/
theorem Lambda.bind_element {p : Projection} (lowered : p.Lowered I db P a a₁) (params : ∀ x ∈ scope, x.2.Scalar fun c => P c.label)
    {l : Lambda} (free : l.body.QueryFree) {e : Expr} (h : l.bind catalog scope [p.projector] a₂ = .ok (e, a')) :
    a₂ = a' ∧ e.Scalar (Seen P [p.select.label]) :=
  l.bind_scalar (fun x mem => (params x mem).seen _) (List.forall_mem_singleton.2 lowered.projector_seen) free h

theorem Query.IsListing.isTerminal (listing : q.IsListing) : q.isTerminal = false := by
  cases listing <;> rfl

/-- The collection of a lambda whose body is a listing. -/
theorem Lambda.bindCollection_listing (listing : q.IsListing) {params : List String} {x e : Expr} {absent : Bool}
    (h : (⟨params, .query q⟩ : Lambda).bindCollection catalog scope [x] a = .ok ((e, absent), a')) :
    ∃ name p, params = [name] ∧ e = .projection p ∧ absent = false ∧ q.bindSource catalog ((name, x) :: scope) a = .ok (.rows p, a') := by
  unfold bindCollection at h
  split at h
  · cases Binding.fail_eq_ok.1 h
  · next count =>
    obtain ⟨name, rfl⟩ : ∃ name, params = [name] := List.length_eq_one_iff.1 (by simpa using count)
    split at h
    · next q' same =>
      cases same
      cases listing
    · obtain ⟨e, a₁, binds, h⟩ := Binding.bind_eq_ok.1 h
      obtain ⟨same, rfl⟩ := Binding.pure_eq_ok.1 h
      cases same
      rw [Expr.bind.eq_def] at binds
      simp only [listing.isTerminal, Bool.false_eq_true, if_false] at binds
      obtain ⟨sequence, a₂, source, binds⟩ := Binding.bind_eq_ok.1 binds
      obtain ⟨p, a₃, rows, binds⟩ := Binding.bind_eq_ok.1 binds
      obtain ⟨rfl, rfl⟩ := Binding.pure_eq_ok.1 binds
      obtain ⟨rfl, rfl⟩ := Binding.asRows_eq_ok.1 rows
      exact ⟨name, p, rfl, rfl, rfl, source⟩

namespace Query.BindsListed

theorem join (left : q.BindsListed I db catalog) (law : I.Matches) {l l' result : Lambda} (outerFree : l.body.QueryFree)
    (innerFree : l'.body.QueryFree) (resultFree : result.body.QueryFree) (right : q'.BindsListed I db catalog) :
    (Query.join q q' l l' result).BindsListed I db catalog := by
  intro P scope a a' sequence params outer h
  have bound := h
  rw [bindSource] at h
  obtain ⟨o, a₁, lowered, listed, h⟩ := left.rows params outer h
  have before : ∀ b, P b → b.id < a₁.id := fun b around => Nat.lt_of_lt_of_le (outer b around) lowered.grows
  obtain ⟨i, a₂, lowered', listed', h⟩ := right.rows params before h
  obtain ⟨key, a₃, outerKey, h⟩ := Binding.bind_eq_ok.1 h
  obtain ⟨key', a₄, innerKey, h⟩ := Binding.bind_eq_ok.1 h
  obtain ⟨condition, a₅, equality, h⟩ := Binding.bind_eq_ok.1 h
  obtain ⟨body, a₆, selector, h⟩ := Binding.bind_eq_ok.1 h
  obtain ⟨p', a₇, joined, h⟩ := Binding.bind_eq_ok.1 h
  obtain ⟨rfl, rfl⟩ := Binding.pure_eq_ok.1 h
  obtain ⟨equal, rfl⟩ := Binding.ofResult_eq_ok.1 equality
  obtain ⟨rfl, scalar⟩ := Lambda.bind_element lowered params outerFree outerKey
  obtain ⟨rfl, scalar'⟩ := Lambda.bind_element lowered' params innerFree innerKey
  have leftSeen {c : ColumnRef} (seen : Seen P [o.select.label] c) : Seen P [o.select.label, i.select.label] c :=
    seen.imp_right fun mem => List.mem_cons.2 (.inl (List.mem_singleton.1 mem))
  have rightSeen {c : ColumnRef} (seen : Seen P [i.select.label] c) : Seen P [o.select.label, i.select.label] c :=
    seen.imp_right (List.mem_cons_of_mem _)
  obtain ⟨rfl, bodyScalar⟩ := Lambda.bind_scalar (P := Seen P [o.select.label, i.select.label])
    (fun x mem => (params x mem).seen _) (List.forall_mem_cons.2 ⟨lowered.projector_seen.mono fun _ => leftSeen,
      List.forall_mem_singleton.2 (lowered'.projector_seen.mono fun _ => rightSeen)⟩) resultFree selector
  have on : condition.Scalar (Seen P [o.select.label, i.select.label]) :=
    ((Expr.Scalar.closed _).equality.yields key key').ok condition equal (scalar.mono fun _ => leftSeen) (scalar'.mono fun _ => rightSeen)
  obtain ⟨result, apart, values⟩ := lowered.joined outer law.literals lowered'.within lowered'.grows (by decide)
    (by rintro _ ⟨⟩; exact on) bodyScalar joined
  refine ⟨p', rfl, result, .join bound listed listed' outerKey innerKey selector apart fun ρ => ?_⟩
  rw [values]
  refine List.flatMap_congr fun σ mem => ?_
  rw [lowered.apart outer lowered'.within ρ σ mem, List.filter_map, List.map_map]
  refine congrArg (List.map _) (List.filter_congr fun τ mem' => ?_)
  -- At the pair of rows each key has the value that it has at its own row.
  have matched := Expr.equality_matches law db (fun c seen => lowered.beside_left outer lowered' mem mem' seen)
    fun c seen => lowered.beside_right outer lowered' σ τ seen
  exact (matched.yields key key').ok condition equal scalar scalar'

theorem selectMany (source : q.BindsListed I db catalog) (literals : I.RespectsLiterals) {names : List String} {result : Option Lambda}
    (listing : q'.IsListing) (resultFree : ∀ l ∈ result, l.body.QueryFree) (collection : q'.BindsListed I db catalog) :
    (Query.selectMany q ⟨names, .query q'⟩ result).BindsListed I db catalog := by
  intro P scope a a' sequence params outer h
  have bound := h
  rw [bindSource] at h
  obtain ⟨p, a₁, lowered, listed, h⟩ := source.rows params outer h
  obtain ⟨⟨e, absent⟩, a₂, collected, h⟩ := Binding.bind_eq_ok.1 h
  obtain ⟨x, inner, rfl, rfl, rfl, binds⟩ := Lambda.bindCollection_listing listing collected
  obtain ⟨inner', a₃, rows, h⟩ := Binding.bind_eq_ok.1 h
  obtain ⟨rfl, rfl⟩ := Binding.pure_eq_ok.1 rows
  obtain ⟨⟨right, kind, condition, item⟩, a₄, splits, h⟩ := Binding.bind_eq_ok.1 h
  -- The collection sees the row of its element as it sees the rows around the query.
  have within {c : ColumnRef} (seen : Seen P [p.select.label] c) : P c.label ∨ c.label = p.select.label :=
    seen.imp_right List.mem_singleton.1
  have around : ∀ b, P b ∨ b = p.select.label → b.id < a₁.id := by
    rintro b (around | rfl)
    · exact Nat.lt_of_lt_of_le (outer b around) lowered.grows
    · exact lowered.label.2
  obtain ⟨_, ⟨⟩, lowered', listed'⟩ := collection (fun b => P b ∨ b = p.select.label) ((x, p.projector) :: scope) a₁ a₂ _
    (List.forall_mem_cons.2 ⟨lowered.projector_seen.mono fun _ => within, fun y mem => (params y mem).mono fun _ => .inl⟩) around binds
  obtain ⟨rfl, contributes⟩ := Binding.collectionJoin_contributes lowered' around splits
  obtain ⟨body, a₅, selector, h⟩ := Binding.bind_eq_ok.1 h
  obtain ⟨p', a₆, joined, h⟩ := Binding.bind_eq_ok.1 h
  obtain ⟨rfl, rfl⟩ := Binding.pure_eq_ok.1 h
  have joins {e : Expr} (scalar : e.Scalar (Seen P (p.select.label :: right.visible)))
      (joined : Binding.joined p kind right condition e a₂ = .ok (p', a₆)) :=
    lowered.joined outer literals contributes.right lowered'.grows contributes.kind contributes.on scalar joined
  cases result with
  | none =>
    obtain ⟨rfl, rfl⟩ := Binding.pure_eq_ok.1 selector
    obtain ⟨lowers, apart, values⟩ := joins contributes.scalar joined
    refine ⟨p', rfl, lowers, .collect bound listed listed' apart fun ρ => ?_⟩
    simp only [values, contributes.values]
  | some l =>
    obtain ⟨body, a₇, selected, selector⟩ := Binding.bind_eq_ok.1 selector
    obtain ⟨rfl, rfl⟩ := Binding.pure_eq_ok.1 selector
    have element : p.projector.Scalar (Seen P (p.select.label :: right.visible)) :=
      lowered.projector_seen.mono fun c seen => seen.imp_right fun mem => List.mem_cons.2 (.inl (List.mem_singleton.1 mem))
    obtain ⟨rfl, scalar⟩ := l.bind_scalar (P := Seen P (p.select.label :: right.visible)) (fun y mem => (params y mem).seen _)
      (List.forall_mem_cons.2 ⟨element, List.forall_mem_singleton.2 contributes.scalar⟩) (resultFree l rfl) selected
    obtain ⟨lowers, apart, values⟩ := joins scalar joined
    refine ⟨p', rfl, lowers, .collectWith bound listed listed' selected apart contributes.values (fun ρ σ mem κ mem' => ?_) values⟩
    refine lowered.projector_seen.eval_congr (fun c seen => Source.rows_frame _ (List.mem_of_mem_filter mem') _ fun own => ?_) _ _
    exact Nat.lt_irrefl _ (Nat.lt_of_lt_of_le (around _ (within seen)) (contributes.right.visible _ own).1)

end Query.BindsListed

/-- A listing is bound to its list, one combinator at a time. -/
theorem Query.IsListing.binds (law : I.Matches) (listing : q.IsListing) : q.BindsListed I db catalog := by
  induction listing with
  | table entity =>
    intro P scope a a' sequence params outer h
    have bound := h
    rw [bindSource] at h
    obtain ⟨p, a₁, stored, h⟩ := Binding.bind_eq_ok.1 h
    obtain ⟨rfl, rfl⟩ := Binding.pure_eq_ok.1 h
    obtain ⟨lowered, values⟩ := Binding.entity_lowered stored
    exact ⟨p, rfl, lowered, .table bound values⟩
  | filter _ free ih =>
    intro P scope a a' sequence params outer h
    have bound := h
    rw [bindSource] at h
    obtain ⟨p, a₁, lowered, listed, h⟩ := ih.rows params outer h
    obtain ⟨condition, a₂, predicate, h⟩ := Binding.bind_eq_ok.1 h
    obtain ⟨p', a₃, filtered, h⟩ := Binding.bind_eq_ok.1 h
    obtain ⟨rfl, rfl⟩ := Binding.pure_eq_ok.1 h
    obtain ⟨rfl, scalar⟩ := Lambda.bind_element lowered params free predicate
    obtain ⟨lowers, values⟩ := lowered.filtered outer law.literals scalar filtered
    exact ⟨p', rfl, lowers, .filter bound listed predicate values⟩
  | project _ free ih =>
    intro P scope a a' sequence params outer h
    have bound := h
    rw [bindSource] at h
    obtain ⟨p, a₁, lowered, listed, h⟩ := ih.rows params outer h
    obtain ⟨body, a₂, selector, h⟩ := Binding.bind_eq_ok.1 h
    obtain ⟨p', a₃, wrapped, h⟩ := Binding.bind_eq_ok.1 h
    obtain ⟨rfl, rfl⟩ := Binding.pure_eq_ok.1 h
    obtain ⟨rfl, scalar⟩ := Lambda.bind_element lowered params free selector
    obtain ⟨lowers, values⟩ := lowered.projected outer law.literals scalar wrapped
    exact ⟨p', rfl, lowers, .project bound listed selector values⟩
  | skip _ free ih =>
    intro P scope a a' sequence params outer h
    have bound := h
    rw [bindSource] at h
    obtain ⟨p, a₁, lowered, listed, h⟩ := ih.rows params outer h
    obtain ⟨n, a₂, number, h⟩ := Binding.bind_eq_ok.1 h
    obtain ⟨p', a₃, wrapped, h⟩ := Binding.bind_eq_ok.1 h
    obtain ⟨rfl, rfl⟩ := Binding.pure_eq_ok.1 h
    obtain ⟨rfl, scalar⟩ := (free.binds params).ok a₁ a₂ n number
    obtain ⟨lowers, values⟩ := lowered.skipped outer law.literals scalar wrapped
    exact ⟨p', rfl, lowers, .skip bound listed number values⟩
  | take _ free ih =>
    intro P scope a a' sequence params outer h
    have bound := h
    rw [bindSource] at h
    obtain ⟨p, a₁, lowered, listed, h⟩ := ih.rows params outer h
    obtain ⟨n, a₂, number, h⟩ := Binding.bind_eq_ok.1 h
    obtain ⟨p', a₃, wrapped, h⟩ := Binding.bind_eq_ok.1 h
    obtain ⟨rfl, rfl⟩ := Binding.pure_eq_ok.1 h
    obtain ⟨rfl, scalar⟩ := (free.binds params).ok a₁ a₂ n number
    obtain ⟨lowers, values⟩ := lowered.taken outer law.literals scalar wrapped
    exact ⟨p', rfl, lowers, .take bound listed number values⟩
  | join _ _ outerFree innerFree resultFree left right => exact left.join law outerFree innerFree resultFree right
  | selectMany _ listing resultFree source collection => exact source.selectMany law.literals listing resultFree collection

end Queries

/-- Numbers, where a record is written with its members as digits and truth is anything but zero. -/
def Interpretation.digits : Interpretation Nat where
  equal x y := x == y
  le x y := x ≤ y
  null := 0
  isTrue x := x != 0
  ofBool b := b.toNat
  constant
    | .bool b, _ => b.toNat
    | _, _ => 0
  param _ := 0
  query _ := 0
  binary
    | .and, x, y => (x != 0 && y != 0).toNat
    | .eq, x, y => (x == y).toNat
    | _, _, _ => 0
  unary _ x := x
  member x _ := x
  call _ x _ := x
  conditional x y z := if x = 0 then z else y
  record _ fields := fields.foldl (fun number field => 10 * number + field.2) 0
  convert x _ := x
  function _ _ _ := 0
  group x _ := x
  aggregate _ _ _ _ := 0
  isIn x xs := (xs.contains x).toNat
  collect _ xs := xs.length
  limit x := some x
  offset x := x

end Relational

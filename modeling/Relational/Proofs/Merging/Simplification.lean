import Mathlib
import Relational.Proofs.Merging.AbsorptionRows
import Relational.Proofs.Merging.Hereditary

/-!
# Simplified projections

Removing redundant selects and merging the ones that are left keeps the values of a projection, in their order
(`Projection.values_simplifySelects`).
-/

namespace Relational

variable {D : Type} {I : Interpretation D} {db : Database D} {lit : Value → Ty → Prop} {Γ : Context}

/-! ## Filters and repetitions -/

/-- A select with a filter reads no distinct select along the left end of its source. -/
def Node.FiltersFirst : Node → Prop
  | select s => s.filter.isSome = true → s.readsDistinct = false
  | _ => True

/-- The same, where selects that are sources read something. -/
def Node.FiltersRows : Node → Prop
  | source (.select s) => s.source.isSome = true
  | n => n.FiltersFirst

theorem Node.FiltersRows.first {n : Node} (h : n.FiltersRows) : n.FiltersFirst := by
  cases n with
  | source src => trivial
  | _ => exact h

theorem Node.All.filtersRows {n : Node} {agg : Option Context} (h : n.All FiltersFirst) (formed : n.Formed lit Γ agg) : n.All FiltersRows := by
  induction h generalizing Γ agg with
  | query q => exact .query q
  | @node n bound here parts ih =>
    refine .node bound ?_ fun p mem => ?_
    · cases n with
      | source src =>
        cases src with
        | select s => exact formed.1
        | _ => trivial
      | _ => exact here
    · obtain ⟨_, _, part⟩ := formed.parts.2 p mem
      exact ih p mem part

/-- The left end of what a select reads in the place of one that it takes over. -/
theorem Source.readsDistinct_of_removal {src : Source} {inner : Select} (left : src.leftmost? = some inner) (reads : inner.source.isSome = true)
    (h : (src.substitute (removal [inner])).showsDistinct = true) : inner.readsDistinct = true := by
  induction src using Source.induction with
  | table | raw => cases left
  | select s =>
    cases left
    obtain ⟨within, known⟩ := Option.isSome_iff_exists.1 reads
    rw [substitute_of_removed (by rw [removal_removes]; exact List.contains_iff_mem.2 List.mem_cons_self) known] at h
    rw [Select.readsDistinct, known]
    exact within.showsDistinct_of_substitute h
  | join kind l r condition ih => exact ih left h

/-- A change of the parts of a node that brings no distinct selects to the left end of a source. -/
theorem Node.FiltersRows.mapParts {g : PartMap} (sources : ∀ s, s.source.isSome = true → (g.select s).source.isSome = true)
    (narrows : ∀ src, (g.source src).showsDistinct = true → src.showsDistinct = true) {n : Node} (h : n.FiltersRows) :
    (n.mapParts g).FiltersRows := by
  cases n with
  | expr e => cases e <;> trivial
  | subquery q => cases q <;> trivial
  | source src =>
    cases src with
    | select s => exact sources s h
    | _ => trivial
  | select s =>
    intro filters
    rw [Select.mapParts, Option.isSome_map] at filters
    refine Bool.eq_false_iff.2 fun shows => ?_
    have before : s.readsDistinct = true := Select.readsDistinct_map (fun src _ => narrows src) shows
    rw [h filters] at before
    cases before
  | projection | lambda | query => trivial

theorem filtersRows_kept : KeptByMerging Node.FiltersRows where
  atom e _ := by cases e <;> trivial
  and _ _ := trivial
  projection _ := trivial
  absorb s inner found known merged := by
    obtain ⟨src, reads, left⟩ := Option.bind_eq_some_iff.1 found
    obtain ⟨sourced, parts⟩ := Node.all_source.1 known
    have below : (Node.select inner).FiltersRows := (Node.all_select.1 (parts _ List.mem_cons_self)).1
    intro filters
    by_cases own : (s.substitute (removal [inner])).filter.isSome = true
    · exact merged own
    · have bare : s.filter = none := by simpa using own
      refine Bool.eq_false_iff.2 fun shows => ?_
      rw [Select.readsDistinct, Select.absorb_source, Select.substitute_source, reads] at shows
      have taken : inner.filter.isSome = true := by
        cases filter : inner.filter with
        | some e => rfl
        | none => simp [Select.absorb, bare, filter, Expr.conjunction, Expr.joined] at filters
      have before := Source.readsDistinct_of_removal left sourced shows
      rw [below taken] at before
      cases before
  substitute selects _ _ n _ h := h.mapParts (fun _ => Select.isSome_substitute) fun src => src.showsDistinct_of_substitute
  inside c narrows n _ h := by
    refine h.mapParts (fun s reads => narrows.source _ ?_) fun src => ?_
    · rw [Select.inside_eq, Select.mapParts, Option.isSome_map]
      exact reads
    · intro shows
      induction src using Source.deep_induction with
      | table | raw => exact shows
      | select s ih =>
        have shows : (Source.select (c.select (s.inside c))).showsDistinct = true := shows
        have inside := narrows.distinct _ shows
        rw [Source.showsDistinct_select, Bool.or_eq_true] at inside ⊢
        rw [Select.inside_eq] at inside
        exact inside.imp_right (Select.readsDistinct_map ih)
      | join kind l r condition left => exact left shows

/-! ## Simplified projections -/

/-- What a tree has to meet for its selects to be merged: equal values are the same, or filters do not stand over repetitions. -/
def Node.MergesBy (I : Interpretation D) (n : Node) : Prop := I.Identifies ∨ n.All FiltersFirst

theorem Node.MergesBy.kept {n n' : Node} {agg : Option Context} (h : n.MergesBy I) (formed : n.Formed lit Γ agg)
    (keeps : n.All FiltersRows → n'.All FiltersRows) : n'.MergesBy I :=
  h.imp_right fun first => (keeps (first.filtersRows formed)).mono fun _ => FiltersRows.first

namespace Select.Placed

variable {s : Select}

/-- A select can take over the one at the left end of its source where `canAbsorb` says so. -/
theorem absorb (law : I.Lawful lit) (merges : (Node.select s).MergesBy I) (placed : s.Placed lit Γ) {inner : Select} {topLevel : Bool}
    (found : s.source.bind Source.leftmost? = some inner) (can : s.canAbsorb topLevel inner = true) :
    s.Rewrites I db lit Γ (s.absorb inner) := by
  obtain ⟨src, reads, left⟩ := Option.bind_eq_some_iff.1 found
  obtain ⟨within, readsWithin⟩ : ∃ within, inner.source = some within :=
    Option.isSome_iff_exists.1 (Source.leftmost_formed left (placed.clauses.source src reads)).1
  have both : Merges lit Γ s inner src within := ⟨absorbable can, placed, reads, left, readsWithin⟩
  refine ⟨both.reforms, both.rows_eq law (merges.imp_right fun first distinct => ?_)⟩
  have shows : s.readsDistinct = true := by
    rw [readsDistinct, reads, Option.any_some, Source.showsDistinct_leftmost left, Source.showsDistinct_select, distinct]
    rfl
  have unfiltered : ¬ s.filter.isSome = true := fun filters => by
    rw [(Node.all_select.1 first).1 filters] at shows
    cases shows
  simpa using unfiltered

theorem absorbAll (law : I.Lawful lit) (merges : (Node.select s).MergesBy I) (topLevel : Bool) (steps : Nat) (placed : s.Placed lit Γ) :
    s.Rewrites I db lit Γ (s.absorbAll topLevel steps) := by
  refine (Select.absorbAll_induction (P := fun s' => s.Rewrites I db lit Γ s' ∧ (Node.select s').MergesBy I)
    (fun s' inner h found can => ?_) steps ⟨.refl placed.formed, merges⟩).1
  obtain ⟨rewrites, merges⟩ := h
  have placed := placed.reforms rewrites.toReforms
  exact ⟨rewrites.trans (placed.absorb law merges found can),
    merges.kept placed.node.formed fun rows => filtersRows_kept.absorbed rows found (absorbable can).columns⟩

theorem merge (law : I.Lawful lit) (merges : (Node.select s).MergesBy I) (topLevel : Bool) (placed : s.Placed lit Γ) :
    s.Rewrites I db lit Γ (s.merge topLevel) :=
  placed.absorbAll law merges topLevel _

end Select.Placed

theorem mergeSelects_sound (law : I.Lawful lit) : mergeSelects.Sound I db lit (Node.MergesBy I) where
  select _ _ merges placed := placed.merge law merges false
  projection _ _ _ placed := .refl placed.formed
  parts _ bound other merges p mem := merges.imp_right fun first => ((Node.all_iff bound other).1 first).2 p mem
  kept _ _ _ formed merges := merges.kept formed filtersRows_kept.inside_mergeSelects

namespace Projection

variable {p : Projection}

theorem Placed.merge (law : I.Lawful lit) (merges : (Node.projection p).MergesBy I) (placed : p.Placed lit Γ) :
    p.Rewrites I db lit Γ p.merge := by
  obtain ⟨s, e, a⟩ := p
  have sound : mergeSelects.Sound I db lit (Node.MergesBy I) := mergeSelects_sound law
  have parts := sound.parts (.projection ⟨s, e, a⟩) rfl (by rintro _ ⟨⟩) merges
  have select := parts (.select s) List.mem_cons_self
  have projector := parts (.expr e) (List.mem_cons_of_mem _ List.mem_cons_self)
  have inside : s.Rewrites I db lit Γ (s.inside mergeSelects) := (sound.inside rfl select placed.select.node).select
  have whole : (s.inside mergeSelects).Rewrites I db lit Γ ((s.inside mergeSelects).merge true) :=
    (placed.select.reforms inside.toReforms).merge law (sound.kept _ _ _ placed.select.node.formed select) true
  exact rewrites_parts (inside.trans whole) (sound.inside rfl projector placed.projector)

theorem Placed.simplifySelects (law : I.Lawful lit) (merges : (Node.projection p).MergesBy I) (placed : p.Placed lit Γ) :
    p.Rewrites I db lit Γ p.simplifySelects := by
  have smaller : p.Rewrites I db lit Γ (removeRedundant.projection (p.inside removeRedundant)) :=
    (removeRedundant_sound.changed trivial placed.node (removeRedundant_sound.inside rfl trivial placed.node)).projection
  have still : (Node.projection (removeRedundant.projection (p.inside removeRedundant))).MergesBy I :=
    merges.kept placed.node.formed fun rows => filtersRows_kept.removeRoot (filtersRows_kept.inside_removeRedundant rows)
  exact smaller.trans ((placed.rewrites smaller).merge law still)

/-- A simplified projection gives the same values in the same order, over every database. Where values count as equal that are not the same, no
filter may stand over a distinct select. -/
theorem values_simplifySelects (law : I.Lawful lit) (merges : I.Identifies ∨ (Node.projection p).All Node.FiltersFirst) (formed : p.Formed lit [])
    (nodup : p.declared.Nodup) (ρ : Env D) :
    p.simplifySelects.values I db ρ = p.values I db ρ ∧ p.simplifySelects.aggregator = p.aggregator := by
  have rewrites : p.Rewrites I db lit [] p.simplifySelects := Placed.simplifySelects law merges ⟨formed, nodup, fun _ _ => List.not_mem_nil⟩
  exact ⟨rewrites.values ρ, rewrites.aggregator⟩

end Projection

/-! ## At a database of numbers -/

/-- Numbers and absent values, with what it takes to filter, to sort and to count. -/
def Interpretation.numbers : Interpretation (Option Int) where
  equal a b := a == b
  le a b := a.elim true fun m => b.elim false fun n => decide (m ≤ n)
  null := none
  isTrue v := v == some 1
  ofBool b := some b.toInt
  constant v _ := match v with | .int n => some n.toInt | _ => none
  param _ := none
  query _ := none
  binary op a b :=
    match op with
    | .and => some (a == some 1 && b == some 1).toInt
    | .lt => a.bind fun m => b.map fun n => (decide (m < n)).toInt
    | .add => a.bind fun m => b.map fun n => m + n
    | _ => none
  unary _ _ := none
  member _ _ := none
  call _ _ _ := none
  conditional test yes no := if test = some 1 then yes else no
  record _ _ := none
  convert v _ := v
  function _ _ _ := none
  group _ _ := none
  aggregate kind _ _ vs := match kind with | .count => some vs.length | _ => none
  isIn v vs := some (vs.contains v).toInt
  collect _ vs := vs.head?.getD none
  limit v := v.map Int.toNat
  offset v := (v.map Int.toNat).getD 0

/-- Whole numbers are the literals. -/
def isNumeral (v : Value) (_ : Ty) : Prop := ∃ n, v = .int n

theorem Interpretation.numbers_identifies : numbers.Identifies := fun a b h => by simpa [numbers] using h

theorem Interpretation.numbers_lawful : numbers.Lawful isNumeral where
  order := by
    refine ⟨fun a b c first second => ?_, fun a b => ?_⟩
    · cases a <;> cases b <;> cases c <;> simp [numbers] at first second ⊢
      omega
    · cases a <;> cases b <;> simp [numbers]
      omega
  and a b := by
    simp only [numbers]
    cases a == some 1 <;> cases b == some 1 <;> simp
  literals := by
    rintro _ _ t ⟨n, rfl⟩ ⟨m, rfl⟩ same
    simp only [Value.same, beq_iff_eq] at same
    rw [same]

/-- A database with one column of numbers. -/
def Database.ofNumbers (numbers : List Int) : Database (Option Int) where
  table _ := numbers.map fun n _ => some n
  raw _ := []

/-- Twice each of the two largest numbers below five. -/
def largestTwo : Projection :=
  let column (a : Nat) (name : String) : Expr := .column ⟨⟨a⟩, name, .i64⟩
  let small : Select :=
    { Select.plain ⟨1⟩ [⟨"number", column 2 "value"⟩] (.table .table ⟨2⟩ "Number" "numbers") with
      filter := some (.binary .lt (column 2 "value") (.constant (.int 5) .i64)) }
  ⟨{ Select.plain ⟨0⟩ [⟨"number", column 1 "number"⟩] (.select small) with
      orderBy := [⟨column 1 "number", true⟩]
      limit := some (.constant (.int 2) .i64) },
    .binary .add (column 0 "number") (column 0 "number"), none⟩

theorem largestTwo_formed : largestTwo.Formed isNumeral [] := by
  simp [largestTwo, Projection.Formed, Select.plain, Select.Formed, formedSource, Source.Formed, formedOption, formedNamed,
    formedAll, formedKeys, Expr.Formed, Expr.column?, Expr.hasAggregate, Select.context, Source.context, Select.columnContext,
    Select.visible, Source.visible, Context.sees, Select.heading, Select.columnNames, Select.isTotal, Select.hasAggregates,
    isNumeral]

theorem values_simplifySelects_largestTwo :
    largestTwo.simplifySelects.values .numbers (.ofNumbers [3, 9, 4, 1]) (fun _ _ => none) = [some 8, some 6] := by
  have same : largestTwo.simplifySelects.values .numbers (.ofNumbers [3, 9, 4, 1]) (fun _ _ => none) =
      largestTwo.values .numbers (.ofNumbers [3, 9, 4, 1]) fun _ _ => none :=
    (Projection.values_simplifySelects Interpretation.numbers_lawful (.inl Interpretation.numbers_identifies)
      largestTwo_formed (by decide) _).1
  rw [same]
  cbv

/-- The number of rows beside a column that is a literal one select further in. -/
def literalBesideCount : Projection :=
  let zeros : Select := .plain ⟨1⟩ [⟨"zero", .constant (.int 0) .i64⟩] (.table .table ⟨2⟩ "Number" "numbers")
  ⟨.plain ⟨0⟩ [⟨"zero", .column ⟨⟨1⟩, "zero", .i64⟩⟩, ⟨"rows", .aggregate .count none false .i64⟩] (.select zeros),
    .column ⟨⟨0⟩, "zero", .i64⟩, none⟩

/-- The same, where numbers count as equal whatever their sign. -/
def Interpretation.magnitudes : Interpretation (Option Int) :=
  { Interpretation.numbers with equal := fun a b => a.map Int.natAbs == b.map Int.natAbs }

/-- The negative ones of the distinct numbers. -/
def negativeOfDistinct : Projection :=
  let distinct : Select :=
    { Select.plain ⟨1⟩ [⟨"number", .column ⟨⟨2⟩, "value", .i64⟩⟩] (.table .table ⟨2⟩ "Number" "numbers") with distinct := true }
  ⟨{ Select.plain ⟨0⟩ [⟨"number", .column ⟨⟨1⟩, "number", .i64⟩⟩] (.select distinct) with
      filter := some (.binary .lt (.column ⟨⟨1⟩, "number", .i64⟩) (.constant (.int 0) .i64)) },
    .column ⟨⟨0⟩, "number", .i64⟩, none⟩

/-- Beside a count of no rows the column is absent. The merged select has the literal in its place, which is not: so columns that are
read beside aggregates must not be literals. And a filter over a distinct select is merged with it, so that a row can stay that the distinct
select has left out in favour of an equal one. -/
theorem values_simplifySelects_differs :
    let s := literalBesideCount.select
    literalBesideCount.declared.Nodup ∧ (∀ src ∈ s.source, src.Formed isNumeral []) ∧
      (∀ c ∈ s.columns, c.expr.Formed isNumeral s.context (some s.context)) ∧
      literalBesideCount.projector.Formed isNumeral [(s.label, s.heading)] none ∧
      literalBesideCount.values .numbers (.ofNumbers []) (fun _ _ => none) = [none] ∧
      literalBesideCount.simplifySelects.values .numbers (.ofNumbers []) (fun _ _ => none) = [some 0] ∧
      Interpretation.magnitudes.Lawful isNumeral ∧ negativeOfDistinct.declared.Nodup ∧ negativeOfDistinct.Formed isNumeral [] ∧
      negativeOfDistinct.values .magnitudes (.ofNumbers [1, -1]) (fun _ _ => none) = [] ∧
      negativeOfDistinct.simplifySelects.values .magnitudes (.ofNumbers [1, -1]) (fun _ _ => none) = [some (-1)] := by
  have law := Interpretation.numbers_lawful
  refine ⟨by decide, ?_, ?_, ?_, by cbv, by cbv, ⟨law.order, law.and, law.literals⟩, by decide, ?_, by cbv, by cbv⟩ <;>
    simp [literalBesideCount, negativeOfDistinct, Projection.Formed, Select.columnContext, Select.visible, Source.visible, Select.isTotal,
      Select.hasAggregates, Expr.hasAggregate, Select.plain, Source.Formed, Select.Formed, formedSource, formedOption, formedNamed, formedAll,
      formedKeys, Expr.Formed, Expr.column?, Select.context, Source.context, Context.sees, Select.heading, Select.columnNames,
      isNumeral]

end Relational

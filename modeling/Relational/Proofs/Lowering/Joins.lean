import Relational.Proofs.Lowering.Selects
import Relational.Proofs.Merging.ColumnMaps

/-!
# Lowered joins

A join pairs each row of its left side with the rows of its right side that match. The right side must not see the row of
the left side, since a database reads it once and not for each row (`Source.Apart`). A collection that
depends on the outer element is therefore taken apart: its source becomes the right side, its filter
the condition, and its columns are put in for the references to them.
-/

namespace Relational

variable {D : Type} {I : Interpretation D} {db : Database D} {P P' Q : Alias → Prop} {a a₁ a₂ a' : Alias} {src l r : Source} {s : Select}
  {p p' inner : Projection} {e body : Expr}

/-! ## Keys -/

/-- What matching of keys asks of an interpretation: equality compares null-safely, and a conjunction holds if both sides hold. -/
structure Interpretation.Matches (I : Interpretation D) : Prop where
  literals : I.RespectsLiterals
  truth : I.isTrue (I.constant (.bool true) .bool) = true
  and : ∀ x y, I.isTrue (I.binary .and x y) = (I.isTrue x && I.isTrue y)
  eq : ∀ x y, I.isTrue (I.binary .eq x y) = I.equal x y

section Keys

variable (I db)

mutual

/-- Whether a key at one row matches a key at another: records match member by member. -/
def Expr.matchesAt (σ τ : Env D) : Expr → Expr → Bool
  | .record _ ms, .record _ ms' => membersMatch σ τ ms ms'
  | k, k' => I.equal (k.eval I db σ [σ]) (k'.eval I db τ [τ])
termination_by structural k => k

def membersMatch (σ τ : Env D) : List Named → List Named → Bool
  | ⟨_, k⟩ :: ms, ⟨_, k'⟩ :: ms' => k.matchesAt σ τ k' && membersMatch σ τ ms ms'
  | ms, ms' => ms.isEmpty && ms'.isEmpty
termination_by structural ms => ms

end

end Keys

theorem Interpretation.Matches.conjunction (law : I.Matches) (κ : Env D) (parts : List Expr) :
    I.isTrue (((Expr.conjunction parts).getD (.ofBool true)).eval I db κ [κ]) = parts.all fun e => I.isTrue (e.eval I db κ [κ]) := by
  have joined (e : Expr) (parts : List Expr) : I.isTrue ((parts.foldl (.binary .and) e).eval I db κ [κ]) =
      (I.isTrue (e.eval I db κ [κ]) && parts.all fun e => I.isTrue (e.eval I db κ [κ])) := by
    induction parts generalizing e with
    | nil => rw [List.foldl_nil, List.all_nil, Bool.and_true]
    | cons x parts ih => rw [List.foldl_cons, ih, Expr.eval, law.and, List.all_cons, Bool.and_assoc]
  cases parts with
  | nil => exact law.truth
  | cons e parts => exact joined e parts

section Keys

variable {R S : ColumnRef → Prop} {κ σ τ : Env D}

/-- The bound equality of two keys holds at a pair of rows if the keys match. -/
theorem Expr.equality_matches (law : I.Matches) (db : Database D) (left : ∀ c, R c → κ c.label = σ c.label) (right : ∀ c, S c → κ c.label = τ c.label) :
    Binding.EqualityCases fun k k' e => k.Scalar R → k'.Scalar S → I.isTrue (e.eval I db κ [κ]) = k.matchesAt I db σ τ k' where
  whole {k k'} plain scalar scalar' := by
    have single : k.matchesAt I db σ τ k' = I.equal (k.eval I db σ [σ]) (k'.eval I db τ [τ]) := by
      unfold matchesAt
      split
      · exact (plain.elim (· _ _ rfl) (· _ _ rfl)).elim
      · rfl
    rw [single, Expr.eval, law.eq, scalar.eval_congr left [κ] [σ], scalar'.eval_congr right [κ] [τ]]
  members compared scalar scalar' := by
    replace scalar := List.forall_mem_map.1 (scalar.operands rfl)
    replace scalar' := List.forall_mem_map.1 (scalar'.operands rfl)
    rw [law.conjunction κ, matchesAt]
    induction compared with
    | nil => rfl
    | cons head _ ih =>
      rw [List.forall_mem_cons] at scalar scalar'
      rw [List.all_cons, head scalar.1 scalar'.1, ih scalar.2 scalar'.2]
      rfl

end Keys

/-! ## Sides of a join -/

/-- A row with what another one holds under some aliases. -/
def Env.beside (as : List Alias) (σ τ : Env D) : Env D := fun b => if b ∈ as then σ b else τ b

variable (I db) in
/-- The right side has the same rows beside every row of the left side. -/
def Source.Apart (l r : Source) : Prop :=
  ∀ ρ, ∀ σ ∈ l.rows I db ρ, r.rows I db σ = (r.rows I db ρ).map (σ.beside l.visible)

/-- A side that does not refer to the other one is apart from it. -/
theorem Source.apart (reads : r.Reads (· ∉ l.visible)) (disjoint : ∀ b ∈ l.visible, b ∉ r.visible) : l.Apart I db r := by
  intro ρ σ mem
  have agree : ρ.AgreeOn (· ∉ l.visible) σ := fun b other => (l.rows_frame mem b other).symm
  have rows : List.Forall₂ (Env.AgreeOn (· ∉ l.visible)) (r.rows I db ρ) (r.rows I db σ) :=
    (Node.determined (n := .source r) (P := (· ∉ l.visible)) rfl reads).rows agree
  have framed : ∀ τ' ∈ r.rows I db σ, ∀ b ∈ l.visible, τ' b = σ b := fun τ' mem b own => r.rows_frame mem b (disjoint b own)
  symm
  rw [← List.forall₂_eq_eq_eq, List.forall₂_map_left_iff]
  refine ((List.forall₂_and_left _ _).2 ⟨framed, rows.flip⟩).flip.imp fun τ τ' related => ?_
  funext b
  by_cases own : b ∈ l.visible
  · rw [Env.beside, if_pos own, related.1 b own]
  · rw [Env.beside, if_neg own, related.2 b own]

variable (I db) in
/-- The select reads a join of the rows of a projection with rows apart from them. -/
def Select.JoinsApart (left : Projection) (s : Select) : Prop :=
  ∃ kind r condition, s.source = some (.join kind (.select left.select) r condition) ∧ (Source.select left.select).Apart I db r

/-- The rows of a join that leaves out the rows without a match. -/
theorem Source.rows_join {kind : JoinKind} (inner : kind ≠ .outer) (condition : Option Expr) (ρ : Env D) :
    (Source.join kind l r condition).rows I db ρ = (l.rows I db ρ).flatMap fun σ =>
      (r.rows I db σ).filter fun κ => I.holds (condition.map (·.valueAt I db κ)) := by
  simp only [Source.rows, joinRows, evalOption_eq, inner, false_and, if_false]
  rfl

namespace Projection.Lowered

variable (lowered : p.Lowered I db P a a₁)
include lowered

/-- The left side was given its aliases before the right side. -/
theorem label_ne {b : Alias} (between : a₁.Between a₂ b) : b ≠ p.select.label := by
  rintro rfl
  exact Nat.lt_irrefl _ (Nat.lt_of_lt_of_le lowered.label.2 between.1)

variable (outer : ∀ b, P b → b.id < a.id)
include outer

theorem outer_ne {b : Alias} (around : P b) : b ≠ p.select.label := by
  rintro rfl
  exact Nat.lt_irrefl _ (Nat.lt_of_lt_of_le (outer _ around) lowered.label.1)

theorem apart (right : r.Within P a₁ a₂) :
    (Source.select p.select).Apart I db r := by
  refine Source.apart (right.reads.mono fun b reads => ?_) (List.forall_mem_singleton.2 fun mem => lowered.label_ne (right.visible _ mem) rfl)
  rw [Source.visible, List.mem_singleton]
  rcases reads with around | between
  · exact lowered.outer_ne outer around
  · exact lowered.label_ne between

/-- At a pair of rows the aliases of the left side, and those around the join, are those of the left row. -/
theorem beside_left (lowered' : inner.Lowered I db P a₁ a₂)
    {ρ σ τ : Env D} (left : σ ∈ p.elements I db ρ) (right : τ ∈ inner.elements I db ρ) {c : ColumnRef} (seen : Seen P [p.select.label] c) :
    σ.beside [p.select.label] τ c.label = σ c.label := by
  by_cases own : c.label ∈ [p.select.label]
  · rw [Env.beside, if_pos own]
  · have around := seen.resolve_right own
    have before : ∀ b, P b → b.id < a₁.id := fun b around => Nat.lt_of_lt_of_le (outer b around) lowered.grows
    have other : c.label ∉ (Source.select inner.select).visible := by simpa [Source.visible] using lowered'.outer_ne before around
    rw [Env.beside, if_neg own, Source.rows_frame _ left _ own, Source.rows_frame _ right _ other]

theorem beside_right (lowered' : inner.Lowered I db P a₁ a₂)
    (σ τ : Env D) {c : ColumnRef} (seen : Seen P [inner.select.label] c) : σ.beside [p.select.label] τ c.label = τ c.label := by
  have other : c.label ∉ [p.select.label] := by
    rw [List.mem_singleton]
    rcases seen with around | own
    · exact lowered.outer_ne outer around
    · rw [List.mem_singleton.1 own]
      exact lowered.label_ne lowered'.label
  rw [Env.beside, if_neg other]

/-- A join with a side that does not refer to the row of the other one. -/
theorem joined (literals : I.RespectsLiterals)
    (right : r.Within P a₁ a₂) (grows : a₁.id ≤ a₂.id) {kind : JoinKind} (inner : kind ≠ .outer) {condition : Option Expr}
    (on : ∀ e ∈ condition, e.Scalar (Seen P (p.select.label :: r.visible))) (scalar : body.Scalar (Seen P (p.select.label :: r.visible)))
    (h : Binding.joined p kind r condition body a₂ = .ok (p', a')) :
    p'.Lowered I db P a a' ∧ p'.select.JoinsApart I db p ∧ ∀ ρ, p'.values I db ρ = (p.elements I db ρ).flatMap fun σ =>
      ((r.rows I db σ).filter fun κ => I.holds (condition.map (·.valueAt I db κ))).map fun κ => body.valueAt I db κ := by
  cases h
  have first : a.id ≤ a₂.id := Nat.le_trans lowered.grows grows
  have within : (Source.join kind (.select p.select) r condition).Within P a a₂ := by
    have left := lowered.within.mono (Nat.le_refl _) grows
    have right := right.mono lowered.grows (Nat.le_refl _)
    have visible : ∀ b ∈ p.select.label :: r.visible, a.Between a₂ b := List.forall_mem_append.2 ⟨left.visible, right.visible⟩
    refine ⟨Source.reads_join.2 ⟨left.reads, right.reads, fun e mem => ?_⟩, visible⟩
    exact (on e mem).reads fun c seen => seen.imp_right (visible _)
  refine ⟨Select.Splits.plain.lowered scalar within first, ⟨kind, r, condition, rfl, lowered.apart outer right⟩, fun ρ => ?_⟩
  have splits : (Select.plain a₂ (body.projectColumns a₂ (p.select.label :: r.visible)).columns
      (.join kind (.select p.select) r condition)).Splits P a₂ (.join kind (.select p.select) r condition) body := .plain
  refine (splits.values scalar first outer literals ρ).trans ?_
  rw [Select.cut_none rfl rfl, Select.passes_none rfl, List.filter_true, Source.rows_join inner, List.map_flatMap]
  rfl

end Projection.Lowered

/-! ## Collections -/

/-- The columns of a lowered projection put in for the references to them. -/
theorem Projection.Lowered.replaced (lowered : p.Lowered I db P a a') (outer : ∀ b, P b → b.id < a.id) (lists : p.select.Lists P src)
    (visible : ∀ b ∈ src.visible, a.Between a' b) :
    (p.projector.replaceColumns (.ofSelect p.select)).Scalar (Seen P src.visible) ∧ ∀ ρ, ∀ κ ∈ src.rows I db ρ,
      (p.projector.replaceColumns (.ofSelect p.select)).valueAt I db κ = p.projector.valueAt I db (p.select.shownRow I db ρ κ) := by
  have apart {b : Alias} (around : P b) : b ≠ p.select.label := lowered.outer_ne outer around
  have replaced (c : ColumnRef) (inside : P c.label ∨ c.label = p.select.label ∧ c.name ∈ p.select.columnNames) :
      ((ColumnMap.ofSelect p.select).replace c).Scalar (Seen P src.visible) := by
    rcases inside with around | ⟨own, name⟩
    · rw [ColumnMap.replace_ofSelect_other (apart around)]
      exact .column (.inl around)
    · obtain ⟨d, mem, -, found⟩ := ColumnMap.replace_ofSelect own name
      rw [found]
      exact lists.columns d mem
  refine ⟨lowered.projector.substitute replaced, fun ρ κ mem => lowered.projector.eval_substitute replaced (fun c inside => ?_) _ _⟩
  rcases inside with around | ⟨own, name⟩
  · rw [ColumnMap.replace_ofSelect_other (apart around), Select.shownRow, Env.set, if_neg (apart around), Expr.eval]
    have outside : c.label ∉ src.visible := fun mem =>
      Nat.lt_irrefl _ (Nat.lt_of_lt_of_le (outer _ around) (visible _ mem).1)
    rw [src.rows_frame mem _ outside]
  · obtain ⟨d, mem, name, found⟩ := ColumnMap.replace_ofSelect own name
    rw [found, Select.shownRow, Env.set, if_pos own, ← name, lowered.shows κ d mem]

variable (I db) in
/-- What a collection contributes to a join with the rows that it is taken of. -/
structure Projection.Contributes (P : Alias → Prop) (a a' : Alias) (p inner : Projection) (r : Source) (kind : JoinKind)
    (condition : Option Expr) (element : Expr) : Prop where
  kind : kind ≠ .outer
  right : r.Within P a a'
  on : ∀ e ∈ condition, e.Scalar (Seen P (p.select.label :: r.visible))
  scalar : element.Scalar (Seen P (p.select.label :: r.visible))
  /-- The rows that satisfy the condition beside a row make the collection at that row. -/
  values : ∀ σ, ((r.rows I db σ).filter fun κ => I.holds (condition.map (·.valueAt I db κ))).map (fun κ => element.valueAt I db κ) =
    inner.values I db σ

theorem Source.Within.apart (within : src.Within (fun b => P b ∨ b = p.select.label) a a')
    (silent : (src.collect columnRefs).any (·.label == p.select.label) = false) : src.Within P a a' := by
  refine ⟨fun c mem => ?_, within.visible⟩
  have other : c.label ≠ p.select.label := by simpa using List.any_eq_false.1 silent c mem
  rcases within.reads c mem with (around | same) | between
  · exact .inl around
  · exact absurd same other
  · exact .inr between

theorem Binding.collectionJoin_contributes (lowered : inner.Lowered I db (fun b => P b ∨ b = p.select.label) a a')
    (outer : ∀ b, P b ∨ b = p.select.label → b.id < a.id) {kind : JoinKind} {condition : Option Expr} {element : Expr}
    (h : collectionJoin p inner false a' = .ok ((r, kind, condition, element), a₁)) :
    a' = a₁ ∧ p.Contributes I db P a a' inner r kind condition element := by
  have seen {as : List Alias} {c : ColumnRef} (h : Seen (fun b => P b ∨ b = p.select.label) as c) : Seen P (p.select.label :: as) c := by
    rcases h with (around | same) | mem
    · exact .inl around
    · exact .inr (same ▸ List.mem_cons_self)
    · exact .inr (List.mem_cons_of_mem _ mem)
  obtain ⟨src, lists, within⟩ := lowered.lists
  unfold collectionJoin at h
  dsimp only at h
  split at h
  · next silent =>
    cases h
    have apart : (inner.select.collect columnRefs).any (·.label == p.select.label) = false := by simpa using silent
    refine ⟨rfl, by decide, lowered.within.apart apart, by rintro _ ⟨⟩, lowered.projector_seen.mono fun _ => seen, fun σ => ?_⟩
    rw [inner.values_eq_elements]
    exact congrArg (List.map _) (List.filter_true _)
  · rw [lists.source] at h
    dsimp only at h
    split at h
    · next filters =>
      cases h
      simp only [Bool.and_eq_true, Option.isNone_iff_eq_none, Bool.not_eq_true'] at filters
      obtain ⟨⟨⟨⟨-, limit⟩, offset⟩, -⟩, silent⟩ := filters
      obtain ⟨scalar, replaced⟩ := lowered.replaced outer lists within.visible
      refine ⟨rfl, by decide, within.apart silent, fun e mem => (lists.filter e mem).mono fun _ => seen, scalar.mono fun _ => seen, fun σ => ?_⟩
      rw [lists.values_eq, Select.cut_none offset limit]
      exact List.map_congr_left fun κ mem => replaced σ κ (List.mem_of_mem_filter mem)
    · cases fail_eq_ok.1 h

end Relational

import Mathlib.Data.List.Pairwise
import Mathlib.Order.RelClasses
import Relational.Proofs.Merging.Hereditary
import Relational.Proofs.Scoping.Checking

/-!
# The simplification of selects ends

Two recursions of the simplification do not follow the tree: what a column of a select that goes stands for is looked up again, and a select takes
over others as long as it can. Where aliases are declared once and references are in scope, a select takes its columns from aliases that come
before its own in a well-founded order (`Projection.wellFounded_takes`). The changes of selects keep to that order (`Node.Orderly`), and each select
that is taken over leaves one less at the left end of the source. So both recursions end wherever the simplification starts them
(`Projection.simplification_ends`).
-/

namespace Relational

/-! ## Ends -/

/-- The selects that stand as sources. -/
def sourceSelects : Collector Select where
  column _ := []
  select _ := []
  source
    | .select s => [s]
    | _ => []

/-- To look up a reference is to look up those in the expression that stands for it. -/
def ColumnMap.LooksUp (m : ColumnMap) (d c : ColumnRef) : Prop := ∃ e, m.get? c.label c.name = some e ∧ d ∈ e.collect columnRefs

/-- To look up columns of these selects ends, and the substitution that removes the selects is what the recursion comes to. -/
structure LookupEnds (selects : List Select) : Prop where
  wellFounded : WellFounded (columnsOf selects).LooksUp
  result : ∀ c, (Expr.column c).substitute (removal selects) =
    ((columnsOf selects).get? c.label c.name).elim (.column c) (Expr.substitute (removal selects))

/-- One turn of the loop that takes over selects. -/
def Select.absorbOne? (topLevel : Bool) (s : Select) : Option Select :=
  (s.source.bind Source.leftmost?).bind fun inner => if s.canAbsorb topLevel inner then some (s.absorb inner) else none

/-- To take over selects ends, with what is looked up on the way, and the merged select is what the loop comes to. -/
inductive Select.MergeEnds (topLevel : Bool) : Select → Prop where
  | turn {s : Select} (lookup : ∀ inner ∈ s.source.bind Source.leftmost?, inner.isColumnProjection = true → LookupEnds [inner])
    (result : s.merge topLevel = (s.absorbOne? topLevel).elim s (merge topLevel))
    (next : ∀ s' ∈ s.absorbOne? topLevel, MergeEnds topLevel s') : MergeEnds topLevel s

/-- All recursions that the simplification of a projection starts end: at each select, once what is inside of it is changed, the look-up of the
redundant selects that it reads, and its own if it is redundant, and then at each select that is left the loop that takes over others. -/
structure Projection.SimplificationEnds (p : Projection) : Prop where
  redundant : ∀ s ∈ p.collect selectNodes, ∀ src ∈ (s.inside removeRedundant).source, LookupEnds src.redundant
  root : ∀ s ∈ p.collect selectNodes, (s.inside removeRedundant).removeRedundant.isRedundant = true →
    LookupEnds [(s.inside removeRedundant).removeRedundant]
  merge : ∀ s ∈ (removeRedundant.projection (p.inside removeRedundant)).collect selectNodes, ∀ topLevel,
    (s.inside mergeSelects).MergeEnds topLevel

/-! ## Orders of aliases -/

/-- The columns of a select that are columns of others are taken from aliases before its own. -/
def Select.TakesFrom (lt : Alias → Alias → Prop) (s : Select) : Prop := ∀ d ∈ s.columns, ∀ r, d.expr = .column r → lt r.label s.label

namespace Node

variable {lt : Alias → Alias → Prop} {n : Node}

/-- Selects take their columns from aliases before their own, and those that stand as sources read something. -/
def Ordered (lt : Alias → Alias → Prop) : Node → Prop
  | select s => s.TakesFrom lt
  | source (.select s) => s.source.isSome = true
  | _ => True

abbrev Orderly (lt : Alias → Alias → Prop) (n : Node) : Prop := n.All (Ordered lt)

theorem orderly_of_collect (bound : n.isBound = true) (columns : ∀ s ∈ n.collect selectNodes, s.TakesFrom lt)
    (sources : ∀ s ∈ n.collect sourceSelects, s.source.isSome = true) : n.Orderly lt := by
  induction n, bound using bound_induction with
  | query q => exact .query q
  | step n bound other ih =>
    rw [collect_eq _ bound, List.forall_mem_append, List.forall_mem_flatMap] at columns sources
    refine .node bound ?_ fun p mem => ih p mem (isBound_parts bound other p mem) (columns.2 p mem) (sources.2 p mem)
    cases n with
    | select s => exact columns.1 s (List.mem_singleton_self s)
    | source src =>
      cases src with
      | select s => exact sources.1 s (List.mem_singleton_self s)
      | _ => trivial
    | _ => trivial

end Node

section Orders

variable {lt : Alias → Alias → Prop}

theorem Source.orderly_leftmost {src : Source} (h : (Node.source src).Orderly lt) {inner : Select} (left : src.leftmost? = some inner) :
    (Node.select inner).Orderly lt ∧ inner.source.isSome = true := by
  obtain ⟨reads, parts⟩ := Node.all_source.1 (all_leftmost h left)
  exact ⟨parts _ List.mem_cons_self, reads⟩

theorem Select.orderly_source {s : Select} (h : (Node.select s).Orderly lt) {src : Source} (reads : s.source = some src) :
    (Node.source src).Orderly lt :=
  (Node.all_select.1 h).2.source src reads

/-! ## Looking up -/

/-- What stands for a column is a literal, or a column of an alias before its own. -/
def ColumnMap.Lowers (lt : Alias → Alias → Prop) (m : ColumnMap) : Prop :=
  ∀ (c : ColumnRef) e, m.get? c.label c.name = some e → e.isAtom = true ∧ ∀ d, e = .column d → lt d.label c.label

open Classical in
/-- How many columns are of the alias of a reference or of an alias before it. -/
noncomputable def ColumnMap.height (lt : Alias → Alias → Prop) (m : ColumnMap) (c : ColumnRef) : Nat :=
  m.countP fun entry => decide (entry.1.1 = c.label ∨ lt entry.1.1 c.label)

theorem lowers_columnsOf {selects : List Select} (orderly : ∀ s ∈ selects, s.TakesFrom lt)
    (atoms : ∀ s ∈ selects, ∀ d ∈ s.columns, d.expr.isAtom = true) : (columnsOf selects).Lowers lt := by
  intro c e found
  rcases columnsOf_get?_cases selects c.label c.name with none | ⟨s, mem, d, column, label, -, look⟩
  · cases none.symm.trans found
  · obtain rfl := Option.some.inj (look.symm.trans found)
    exact ⟨atoms s mem d column, fun r taken => label ▸ orderly s mem d column r taken⟩

namespace ColumnMap.Lowers

variable {m : ColumnMap} (h : m.Lowers lt)
include h

theorem wellFounded (wf : WellFounded lt) : WellFounded m.LooksUp := by
  refine Subrelation.wf ?_ (InvImage.wf ColumnRef.label wf)
  rintro d c ⟨e, found, mem⟩
  obtain ⟨atom, before⟩ := h c e found
  cases e with
  | column r =>
    obtain rfl := List.mem_singleton.1 mem
    exact before d rfl
  | constant | hostParameter => cases mem
  | _ => cases atom

theorem cases (c : ColumnRef) : m.get? c.label c.name = none ∨
    ∃ e, m.get? c.label c.name = some e ∧ (e.isLiteral = true ∨ ∃ d, e = .column d ∧ lt d.label c.label) := by
  cases found : m.get? c.label c.name with
  | none => exact .inl rfl
  | some e =>
    obtain ⟨atom, before⟩ := h c e found
    refine .inr ⟨e, rfl, ?_⟩
    cases e with
    | column d => exact .inr ⟨d, rfl, before d rfl⟩
    | constant | hostParameter => exact .inl rfl
    | _ => cases atom

variable [IsTrans Alias lt] (aliases : List Alias)

/-- A reference that is looked up leads to a literal, to a reference before it, or to itself. -/
theorem lookup (steps : Nat) (c : ColumnRef) : ((Expr.column c).substitute (removing aliases m steps)).isLiteral = true ∨
    ∃ d, (Expr.column c).substitute (removing aliases m steps) = .column d ∧ (d.label = c.label ∨ lt d.label c.label) := by
  induction steps generalizing c with
  | zero => exact .inr ⟨c, rfl, .inl rfl⟩
  | succ steps ih =>
    rw [substitute_removing_succ]
    rcases h.cases c with none | ⟨e, found, literal | ⟨d, rfl, before⟩⟩
    · rw [none]
      exact .inr ⟨c, rfl, .inl rfl⟩
    · rw [found, Option.elim, substitute_literal literal]
      exact .inl literal
    · rw [found]
      rcases ih d with literal | ⟨r, same, own | further⟩
      · exact .inl literal
      · exact .inr ⟨r, same, .inr (own ▸ before)⟩
      · exact .inr ⟨r, same, .inr (IsTrans.trans _ _ _ further before)⟩

omit h in
open Classical in
/-- Before a reference that is looked up there are fewer columns than up to what it is looked up for. -/
theorem height_lt (wf : WellFounded lt) {c d : ColumnRef} (found : m.get? c.label c.name = some (.column d)) (before : lt d.label c.label) :
    m.height lt d < m.height lt c := by
  obtain ⟨front, rest, split, -⟩ := List.lookup_eq_some_iff.1 found
  have within (entry : (Alias × String) × Expr) (below : decide (entry.1.1 = d.label ∨ lt entry.1.1 d.label) = true) :
      decide (entry.1.1 = c.label ∨ lt entry.1.1 c.label) = true := by
    rw [decide_eq_true_iff] at below ⊢
    exact .inr (below.elim (fun same => same ▸ before) fun further => IsTrans.trans _ _ _ further before)
  have apart : ¬ (c.label = d.label ∨ lt c.label d.label) := by
    rintro (same | after)
    · rw [same] at before
      exact wf.asymmetric _ _ before before
    · exact wf.asymmetric _ _ after before
  have front := List.countP_mono_left (l := front) fun entry _ => within entry
  have rest := List.countP_mono_left (l := rest) fun entry _ => within entry
  rw [height, height, split]
  simp only [List.countP_append, List.countP_cons, apart, decide_false, true_or, decide_true, if_true]
  simp only [Bool.false_eq_true, if_false]
  omega

omit h [IsTrans Alias lt] in
open Classical in
theorem height_pos {c : ColumnRef} {e : Expr} (found : m.get? c.label c.name = some e) : 0 < m.height lt c := by
  obtain ⟨front, rest, split, -⟩ := List.lookup_eq_some_iff.1 found
  refine List.countP_pos_iff.2 ⟨((c.label, c.name), e), split ▸ List.mem_append_right _ List.mem_cons_self, ?_⟩
  exact decide_eq_true (.inl rfl)

/-- Steps beyond the height of a reference change nothing. -/
theorem lookup_stable (wf : WellFounded lt) {steps steps' : Nat} {c : ColumnRef} (enough : m.height lt c ≤ steps)
    (enough' : m.height lt c ≤ steps') :
    (Expr.column c).substitute (removing aliases m steps) = (Expr.column c).substitute (removing aliases m steps') := by
  have own {c : ColumnRef} (none : m.get? c.label c.name = none) (k : Nat) : (Expr.column c).substitute (removing aliases m k) = .column c := by
    cases k with
    | zero => rfl
    | succ k => rw [substitute_removing_succ, none]; rfl
  induction steps generalizing steps' c with
  | zero =>
    rcases h.cases c with none | ⟨e, found, -⟩
    · rw [own none, own none]
    · exact absurd (height_pos found) (Nat.not_lt.2 enough)
  | succ steps ih =>
    rcases h.cases c with none | ⟨e, found, kind⟩
    · rw [own none, own none]
    · cases steps' with
      | zero => exact absurd (height_pos found) (Nat.not_lt.2 enough')
      | succ steps' =>
        rw [substitute_removing_succ, substitute_removing_succ, found]
        rcases kind with literal | ⟨d, rfl, before⟩
        · exact (substitute_literal literal).trans (substitute_literal literal).symm
        · have lower := height_lt wf found before
          exact ih (by omega) (by omega)

/-- With as many steps as there are columns, a reference is what its look-up comes to. -/
theorem lookup_eq (wf : WellFounded lt) (c : ColumnRef) : (Expr.column c).substitute (removing aliases m m.length) =
    (m.get? c.label c.name).elim (.column c) (Expr.substitute (removing aliases m m.length)) := by
  have least (c : ColumnRef) : m.height lt c ≤ m.length := List.countP_le_length
  rw [lookup_stable h aliases wf (least c) (Nat.le_succ_of_le (least c)), substitute_removing_succ]

end ColumnMap.Lowers

/-- To look up columns of orderly selects ends. -/
theorem lookupEnds [IsTrans Alias lt] (wf : WellFounded lt) {selects : List Select} (orderly : ∀ s ∈ selects, (Node.select s).Orderly lt)
    (atoms : ∀ s ∈ selects, ∀ d ∈ s.columns, d.expr.isAtom = true) : LookupEnds selects :=
  have lowers := lowers_columnsOf (fun s mem => (Node.all_select.1 (orderly s mem)).1) atoms
  ⟨lowers.wellFounded wf, lowers.lookup_eq _ wf⟩

/-! ## Changes -/

/-- Columns come from columns that are not before them, and selects that read something still do. -/
theorem Node.ordered_mapParts [IsTrans Alias lt] {g : PartMap} (columns : ∀ e d, g.expr e = .column d → ∃ c, e = .column c ∧ (d.label = c.label ∨ lt d.label c.label))
    (sources : ∀ s, s.source.isSome = true → (g.select s).source.isSome = true) {n : Node} (h : n.Ordered lt) : (n.mapParts g).Ordered lt := by
  cases n with
  | expr e => cases e <;> trivial
  | subquery s => cases s <;> trivial
  | source src =>
    cases src with
    | select s => exact sources s h
    | _ => trivial
  | select s =>
    intro _ mem d same
    obtain ⟨c, found, rfl⟩ := List.mem_map.1 mem
    obtain ⟨r, taken, own | before⟩ := columns _ d same
    · exact own ▸ h c found r taken
    · exact IsTrans.trans _ _ _ before (h c found r taken)
  | projection | lambda | query => trivial

theorem ordered_kept [IsTrans Alias lt] : KeptByMerging (Node.Ordered lt) where
  atom e _ := by cases e <;> trivial
  and _ _ := trivial
  projection _ := trivial
  absorb _ _ _ _ h := h
  substitute selects orderly atoms n _ h := by
    refine Node.ordered_mapParts (fun e d same => ?_) (fun s => Select.isSome_substitute) h
    have same : e.substitute (removal selects) = .column d := same
    cases e with
    | column c =>
      rcases (lowers_columnsOf orderly atoms).lookup (selects.map (·.label)) (columnsOf selects).length c with literal | ⟨r, given, order⟩
      · have literal : ((Expr.column c).substitute (removal selects)).isLiteral = true := literal
        rw [same] at literal
        cases literal
      · obtain rfl := Expr.column.inj (given.symm.trans same)
        exact ⟨c, rfl, order⟩
    | _ =>
      rw [Expr.substitute.eq_def, show (removal selects).expr = _ from removing_expr] at same
      cases same
  inside c narrows n _ h := by
    refine Node.ordered_mapParts (fun e d same => ?_) (fun s reads => narrows.source _ ?_) h
    · cases e <;> cases same
      exact ⟨d, rfl, .inl rfl⟩
    · rw [Select.inside_eq, Select.mapParts, Option.isSome_map]
      exact reads

end Orders

/-! ## The loop -/

/-- How many selects stand one inside of the other at the left end of a source. -/
def Source.depth : Source → Nat
  | .select ⟨_, _, some src, _, _, _, _, _, _, _⟩ => src.depth + 1
  | .select _ => 1
  | .join _ l _ _ => l.depth
  | _ => 0

def Select.depth (s : Select) : Nat := s.source.elim 0 Source.depth

namespace Source

variable {src : Source} {f : Substitution} {inner : Select}

theorem depth_select (s : Select) : (Source.select s).depth = s.depth + 1 := by
  obtain ⟨a, columns, source, filter, groupBy, having, orderBy, offset, limit, distinct⟩ := s
  cases source <;> rfl

theorem depth_substitute (src : Source) : (src.substitute f).depth ≤ src.depth := by
  induction src using deep_induction with
  | table | raw => exact Nat.le_refl _
  | select s ih =>
    cases removed : f.removes s.label with
    | false =>
      rw [substitute_of_kept removed, depth_select, depth_select, Select.depth, Select.depth, Select.substitute_eq, Select.mapParts]
      cases reads : s.source with
      | none => exact Nat.le_refl _
      | some src => exact Nat.succ_le_succ (ih src reads)
    | true =>
      cases reads : s.source with
      | none => exact Nat.le_of_eq (congrArg depth (substitute_of_bare removed reads))
      | some src =>
        rw [substitute_of_removed removed reads, depth_select, Select.depth, reads]
        exact Nat.le_succ_of_le (ih src reads)
  | join kind l r condition left => exact left

theorem depth_lt (left : src.leftmost? = some inner) (removed : f.removes inner.label = true) (reads : inner.source.isSome = true) :
    (src.substitute f).depth < src.depth := by
  induction src using Source.induction with
  | table | raw => cases left
  | select s =>
    cases left
    obtain ⟨within, reads⟩ := Option.isSome_iff_exists.1 reads
    rw [substitute_of_removed removed reads, depth_select, Select.depth, reads]
    exact Nat.lt_succ_of_le within.depth_substitute
  | join kind l r condition ih => exact ih left

theorem depth_pos (left : src.leftmost? = some inner) : 0 < src.depth := by
  induction src using Source.induction with
  | table | raw => cases left
  | select s =>
    rw [depth_select]
    exact Nat.succ_pos _
  | join kind l r condition ih => exact ih left

end Source

namespace Select

variable {s inner : Select}

theorem depth_le_of_source (sources : ∀ src ∈ s.source, src.depth ≤ (src.collect aliasedSources).length) :
    s.depth ≤ (s.collect aliasedSources).length := by
  rw [depth, collect_eq, List.length_append, List.length_append]
  cases reads : s.source with
  | none => exact Nat.zero_le _
  | some src =>
    have := sources src reads
    simp only [Option.elim_some, Option.toList_some, List.flatMap_singleton]
    omega

theorem depth_le (s : Select) : s.depth ≤ (s.collect aliasedSources).length := by
  refine depth_le_of_source fun src reads => ?_
  clear reads
  induction src using Source.deep_induction with
  | table | raw => exact Nat.zero_le _
  | select s ih =>
    rw [Source.depth_select, Source.collect, List.length_append, Nat.add_comm]
    exact Nat.add_le_add (Nat.le_refl 1) (depth_le_of_source ih)
  | join kind l r condition left =>
    rw [Source.depth, Source.collect, List.length_append, List.length_append]
    omega

variable {lt : Alias → Alias → Prop} [IsTrans Alias lt] {topLevel : Bool}

/-- What a select that can take over another one comes to in one turn. -/
structure Turn (lt : Alias → Alias → Prop) (s s' : Select) : Prop where
  orderly : (Node.select s').Orderly lt
  depth : s'.depth < s.depth

theorem turn (h : (Node.select s).Orderly lt) (found : s.source.bind Source.leftmost? = some inner) (can : s.canAbsorb topLevel inner = true) :
    Turn lt s (s.absorb inner) := by
  obtain ⟨src, reads, left⟩ := Option.bind_eq_some_iff.1 found
  obtain ⟨-, sourced⟩ := Source.orderly_leftmost (orderly_source h reads) left
  refine ⟨ordered_kept.absorbed h found (absorbable can).columns, ?_⟩
  rw [depth, depth, absorb_source, substitute_source, reads]
  exact Source.depth_lt left (by rw [removal_removes]; exact List.contains_iff_mem.2 List.mem_cons_self) sourced

/-- Turns beyond the depth of a select change nothing. -/
theorem absorbAll_stable (h : (Node.select s).Orderly lt) {steps steps' : Nat} (enough : s.depth ≤ steps) (enough' : s.depth ≤ steps') :
    s.absorbAll topLevel steps = s.absorbAll topLevel steps' := by
  have pos {s inner : Select} (found : s.source.bind Source.leftmost? = some inner) : 0 < s.depth := by
    obtain ⟨src, reads, left⟩ := Option.bind_eq_some_iff.1 found
    rw [depth, reads]
    exact Source.depth_pos left
  have none {s : Select} (none : s.source.bind Source.leftmost? = none) (steps : Nat) : s.absorbAll topLevel steps = s := by
    cases steps with
    | zero => rfl
    | succ steps => rw [absorbAll, none]
  induction steps generalizing s steps' with
  | zero =>
    cases found : s.source.bind Source.leftmost? with
    | none => rw [none found, none found]
    | some inner => exact absurd (pos found) (Nat.not_lt.2 enough)
  | succ steps ih =>
    cases found : s.source.bind Source.leftmost? with
    | none => rw [none found, none found]
    | some inner =>
      cases steps' with
      | zero => exact absurd (pos found) (Nat.not_lt.2 enough')
      | succ steps' =>
        rw [absorbAll, absorbAll, found]
        dsimp only
        split
        · next can =>
          have turn := turn h found can
          have lower := turn.depth
          exact ih turn.orderly (by omega) (by omega)
        · rfl

theorem merge_eq (h : (Node.select s).Orderly lt) : s.merge topLevel = (s.absorbOne? topLevel).elim s (merge topLevel) := by
  rw [merge, absorbAll, absorbOne?]
  cases found : s.source.bind Source.leftmost? with
  | none => rfl
  | some inner =>
    simp only [Option.bind_some]
    split
    · next can =>
      have turn := turn h found can
      have enough := s.depth_le
      exact absorbAll_stable turn.orderly (by have := turn.depth; omega) (Nat.le_succ_of_le (depth_le _))
    · rfl

theorem mergeEnds (wf : WellFounded lt) (h : (Node.select s).Orderly lt) : s.MergeEnds topLevel := by
  induction depth : s.depth using Nat.strongRecOn generalizing s with
  | ind n ih =>
    refine .turn (fun inner found columns => ?_) (merge_eq h) fun s' next => ?_
    · obtain ⟨src, reads, left⟩ := Option.bind_eq_some_iff.1 found
      refine lookupEnds wf (List.forall_mem_singleton.2 (Source.orderly_leftmost (orderly_source h reads) left).1) ?_
      exact List.forall_mem_singleton.2 (List.all_eq_true.1 columns)
    · obtain ⟨inner, found, next⟩ := Option.bind_eq_some_iff.1 next
      rw [Option.ite_none_right_eq_some] at next
      obtain ⟨can, ⟨⟩⟩ := next
      have turn := turn h found can
      exact ih _ (depth ▸ turn.depth) turn.orderly rfl

end Select

/-! ## Scopes -/

/-- An alias is taken from if a select of the other alias has a column of it. -/
def Node.Takes (n : Node) (a b : Alias) : Prop :=
  ∃ s ∈ n.collect selectNodes, s.label = b ∧ ∃ d ∈ s.columns, ∃ r, d.expr = .column r ∧ r.label = a

namespace Node

variable {n : Node}

theorem label_declared (bound : n.isBound = true) {s : Select} (mem : s ∈ n.collect selectNodes) : s.label ∈ n.collect declaredAliases := by
  induction n, bound using bound_induction with
  | query q => cases mem
  | step n bound other ih =>
    rw [collect_eq _ bound, List.mem_append, List.mem_flatMap] at mem ⊢
    rcases mem with here | ⟨p, part, mem⟩
    · obtain rfl := eq_select here
      exact .inl (List.mem_singleton_self _)
    · exact .inr ⟨p, part, ih p part (isBound_parts bound other p part) mem⟩

/-- What a node shows to its expressions is declared in its other parts. -/
theorem shown_declared {a : Alias} (mem : a ∈ n.shown) : ∃ p ∈ n.parts, (∀ e, p ≠ expr e) ∧ a ∈ p.collect declaredAliases := by
  cases n with
  | select s =>
    cases reads : s.source with
    | none => simp [shown, reads] at mem
    | some src =>
      refine ⟨source src, by simp [parts, reads], by rintro _ ⟨⟩, src.visible_subset ?_⟩
      simpa [shown, reads] using mem
  | source src =>
    cases src with
    | join kind l r condition =>
      rcases List.mem_append.1 mem with left | right
      · exact ⟨source l, List.mem_cons_self, by rintro _ ⟨⟩, l.visible_subset left⟩
      · exact ⟨source r, List.mem_cons_of_mem _ List.mem_cons_self, by rintro _ ⟨⟩, r.visible_subset right⟩
    | _ => cases mem
  | projection p =>
    obtain rfl := List.mem_singleton.1 mem
    exact ⟨select p.select, List.mem_cons_self, by rintro _ ⟨⟩, p.select.label_mem_declared⟩
  | _ => cases mem

/-- The aliases that are declared in a node are accessible if those that it sees are: all that is taken is taken within it. -/
theorem acc_declared {E : Alias → Alias → Prop} {scope : List Alias} (bound : n.isBound = true) (nodup : (n.collect declaredAliases).Nodup)
    (sees : n.Scoped scope) (seen : ∀ a ∈ scope, Acc E a) (within : ∀ a, ∀ b ∈ n.collect declaredAliases, E a b → n.Takes a b) :
    ∀ a ∈ n.collect declaredAliases, Acc E a := by
  induction n, bound using bound_induction generalizing scope with
  | query q => rintro _ ⟨⟩
  | step n bound other ih =>
    rw [collect_eq _ bound] at nodup within ⊢
    obtain ⟨-, apart, disjoint⟩ := List.nodup_append.1 nodup
    obtain ⟨each, pairwise⟩ := List.nodup_flatMap.1 apart
    have : Std.Symm (Function.onFun List.Disjoint (collect declaredAliases)) := ⟨fun _ _ apart _ left right => apart right left⟩
    -- a select of an alias that is declared in a part stands in that part
    have inPart (p : Node) (mem : p ∈ n.parts) (a b : Alias) (declared : b ∈ p.collect declaredAliases) (taken : E a b) : p.Takes a b := by
      obtain ⟨s, found, label, takes⟩ := within a b (List.mem_append_right _ (List.mem_flatMap.2 ⟨p, mem, declared⟩)) taken
      rw [collect_eq _ bound, List.mem_append, List.mem_flatMap] at found
      rcases found with here | ⟨p', mem', found⟩
      · obtain rfl := eq_select here
        exact absurd label (disjoint _ (List.mem_singleton_self _) _ (List.mem_flatMap.2 ⟨p, mem, declared⟩))
      · by_cases same : p' = p
        · exact ⟨s, same ▸ found, label, takes⟩
        · have elsewhere := label_declared (isBound_parts bound other p' mem') found
          exact absurd declared (pairwise.forall mem' mem same (label ▸ elsewhere))
    have part (p : Node) (mem : p ∈ n.parts) (shown : ∀ a ∈ n.scopeOf scope p, Acc E a) : ∀ a ∈ p.collect declaredAliases, Acc E a :=
      ih p mem (isBound_parts bound other p mem) (each p mem) (((scoped_iff bound).1 sees).2 p mem) shown (inPart p mem)
    have shown : ∀ a ∈ scope ++ n.shown, Acc E a := by
      refine List.forall_mem_append.2 ⟨seen, fun a mem => ?_⟩
      obtain ⟨p, mem, kind, declared⟩ := shown_declared mem
      refine part p mem ?_ a declared
      cases p with
      | expr e => exact absurd rfl (kind e)
      | _ => exact seen
    refine List.forall_mem_append.2 ⟨fun a here => ⟨a, fun b taken => ?_⟩, List.forall_mem_flatMap.2 fun p mem => part p mem ?_⟩
    · -- a select takes its columns from what is in its scope
      obtain ⟨s, found, label, d, column, r, same, own⟩ := within b a (List.mem_append_left _ here) taken
      rw [collect_eq _ bound, List.mem_append, List.mem_flatMap] at found
      rcases found with first | ⟨p, mem, found⟩
      · obtain rfl := eq_select first
        have clauses := (forall_parts_select (P := fun p => p.Scoped ((select s).scopeOf scope p))).1 ((scoped_iff bound).1 sees).2
        have inScope := clauses.columns d column
        rw [same] at inScope
        exact own ▸ shown r.label inScope
      · have elsewhere := label_declared (isBound_parts bound other p mem) found
        exact absurd rfl (disjoint a here a (List.mem_flatMap.2 ⟨p, mem, label ▸ elsewhere⟩))
    · cases p with
      | expr e => exact shown
      | _ => exact seen

end Node

namespace Projection

variable {p : Projection}

/-- In a projection whose references are in scope no alias is taken from itself, however far around. -/
theorem wellFounded_takes (nodup : p.declared.Nodup) (sees : p.Scoped []) : WellFounded (Node.projection p).Takes := by
  refine ⟨fun a => ?_⟩
  by_cases declared : a ∈ p.declared
  · exact Node.acc_declared (n := .projection p) rfl nodup sees (by rintro _ ⟨⟩) (fun _ _ _ => id) a declared
  · refine ⟨a, fun b taken => ?_⟩
    obtain ⟨s, found, label, -⟩ := taken
    exact absurd (label ▸ Node.label_declared (n := .projection p) rfl found) declared

theorem orderly (sources : ∀ s ∈ p.collect sourceSelects, s.source.isSome = true) :
    (Node.projection p).Orderly (Relation.TransGen (Node.projection p).Takes) :=
  Node.orderly_of_collect rfl (fun s found d mem r same => .single ⟨s, found, rfl, d, mem, r, same, rfl⟩) sources

/-- Where aliases are declared once, the scope check accepts a projection and selects that stand as sources read something, its simplification
ends. -/
theorem simplification_ends (nodup : p.declared.Nodup) (checked : p.check = .ok ⟨⟩)
    (sources : ∀ s ∈ p.collect sourceSelects, s.source.isSome = true) : p.SimplificationEnds := by
  have wf := (wellFounded_takes nodup ((check_iff nodup).1 checked)).transGen
  have orderly := orderly sources
  have inside (s : Select) (found : s ∈ p.collect selectNodes) := ordered_kept.inside_removeRedundant (orderly.select_mem found)
  constructor
  · intro s found src reads
    have known := Source.all_redundant (Select.orderly_source (inside s found) reads)
    exact lookupEnds wf (fun s mem => (known s mem).1) fun s mem _ => Select.atom_of_isRedundant (known s mem).2
  · intro s found redundant
    exact lookupEnds wf (List.forall_mem_singleton.2 (ordered_kept.removeRedundant (inside s found)))
      (List.forall_mem_singleton.2 fun _ => Select.atom_of_isRedundant redundant)
  · intro s found topLevel
    have smaller := ordered_kept.removeRoot (ordered_kept.inside_removeRedundant orderly)
    exact Select.mergeEnds wf (ordered_kept.inside_mergeSelects (smaller.select_mem found))

/-- Small numbers that are handed on twice. -/
def handedOn : Projection :=
  let column (a : Nat) : Expr := .column ⟨⟨a⟩, "value", .i64⟩
  let small : Select :=
    { Select.plain ⟨2⟩ [⟨"value", column 3⟩] (.table .table ⟨3⟩ "Number" "numbers") with
      filter := some (.binary .lt (column 3) (.constant (.int 5) .i64)) }
  ⟨.plain ⟨0⟩ [⟨"value", column 1⟩] (.select (.plain ⟨1⟩ [⟨"value", column 2⟩] (.select small))), column 0, none⟩

theorem simplification_ends_handedOn : handedOn.declared.Nodup ∧ handedOn.check = .ok ⟨⟩ ∧
    (∀ s ∈ handedOn.collect sourceSelects, s.source.isSome = true) ∧ handedOn.SimplificationEnds :=
  have nodup : handedOn.declared.Nodup := by decide
  have sources : ∀ s ∈ handedOn.collect sourceSelects, s.source.isSome = true := by decide
  ⟨nodup, rfl, sources, simplification_ends nodup rfl sources⟩

end Projection

end Relational

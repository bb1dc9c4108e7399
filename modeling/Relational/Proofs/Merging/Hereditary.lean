import Relational.Proofs.Merging.Absorption
import Relational.Proofs.Tree.Hereditary

/-!
# Properties that merging keeps

Merging selects puts columns of selects in the place of references to them, and clauses of one select beside those of another. A
property of all nodes of a tree that both keep is kept by every step of it (`KeptByMerging`).
-/

namespace Relational

/-! ## Looking up columns -/

section Lookup

variable {m : ColumnMap} {aliases : List Alias} {steps : Nat}

theorem substitute_removing_succ (c : ColumnRef) : (Expr.column c).substitute (removing aliases m (steps + 1)) =
    (m.get? c.label c.name).elim (.column c) (Expr.substitute (removing aliases m steps)) := by
  cases found : m.get? c.label c.name <;> simp [removing, Expr.substitute, onColumns, found]

theorem removing_expr : (removing aliases m steps).expr = (onColumns fun c => (Expr.column c).substitute (removing aliases m steps)).expr := by
  cases steps <;> rfl

theorem substitute_literal {e : Expr} (literal : e.isLiteral = true) : e.substitute (removing aliases m steps) = e := by
  rw [Expr.substitute.eq_def, removing_expr]
  cases e <;> first | rfl | cases literal

theorem isAtom_removing (atoms : ∀ (c : ColumnRef) e, m.get? c.label c.name = some e → e.isAtom = true) (c : ColumnRef) :
    ((Expr.column c).substitute (removing aliases m steps)).isAtom = true := by
  induction steps generalizing c with
  | zero => rfl
  | succ steps ih =>
    rw [substitute_removing_succ]
    cases found : m.get? c.label c.name with
    | none => rfl
    | some e =>
      have atom := atoms c e found
      cases literal : e.isLiteral with
      | true => rwa [Option.elim, substitute_literal literal]
      | false =>
        cases e with
        | column d => exact ih d
        | constant | hostParameter => cases literal
        | _ => cases atom

theorem isAtom_columnsOf {selects : List Select} (atoms : ∀ s ∈ selects, ∀ d ∈ s.columns, d.expr.isAtom = true) (c : ColumnRef) (e : Expr)
    (found : (columnsOf selects).get? c.label c.name = some e) : e.isAtom = true := by
  rcases columnsOf_get?_cases selects c.label c.name with none | ⟨s, mem, d, column, -, -, look⟩
  · cases none.symm.trans found
  · obtain rfl := Option.some.inj (look.symm.trans found)
    exact atoms s mem d column

end Lookup

/-! ## Selects that still read something -/

theorem Select.isSome_substitute {s : Select} {f : Substitution} (reads : s.source.isSome = true) : (s.substitute f).source.isSome = true := by
  rw [substitute_source, Option.isSome_map]
  exact reads

/-! ## Distinct selects along the left end of a source -/

/-- An induction that goes on in the sources of selects. -/
theorem Source.deep_induction {P : Source → Prop} (table : ∀ kind a entity name, P (.table kind a entity name)) (raw : ∀ a sql, P (.raw a sql))
    (select : ∀ s, (∀ src ∈ s.source, P src) → P (.select s)) (join : ∀ kind l r condition, P l → P r → P (.join kind l r condition))
    (src : Source) : P src := by
  have both (n : Node) : (∀ src, n = .source src → P src) ∧ ∀ s, n = .select s → ∀ src ∈ s.source, P src := by
    induction n using Node.induction with
    | step n ih =>
      refine ⟨?_, ?_⟩
      · rintro src rfl
        cases src with
        | table kind a entity name => exact table kind a entity name
        | raw a sql => exact raw a sql
        | select s => exact select s ((ih _ List.mem_cons_self).2 s rfl)
        | join kind l r condition =>
          exact join kind l r condition ((ih _ List.mem_cons_self).1 l rfl) ((ih _ (List.mem_cons_of_mem _ List.mem_cons_self)).1 r rfl)
      · rintro s rfl src reads
        exact (Node.forall_parts_select.1 ih).source src reads |>.1 src rfl
  exact (both (.source src)).1 src rfl

/-- Whether a select at the left end of a source removes repetitions, or one further in along that end. -/
def Source.showsDistinct : Source → Bool
  | .select ⟨_, _, some src, _, _, _, _, _, _, distinct⟩ => distinct || src.showsDistinct
  | .select s => s.distinct
  | .join _ l _ _ => l.showsDistinct
  | _ => false

def Select.readsDistinct (s : Select) : Bool := s.source.any Source.showsDistinct

variable {H : Node → Prop} {s inner : Select} {src : Source} {f : Substitution}

theorem Source.showsDistinct_select (s : Select) : (Source.select s).showsDistinct = (s.distinct || s.readsDistinct) := by
  obtain ⟨a, columns, source, filter, groupBy, having, orderBy, offset, limit, distinct⟩ := s
  cases source with
  | none => exact (Bool.or_false _).symm
  | some src => rfl

/-- What is read instead of a source shows no distinct select that the source does not show. -/
theorem Select.readsDistinct_map {g : Source → Source} (narrows : ∀ src ∈ s.source, (g src).showsDistinct = true → src.showsDistinct = true)
    (h : (s.source.map g).any Source.showsDistinct = true) : s.readsDistinct = true := by
  rw [readsDistinct]
  cases reads : s.source with
  | none =>
    rw [reads] at h
    cases h
  | some src =>
    rw [reads] at h
    exact narrows src reads h

theorem Source.showsDistinct_of_substitute (src : Source) (h : (src.substitute f).showsDistinct = true) : src.showsDistinct = true := by
  induction src using deep_induction with
  | table | raw => exact h
  | select s ih =>
    rw [showsDistinct_select, Bool.or_eq_true]
    cases removed : f.removes s.label with
    | false =>
      rw [substitute_of_kept removed, showsDistinct_select, Bool.or_eq_true, Select.substitute_distinct, Select.readsDistinct,
        Select.substitute_source] at h
      exact h.imp_right (Select.readsDistinct_map ih)
    | true =>
      cases reads : s.source with
      | none =>
        rw [substitute_of_bare removed reads, showsDistinct_select, Bool.or_eq_true] at h
        exact h
      | some src =>
        rw [substitute_of_removed removed reads] at h
        exact .inr (by rw [Select.readsDistinct, reads]; exact ih src reads h)
  | join kind l r condition left => exact left h

theorem Source.showsDistinct_leftmost (left : src.leftmost? = some inner) : src.showsDistinct = (Source.select inner).showsDistinct := by
  induction src using Source.induction with
  | table | raw => cases left
  | select s =>
    cases left
    rfl
  | join kind l r condition ih => exact ih left

/-- A change of selects after which those that read something still do, and no other distinct select is at the left end. -/
structure TreeChange.Narrows (c : TreeChange) : Prop where
  source : ∀ s, s.source.isSome = true → (c.select s).source.isSome = true
  distinct : ∀ s, (Source.select (c.select s)).showsDistinct = true → (Source.select s).showsDistinct = true

theorem Select.showsDistinct_of_substitute (h : (Source.select (s.substitute f)).showsDistinct = true) :
    (Source.select s).showsDistinct = true := by
  rw [Source.showsDistinct_select, Bool.or_eq_true] at h ⊢
  rw [substitute_distinct, readsDistinct, substitute_source] at h
  exact h.imp_right (readsDistinct_map fun src _ => src.showsDistinct_of_substitute)

theorem removeRedundant_narrows : Relational.removeRedundant.Narrows where
  source s reads := by
    show s.removeRedundant.source.isSome = true
    rcases s.removeRedundant_cases with same | ⟨src, -, eq⟩
    · rwa [same]
    · rw [eq]
      exact Select.isSome_substitute reads
  distinct s h := by
    change (Source.select s.removeRedundant).showsDistinct = true at h
    rcases s.removeRedundant_cases with same | ⟨src, -, eq⟩
    · rwa [same] at h
    · rw [eq] at h
      exact Select.showsDistinct_of_substitute h

theorem mergeSelects_narrows : mergeSelects.Narrows where
  source s reads :=
    Select.absorbAll_induction (P := fun s => s.source.isSome = true) (fun _ _ reads _ _ => Select.isSome_substitute reads) _ reads
  distinct s := by
    refine Select.absorbAll_induction (P := fun s' => (Source.select s').showsDistinct = true → (Source.select s).showsDistinct = true)
      (fun s' inner before found _ h => before ?_) _ id
    obtain ⟨src, reads, left⟩ := Option.bind_eq_some_iff.1 found
    rw [Source.showsDistinct_select, Select.absorb_distinct, Bool.or_assoc, Bool.or_eq_true, Bool.or_eq_true] at h
    rw [Source.showsDistinct_select, Bool.or_eq_true]
    rcases h with own | taken | further
    · exact .inl own
    · refine .inr ?_
      rw [Select.readsDistinct, reads, Option.any_some, Source.showsDistinct_leftmost left, Source.showsDistinct_select, taken]
      rfl
    · rw [Select.readsDistinct, Select.absorb_source, Select.substitute_source] at further
      exact .inr (Select.readsDistinct_map (fun src _ => src.showsDistinct_of_substitute) further)

/-! ## Merging -/

theorem Source.all_redundant (h : (Node.source src).All H) : ∀ s ∈ src.redundant, (Node.select s).All H ∧ s.isRedundant = true := by
  induction src using Source.induction with
  | table | raw => rintro _ ⟨⟩
  | select s =>
    rw [redundant]
    split
    · next isRedundant => exact List.forall_mem_singleton.2 ⟨(Node.all_source.1 h).2 _ List.mem_cons_self, isRedundant⟩
    · rintro _ ⟨⟩
  | join kind l r condition left right =>
    obtain ⟨first, second⟩ := List.forall_mem_cons.1 (Node.all_source.1 h).2
    exact List.forall_mem_append.2 ⟨left first, right (second _ List.mem_cons_self)⟩

theorem Source.all_leftmost (h : (Node.source src).All H) (left : src.leftmost? = some inner) : (Node.source (.select inner)).All H := by
  induction src using Source.induction with
  | table | raw => cases left
  | select s =>
    cases left
    exact h
  | join kind l r condition ih => exact ih ((Node.all_source.1 h).2 _ List.mem_cons_self) left

theorem Node.all_atom {e : Expr} (atom : e.isAtom = true) (here : H (.expr e)) : (Node.expr e).All H :=
  all_leaf rfl (by cases e <;> first | rfl | cases atom) here

/-- What it takes for a property of all nodes to be kept when selects are merged. -/
structure KeptByMerging (H : Node → Prop) : Prop where
  atom : ∀ e : Expr, e.isAtom = true → H (.expr e)
  and : ∀ l r, H (.expr (.binary .and l r))
  projection : ∀ p, H (.projection p)
  absorb : ∀ s inner : Select, s.source.bind Source.leftmost? = some inner → (Node.source (.select inner)).All H →
    H (.select (s.substitute (removal [inner]))) → H (.select (s.absorb inner))
  substitute : ∀ selects, (∀ s ∈ selects, H (.select s)) → (∀ s ∈ selects, ∀ d ∈ s.columns, d.expr.isAtom = true) →
    ∀ n : Node, n.isBound = true → H n → H (n.mapParts (removal selects).parts)
  inside : ∀ c : TreeChange, c.Narrows → ∀ n : Node, n.isBound = true → H n → H (n.mapParts c.parts)

namespace KeptByMerging

variable (kept : KeptByMerging H)
include kept

theorem removal {n : Node} (h : n.All H) {selects : List Select} (known : ∀ s ∈ selects, (Node.select s).All H)
    (atoms : ∀ s ∈ selects, ∀ d ∈ s.columns, d.expr.isAtom = true) : (n.substitute (removal selects)).All H := by
  refine h.substitute removing_expr (fun c => ?_) (kept.substitute selects (fun s mem => (Node.all_select.1 (known s mem)).1) atoms)
  have atom : ((Expr.column c).substitute (Relational.removal selects)).isAtom = true := isAtom_removing (isAtom_columnsOf atoms) c
  exact Node.all_atom atom (kept.atom _ atom)

theorem removeRedundant (h : (Node.select s).All H) : (Node.select s.removeRedundant).All H := by
  rcases s.removeRedundant_cases with same | ⟨src, reads, eq⟩
  · rwa [same]
  · rw [eq]
    have known := Source.all_redundant ((Node.all_select.1 h).2.source src reads)
    exact kept.removal h (fun s mem => (known s mem).1) fun s mem _ => Select.atom_of_isRedundant (known s mem).2

theorem removeRoot {p : Projection} (h : (Node.projection p).All H) : (Node.projection p.removeRoot).All H := by
  rw [Projection.removeRoot]
  split
  · next inner reads =>
    split
    · next redundant =>
      obtain ⟨-, select, projector⟩ := Node.all_projection.1 h
      have known : ∀ s ∈ [p.select], (Node.select s).All H := List.forall_mem_singleton.2 select
      have atoms : ∀ s ∈ [p.select], ∀ d ∈ s.columns, d.expr.isAtom = true := List.forall_mem_singleton.2 fun d => Select.atom_of_isRedundant redundant
      have inside := (Node.all_source.1 ((Node.all_select.1 select).2.source _ reads)).2 _ List.mem_cons_self
      exact Node.all_projection.2 ⟨kept.projection _, kept.removal inside known atoms, kept.removal projector known atoms⟩
    · exact h
  · exact h

theorem absorbed (h : (Node.select s).All H) (found : s.source.bind Source.leftmost? = some inner) (columns : inner.isColumnProjection = true) :
    (Node.select (s.absorb inner)).All H := by
  obtain ⟨src, reads, left⟩ := Option.bind_eq_some_iff.1 found
  have inside := Source.all_leftmost ((Node.all_select.1 h).2.source src reads) left
  have other : (Node.select inner).All H := (Node.all_source.1 inside).2 _ List.mem_cons_self
  have merged := Node.all_select.1 (kept.removal h (List.forall_mem_singleton.2 other) (List.forall_mem_singleton.2 (List.all_eq_true.1 columns)))
  refine Node.all_select.2 ⟨kept.absorb s inner found inside merged.1, merged.2.absorb (fun l r left right => ?_) (Node.all_select.1 other).2⟩
  exact .node rfl (kept.and l r) (List.forall_mem_cons.2 ⟨left, List.forall_mem_singleton.2 right⟩)

theorem merge (h : (Node.select s).All H) (topLevel : Bool) : (Node.select (s.merge topLevel)).All H := by
  refine Select.absorbAll_induction (P := fun s => (Node.select s).All H) (fun s inner h found can => ?_) _ h
  exact kept.absorbed h found (Select.absorbable can).columns

theorem inside_removeRedundant {n : Node} (h : n.All H) : (n.inside Relational.removeRedundant).All H :=
  h.inside (kept.inside _ removeRedundant_narrows) (fun _ => kept.removeRedundant) fun _ => kept.removeRoot

theorem inside_mergeSelects {n : Node} (h : n.All H) : (n.inside mergeSelects).All H :=
  h.inside (kept.inside _ mergeSelects_narrows) (fun _ part => kept.merge part false) fun _ => id

theorem simplifySelects {p : Projection} (h : (Node.projection p).All H) : (Node.projection p.simplifySelects).All H := by
  obtain ⟨-, select, projector⟩ := Node.all_projection.1 (kept.removeRoot (kept.inside_removeRedundant h))
  exact Node.all_projection.2 ⟨kept.projection _, kept.merge (kept.inside_mergeSelects select) true, kept.inside_mergeSelects projector⟩

end KeptByMerging

end Relational

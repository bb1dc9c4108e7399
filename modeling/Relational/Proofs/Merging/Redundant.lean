import Relational.Proofs.Merging.ColumnMaps

/-!
# Redundant selects

The redundant selects that a source shows only show columns of their own sources, and none of them is inside of another.
So they can go at once: the select that reads them keeps its rows, its heading and its form
(`Select.removeRedundant_reforms`, `Select.rows_removeRedundant`).
-/

namespace Relational

variable {lit : Value → Ty → Prop} {Γ : Context}

/-! ## Selects that hand on columns -/

/-- Every column of a select that maps names is a column. -/
theorem Select.column_of_isNameMap {s : Select} (h : s.isNameMap = true) {c : Named} (mem : c ∈ s.columns) :
    ∃ r, c.expr = .column r := by
  rw [isNameMap] at h
  split at h
  · next inner _ =>
    simp only [Bool.and_eq_true, beq_iff_eq, List.all_eq_true] at h
    rw [← List.map_fst_zip (Nat.le_of_eq h.1)] at mem
    obtain ⟨pair, paired, rfl⟩ := List.mem_map.1 mem
    have := h.2 pair paired
    split at this
    · next r eq => exact ⟨r, eq⟩
    · cases this
  · cases h

theorem Select.column_of_isSimple {s : Select} (h : s.isSimple = true) {c : Named} (mem : c ∈ s.columns) :
    ∃ r, c.expr = .column r := by
  have := List.all_eq_true.1 h c mem
  split at this
  · next r eq => exact ⟨r, eq⟩
  · cases this

theorem Select.column_of_isRedundant {s : Select} (h : s.isRedundant = true) {c : Named} (mem : c ∈ s.columns) :
    ∃ r, c.expr = .column r := by
  simp only [isRedundant, Bool.and_eq_true, Bool.or_eq_true] at h
  rcases h.1.1.1.1.1.1.1.1 with simple | names
  · exact column_of_isSimple simple mem
  · exact column_of_isNameMap names mem

theorem Select.hasAggregates_of_columns {s : Select} (columns : ∀ c ∈ s.columns, c.expr.isAtom = true)
    (having : s.having = none) (orderBy : s.orderBy = []) : s.hasAggregates = false := by
  have none : s.columns.any (·.expr.hasAggregate) = false :=
    List.any_eq_false.2 fun c mem => by simp [Expr.hasAggregate_atom (columns c mem)]
  simp [hasAggregates, none, having, orderBy]

theorem Select.atom_of_isRedundant {s : Select} (h : s.isRedundant = true) {c : Named} (mem : c ∈ s.columns) :
    c.expr.isAtom = true := by
  obtain ⟨r, eq⟩ := column_of_isRedundant h mem
  rw [eq]
  rfl

theorem Select.plain_of_isRedundant {s : Select} (h : s.isRedundant = true) : s.Plain := by
  have clauses := h
  simp only [isRedundant, Bool.and_eq_true, Bool.not_eq_true', Option.isNone_iff_eq_none, List.isEmpty_iff] at clauses
  obtain ⟨⟨⟨⟨⟨⟨⟨-, distinct⟩, filter⟩, groupBy⟩, having⟩, orderBy⟩, limit⟩, offset⟩ := clauses
  exact ⟨⟨groupBy, hasAggregates_of_columns (fun c mem => atom_of_isRedundant h mem) having orderBy, having⟩, filter,
    orderBy, offset, limit, distinct⟩

/-! ## The selects that go -/

theorem Source.redundant_subset (src : Source) : src.redundant.map (·.label) ⊆ src.visible := by
  induction src using Source.induction with
  | table kind a entity name => exact List.nil_subset _
  | raw a sql => exact List.nil_subset _
  | select s =>
    rw [redundant]
    split
    · exact fun a mem => mem
    · exact List.nil_subset _
  | join kind l r condition left right =>
    rw [redundant, List.map_append]
    exact List.append_subset.2 ⟨List.subset_append_of_subset_left _ left, List.subset_append_of_subset_right _ right⟩

/-- Of some aliases, a source declares only those of its own redundant selects. -/
def Source.Confines (aliases : List Alias) (src : Source) : Prop :=
  ∀ a ∈ src.declared, a ∈ aliases → a ∈ src.redundant.map (·.label)

namespace Source.Confines

variable {aliases : List Alias} {kind : JoinKind} {l r : Source} {condition : Option Expr}

theorem left (h : (Source.join kind l r condition).Confines aliases)
    (nodup : (Source.join kind l r condition).declared.Nodup) : l.Confines aliases := by
  intro a mem listed
  rw [declared_join] at nodup
  have := h a (by rw [declared_join]; simp [mem]) listed
  rw [redundant, List.map_append, List.mem_append] at this
  refine this.resolve_right fun other => ?_
  exact (List.nodup_append.1 nodup).2.2 a mem a (by simp [r.visible_subset (r.redundant_subset other)]) rfl

theorem right (h : (Source.join kind l r condition).Confines aliases)
    (nodup : (Source.join kind l r condition).declared.Nodup) : r.Confines aliases := by
  intro a mem listed
  rw [declared_join] at nodup
  have := h a (by rw [declared_join]; simp [mem]) listed
  rw [redundant, List.map_append, List.mem_append] at this
  refine this.resolve_left fun other => ?_
  exact (List.nodup_append.1 nodup).2.2 a (l.visible_subset (l.redundant_subset other)) a (by simp [mem]) rfl

theorem test (h : (Source.join kind l r condition).Confines aliases)
    (nodup : (Source.join kind l r condition).declared.Nodup) {e : Expr} (some : e ∈ condition) {a : Alias}
    (mem : a ∈ e.declared) : a ∉ aliases := by
  intro listed
  have declared : a ∈ condition.toList.flatMap Expr.declared :=
    List.mem_flatMap.2 ⟨e, Option.mem_toList.2 some, mem⟩
  have := h a (by rw [declared_join]; simp only [List.mem_append]; exact .inr (.inr declared)) listed
  rw [declared_join, ← List.append_assoc] at nodup
  rw [redundant, List.map_append, List.mem_append] at this
  refine (List.nodup_append.1 nodup).2.2 a ?_ a declared rfl
  rcases this with this | this
  · exact List.mem_append_left _ (l.visible_subset (l.redundant_subset this))
  · exact List.mem_append_right _ (r.visible_subset (r.redundant_subset this))

end Source.Confines

/-- A redundant select that a source shows, whose source declares none of the aliases. -/
structure Select.Removable (aliases : List Alias) (s : Select) : Prop where
  redundant : s.isRedundant = true
  inside : ∀ src ∈ s.source, ∀ a ∈ src.declared, a ∉ aliases

theorem Source.removable {aliases : List Alias} : ∀ (src : Source), src.declared.Nodup → src.Confines aliases →
    ∀ s ∈ src.redundant, s.Removable aliases
  | .table _ _ _ _, _, _, _, mem => nomatch mem
  | .raw _ _, _, _, _, mem => nomatch mem
  | .select s, nodup, confines, s', mem => by
    rw [Source.Confines, redundant] at confines
    rw [redundant] at mem
    split at mem
    · next h =>
      cases List.mem_singleton.1 mem
      refine ⟨h, fun inner source a found listed => ?_⟩
      have : a = s.label := by
        simpa [h] using confines a (s.parts_subset.source inner source found) listed
      rw [declared_select, Select.declared_eq, List.nodup_cons] at nodup
      refine nodup.1 (List.mem_append_left _ (List.mem_flatMap.2 ⟨inner, Option.mem_toList.2 source, ?_⟩))
      exact this ▸ found
    · cases mem
  | .join _ l r _, nodup, confines, s, mem => by
    have nodup' := nodup
    rw [declared_join] at nodup'
    obtain ⟨nodupL, nodupR, -⟩ := List.nodup_append.1 nodup'
    rcases List.mem_append.1 mem with mem | mem
    · exact l.removable nodupL (confines.left nodup) s mem
    · exact r.removable (List.nodup_append.1 nodupR).1 (confines.right nodup) s mem

theorem Source.formed_redundant : ∀ {src : Source} {Γ : Context}, src.Formed lit Γ → ∀ s ∈ src.redundant, ∃ Γ, s.Formed lit Γ
  | .table _ _ _ _, _, _, _, mem => nomatch mem
  | .raw _ _, _, _, _, mem => nomatch mem
  | .select s, Γ, formed, s', mem => by
    rw [redundant] at mem
    split at mem
    · cases List.mem_singleton.1 mem
      exact ⟨Γ, formed.2⟩
    · cases mem
  | .join _ l r _, Γ, formed, s, mem => by
    rcases List.mem_append.1 mem with mem | mem
    · exact l.formed_redundant formed.1 s mem
    · exact r.formed_redundant formed.2.1 s mem

theorem Source.nodup_redundant : ∀ (src : Source), src.declared.Nodup → (src.redundant.map (·.label)).Nodup
  | .table _ _ _ _, _ => List.nodup_nil
  | .raw _ _, _ => List.nodup_nil
  | .select s, _ => by
    rw [redundant]
    split <;> simp
  | .join _ l r _, nodup => by
    rw [declared_join] at nodup
    obtain ⟨nodupL, nodupR, disjoint⟩ := List.nodup_append.1 nodup
    rw [redundant, List.map_append]
    refine List.nodup_append.2 ⟨l.nodup_redundant nodupL, r.nodup_redundant (List.nodup_append.1 nodupR).1, ?_⟩
    intro a mem b mem'
    exact disjoint a (l.visible_subset (l.redundant_subset mem)) b
      (List.mem_append_left _ (r.visible_subset (r.redundant_subset mem')))

/-- Redundant selects can go together if none of them shows a column of another one. -/
theorem Source.shallow_of_apart {src : Source} (nodup : src.declared.Nodup) (other : ∀ s ∈ src.redundant, ∀ d ∈ s.columns,
    ∀ r, d.expr = .column r → r.label ∉ src.redundant.map (·.label)) : Shallow src.redundant where
  labels := src.nodup_redundant nodup
  atom s mem _ found := Select.atom_of_isRedundant (src.removable nodup (fun _ _ => id) s mem).redundant found
  other := other

theorem Source.shallow_redundant {src : Source} (formed : src.Formed lit Γ) (nodup : src.declared.Nodup) : Shallow src.redundant := by
  refine shallow_of_apart nodup fun s mem d found r eq listed => ?_
  obtain ⟨Δ, formed⟩ := src.formed_redundant formed s mem
  have own := (Select.formed_iff.1 formed).own d found r (by rw [eq]; rfl)
  cases source : s.source with
  | none => simp [Select.visible, source] at own
  | some inner =>
    simp only [Select.visible, source, Option.map_some, Option.getD_some] at own
    exact (src.removable nodup (fun _ _ => id) s mem).inside inner source _ (inner.visible_subset own) listed

/-- The redundant selects go, and everything else is left alone. -/
theorem Source.ready_redundant {selects : List Select} (shallow : Shallow selects) : ∀ (src : Source) {literals : Bool},
    src.declared.Nodup → src.Confines (selects.map (·.label)) → src.redundant ⊆ selects →
      src.Ready (removal selects) (columnsOf selects).replace Select.Plain literals
  | .table _ a _ _, _, _, confines, _ =>
    removal_fixes fun mem => nomatch confines a (by simp [Source.collect, declaredAliases]) mem
  | .raw a _, _, _, confines, _ =>
    removal_fixes fun mem => nomatch confines a (by simp [Source.collect, declaredAliases]) mem
  | .select s, literals, nodup, confines, sub => by
    cases h : s.isRedundant with
    | false =>
      refine .inl fun a mem => removal_fixes fun listed => ?_
      simpa [redundant, h] using confines a mem listed
    | true =>
      have shown : s ∈ (Source.select s).redundant := by simp [redundant, h]
      have removable := (Source.select s).removable nodup confines s shown
      have removes := shallow.removes (sub shown) removable.inside
      refine .inr ⟨removes, Select.plain_of_isRedundant h, .inr fun c label shows => ?_⟩
      obtain ⟨d, mem, -, image⟩ := removes.image c label shows
      obtain ⟨r, eq⟩ := Select.column_of_isRedundant h mem
      rw [image, eq]
      rfl
  | .join _ l r condition, literals, nodup, confines, sub => by
    have nodup' := nodup
    rw [declared_join] at nodup'
    obtain ⟨nodupL, nodupR, -⟩ := List.nodup_append.1 nodup'
    refine ⟨l.ready_redundant shallow nodupL (confines.left nodup) fun s mem => sub (List.mem_append_left _ mem),
      r.ready_redundant shallow (List.nodup_append.1 nodupR).1 (confines.right nodup)
        fun s mem => sub (List.mem_append_right _ mem), fun e some a mem => ?_⟩
    exact removal_fixes (confines.test nodup some mem)

/-! ## The select that reads them -/

theorem Select.Placed.redundant {s : Select} {src : Source} (h : s.Placed lit Γ) (source : s.source = some src) :
    s.Prepared (removal src.redundant) (columnsOf src.redundant).replace lit Γ Select.Plain where
  toPlaced := h
  ready src' mem := by
    cases Option.some.inj (source.symm.trans mem)
    have formed := h.clauses.source src source
    have nodup := h.nodup_source source
    exact src.ready_redundant (src.shallow_redundant formed nodup) nodup (fun _ _ => id) fun _ => id
  beside a mem := removal_fixes fun listed =>
    h.disjoint source (src.visible_subset (src.redundant_subset listed)) mem
  outer c sees := columnsOf_replace_other fun listed =>
    h.apart_source source (src.visible_subset (src.redundant_subset listed)) (Context.label_of_sees sees)

/-- Either a select reads no redundant ones, or these go. -/
theorem Select.removeRedundant_cases (s : Select) : s.removeRedundant = s ∨
    ∃ src, s.source = some src ∧ s.removeRedundant = s.substitute (removal src.redundant) := by
  rw [removeRedundant]
  split
  · next r rs eq =>
    obtain ⟨src, source, redundant⟩ := Option.map_eq_some_iff.1 eq
    exact .inr ⟨src, source, by rw [redundant]⟩
  · exact .inl rfl

variable {D : Type} {I : Interpretation D} {db : Database D}

/-- A select without the redundant ones that it reads shows the same rows. -/
theorem Select.Placed.removeRedundant {s : Select} (h : s.Placed lit Γ) :
    s.Rewrites I db lit Γ s.removeRedundant := by
  rcases s.removeRedundant_cases with same | ⟨src, source, eq⟩
  · rw [same]
    exact .refl h.formed
  · have repl := (src.shallow_redundant (h.clauses.source src source) (h.nodup_source source)).removal_replaces
    rw [eq]
    exact ⟨(h.redundant source).reforms repl, (h.redundant source).rows_eq repl⟩

/-! ## The select of a projection -/

/-- Where a replacement removes the select of a projection, which reads another select, that one takes its place. -/
theorem Projection.Placed.substitute_rewrites {f : Substitution} {φ : ColumnRef → Expr} {p : Projection} {inner : Select}
    (h : p.Placed lit Γ) (repl : Replaces f φ) (source : p.select.source = some (.select inner))
    (removes : Removes f φ p.select) (plain : p.select.Plain) (beside : ∀ a ∈ p.projector.declared, Fixes f φ a)
    (outer : ∀ c, Γ.sees c → φ c = .column c) :
    p.Rewrites I db lit Γ ⟨inner.substitute f, p.projector.substitute f, p.aggregator⟩ := by
  have formed : (Source.select p.select).Formed lit Γ := ⟨by simp [source], h.select.formed⟩
  have ready : (Source.select p.select).Ready f φ Select.Plain true := .inr ⟨removes, plain, .inl rfl⟩
  have images : Images lit φ Γ Γ := fun c sees => by
    rw [outer c sees]
    exact sees
  have agrees (ρ : Env D) : Agrees I db φ Γ ρ ρ := fun c sees => by
    rw [outer c sees]
    rfl
  have referenced (c : ColumnRef) (sees : Γ.sees c) (a : Alias) (found : a ∈ (φ c).referenced) : a = c.label := by
    rw [outer c sees] at found
    simpa [Expr.referenced, Expr.collect, columnRefs] using found
  have replaced := (Source.select p.select).replaced repl formed ready h.select.nodup h.select.apart images
  have kept : f.removes inner.label = false :=
    (removes.inside _ source _ inner.label_mem_declared).kept
  have gone : (Source.select p.select).substitute f = .select (inner.substitute f) := by
    rw [Source.substitute_of_removed removes.removes source, Source.substitute_of_kept kept]
  have rows (ρ : Env D) := (Source.select p.select).rows_replaced repl formed ready h.select.nodup h.select.apart
    (fun a mem c sees found => h.select.apart a mem (referenced c sees a found ▸ Context.label_of_sees sees)) images (agrees ρ)
  have nodup := h.nodup
  rw [Projection.declared_eq] at nodup
  have untouched (a : Alias) (mem : a ∈ p.projector.declared) : Untouched f φ (Γ ++ (Source.select p.select).context) a := by
    refine ⟨beside a mem, fun c sees other found => ?_⟩
    rcases Context.sees_append.1 sees with sees | sees
    · exact other (referenced c sees a found).symm
    · exact (List.nodup_append.1 nodup).2.2 a (replaced.visible_subset (replaced.referenced repl sees found)) a mem rfl
  have projector := (Projection.formed_iff.1 h.formed).2
  rw [gone] at rows
  refine ⟨Projection.formed_iff.2 ⟨?_, ?_⟩, fun a => ?_, rfl, fun ρ => ?_⟩
  · have formed := replaced.formed
    rw [gone] at formed
    exact formed.2
  · have shown := images.concat repl replaced.images
    rw [gone] at shown
    exact (formed_substitute repl).expr p.projector _ _ none none projector shown (by rintro _ ⟨⟩) beside
  · have declared := replaced.declared a
    rw [gone] at declared
    rw [Projection.declared_eq, Projection.declared_eq, List.count_append, List.count_append,
      Expr.declared_substitute repl fun a mem => (beside a mem).kept]
    exact Nat.add_le_add_right declared _
  · rw [Projection.values_eq, Projection.values_eq]
    exact map_eq_of_forall₂ (rows ρ) fun σ σ' agree =>
      Expr.eval_substitute repl projector agree untouched

/-- Where a select that goes is all that a projection reads, its source takes its place there too. -/
theorem Projection.Placed.removeRoot {p : Projection} (h : p.Placed lit Γ) : p.Rewrites I db lit Γ p.removeRoot := by
  rw [Projection.removeRoot]
  split
  · next inner source =>
    split
    · next redundant =>
      have alone : (Source.select p.select).redundant = [p.select] := by rw [Source.redundant, if_pos redundant]
      have formed : (Source.select p.select).Formed lit Γ := ⟨by simp [source], h.select.formed⟩
      have shallow := Source.shallow_redundant formed h.select.nodup
      have removable := (Source.select p.select).removable h.select.nodup (fun _ _ => id) p.select (by simp [alone])
      rw [alone] at shallow removable
      have other {a : Alias} (ne : a ≠ p.select.label) : a ∉ [p.select].map (·.label) := by simpa using ne
      have nodup := h.nodup
      rw [Projection.declared_eq] at nodup
      refine h.substitute_rewrites shallow.removal_replaces source (shallow.removes (by simp) removable.inside)
        (Select.plain_of_isRedundant redundant) (fun a mem => removal_fixes (other fun eq => ?_))
        fun c sees => columnsOf_replace_other (other fun eq => ?_)
      · exact (List.nodup_append.1 nodup).2.2 _ p.select.label_mem_declared a mem eq.symm
      · exact h.select.apart _ p.select.label_mem_declared (eq ▸ Context.label_of_sees sees)
    · exact .refl h.formed
  · exact .refl h.formed

theorem removeRedundant_sound : removeRedundant.Sound I db lit fun _ => True where
  select _ _ _ placed := placed.removeRedundant
  projection _ _ _ placed := placed.removeRoot
  parts _ _ _ _ _ _ := trivial
  kept _ _ _ _ _ := trivial

end Relational

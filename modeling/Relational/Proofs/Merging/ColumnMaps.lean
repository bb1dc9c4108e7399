import Mathlib.Data.List.Nodup
import Relational.Projection.Merging
import Relational.Proofs.Merging.RemovalRows

/-!
# The columns of selects that go

The substitution that removes selects looks up each column and goes on in what it finds. Where the columns of the selects are
literals, or columns of sources that stay, the first look-up is the last one, and the substitution is
a replacement (`removal_replaces`).
-/

namespace Relational

/-- The columns of some selects, each with the expression that it stands for. -/
def columnsOf (selects : List Select) : ColumnMap := (selects.map ColumnMap.ofSelect).reverse.flatten

/-- Selects whose columns are literals, or columns of sources that are not among the selects. -/
structure Shallow (selects : List Select) : Prop where
  labels : (selects.map (·.label)).Nodup
  atom : ∀ s ∈ selects, ∀ d ∈ s.columns, d.expr.isAtom = true
  other : ∀ s ∈ selects, ∀ d ∈ s.columns, ∀ r, d.expr = .column r → r.label ∉ selects.map (·.label)

theorem mem_columnsOf {selects : List Select} {key : Alias × String} {e : Expr} :
    (key, e) ∈ columnsOf selects ↔ ∃ s ∈ selects, ∃ d ∈ s.columns, key = (s.label, d.name) ∧ e = d.expr := by
  simp only [columnsOf, List.mem_flatten, List.mem_reverse, List.mem_map, ColumnMap.ofSelect]
  constructor
  · rintro ⟨_, ⟨s, mem, rfl⟩, found⟩
    obtain ⟨d, mem', eq⟩ := List.mem_map.1 (List.mem_reverse.1 found)
    cases eq
    exact ⟨s, mem, d, mem', rfl, rfl⟩
  · rintro ⟨s, mem, d, mem', rfl, rfl⟩
    exact ⟨_, ⟨s, mem, rfl⟩, List.mem_reverse.2 (List.mem_map.2 ⟨d, mem', rfl⟩)⟩

theorem columnsOf_get?_none {selects : List Select} {a : Alias} (h : a ∉ selects.map (·.label)) (name : String) :
    (columnsOf selects).get? a name = none := by
  refine List.lookup_eq_none_iff.2 fun entry mem => ?_
  obtain ⟨s, mem, d, -, eq, -⟩ := mem_columnsOf.1 mem
  rw [eq]
  simp only [bne_iff_ne, ne_eq, Prod.mk.injEq, not_and]
  exact fun label => absurd (List.mem_map.2 ⟨s, mem, label.symm⟩) h

/-- A column that is found is a column of one of the selects. -/
theorem columnsOf_get?_cases (selects : List Select) (a : Alias) (name : String) :
    (columnsOf selects).get? a name = none ∨
      ∃ s ∈ selects, ∃ d ∈ s.columns, s.label = a ∧ d.name = name ∧ (columnsOf selects).get? a name = some d.expr := by
  cases look : (columnsOf selects).get? a name with
  | none => exact .inl rfl
  | some e =>
    obtain ⟨before, rest, split, -⟩ := List.lookup_eq_some_iff.1 look
    have listed : ((a, name), e) ∈ columnsOf selects := split ▸ by simp
    obtain ⟨s, mem, d, found, key, rfl⟩ := mem_columnsOf.1 listed
    obtain ⟨label, name⟩ := Prod.mk.inj key
    exact .inr ⟨s, mem, d, found, label.symm, name.symm, rfl⟩

theorem columnsOf_replace_other {selects : List Select} {c : ColumnRef} (h : c.label ∉ selects.map (·.label)) :
    (columnsOf selects).replace c = .column c := by
  rw [ColumnMap.replace, columnsOf_get?_none h]
  rfl

namespace Shallow

variable {selects : List Select}

/-- What is put in for a column of one of the selects is what the column stands for. -/
theorem replace_column (h : Shallow selects) {s : Select} (mem : s ∈ selects) {c : ColumnRef} (label : c.label = s.label)
    (shows : s.heading c.name = true) : ∃ d ∈ s.columns, d.name = c.name ∧ (columnsOf selects).replace c = d.expr := by
  rcases columnsOf_get?_cases selects c.label c.name with none | ⟨s', mem', d, found, label', name, look⟩
  · obtain ⟨x, only⟩ := Select.exists_column shows
    have named : x ∈ s.columns.filter (·.name == c.name) := by simp [only]
    obtain ⟨found, name⟩ := List.mem_filter.1 named
    have listed : ((c.label, c.name), x.expr) ∈ columnsOf selects :=
      mem_columnsOf.2 ⟨s, mem, x, found, by rw [label, ← beq_iff_eq.1 name], rfl⟩
    simpa using List.lookup_eq_none_iff.1 none _ listed
  · have same : s' = s := List.inj_on_of_nodup_map h.labels mem' mem (label'.trans label)
    exact ⟨d, same ▸ found, name, by rw [ColumnMap.replace, look]; rfl⟩

/-- What is put in for a column is left as it is by the substitution, however many steps that has. -/
theorem substitute_removing (h : Shallow selects) {s : Select} (mem : s ∈ selects) {d : Named} (found : d ∈ s.columns)
    (steps : Nat) : d.expr.substitute (removing (selects.map (·.label)) (columnsOf selects) steps) = d.expr := by
  have atom := h.atom s mem d found
  cases kind : d.expr <;> rw [kind] at atom <;> simp [Expr.isAtom, Expr.isColumn, Expr.isLiteral] at atom
  case constant => cases steps <;> rfl
  case hostParameter => cases steps <;> rfl
  case column r =>
    cases steps with
    | zero => rfl
    | succ steps => simp [removing, Expr.substitute, onColumns, columnsOf_get?_none (h.other s mem d found r kind)]

/-- The substitution that removes the selects replaces their columns by what they stand for. -/
theorem removal_replaces (h : Shallow selects) : Replaces (removal selects) (columnsOf selects).replace where
  expr := by
    change (removing (selects.map (·.label)) (columnsOf selects) (columnsOf selects).length).expr = _
    cases length : (columnsOf selects).length with
    | zero =>
      have none : columnsOf selects = [] := List.length_eq_zero_iff.1 length
      rw [none]
      rfl
    | succ steps =>
      refine congrArg (fun φ => (onColumns φ).expr) (funext fun c => ?_)
      rcases columnsOf_get?_cases selects c.label c.name with none | ⟨s, mem, d, found, -, -, look⟩
      · simp only [ColumnMap.replace, none, Option.getD_none]
      · simp only [ColumnMap.replace, look, Option.getD_some, h.substitute_removing mem found steps]
  atom c := by
    rcases columnsOf_get?_cases selects c.label c.name with none | ⟨s, mem, d, found, -, -, look⟩
    · rw [ColumnMap.replace, none]
      rfl
    · rw [ColumnMap.replace, look]
      exact h.atom s mem d found

end Shallow

theorem removal_removes (selects : List Select) (a : Alias) :
    (removal selects).removes a = (selects.map (·.label)).contains a := by
  rw [removal]
  cases ((selects.map ColumnMap.ofSelect).reverse.flatten).length <;> rfl

/-- An alias that is not that of a select which goes is left alone. -/
theorem removal_fixes {selects : List Select} {a : Alias} (h : a ∉ selects.map (·.label)) :
    Fixes (removal selects) (columnsOf selects).replace a where
  kept := by simpa [removal_removes] using h
  fixed _ label := columnsOf_replace_other (label ▸ h)

/-- Each of the selects goes, if none of them is inside of another. -/
theorem Shallow.removes {selects : List Select} (h : Shallow selects) {s : Select} (mem : s ∈ selects)
    (inside : ∀ src ∈ s.source, ∀ a ∈ src.declared, a ∉ selects.map (·.label)) :
    Removes (removal selects) (columnsOf selects).replace s where
  removes := by
    rw [removal_removes, List.contains_iff_mem]
    exact List.mem_map_of_mem mem
  image _ label shows := h.replace_column mem label shows
  inside src source a found := removal_fixes (inside src source a found)

/-! ## The columns of one select -/

theorem columnsOf_singleton (s : Select) : columnsOf [s] = ColumnMap.ofSelect s := by
  simp [columnsOf]

theorem ColumnMap.replace_ofSelect_other {s : Select} {c : ColumnRef} (other : c.label ≠ s.label) : (ofSelect s).replace c = .column c := by
  rw [← columnsOf_singleton]
  exact columnsOf_replace_other (by simpa using other)

theorem ColumnMap.replace_ofSelect {s : Select} {c : ColumnRef} (own : c.label = s.label) (mem : c.name ∈ s.columnNames) :
    ∃ d ∈ s.columns, d.name = c.name ∧ (ofSelect s).replace c = d.expr := by
  rw [← columnsOf_singleton, replace]
  rcases columnsOf_get?_cases [s] c.label c.name with none | ⟨s', mem', d, found, -, name, look⟩
  · obtain ⟨d, found, name⟩ := List.mem_map.1 mem
    have listed : ((c.label, c.name), d.expr) ∈ columnsOf [s] := mem_columnsOf.2 ⟨s, List.mem_singleton_self s, d, found, by rw [own, name], rfl⟩
    simpa using List.lookup_eq_none_iff.1 none _ listed
  · rw [List.mem_singleton.1 mem'] at found
    exact ⟨d, found, name, by rw [look]; rfl⟩

/-- Where the names of the columns differ, a reference to one of them is replaced by its expression. -/
theorem ColumnMap.replace_ofSelect_column {s : Select} (names : s.columnNames.Nodup) {d : Named} (mem : d ∈ s.columns) (t : Ty) :
    (ofSelect s).replace ⟨s.label, d.name, t⟩ = d.expr := by
  obtain ⟨d', mem', name, found⟩ := replace_ofSelect (s := s) (c := ⟨s.label, d.name, t⟩) rfl (List.mem_map_of_mem mem)
  rw [found, List.inj_on_of_nodup_map names mem' mem name]

end Relational

import Relational.Proofs.Rows.Replacement
import Relational.Proofs.Scoping.Checking
import Relational.Result.Reader

/-!
# Literals in the place of columns

A nested projection is run with the values of a row as literals in the place of the columns of that row. What it declares and the names of the
columns of its selects are the same as before, its other references are still there
(`Projection.collect_withRow`), and it is scoped without the row (`Projection.Scoped.withRow`).
-/

namespace Relational

variable {f : Substitution}

section Collect

variable {α : Type} {C : Collector α} {keep : α → Bool}

/-- A substitution that leaves selects in their places and what is found in them, apart from some that goes. -/
structure Substitution.Thins (f : Substitution) (C : Collector α) (keep : α → Bool) : Prop where
  kept : ∀ a, f.removes a = false
  given : ∀ e e', f.expr e = some e' → e'.collect C = (e.collect C).filter keep
  column : ∀ c, f.expr (.column c) = none → (C.column c).filter keep = C.column c
  select : ∀ s : Select, C.select (s.substitute f) = (C.select s).filter keep
  source : ∀ src : Source, C.source (src.substitute f) = (C.source src).filter keep

theorem Substitution.Thins.collect (thins : f.Thins C keep) {n : Node} (bound : n.isBound = true) :
    (n.substitute f).collect C = (n.collect C).filter keep := by
  have filter (l : List α) : l.filter keep = l.flatMap fun a => if keep a then [a] else [] := by
    induction l with
    | nil => rfl
    | cons a l ih => rw [List.filter_cons, List.flatMap_cons, ih]; split <;> rfl
  rw [filter]
  exact Node.collect_substitute (fun c rebuilt => by rw [← filter, thins.column c rebuilt]) (fun s => by rw [thins.select, filter])
    (fun src _ => by rw [thins.source, filter]) (fun e e' given => by rw [thins.given e e' given, filter]) bound fun a _ => thins.kept a

end Collect

/-- What is put in for a column is scoped without the aliases that go. -/
def Substitution.Clears (f : Substitution) (goes : Alias → Bool) (c : ColumnRef) : Prop :=
  ∀ scope : List Alias, c.label ∈ scope → ((Expr.column c).substitute f).Scoped (scope.filter (!goes ·))

theorem Node.shown_substitute {n : Node} (kept : ∀ a, f.removes a = false) : (n.substitute f).shown = n.shown := by
  cases n with
  | expr e => rfl
  | source src =>
    cases src with
    | select s => rw [substitute, Source.substitute_of_kept (kept _)]; rfl
    | join kind l r condition => simp [substitute, Source.substitute, shown, l.visible_substitute fun a _ => kept a, r.visible_substitute fun a _ => kept a]
    | _ => rfl
  | select s =>
    show ((s.substitute f).source.map Source.visible).getD [] = (s.source.map Source.visible).getD []
    rw [Select.substitute_source]
    cases s.source with
    | none => rfl
    | some src => exact src.visible_substitute fun a _ => kept a
  | projection p => cases p; exact congrArg ([·]) (Select.substitute_label _ _)
  | _ => rfl

/-- A tree is scoped without some aliases after a substitution that leaves nothing of their columns. -/
theorem Node.Scoped.substitute {goes : Alias → Bool} (kept : ∀ a, f.removes a = false)
    (given : ∀ e e', f.expr e = some e' → (∀ c, e ≠ .column c) → ∀ scope, e'.Scoped scope) {n : Node} (bound : n.isBound = true)
    (columns : ∀ c ∈ n.collect columnRefs, f.Clears goes c) (own : ∀ a ∈ n.collect declaredAliases, goes a = false) {scope : List Alias}
    (h : n.Scoped scope) : (n.substitute f).Scoped (scope.filter (!goes ·)) := by
  induction n, bound using bound_induction generalizing scope with
  | query q =>
    cases acts : f.expr (.query q) with
    | some e' => rw [Node.substitute, Expr.substitute_given acts]; exact given _ e' acts (by rintro _ ⟨⟩) _
    | none => rw [Node.substitute, Expr.substitute.eq_def, acts]; trivial
  | step n bound other ih =>
    by_cases column : ∃ c, n = expr (.column c)
    · obtain ⟨c, rfl⟩ := column
      exact columns c (List.mem_singleton_self c) scope h
    obtain ⟨e, e', rfl, acts⟩ | rebuilt := n.given_or_rebuilt f.expr
    · rw [Node.substitute, Expr.substitute_given acts]
      exact given e e' acts (fun c same => column ⟨c, congrArg expr same⟩) _
    · have shape := (related_substitute (fun _ _ => kept _) rebuilt bound).shape
      -- what a node shows is still in scope
      have inner : (scope ++ n.shown).filter (!goes ·) = scope.filter (!goes ·) ++ n.shown := by
        have same : n.shown.filter (!goes ·) = n.shown := List.filter_eq_self.2 fun a mem => by simpa using own a (n.shown_subset mem)
        rw [List.filter_append, same]
      have parts := ((scoped_iff bound).1 h).2
      rw [collect_eq _ bound, List.forall_mem_append, List.forall_mem_flatMap] at columns own
      rw [scoped_iff ((isBound_of_shape shape).trans bound), parts_substitute (fun _ _ => kept _) rebuilt, List.forall_mem_map]
      refine ⟨fun c same => ?_, fun p mem => ?_⟩
      · rw [same] at shape
        cases n with
        | expr e => cases e <;> simp [Node.shape, Expr.shape, Expr.mapOperands] at shape; exact absurd ⟨_, rfl⟩ column
        | _ => cases shape
      · have part := ih p mem (isBound_parts bound other p mem) (columns.2 p mem) (own.2 p mem) (parts p mem)
        cases p with
        | expr e =>
          rw [scopeOf, inner] at part
          rwa [Node.substitute, scopeOf, shown_substitute kept]
        | _ => exact part

/-! ## The columns of a row -/

theorem distinctRefs_fold (refs found : List ColumnRef) :
    let result := refs.foldl (fun found c => if found.any (·.isSame c) then found else found ++ [c]) found
    found ⊆ result ∧ result ⊆ found ++ refs ∧ ∀ c ∈ refs, ∃ d ∈ result, d.isSame c = true := by
  induction refs generalizing found with
  | nil => simp
  | cons c refs ih =>
    rw [List.foldl_cons]
    split
    · next known =>
      obtain ⟨keeps, within, covers⟩ := ih found
      obtain ⟨d, mem, same⟩ := List.any_eq_true.1 known
      refine ⟨keeps, fun a mem => ?_, List.forall_mem_cons.2 ⟨⟨d, keeps mem, same⟩, covers⟩⟩
      exact (List.mem_append.1 (within mem)).elim (List.mem_append_left _) fun mem => List.mem_append_right _ (List.mem_cons_of_mem _ mem)
    · obtain ⟨keeps, within, covers⟩ := ih (found ++ [c])
      refine ⟨fun a mem => keeps (List.mem_append_left _ mem), fun a mem => by simpa using within mem, List.forall_mem_cons.2 ⟨?_, covers⟩⟩
      exact ⟨c, keeps (by simp), by simp [ColumnRef.isSame]⟩

/-- The columns of a row are those that are referred to, each under its name. -/
theorem Projection.mem_outerColumns {p : Projection} {row : Alias} {c : ColumnRef} (mem : c ∈ p.outerColumns row) :
    c ∈ p.collect columnRefs ∧ c.label = row := by
  have within := (distinctRefs_fold ((p.collect columnRefs).filter (·.label = row)) []).2.1 mem
  simpa using within

theorem Projection.exists_outerColumn {p : Projection} {c : ColumnRef} (mem : c ∈ p.collect columnRefs) :
    ∃ d ∈ p.outerColumns c.label, d.name = c.name := by
  have listed : c ∈ (p.collect columnRefs).filter (·.label = c.label) := by simpa using mem
  obtain ⟨d, found, same⟩ := (distinctRefs_fold _ []).2.2 c listed
  simp only [ColumnRef.isSame, Bool.and_eq_true, beq_iff_eq] at same
  exact ⟨d, found, same.2⟩

/-- The literals for the columns of a row. -/
def rowLiterals (values : List (ColumnRef × Value)) : ColumnMap :=
  (values.map fun (c, v) => ((c.label, c.name), .constant v c.ty)).reverse

/-- Whether a column is one of these. -/
def listsColumn (columns : List ColumnRef) (c : ColumnRef) : Bool := columns.any (·.isSame c)

variable {values : List (ColumnRef × Value)} {c : ColumnRef}

theorem replace_rowLiterals_of_listed (listed : listsColumn (values.map (·.1)) c = true) :
    ∃ v t, (rowLiterals values).replace c = .constant v t := by
  have found : ((rowLiterals values).lookup (c.label, c.name)).isSome = true := by
    simp only [listsColumn, List.any_map, List.any_eq_true, Function.comp, ColumnRef.isSame, Bool.and_eq_true, beq_iff_eq] at listed
    obtain ⟨entry, mem, label, name⟩ := listed
    refine List.lookup_isSome_iff.2 ⟨_, List.mem_reverse.2 (List.mem_map.2 ⟨entry, mem, rfl⟩), ?_⟩
    simp [label, name]
  obtain ⟨e, found⟩ := Option.isSome_iff_exists.1 found
  obtain ⟨before, after, split, -⟩ := List.lookup_eq_some_iff.1 found
  have mem : ((c.label, c.name), e) ∈ rowLiterals values := by rw [split]; simp
  obtain ⟨entry, -, same⟩ := List.mem_map.1 (List.mem_reverse.1 mem)
  refine ⟨entry.2, entry.1.ty, ?_⟩
  rw [ColumnMap.replace, ColumnMap.get?, found]
  exact (congrArg Prod.snd same).symm

theorem replace_rowLiterals_of_not_listed (listed : listsColumn (values.map (·.1)) c = false) :
    (rowLiterals values).replace c = .column c := by
  have none : (rowLiterals values).lookup (c.label, c.name) = none := by
    refine List.lookup_eq_none_iff.2 fun entry mem => bne_iff_ne.2 fun same => ?_
    obtain ⟨source, read, rfl⟩ := List.mem_map.1 (List.mem_reverse.1 mem)
    rw [listsColumn, List.any_eq_false] at listed
    refine listed source.1 (List.mem_map.2 ⟨source, read, rfl⟩) ?_
    have label : c.label = source.1.label := congrArg Prod.fst same
    have name : c.name = source.1.name := congrArg Prod.snd same
    simp [ColumnRef.isSame, label, name]
  rw [ColumnMap.replace, ColumnMap.get?, none]
  rfl

/-- What a literal or a reference that is put in for a column has of its own. -/
theorem collect_replace_rowLiterals {α : Type} (C : Collector α) (c : ColumnRef) : ((rowLiterals values).replace c).collect C =
    if listsColumn (values.map (·.1)) c then [] else C.column c := by
  cases listed : listsColumn (values.map (·.1)) c with
  | true =>
    obtain ⟨v, t, put⟩ := replace_rowLiterals_of_listed listed
    rw [put]
    rfl
  | false =>
    rw [replace_rowLiterals_of_not_listed listed]
    rfl

theorem given_parameterizing {e e' : Expr} (given : parameterizing.expr e = some e') : ∃ v t, e = .constant v t ∧ e' = .hostParameter v t := by
  cases e with
  | constant v t =>
    simp only [parameterizing, Expr.parameter?] at given
    split at given
    · exact ⟨v, t, rfl, (Option.some.inj given).symm⟩
    · cases given
  | _ => cases given

/-- A collector that finds the same at selects and sources whatever is put in below them. -/
structure Collector.Outward {α : Type} (C : Collector α) (keep : α → Bool) : Prop where
  select : ∀ (f : Substitution) (s : Select), C.select (s.substitute f) = C.select s
  source : ∀ (f : Substitution) (src : Source), (∀ a, f.removes a = false) → C.source (src.substitute f) = C.source src
  keepsSelect : ∀ s, (C.select s).filter keep = C.select s
  keepsSource : ∀ src, (C.source src).filter keep = C.source src

/-- With the values of a row in the place of its columns, everything but those columns is found where it was. -/
theorem Projection.collect_withRow {α : Type} {C : Collector α} {keep : α → Bool} (outward : C.Outward keep)
    (column : ∀ c, (if listsColumn (values.map (·.1)) c then [] else C.column c) = (C.column c).filter keep) (p : Projection) :
    (p.withRow values).collect C = (p.collect C).filter keep := by
  have literals : (onColumns (rowLiterals values).replace).Thins C keep :=
    { kept := fun _ => rfl
      given := by
        intro e e' given
        cases e with
        | column c =>
          cases given
          exact (collect_replace_rowLiterals C c).trans (column c)
        | query q => cases given; rfl
        | _ => cases given
      column := by rintro c ⟨⟩
      select := fun s => by rw [outward.select, outward.keepsSelect]
      source := fun src => by rw [outward.source _ _ fun _ => rfl, outward.keepsSource] }
  have parameters : parameterizing.Thins C fun _ => true :=
    { kept := fun _ => rfl
      given := by
        intro e e' given
        obtain ⟨v, t, rfl, rfl⟩ := given_parameterizing given
        rfl
      column := fun c _ => List.filter_true _
      select := fun s => by rw [outward.select, List.filter_true]
      source := fun src => by rw [outward.source _ _ fun _ => rfl, List.filter_true] }
  show ((p.substitute (onColumns (rowLiterals values).replace)).substitute parameterizing).collect C = _
  exact (parameters.collect (n := .projection (p.substitute _)) rfl).trans
    ((List.filter_true _).trans (literals.collect (n := .projection p) rfl))

/-- The aliases of selects, with the names of their columns. -/
def headings : Collector (Alias × List String) := ⟨fun _ => [], fun s => [(s.label, s.columnNames)], fun _ => []⟩

theorem Projection.headings_withRow (p : Projection) : (p.withRow values).collect headings = p.collect headings := by
  have outward : headings.Outward fun _ => true := by
    refine ⟨fun f s => ?_, fun _ _ _ => rfl, fun _ => List.filter_true _, fun _ => rfl⟩
    rw [Select.substitute_eq]
    exact congrArg (fun names => [(s.label, names)]) (Select.columnNames_mapParts _ _ s)
  rw [p.collect_withRow outward fun c => ?_, List.filter_true]
  split <;> rfl

theorem Projection.declared_withRow (p : Projection) : (p.withRow values).declared = p.declared := by
  have outward : declaredAliases.Outward fun _ => true := by
    refine ⟨fun f s => congrArg (fun a => [a]) (s.substitute_label f), fun f src kept => ?_, fun _ => List.filter_true _,
      fun _ => List.filter_true _⟩
    cases src with
    | select s => rw [Source.substitute_of_kept (kept _)]; rfl
    | _ => rfl
  rw [declared, p.collect_withRow outward fun c => ?_, List.filter_true]
  · rfl
  · split <;> rfl

theorem Projection.columnRefs_withRow (p : Projection) :
    (p.withRow values).collect columnRefs = (p.collect columnRefs).filter (!listsColumn (values.map (·.1)) ·) := by
  refine p.collect_withRow ⟨fun _ _ => rfl, fun _ _ _ => rfl, fun _ => rfl, fun _ => rfl⟩ fun c => ?_
  cases listed : listsColumn (values.map (·.1)) c <;> simp [columnRefs, listed]

/-- The columns of the row are exactly those that get literals. -/
theorem Projection.listsColumn_iff {p : Projection} {row : Alias} (all : values.map (·.1) = p.outerColumns row)
    (mem : c ∈ p.collect columnRefs) : listsColumn (values.map (·.1)) c = true ↔ c.label = row := by
  rw [all, listsColumn, List.any_eq_true]
  constructor
  · rintro ⟨d, listed, same⟩
    simp only [ColumnRef.isSame, Bool.and_eq_true, beq_iff_eq] at same
    exact same.1.symm.trans (mem_outerColumns listed).2
  · rintro rfl
    obtain ⟨d, listed, name⟩ := exists_outerColumn mem
    exact ⟨d, listed, by simp [ColumnRef.isSame, name, (mem_outerColumns listed).2]⟩

/-- A projection that sees only a row is closed when the values of that row are put in. -/
theorem Projection.Scoped.withRow {p : Projection} {row : Alias} (h : p.Scoped [row]) (outside : row ∉ p.declared)
    (all : values.map (·.1) = p.outerColumns row) : (p.withRow values).Scoped [] := by
  have clears (c : ColumnRef) (mem : c ∈ p.collect columnRefs) : (onColumns (rowLiterals values).replace).Clears (· == row) c := by
    intro scope inside
    show ((rowLiterals values).replace c).Scoped _
    cases listed : listsColumn (values.map (·.1)) c with
    | true =>
      obtain ⟨v, t, put⟩ := replace_rowLiterals_of_listed listed
      rw [put]
      trivial
    | false =>
      have other : c.label ≠ row := fun eq => Bool.false_ne_true (listed.symm.trans ((listsColumn_iff all mem).2 eq))
      rw [replace_rowLiterals_of_not_listed listed]
      exact List.mem_filter.2 ⟨inside, by simpa using other⟩
  have literals : (p.substitute (onColumns (rowLiterals values).replace)).Scoped ([row].filter (!· == row)) := by
    refine Node.Scoped.substitute (n := .projection p) (fun _ => rfl) (fun e e' given other scope => ?_) rfl clears (fun a mem => ?_) h
    · cases e with
      | column c => exact absurd rfl (other c)
      | query q => cases given; trivial
      | _ => cases given
    · exact beq_eq_false_iff_ne.2 fun eq => outside (eq ▸ mem)
  have parameters : ((p.substitute (onColumns (rowLiterals values).replace)).substitute parameterizing).Scoped
      (([row].filter (!· == row)).filter fun _ => !false) := by
    refine Node.Scoped.substitute (n := .projection _) (fun _ => rfl) (fun e e' given other scope => ?_) rfl (fun c mem scope inside => ?_)
      (fun _ _ => rfl) literals
    · obtain ⟨v, t, rfl, rfl⟩ := given_parameterizing given
      trivial
    · exact List.mem_filter.2 ⟨inside, rfl⟩
  have nothing : (([row].filter (!· == row)).filter fun _ => !false) = [] := by simp
  rw [nothing] at parameters
  exact parameters

end Relational

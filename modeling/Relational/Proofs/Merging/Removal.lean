import Relational.Proofs.Rows.Change
import Relational.Proofs.Rows.Preservation

/-!
# Removing selects from a source

A replacement may remove selects that a source shows, through joins: the source of such a select takes its place, and its columns
are replaced by what they stand for. Here is what that does to the form of the source: it stays well
formed, declares no new alias, and what its columns are replaced by is in sight of what is left
(`Source.Replaced`).
-/

namespace Relational

variable {f : Substitution} {φ : ColumnRef → Expr} {lit : Value → Ty → Prop} {Γ Γ' : Context}

variable (f φ) in
/-- The select goes, and the replacement puts in what its columns stand for. -/
structure Removes (s : Select) : Prop where
  removes : f.removes s.label = true
  image : ∀ c, c.label = s.label → s.heading c.name = true → ∃ d ∈ s.columns, d.name = c.name ∧ φ c = d.expr
  inside : ∀ src ∈ s.source, ∀ a ∈ src.declared, Fixes f φ a

variable (f φ) in
/-- A source whose selects go or are left alone; those that go are of the kind `K`. Literals may only be put in for columns of the
select at its left end, since beside the others there may be absent values. -/
def Source.Ready (K : Select → Prop) (literals : Bool) : Source → Prop
  | .table _ a _ _ | .raw a _ => Fixes f φ a
  | .select s =>
    (∀ a ∈ s.declared, Fixes f φ a) ∨
      Removes f φ s ∧ K s ∧ (literals = true ∨ ∀ c, c.label = s.label → s.heading c.name = true → (φ c).isColumn = true)
  | .join _ l r condition =>
    l.Ready K literals ∧ r.Ready K false ∧ ∀ e ∈ condition, ∀ a ∈ e.declared, Fixes f φ a

variable (f φ lit) in
/-- What removing selects makes of a source. -/
structure Source.Replaced (Γ' : Context) (src : Source) : Prop where
  formed : (src.substitute f).Formed lit Γ'
  images : Images lit φ src.context (src.substitute f).context
  literal : ∀ c, src.context.sees c →
    (φ c).standsForLiteral (some (src.substitute f)) = src.givesLiteral c.label c.name
  declared : ∀ a, (src.substitute f).declared.count a ≤ src.declared.count a

theorem Source.Replaced.visible_subset {src : Source} (h : src.Replaced f φ lit Γ') :
    (src.substitute f).visible ⊆ src.declared := by
  intro a mem
  have := List.count_pos_iff.2 ((src.substitute f).visible_subset mem)
  exact List.count_pos_iff.1 (Nat.lt_of_lt_of_le this (h.declared a))

/-- What is put in for a column is a column in sight, or a literal. -/
theorem Images.column {c r : ColumnRef} (images : Images lit φ Γ Γ') (sees : Γ.sees c) (image : φ c = .column r) :
    Γ'.sees r := by
  have := images c sees
  rwa [image] at this

/-- What is put in for a column refers to what the source declares. -/
theorem Source.Replaced.referenced {src : Source} (repl : Replaces f φ) (h : src.Replaced f φ lit Γ') {c : ColumnRef}
    (sees : src.context.sees c) : (φ c).referenced ⊆ (src.substitute f).visible := by
  have atom := repl.atom c
  cases image : φ c <;> rw [image] at atom <;> simp [Expr.isAtom, Expr.isColumn, Expr.isLiteral] at atom
  case constant => exact List.nil_subset _
  case hostParameter => exact List.nil_subset _
  case column r =>
    simpa [Expr.referenced, Expr.collect, columnRefs] using Source.visible_of_sees (h.images.column sees image)

/-- Only columns of sources in sight are literals further in. -/
theorem Source.visible_of_givesLiteral (src : Source) {a : Alias} {name : String} (h : src.givesLiteral a name = true) :
    a ∈ src.visible := by
  induction src using Source.induction with
  | table kind a entity name => simp [givesLiteral] at h
  | raw a sql => simp [givesLiteral] at h
  | select s =>
    simp only [givesLiteral, Bool.and_eq_true, beq_iff_eq] at h
    simp [visible, h.1]
  | join kind l r condition left _ => exact List.mem_append_left _ (left h)

/-- A source that is left alone is replaced by a source that shows the same. -/
theorem Source.replaced_of_fixes (repl : Replaces f φ) {src : Source} (formed : src.Formed lit Γ)
    (images : Images lit φ Γ Γ') (fixes : ∀ a ∈ src.declared, Fixes f φ a) : src.Replaced f φ lit Γ' := by
  obtain ⟨formed', context, literal⟩ := (formed_substitute repl).sources src Γ Γ' formed images fixes
  have fixed (c : ColumnRef) (sees : src.context.sees c) : φ c = .column c :=
    (fixes _ (src.visible_subset (Source.visible_of_sees sees))).fixed c rfl
  refine ⟨formed', fun c sees => ?_, fun c sees => ?_, fun a => ?_⟩
  · rw [fixed c sees, context]
    exact sees
  · rw [fixed c sees]
    exact literal c.label c.name
  · exact Nat.le_of_eq (congrArg _ (Source.declared_substitute repl fun a mem => (fixes a mem).kept))

/-- What is put in for a column of a select that goes is a literal, or a column of its source that stays. -/
theorem Removes.stands {s : Select} {src : Source} (removes : Removes f φ s) (source : s.source = some src)
    (clauses : s.Clauses lit Γ) (apart : ∀ a ∈ s.declared, a ∉ Γ.map (·.1)) {c : ColumnRef}
    (sees : (Source.select s).context.sees c) : ∃ d ∈ s.columns, d.name = c.name ∧ s.heading c.name = true ∧
      φ c = d.expr ∧ ∀ r, d.expr = .column r → src.context.sees r ∧ φ r = .column r := by
  obtain ⟨heading, mem, shows⟩ := sees
  simp only [Source.context, List.mem_singleton, Prod.mk.injEq] at mem
  obtain ⟨label, rfl⟩ := mem
  obtain ⟨d, mem, name, image⟩ := removes.image c label shows
  refine ⟨d, mem, name, shows, image, fun r eq => ?_⟩
  have found := clauses.columns d mem
  rw [eq] at found
  rcases Context.sees_append.1 found with sees | sees
  · have own := clauses.own d mem r (by rw [eq]; rfl)
    exact absurd (Context.label_of_sees sees) (apart _ (s.visible_subset own))
  · have sees : src.context.sees r := by simpa [Select.context, source] using Select.sees_of_columnContext sees
    exact ⟨sees, (removes.inside src source _ (src.visible_subset (Source.visible_of_sees sees))).fixed r rfl⟩

/-- The source of a select that is removed takes its place. -/
theorem Source.replaced_of_removes (repl : Replaces f φ) {s : Select} {src : Source} (source : s.source = some src)
    (formed : s.Formed lit Γ) (removes : Removes f φ s) (apart : ∀ a ∈ s.declared, a ∉ Γ.map (·.1))
    (images : Images lit φ Γ Γ') : (Source.select s).Replaced f φ lit Γ' := by
  have clauses := Select.formed_iff.1 formed
  have inner := replaced_of_fixes repl (clauses.source src source) images (removes.inside src source)
  have gone : (Source.select s).substitute f = src.substitute f := substitute_of_removed removes.removes source
  refine ⟨gone ▸ inner.formed, fun c sees => ?_, fun c sees => ?_, fun a => ?_⟩
  · obtain ⟨d, mem, -, -, image, sight⟩ := removes.stands source clauses apart sees
    rw [gone, image]
    have atom := image ▸ repl.atom c
    have found := clauses.columns d mem
    cases kind : d.expr <;> rw [kind] at atom found <;> simp [Expr.isAtom, Expr.isColumn, Expr.isLiteral] at atom
    case constant => exact found
    case hostParameter => exact found
    case column r => exact (sight r kind).2 ▸ inner.images r (sight r kind).1
  · obtain ⟨d, mem, name, shows, image, sight⟩ := removes.stands source clauses apart sees
    obtain ⟨heading, label, -⟩ := sees
    simp only [Source.context, List.mem_singleton, Prod.mk.injEq] at label
    rw [gone, image, Source.givesLiteral, label.1, Select.givesLiteral_eq, Select.any_column shows mem name, source]
    simp only [beq_self_eq_true, Bool.true_and]
    cases kind : d.expr with
    | column r =>
      have same := inner.literal r (sight r kind).1
      rwa [(sight r kind).2] at same
    | _ => rfl
  · have := inner.declared a
    rw [gone, Source.declared_select, Select.declared_eq, source, List.count_cons, List.count_append]
    simp only [Option.toList_some, List.flatMap_cons, List.flatMap_nil, List.append_nil]
    omega

/-- Where no literals are put in, columns are replaced by columns. -/
theorem Source.Ready.isColumn {K : Select → Prop} : ∀ {src : Source} {c : ColumnRef}, src.Ready f φ K false → src.context.sees c →
    (φ c).isColumn = true
  | .table _ a _ _, c, ready, sees => by
    rw [Fixes.fixed ready c (by simpa [Source.visible] using Source.visible_of_sees sees)]
    rfl
  | .raw a _, c, ready, sees => by
    rw [Fixes.fixed ready c (by simpa [Source.visible] using Source.visible_of_sees sees)]
    rfl
  | .select s, c, ready, sees => by
    rcases ready with fixes | ⟨-, -, literals | columns⟩
    · rw [(fixes c.label ((Source.select s).visible_subset (Source.visible_of_sees sees))).fixed c rfl]
      rfl
    · cases literals
    · obtain ⟨heading, mem, shows⟩ := sees
      simp only [Source.context, List.mem_singleton, Prod.mk.injEq] at mem
      obtain ⟨label, rfl⟩ := mem
      exact columns c label shows
  | .join _ l r _, c, ready, sees => by
    rcases Context.sees_append.1 sees with sees | sees
    · exact Source.Ready.isColumn ready.1 sees
    · exact Source.Ready.isColumn ready.2.1 sees

/-- A source with selects removed is well formed among what is put in for what was in sight. -/
theorem Source.replaced {K : Select → Prop} (repl : Replaces f φ) : ∀ (src : Source) {literals : Bool} {Γ Γ' : Context},
    src.Formed lit Γ → src.Ready f φ K literals → src.declared.Nodup → (∀ a ∈ src.declared, a ∉ Γ.map (·.1)) → Images lit φ Γ Γ' →
      src.Replaced f φ lit Γ'
  | .table kind a entity name, literals, Γ, Γ', formed, ready, _, _, images =>
    replaced_of_fixes repl formed images (by simpa [Source.collect, declaredAliases, Source.Ready] using ready)
  | .raw a sql, literals, Γ, Γ', formed, ready, _, _, images =>
    replaced_of_fixes repl formed images (by simpa [Source.collect, declaredAliases, Source.Ready] using ready)
  | .select s, literals, Γ, Γ', formed, ready, nodup, apart, images => by
    obtain ⟨src, source⟩ := Option.isSome_iff_exists.1 formed.1
    rcases ready with fixes | ⟨removes, -⟩
    · exact replaced_of_fixes repl formed images fixes
    · exact replaced_of_removes repl source formed.2 removes apart images
  | .join kind l r condition, literals, Γ, Γ', formed, ready, nodup, apart, images => by
    simp only [Source.Formed, formedOption_iff] at formed
    rw [Source.declared_join] at nodup apart
    obtain ⟨nodupL, nodupRest, apartL⟩ := List.nodup_append.1 nodup
    obtain ⟨nodupR, -, -⟩ := List.nodup_append.1 nodupRest
    have left := replaced repl l formed.1 ready.1 nodupL (fun a mem => apart a (by simp [mem])) images
    have images' := images.concat repl left.images
    have right := replaced repl r formed.2.1 ready.2.1 nodupR (fun a mem => by
      rw [List.map_append, List.mem_append, not_or, l.map_context]
      exact ⟨apart a (by simp [mem]), fun mem' => apartL a (l.visible_subset mem') a (by simp [mem]) rfl⟩) images'
    -- No alias is declared on both sides.
    have disjoint (a : Alias) (mem : a ∈ l.declared) (mem' : a ∈ r.declared) : False :=
      apartL a mem a (List.mem_append_left _ mem') rfl
    have conditions : (condition.map (Expr.substitute f)).toList.flatMap Expr.declared =
        condition.toList.flatMap Expr.declared := by
      cases condition with
      | none => rfl
      | some e => simpa using Expr.declared_substitute repl fun a mem => (ready.2.2 e rfl a mem).kept
    refine ⟨?_, left.images.concat repl right.images, fun c sees => ?_, fun a => ?_⟩
    · simp only [Source.substitute, Source.Formed, substituteOption_eq, formedOption_iff, Option.mem_def, Option.map_eq_some_iff]
      refine ⟨left.formed, right.formed, ?_⟩
      rintro _ ⟨e, mem, rfl⟩
      exact (formed_substitute repl).expr e _ _ _ _ (formed.2.2 e mem)
        (images.concat repl (left.images.concat repl right.images)) (by rintro _ ⟨⟩) (ready.2.2 e mem)
    · rcases Context.sees_append.1 sees with sees | sees
      · exact left.literal c sees
      · have column := Source.Ready.isColumn ready.2.1 sees
        have image := right.images c sees
        cases eq : φ c <;> rw [eq] at column image <;> simp [Expr.isColumn] at column
        case column r' =>
          have here : l.givesLiteral c.label c.name = false := by
            refine Bool.eq_false_iff.2 fun literal => ?_
            exact disjoint _ (l.visible_subset (l.visible_of_givesLiteral literal))
              (r.visible_subset (Source.visible_of_sees sees))
          have there : (l.substitute f).givesLiteral r'.label r'.name = false := by
            refine Bool.eq_false_iff.2 fun literal => ?_
            exact disjoint _ (left.visible_subset (Source.visible_of_givesLiteral _ literal))
              (right.visible_subset (Source.visible_of_sees image))
          exact there.trans here.symm
    · have := left.declared a
      have := right.declared a
      rw [Source.substitute, Source.declared_join, Source.declared_join, substituteOption_eq, conditions]
      simp only [List.count_append]
      omega

/-! ## A whole select -/

/-- Where the clauses of a select declare nothing that goes, they declare the same as before. -/
theorem Select.beside_substitute_of_fixes (repl : Replaces f φ) {s : Select} (beside : ∀ a ∈ s.declaredBeside, Fixes f φ a) :
    (s.substitute f).declaredBeside = s.declaredBeside := by
  have all (e : Expr) (sub : e.declared ⊆ s.declaredBeside) : (e.substitute f).declared = e.declared :=
    Expr.declared_substitute repl fun a mem => (beside a (sub mem)).kept
  rw [substitute_eq]
  exact declaredBeside_mapParts (s.beside_subset.imp all fun _ _ => trivial)

variable (f φ lit Γ) in
/-- A replacement that removes selects which the source of a select shows, and changes nothing else but references to them. -/
structure Select.Prepared (K : Select → Prop) (s : Select) : Prop extends s.Placed lit Γ where
  ready : ∀ src ∈ s.source, src.Ready f φ K true
  beside : ∀ a ∈ s.declaredBeside, Fixes f φ a
  outer : ∀ c, Γ.sees c → φ c = .column c

namespace Select.Prepared

variable {K : Select → Prop} {s : Select} (h : s.Prepared f φ lit Γ K)
include h

theorem images : Images lit φ Γ Γ := fun c sees => by
  rw [h.outer c sees]
  exact sees

/-- A column that is a plain reference refers to a column of the source. -/
theorem own {c : Named} (mem : c ∈ s.columns) {r : ColumnRef} (eq : c.expr = .column r) :
    s.columnContext.sees r := by
  have formed := h.clauses.columns c mem
  rw [eq] at formed
  rcases Context.sees_append.1 formed with sees | sees
  · have own := h.clauses.own c mem r (by rw [eq]; rfl)
    exact absurd (Context.label_of_sees sees) (h.apart _ (s.visible_subset own))
  · exact sees

variable (repl : Replaces f φ)
include repl

theorem source {src : Source} (mem : src ∈ s.source) : src.Replaced f φ lit Γ :=
  src.replaced repl (h.clauses.source src mem) (h.ready src mem) (h.nodup_source mem) (fun _ => h.apart_source mem) h.images

/-- What is put in for the columns of the source is in sight of the source that is left. -/
theorem context : Images lit φ s.context (s.substitute f).context := by
  cases found : s.source with
  | none => simp [Select.context, found, Images, Context.sees]
  | some src => simpa [Select.context, found] using (h.source repl found).images

theorem literal {c : ColumnRef} (sees : s.context.sees c) :
    (φ c).standsForLiteral (s.substitute f).source = s.readsLiteral c.label c.name := by
  cases found : s.source with
  | none => simp [Select.context, found, Context.sees] at sees
  | some src =>
    simp only [Select.context, found, Option.map_some, Option.getD_some] at sees
    simpa [Select.readsLiteral, found, sourceGivesLiteral] using (h.source repl found).literal c sees

/-- A select of aggregates alone reads columns that are replaced by columns, which again are not literals further in. -/
theorem column_of_total (total : s.isTotal = true) {c : ColumnRef}
    (sees : s.columnContext.sees c) : ∃ r, φ c = .column r ∧ (s.substitute f).columnContext.sees r := by
  have atom := repl.atom c
  have image := h.context repl c (sees_of_columnContext sees)
  have literal := h.literal repl (sees_of_columnContext sees)
  rw [Select.columnContext, total, if_pos rfl] at sees
  obtain ⟨heading, mem, shows⟩ := sees
  obtain ⟨⟨a, inner⟩, found, eq⟩ := List.mem_map.1 mem
  cases eq
  simp only [Bool.and_eq_true, Bool.not_eq_true'] at shows
  rw [shows.2] at literal
  cases kind : φ c <;> rw [kind] at atom literal image <;>
    simp [Expr.isAtom, Expr.isColumn, Expr.isLiteral, Expr.standsForLiteral] at atom literal
  case column r =>
    obtain ⟨heading, mem, shows'⟩ := image
    rw [Select.columnContext, isTotal_substitute repl, total, if_pos rfl]
    refine ⟨r, rfl, _, List.mem_map.2 ⟨_, mem, rfl⟩, ?_⟩
    simp only [shows', Bool.true_and, Bool.not_eq_true']
    simpa [Expr.column?, readsLiteral] using literal

/-- What the columns may read of the source is replaced by what they may read of the source that is left. -/
theorem columnContext : Images lit φ s.columnContext (s.substitute f).columnContext := by
  intro c sees
  cases total : s.isTotal with
  | false =>
    have there : (s.substitute f).columnContext = (s.substitute f).context := by
      rw [Select.columnContext, isTotal_substitute repl, total]
      rfl
    rw [there]
    exact h.context repl c (sees_of_columnContext sees)
  | true =>
    obtain ⟨r, image, sees'⟩ := h.column_of_total repl total sees
    rw [image]
    exact sees'

theorem visible_subset : (s.substitute f).visible ⊆ s.declared := by
  cases found : s.source with
  | none => simp [Select.visible, found]
  | some src =>
    have := (h.source repl found).visible_subset
    simp only [Select.visible, substitute_source, found, Option.map_some, Option.getD_some]
    exact List.Subset.trans this (s.parts_subset.source src found)

theorem untouched {a : Alias} (mem : a ∈ s.declaredBeside) :
    Untouched f φ (Γ ++ s.context) a := by
  refine ⟨h.beside a mem, fun c sees other found => ?_⟩
  rcases Context.sees_append.1 sees with sees | sees
  · rw [h.outer c sees] at found
    exact other (by simpa [Expr.referenced, Expr.collect, columnRefs, eq_comm] using found)
  · cases source : s.source with
    | none => simp [Select.context, source, Context.sees] at sees
    | some src =>
      simp only [Select.context, source, Option.map_some, Option.getD_some] at sees
      have replaced := h.source repl source
      exact h.disjoint source (replaced.visible_subset (replaced.referenced repl sees found)) mem

theorem clauses_substitute : (s.substitute f).Clauses lit Γ := by
  have parts : SelectParts (Expr.Preserved f φ lit) (fun src => (src.substitute f).Formed lit Γ) s := by
    have all (e : Expr) : e.Preserved f φ lit := (formed_substitute repl).expr e
    exact ⟨fun c _ => all c.expr, fun src mem => (h.source repl mem).formed, fun e _ => all e, fun e _ => all e,
      fun e _ => all e, fun k _ => all k.expr, fun e _ => all e, fun e _ => all e⟩
  refine Select.clauses_substitute repl h.clauses parts h.beside h.images (h.images.concat repl (h.context repl))
    (h.images.concat repl (h.columnContext repl)) fun c mem r eq r' image => ?_
  have sees := (h.columnContext repl).column (h.own mem eq) image
  exact visible_of_sees (sees_of_columnContext sees)

theorem beside_substitute :
    (s.substitute f).declaredBeside = s.declaredBeside :=
  Select.beside_substitute_of_fixes repl h.beside

theorem declared_le (a : Alias) :
    (s.substitute f).declared.count a ≤ s.declared.count a := by
  have source : ((s.source.map (Source.substitute f)).toList.flatMap Source.declared).count a ≤
      (s.source.toList.flatMap Source.declared).count a := by
    cases found : s.source with
    | none => simp
    | some src => simpa using (h.source repl found).declared a
  rw [declared_eq, declared_eq, h.beside_substitute repl, substitute_label, substitute_source]
  simp only [List.count_cons, List.count_append]
  omega

/-- A select without the selects that go can stand in its place. -/
theorem reforms : s.Reforms lit Γ (s.substitute f) where
  label := substitute_label f s
  names := by rw [substitute_eq, columnNames_mapParts]
  literals := givesLiteral_substitute repl fun c mem r eq => h.literal repl (sees_of_columnContext (h.own mem eq))
  source := by simp
  formed := formed_iff.2 (h.clauses_substitute repl)
  declared := h.declared_le repl

end Select.Prepared

end Relational

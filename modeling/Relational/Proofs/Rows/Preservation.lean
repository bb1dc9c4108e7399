import Relational.Proofs.Rows.Simulation
import Relational.Proofs.Tree.Shapes

/-!
# Well-formedness under a replacement

A replacement that puts in what is in sight keeps a statement well formed, with the same aliases, headings and literal columns. This
is the companion of `Node.simulated`: what that says of the meaning of a tree, the statements here say of
its form.
-/

namespace Relational

variable {f : Substitution} {φ : ColumnRef → Expr} {lit : Value → Ty → Prop} {Γ Γ' Δ Δ' : Context}

/-- Each column in sight is replaced by something that is in sight elsewhere. -/
def Images (lit : Value → Ty → Prop) (φ : ColumnRef → Expr) (Γ Γ' : Context) : Prop :=
  ∀ c, Γ.sees c → (φ c).Formed lit Γ' none

theorem Expr.formed_atom {e : Expr} (atom : e.isAtom = true) (h : e.Formed lit Γ none) (sub : ∀ c, Γ.sees c → Γ'.sees c)
    (agg : Option Context) : e.Formed lit Γ' agg := by
  cases e <;> simp [isAtom, isColumn, isLiteral] at atom
  case constant => exact h
  case hostParameter => exact h
  case column c => exact sub c h

theorem Images.concat (repl : Replaces f φ) (h : Images lit φ Γ Γ') (h' : Images lit φ Δ Δ') :
    Images lit φ (Γ ++ Δ) (Γ' ++ Δ') := by
  intro c sees
  rcases Context.sees_append.1 sees with sees | sees
  · exact Expr.formed_atom (repl.atom c) (h c sees) (fun _ sees => Context.sees_append.2 (.inl sees)) none
  · exact Expr.formed_atom (repl.atom c) (h' c sees) (fun _ sees => Context.sees_append.2 (.inr sees)) none

theorem Images.append (repl : Replaces f φ) (h : Images lit φ Γ Γ')
    (fixed : ∀ c, c.label ∈ Δ.map (·.1) → φ c = .column c) : Images lit φ (Γ ++ Δ) (Γ' ++ Δ) :=
  h.concat repl fun c sees => by
    rw [fixed c (Context.label_of_sees sees)]
    exact sees

/-! ## Declared aliases -/

theorem flatMap_map_congr {α β : Type} {l : List α} {h : α → α} {g : α → List β} (same : ∀ a ∈ l, g (h a) = g a) :
    (l.map h).flatMap g = l.flatMap g := by
  rw [List.flatMap_map]
  exact List.flatMap_congr same

theorem Expr.declared_atom {e : Expr} (h : e.isAtom = true) : e.declared = [] := by
  cases e <;> simp [isAtom, isColumn, isLiteral] at h <;> rfl

private theorem flatMap_option_congr {α β : Type} {o : Option α} {h : α → α} {g : α → List β}
    (same : ∀ a ∈ o, g (h a) = g a) : (o.map h).toList.flatMap g = o.toList.flatMap g := by
  cases o with
  | none => rfl
  | some a => simp [same a rfl]

/-- The clauses of a select with changed parts declare the same aliases if each part does. -/
theorem Select.declaredBeside_mapParts {g : Expr → Expr} {h : Source → Source} {s : Select}
    (parts : SelectParts (fun e => (g e).declared = e.declared) (fun _ => True) s) :
    (s.mapParts g h).declaredBeside = s.declaredBeside := by
  have columns : (s.columns.map (Named.mapExpr g)).flatMap (·.expr.declared) = s.columns.flatMap (·.expr.declared) :=
    flatMap_map_congr parts.columns
  have orderBy : (s.orderBy.map (OrderKey.mapExpr g)).flatMap (·.expr.declared) = s.orderBy.flatMap (·.expr.declared) :=
    flatMap_map_congr parts.orderBy
  simp only [declaredBeside, mapParts, columns, orderBy, flatMap_option_congr parts.filter,
    flatMap_option_congr parts.having, flatMap_option_congr parts.offset, flatMap_option_congr parts.limit,
    flatMap_map_congr parts.groupBy]

/-- Where no select is removed, the same aliases stay declared. -/
theorem Node.declared_substitute {n : Node} (repl : Replaces f φ) (bound : n.isBound = true)
    (kept : ∀ a ∈ n.collect declaredAliases, f.removes a = false) :
    (n.substitute f).collect declaredAliases = n.collect declaredAliases := by
  rw [← List.flatMap_singleton' (n.collect declaredAliases)]
  refine collect_substitute (fun _ _ => rfl) (fun s => by simp [declaredAliases]) (fun src keeps => ?_) (fun e e' acts => ?_) bound kept
  · cases src with
    | select s => rw [Source.substitute_of_kept (keeps s rfl)]; rfl
    | _ => rfl
  · rw [repl.expr] at acts
    cases e with
    | column c => cases acts; exact Expr.declared_atom (repl.atom c)
    | query q => cases acts; rfl
    | _ => cases acts

theorem Expr.declared_substitute (repl : Replaces f φ) {e : Expr} (kept : ∀ a ∈ e.declared, f.removes a = false) :
    (e.substitute f).declared = e.declared :=
  Node.declared_substitute (n := .expr e) repl rfl kept

theorem Source.declared_substitute (repl : Replaces f φ) {src : Source} (kept : ∀ a ∈ src.declared, f.removes a = false) :
    (src.substitute f).declared = src.declared :=
  Node.declared_substitute (n := .source src) repl rfl kept

/-! ## Clauses -/

/-- Only a column or a literal becomes a column or a literal. -/
theorem Expr.standsForLiteral_substitute (repl : Replaces f φ) {e : Expr} {source source' : Option Source}
    (same : ∀ r, e = .column r → (φ r).standsForLiteral source' = (Expr.column r).standsForLiteral source) :
    (e.substitute f).standsForLiteral source' = e.standsForLiteral source := by
  cases e
  case column r => simpa [substitute, repl.expr, onColumns] using same r rfl
  all_goals simp [substitute, repl.expr, onColumns, standsForLiteral, isLiteral, column?]

theorem Expr.column?_substitute (repl : Replaces f φ) {e : Expr} {r : ColumnRef} (h : (e.substitute f).column? = some r) :
    ∃ c, e = .column c ∧ φ c = .column r := by
  cases e
  case column c =>
    simp only [substitute, repl.expr, onColumns] at h
    refine ⟨c, rfl, ?_⟩
    cases image : φ c <;> simp_all [column?]
  all_goals simp [substitute, repl.expr, onColumns, column?] at h

variable (f φ) in
/-- The replaced expression is well formed among what is put in. -/
def Expr.Preserved (lit : Value → Ty → Prop) (e : Expr) : Prop :=
  ∀ Γ Γ' agg agg', e.Formed lit Γ agg → Images lit φ Γ Γ' → (∀ Δ ∈ agg, ∃ Δ' ∈ agg', Images lit φ Δ Δ') →
    (∀ a ∈ e.declared, Fixes f φ a) → (e.substitute f).Formed lit Γ' agg'

theorem Select.clauses_substitute {s : Select} (repl : Replaces f φ) (clauses : s.Clauses lit Γ)
    (parts : SelectParts (Expr.Preserved f φ lit) (fun src => (src.substitute f).Formed lit Γ') s)
    (beside : ∀ a ∈ s.declaredBeside, Fixes f φ a) (outer : Images lit φ Γ Γ')
    (inner : Images lit φ (Γ ++ s.context) (Γ' ++ (s.substitute f).context))
    (shown : Images lit φ (Γ ++ s.columnContext) (Γ' ++ (s.substitute f).columnContext))
    (own : ∀ c ∈ s.columns, ∀ r, c.expr = .column r → ∀ r', φ r = .column r' → r'.label ∈ (s.substitute f).visible) :
    (s.substitute f).Clauses lit Γ' := by
  rw [substitute_eq] at *
  have fixes {e : Expr} (sub : e.declared ⊆ s.declaredBeside) (a : Alias) (mem : a ∈ e.declared) := beside a (sub mem)
  refine clauses_mapParts parts.source
    (fun e mem => parts.filter e mem _ _ _ _ (clauses.filter e mem) inner (by rintro _ ⟨⟩) (fixes (s.beside_subset.filter e mem)))
    (fun c mem => parts.columns c mem _ _ _ _ (clauses.columns c mem) shown (by simpa using inner)
      (fixes (s.beside_subset.columns c mem)))
    (fun c mem r' found => ?_)
    (fun e mem => parts.groupBy e mem _ _ _ _ (clauses.groupBy e mem) inner (by rintro _ ⟨⟩) (fixes (s.beside_subset.groupBy e mem)))
    (fun e mem => parts.having e mem _ _ _ _ (clauses.having e mem) inner (by simpa using inner)
      (fixes (s.beside_subset.having e mem)))
    clauses.grouped
    (fun k mem => parts.orderBy k mem _ _ _ _ (clauses.orderBy k mem) inner (by rintro _ ⟨⟩) (fixes (s.beside_subset.orderBy k mem)))
    (fun e mem => parts.offset e mem _ _ _ _ (clauses.offset e mem) outer (by rintro _ ⟨⟩) (fixes (s.beside_subset.offset e mem)))
    (fun e mem => parts.limit e mem _ _ _ _ (clauses.limit e mem) outer (by rintro _ ⟨⟩) (fixes (s.beside_subset.limit e mem)))
  obtain ⟨r, eq, image⟩ := Expr.column?_substitute repl found
  exact own c mem r eq r' image

theorem Select.heading_substitute (s : Select) : (s.substitute f).heading = s.heading := by
  funext name
  rw [Select.substitute_eq, heading, heading, columnNames_mapParts]

/-- A select gives the same literals if its source does for the columns that it hands on. -/
theorem Select.givesLiteral_substitute (repl : Replaces f φ) {s : Select}
    (same : ∀ c ∈ s.columns, ∀ r, c.expr = .column r →
      (φ r).standsForLiteral (s.substitute f).source = (Expr.column r).standsForLiteral s.source) (name : String) :
    (s.substitute f).givesLiteral name = s.givesLiteral name := by
  rw [givesLiteral_eq, givesLiteral_eq, substitute_columns]
  refine any_map_congr fun c mem => ?_
  simp only [Named.mapExpr, Expr.standsForLiteral_substitute repl (same c mem)]

/-- Where nothing is removed, what a replacement puts in keeps every kind of tree well formed, and sources and selects show the
same as before. -/
theorem formed_substitute (repl : Replaces f φ) : TreeCases
    (Expr.Preserved f φ lit)
    (fun s => ∀ Γ Γ' agg agg', s.Formed lit Γ agg → Images lit φ Γ Γ' → (∀ Δ ∈ agg, ∃ Δ' ∈ agg', Images lit φ Δ Δ') →
      (∀ a ∈ s.declared, Fixes f φ a) → (s.substitute f).Formed lit Γ' agg')
    (fun src => ∀ Γ Γ', src.Formed lit Γ → Images lit φ Γ Γ' → (∀ a ∈ src.declared, Fixes f φ a) →
      (src.substitute f).Formed lit Γ' ∧ (src.substitute f).context = src.context ∧
        ∀ a name, (src.substitute f).givesLiteral a name = src.givesLiteral a name)
    (fun s => ∀ Γ Γ', s.Formed lit Γ → Images lit φ Γ Γ' → (∀ a ∈ s.declared, Fixes f φ a) →
      (s.substitute f).Formed lit Γ' ∧ ∀ name, (s.substitute f).givesLiteral name = s.givesLiteral name)
    (fun p => ∀ Γ Γ', p.Formed lit Γ → Images lit φ Γ Γ' → (∀ a ∈ p.declared, Fixes f φ a) →
      (p.substitute f).Formed lit Γ') := by
  constructor
  constructor
  case column =>
    intro c Γ Γ' agg agg' formed images _ _
    simp only [Expr.substitute, repl.expr, onColumns]
    exact Expr.formed_atom (repl.atom c) (images c formed) (fun _ sees => sees) agg'
  case operator =>
    intro e op ih Γ Γ' agg agg' formed images aggs fixes
    rw [repl.substitute_operator op, Expr.formed_operator (by simpa using op), Expr.operands_mapOperands]
    rw [Expr.declared, Expr.collect_operator _ op] at fixes
    refine List.forall_mem_map.2 fun x mem => ?_
    exact ih x mem _ _ _ _ ((Expr.formed_operator op).1 formed x mem) images aggs
      fun a ha => fixes a (subset_flatMap _ mem ha)
  case aggregate =>
    intro kind x distinct t ih Γ Γ' agg agg' formed images aggs fixes
    obtain ⟨Δ, rfl, formed⟩ := formed
    obtain ⟨Δ', rfl, image⟩ := aggs Δ rfl
    simp only [formedOption_iff] at formed
    simp only [Expr.declared, Expr.collect, collectOption_eq] at fixes
    simp only [Expr.substitute, repl.expr, onColumns, Expr.Formed, substituteOption_eq, formedOption_iff,
      Option.mem_def, Option.map_eq_some_iff]
    refine ⟨Δ', rfl, ?_⟩
    rintro _ ⟨e, mem, rfl⟩
    exact ih e mem _ _ _ _ (formed e mem) image aggs
      fun a ha => fixes a (subset_flatMap _ (Option.mem_toList.2 mem) ha)
  case subquery =>
    intro s ih Γ Γ' agg agg' formed images aggs fixes
    simp only [Expr.substitute, repl.expr, onColumns]
    exact ih _ _ _ _ formed images aggs fixes
  case projection =>
    intro p ih Γ Γ' agg agg' formed images _ fixes
    simp only [Expr.substitute, repl.expr, onColumns]
    exact ih _ _ formed images fixes
  case scalar => intro s t ih Γ Γ' agg agg' formed images _ fixes; exact (ih _ _ formed images fixes).1
  case exist => intro s ih Γ Γ' agg agg' formed images _ fixes; exact (ih _ _ formed images fixes).1
  case inSelect =>
    intro e s he hs Γ Γ' agg agg' formed images aggs fixes
    simp only [Subquery.declared, Subquery.collect, List.mem_append] at fixes
    exact ⟨he _ _ _ _ formed.1 images aggs fun a ha => fixes a (.inl ha),
      (hs _ _ formed.2 images fun a ha => fixes a (.inr ha)).1⟩
  case inValues =>
    intro e vs he hvs Γ Γ' agg agg' formed images aggs fixes
    simp only [Subquery.declared, Subquery.collect, collectAll_eq, List.mem_append] at fixes
    simp only [Subquery.Formed, formedAll_iff] at formed
    simp only [Subquery.substitute, Subquery.Formed, substituteAll_eq, formedAll_iff]
    refine ⟨he _ _ _ _ formed.1 images aggs fun a ha => fixes a (.inl ha), List.forall_mem_map.2 fun v mem => ?_⟩
    exact hvs v mem _ _ _ _ (formed.2 v mem) images aggs fun a ha => fixes a (.inr (subset_flatMap _ mem ha))
  case table => intros; exact ⟨trivial, rfl, fun _ _ => rfl⟩
  case raw => intros; exact ⟨trivial, rfl, fun _ _ => rfl⟩
  case nested =>
    intro s ih Γ Γ' formed images fixes
    obtain ⟨formed', same⟩ := ih _ _ formed.2 images fixes
    rw [Source.substitute_of_kept (fixes _ s.label_mem_declared).kept]
    refine ⟨⟨by simpa using formed.1, formed'⟩, ?_, fun a name => ?_⟩
    · simp only [Source.context, Select.substitute_label, Select.heading_substitute]
    · simp only [Source.givesLiteral, Select.substitute_label, same]
  case join =>
    intro kind l r condition hl hr hc Γ Γ' formed images fixes
    simp only [Source.declared_join, List.mem_append] at fixes
    simp only [Source.Formed, formedOption_iff] at formed
    have fixed (src : Source) (all : ∀ a ∈ src.declared, Fixes f φ a) (c : ColumnRef)
        (mem : c.label ∈ src.context.map (·.1)) : φ c = .column c :=
      (all _ (src.visible_subset (src.map_context ▸ mem))).fixed c rfl
    have left (a : Alias) (ha : a ∈ l.declared) := fixes a (.inl ha)
    have right (a : Alias) (ha : a ∈ r.declared) := fixes a (.inr (.inl ha))
    have images' := images.append repl (fixed l left)
    obtain ⟨formedL, contextL, literalL⟩ := hl _ _ formed.1 images left
    obtain ⟨formedR, contextR, -⟩ := hr _ _ formed.2.1 images' right
    simp only [Source.substitute, Source.Formed, Source.context, Source.givesLiteral, contextL, contextR, literalL,
      substituteOption_eq, formedOption_iff, Option.mem_def, Option.map_eq_some_iff]
    refine ⟨⟨formedL, formedR, ?_⟩, trivial, fun _ _ => trivial⟩
    rintro _ ⟨e, mem, rfl⟩
    have images'' := images'.append repl (fixed r right)
    rw [List.append_assoc, List.append_assoc] at images''
    exact hc e mem _ _ _ _ (formed.2.2 e mem) images'' (by rintro _ ⟨⟩)
      fun a ha => fixes a (.inr (.inr (subset_flatMap _ (Option.mem_toList.2 mem) ha)))
  case select =>
    intro s parts Γ Γ' formed images fixes
    have clauses := Select.formed_iff.1 formed
    have shown (a : Alias) (mem : a ∈ s.visible) : Fixes f φ a := fixes a (s.visible_subset mem)
    have source : (∀ src ∈ s.source, (src.substitute f).Formed lit Γ') ∧ (s.substitute f).context = s.context ∧
        ∀ a name, (s.substitute f).readsLiteral a name = s.readsLiteral a name := by
      cases found : s.source with
      | none => simp [Select.context, Select.readsLiteral, found, sourceGivesLiteral]
      | some src =>
        obtain ⟨formed', context, literal⟩ := parts.source src found _ _ (clauses.source src found) images
          fun a ha => fixes a (s.parts_subset.source src found ha)
        simp [Select.context, Select.readsLiteral, found, sourceGivesLiteral, formed', context, literal]
    obtain ⟨formed', context, literal⟩ := source
    have total := Select.isTotal_substitute repl s
    have columnContext : (s.substitute f).columnContext = s.columnContext := by
      simp only [Select.columnContext, total, context, literal]
    have visible : (s.substitute f).visible = s.visible := by
      rw [← Select.map_context, context, Select.map_context]
    have own (c : Named) (mem : c ∈ s.columns) (r : ColumnRef) (eq : c.expr = .column r) : φ r = .column r :=
      (shown _ (clauses.own c mem r (by rw [eq]; rfl))).fixed r rfl
    refine ⟨Select.formed_iff.2 (Select.clauses_substitute repl clauses ⟨parts.columns, formed', parts.filter,
      parts.groupBy, parts.having, parts.orderBy, parts.offset, parts.limit⟩
      (fun a ha => fixes a (s.declaredBeside_subset ha)) images ?_ ?_ fun c mem r eq r' image => ?_),
      Select.givesLiteral_substitute repl fun c mem r eq => ?_⟩
    · rw [context]
      exact images.append repl fun c mem => (shown _ (s.map_context ▸ mem)).fixed c rfl
    · rw [columnContext]
      exact images.append repl fun c mem => (shown _ (s.map_columnContext ▸ mem)).fixed c rfl
    · rw [own c mem r eq] at image
      cases image
      rw [visible]
      exact clauses.own c mem r (by rw [eq]; rfl)
    · rw [own c mem r eq]
      exact literal r.label r.name
  case whole =>
    intro s e a hs he Γ Γ' formed images fixes
    simp only [Projection.declared, Projection.collect, List.mem_append] at fixes
    have label := fixes s.label (.inl s.label_mem_declared)
    refine ⟨(hs _ _ formed.1 images fun a ha => fixes a (.inl ha)).1, ?_⟩
    rw [Select.substitute_label, Select.heading_substitute]
    exact he _ _ _ _ formed.2 (images.append repl (by simpa using label.fixed)) (by rintro _ ⟨⟩) fun a ha => fixes a (.inr ha)
  all_goals intros; intro _ _ _ _ formed _ _ _; simp only [Expr.substitute, repl.expr, onColumns]; exact formed

end Relational

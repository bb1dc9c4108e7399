import Relational.Proofs.Pruning.Needs
import Relational.Proofs.Pruning.Visits

/-!
# Pruned statements

Dropping columns that nothing reads keeps what a projection means (`Projection.Prunable.dropUnused`), over every database and
whatever operators and aggregates are. Aliases have to be distinct, and selects that show one row for all rows
of their source must not become ordinary ones by the loss of their aggregates (`Prunable`).
-/

namespace Relational

/-! ## Selects that show one row -/

section Prunable

-- what it takes that an expression reads a column of a source
variable (reads : Expr → Alias → String → Prop)

mutual

/-- Selects of aggregates alone stand where their columns are read, and nowhere else. -/
def Expr.Prunable : Expr → Prop
  | .param _ | .variable _ _ _ | .constant _ _ | .hostParameter _ _ | .query _ | .column _ => True
  | .binary _ l r => l.Prunable ∧ r.Prunable
  | .unary _ x | .member x _ | .convert x _ => x.Prunable
  | .call _ x args => x.Prunable ∧ prunableAll args
  | .conditional test yes no => test.Prunable ∧ yes.Prunable ∧ no.Prunable
  | .record _ ms => prunableNamed ms
  | .function _ args _ => prunableAll args
  | .group key elements => key.Prunable ∧ elements.Prunable
  | .aggregate _ x _ _ => prunableOption x
  | .subquery s => s.Prunable
  | .projection p => p.Prunable

def prunableAll : List Expr → Prop
  | [] => True
  | e :: es => e.Prunable ∧ prunableAll es

def prunableOption : Option Expr → Prop
  | none => True
  | some e => e.Prunable

def prunableNamed : List Named → Prop
  | [] => True
  | ⟨_, e⟩ :: ms => e.Prunable ∧ prunableNamed ms

def prunableKeys : List OrderKey → Prop
  | [] => True
  | ⟨e, _⟩ :: ks => e.Prunable ∧ prunableKeys ks

/-- A select that is the value of a subquery may be one of aggregates alone, if it has one column. -/
def Subquery.Prunable : Subquery → Prop
  | .scalar s _ => s.Prunable ∧ (s.isTotal = true → s.columns.length = 1)
  | .exists s => s.Prunable ∧ s.isTotal = false
  | .inSelect e s => e.Prunable ∧ s.Prunable ∧ s.isTotal = false
  | .inValues e vs => e.Prunable ∧ prunableAll vs

def Source.Prunable : Source → Prop
  | .table _ _ _ _ | .raw _ _ => True
  | .select s => s.Prunable ∧ s.isTotal = false
  | .join _ l r condition => l.Prunable ∧ r.Prunable ∧ prunableOption condition

def prunableSource : Option Source → Prop
  | none => True
  | some s => s.Prunable

def Select.Prunable : Select → Prop
  | ⟨_, columns, source, filter, groupBy, having, orderBy, offset, limit, _⟩ =>
    prunableNamed columns ∧ prunableSource source ∧ prunableOption filter ∧ prunableAll groupBy ∧
      prunableOption having ∧ prunableKeys orderBy ∧ prunableOption offset ∧ prunableOption limit

/-- The select of a projection may be one of aggregates alone, if the projector reads its columns. -/
def Projection.Prunable : Projection → Prop
  | ⟨s, e, _⟩ => s.Prunable ∧ e.Prunable ∧ (s.isTotal = true → ∀ c ∈ s.columns, reads e s.label c.name)

end

end Prunable

variable {reads : Expr → Alias → String → Prop}

@[simp] theorem prunableAll_iff {es : List Expr} : prunableAll reads es ↔ ∀ e ∈ es, e.Prunable reads := by
  induction es with
  | nil => simp [prunableAll]
  | cons e es ih => simp [prunableAll, ih]

@[simp] theorem prunableOption_iff {o : Option Expr} : prunableOption reads o ↔ ∀ e ∈ o, e.Prunable reads := by
  cases o <;> simp [prunableOption]

@[simp] theorem prunableNamed_iff {ms : List Named} : prunableNamed reads ms ↔ ∀ m ∈ ms, m.expr.Prunable reads := by
  induction ms with
  | nil => simp [prunableNamed]
  | cons m ms ih => cases m; simp [prunableNamed, ih]

@[simp] theorem prunableKeys_iff {ks : List OrderKey} : prunableKeys reads ks ↔ ∀ k ∈ ks, k.expr.Prunable reads := by
  induction ks with
  | nil => simp [prunableKeys]
  | cons k ks ih => cases k; simp [prunableKeys, ih]

@[simp] theorem prunableSource_iff {o : Option Source} : prunableSource reads o ↔ ∀ s ∈ o, s.Prunable reads := by
  cases o <;> simp [prunableSource]

theorem Expr.prunable_operator {e : Expr} (op : e.isOperator = true) : e.Prunable reads ↔ ∀ x ∈ e.operands, x.Prunable reads := by
  cases e <;> simp [isOperator] at op <;> simp [Prunable, operands]

theorem Select.prunable_iff {s : Select} : s.Prunable reads ↔ SelectParts (Expr.Prunable reads) (Source.Prunable reads) s := by
  constructor
  · intro h
    cases s
    simp only [Prunable, prunableNamed_iff, prunableSource_iff, prunableOption_iff, prunableAll_iff, prunableKeys_iff] at h
    obtain ⟨columns, source, filter, groupBy, having, orderBy, offset, limit⟩ := h
    exact ⟨columns, source, filter, groupBy, having, orderBy, offset, limit⟩
  · rintro ⟨columns, source, filter, groupBy, having, orderBy, offset, limit⟩
    cases s
    simp only [Prunable, prunableNamed_iff, prunableSource_iff, prunableOption_iff, prunableAll_iff, prunableKeys_iff]
    exact ⟨columns, source, filter, groupBy, having, orderBy, offset, limit⟩

namespace Node

def Prunable (reads : Expr → Alias → String → Prop) : Node → Prop
  | expr e => e.Prunable reads
  | subquery q => q.Prunable reads
  | source src => src.Prunable reads
  | select s => s.Prunable reads
  | projection p => p.Prunable reads
  | lambda _ | query _ => True

theorem prunable_parts {n : Node} (bound : n.isBound = true) (h : n.Prunable reads) : ∀ p ∈ n.parts, p.Prunable reads := by
  cases n with
  | expr e =>
    by_cases op : e.isOperator = true
    · rw [parts_operator op, List.forall_mem_map]
      exact (Expr.prunable_operator op).1 h
    · cases e <;> simp_all [Expr.isOperator, Prunable, Expr.Prunable, parts, Expr.operands, Expr.nodes]
  | subquery q => cases q <;> simp_all [Prunable, Subquery.Prunable, parts, Subquery.nodes]
  | source src => cases src <;> simp_all [Prunable, Source.Prunable, parts, Source.nodes]
  | select s => exact forall_parts_select.2 (Select.prunable_iff.1 h)
  | projection p =>
    obtain ⟨s, e, a⟩ := p
    exact List.forall_mem_cons.2 ⟨h.1, List.forall_mem_singleton.2 h.2.1⟩
  | lambda | query => cases bound

/-! ## What is needed is chosen -/

variable {K : Alias → String → Prop} {T : List Alias}

/-- What an expression, or a statement that stands for a value, needs of a source. -/
def Needs : Node → Alias → String → Prop
  | expr e => e.Needs
  | subquery q => q.Needs
  | projection p => p.Needs
  | _ => fun _ _ => False

/-- What a node needs of the sources in sight is chosen, if what is needed of its own columns is. -/
def Reads (K : Alias → String → Prop) (T : List Alias) : Node → Prop
  | source src => ∀ shown : Alias → String → Prop, (∀ b ∈ src.visible, ∀ column, shown b column → K b column) →
    ∀ a ∈ T, ∀ name, src.Needs shown a name → K a name
  | select s => ∀ shown : String → Prop, (∀ column, shown column → K s.label column) → ∀ a ∈ T, ∀ name, s.Needs shown a name → K a name
  | n => ∀ a ∈ T, ∀ name, n.Needs a name → K a name

theorem Reads.mono {n : Node} {T' : List Alias} (h : n.Reads K T) (sub : T' ⊆ T) : n.Reads K T' := by
  cases n with
  | source src => exact fun shown demanded a mem => h shown demanded a (sub mem)
  | select s => exact fun shown demanded a mem => h shown demanded a (sub mem)
  | _ => exact fun a mem => h a (sub mem)

theorem needs_expr {e : Expr} (column : ∀ c, e ≠ .column c) {a : Alias} {name : String} (needed : e.Needs a name) :
    ∃ p ∈ (expr e).parts, p.Needs a name := by
  by_cases op : e.isOperator = true
  · obtain ⟨x, mem, needed⟩ := (Expr.needs_operator op).1 needed
    exact ⟨expr x, by rw [parts_operator op]; exact List.mem_map_of_mem mem, needed⟩
  · cases e <;> simp only [Expr.isOperator, not_true_eq_false] at op
    case column c => exact absurd rfl (column c)
    case aggregate =>
      obtain ⟨x, mem, needed⟩ := needsOption_iff.1 needed
      exact ⟨expr x, List.mem_map_of_mem (Option.mem_toList.2 mem), needed⟩
    case subquery q => exact ⟨subquery q, List.mem_cons_self, needed⟩
    case projection p => exact ⟨projection p, List.mem_cons_self, needed⟩
    all_goals exact needed.elim

end Node

theorem Select.reads_parts {s s' : Select} {cs : List Named} {K : Alias → String → Prop} {T : List Alias}
    (thinned : Thinned (fun c => ¬K s.label c.name) s.columns cs)
    (distinct : s.distinct = true → ∀ name, K s.label name)
    (parts : SelectRelated (fun e _ => (Node.expr e).Reads K (s.visible ++ T)) (fun src _ => (Node.source src).Reads K T)
      { s with columns := cs } s') : (Node.select s).Reads K T := by
  intro shown demanded
  have option {o o' : Option Expr} (related : Option.Rel (fun e _ => (Node.expr e).Reads K (s.visible ++ T)) o o') {a : Alias} (mem : a ∈ s.visible ++ T)
      {name : String} (needed : needsOption o a name) : K a name := by
    obtain ⟨e, rfl, needed⟩ := needsOption_iff.1 needed
    cases related with
    | some part => exact part a mem name needed
  have beside (a : Alias) (mem : a ∈ s.visible ++ T) (name : String) (needed : s.NeedsBeside shown a name) : K a name := by
    rcases needed with needed | needed | needed | needed | needed | needed | needed
    · obtain ⟨c, column, kept, needed⟩ := needsColumns_iff.1 needed
      have stays := thinned.mem_of_stays column (not_not.2 (kept.elim (fun repeats => distinct repeats c.name) (demanded c.name)))
      obtain ⟨_, -, -, part⟩ := exists_of_forall₂ parts.columns stays
      exact part a mem name needed
    · exact option parts.limit mem needed
    · exact option parts.offset mem needed
    · obtain ⟨e, listed, needed⟩ := needsAll_iff.1 needed
      obtain ⟨_, -, part⟩ := exists_of_forall₂ parts.groupBy listed
      exact part a mem name needed
    · exact option parts.having mem needed
    · obtain ⟨k, listed, needed⟩ := needsKeys_iff.1 needed
      obtain ⟨_, -, -, part⟩ := exists_of_forall₂ parts.orderBy listed
      exact part a mem name needed
    · exact option parts.filter mem needed
  intro a mem name needed
  rcases Select.needs_iff.1 needed with needed | ⟨src, found, needed⟩
  · exact beside a (List.mem_append_right _ mem) name needed
  · have source : Option.Rel (fun src _ => (Node.source src).Reads K T) s.source s'.source := parts.source
    rw [Option.mem_def.1 found] at source
    cases made : s'.source <;> rw [made] at source
    · cases source
    · cases source with
      | some part =>
        refine part _ (fun b visible column needed => beside b (List.mem_append_left _ ?_) column needed) a mem name needed
        rwa [Select.visible, Option.mem_def.1 found]

theorem reads_cases : PruneCases fun K T n _ => n.Reads K T where
  query _ _ _ := fun _ _ _ => False.elim
  column K T c read := by
    rintro a mem _ ⟨rfl, rfl⟩
    exact read mem
  select K T s cs s' thinned distinct parts := s.reads_parts thinned distinct parts
  other K T n n' bound query column select shape firsts visited := by
    have each : ∀ p ∈ n.visits, p.Reads K T := by
      clear shape
      generalize n.visits = ps at visited
      generalize n'.visits = ps' at visited
      induction visited with
      | nil => rintro _ ⟨⟩
      | cons head _ ih => exact List.forall_mem_cons.2 ⟨head.mono (List.subset_append_right _ _), ih⟩
    cases n with
    | expr e =>
      intro a mem name needed
      obtain ⟨p, part, needed⟩ := Node.needs_expr (fun c same => column c (congrArg Node.expr same)) needed
      have reads := each p part
      cases p <;> first | exact reads a mem name needed | exact False.elim needed
    | subquery q =>
      intro a mem name needed
      cases q with
      | scalar s t => exact each _ List.mem_cons_self _ (by rintro _ ⟨c, head, rfl⟩; exact firsts s rfl c head) a mem name needed
      | «exists» s => exact each _ List.mem_cons_self _ (fun _ => False.elim) a mem name needed
      | inSelect e s =>
        rcases needed with needed | needed
        · exact each _ List.mem_cons_self a mem name needed
        · exact each _ (List.mem_cons_of_mem _ List.mem_cons_self) _ (by rintro _ ⟨c, head, rfl⟩; exact firsts s rfl c head) a mem name needed
      | inValues e vs =>
        rcases needed with needed | needed
        · exact each _ List.mem_cons_self a mem name needed
        · obtain ⟨v, listed, needed⟩ := needsAll_iff.1 needed
          exact each _ (List.mem_cons_of_mem _ (List.mem_map_of_mem listed)) a mem name needed
    | source src =>
      intro shown demanded a mem name needed
      cases src with
      | table => exact needed.elim
      | raw => exact needed.elim
      | select s => exact each _ List.mem_cons_self _ (demanded s.label (List.mem_singleton_self _)) a mem name needed
      | join kind l r condition =>
        have sides (p : Node) (inside : p ∈ [Node.source r, Node.source l]) : p.Reads K T := each p (List.mem_append_right _ inside)
        have test {b : Alias} (side : b ∈ r.visible ++ l.visible) {field : String} (needed : needsOption condition b field) : K b field := by
          obtain ⟨e, rfl, needed⟩ := needsOption_iff.1 needed
          generalize n'.visits = ps' at visited
          cases visited with
          | cons head _ => exact head b (List.mem_append_left _ (by simpa [Node.gives] using side)) field needed
        have known {b : Alias} (side : b ∈ r.visible ++ l.visible) {field : String} (wanted : shown b field ∨ needsOption condition b field) :
            K b field :=
          wanted.elim (demanded b (List.perm_append_comm.subset side) field) (test side)
        rcases needed with needed | needed | needed
        · obtain ⟨e, rfl, needed⟩ := needsOption_iff.1 needed
          exact each _ List.mem_cons_self a mem name needed
        · exact sides _ List.mem_cons_self _ (fun b side column => known (List.mem_append_left _ side)) a mem name needed
        · exact sides _ (List.mem_cons_of_mem _ List.mem_cons_self) _ (fun b side column => known (List.mem_append_right _ side)) a mem name needed
    | projection p =>
      obtain ⟨s, e, k⟩ := p
      rintro a mem name (needed | needed)
      · exact each _ List.mem_cons_self a mem name needed
      · generalize n'.visits = ps' at visited
        cases visited with
        | cons head _ => exact each _ (List.mem_cons_of_mem _ List.mem_cons_self) _ (head s.label List.mem_cons_self) a mem name needed
    | select s => exact absurd rfl (select s)
    | lambda | query => cases bound

/-! ## What a pruned part is -/

section Pruned

variable {D : Type} {I : Interpretation D} {db : Database D} {K : Alias → String → Prop} {T : List Alias} {ρ ρ' : Env D}

/-- Rows that show the same, apart from columns of the sources in sight that are not chosen. -/
def AgreesOn (K : Alias → String → Prop) (T : List Alias) (ρ ρ' : Env D) : Prop := ∀ a name, (a ∈ T → K a name) → ρ a name = ρ' a name

theorem AgreesOn.more {T' : List Alias} (h : AgreesOn K T ρ ρ') (sub : T ⊆ T') : AgreesOn K T' ρ ρ' :=
  fun a name chosen => h a name fun mem => chosen (sub mem)

/-- What is added to rows that agree. -/
theorem AgreesOn.set {a : Alias} {row row' : String → D} (h : AgreesOn K T ρ ρ') (same : ∀ name, K a name → row name = row' name) :
    AgreesOn K ([a] ++ T) (ρ.set a row) (ρ'.set a row') := by
  intro b name chosen
  by_cases eq : b = a
  · subst eq
    simpa [Env.set] using same name (chosen List.mem_cons_self)
  · simpa [Env.set, eq] using h b name fun mem => chosen (List.mem_cons_of_mem _ mem)

theorem AgreesOn.adds (as : List Alias) : Env.Adds (D := D) (AgreesOn K T) (AgreesOn K (as ++ T)) as := by
  intro ρ ρ' h row a name chosen
  by_cases mem : a ∈ as
  · simp [Env.setAll, mem]
  · simpa [Env.setAll, mem] using h a name fun mem => chosen (List.mem_append_right _ mem)

/-- Rows of a select and of the pruned select: chosen columns are the same, and so is the first one if it is chosen. -/
structure Select.ShowsLess (K : Alias → String → Prop) (s : Select) (row row' : List (String × D)) : Prop where
  lookup : ∀ name, K s.label name → row.lookup name = row'.lookup name
  head : (∀ c ∈ s.columns.head?, K s.label c.name) → row'.head? = row.head?

theorem Select.ShowsLess.named {s : Select} {row row' : List (String × D)} (h : s.ShowsLess K row row') (name : String) (chosen : K s.label name) :
    I.named row name = I.named row' name := by
  rw [Interpretation.named, Interpretation.named, h.lookup name chosen]

variable (I db K) in
/-- The pruned select has rows that show less, if a select of one row keeps its columns. -/
structure Select.Pruned (T : List Alias) (s s' : Select) : Prop where
  label : s'.label = s.label
  rows : ∀ {ρ ρ'}, AgreesOn K T ρ ρ' → List.Forall₂ (s.ShowsLess K) (s.rows I db ρ) (s'.rows I db ρ')

variable (I db K) in
/-- A pruned node means the same, at rows that agree on what is chosen. -/
def Node.Pruned (T : List Alias) : Node → Node → Prop
  | source src, source src' => src.RowsAlike I db (AgreesOn K T) (AgreesOn K (src.visible ++ T)) src'
  | select s, select s' => (s.isTotal = true → ∀ c ∈ s.columns, K s.label c.name) → s.Pruned I db K T s'
  | n, n' => n.Alike I db (AgreesOn K T) (AgreesOn K T) n'

theorem Select.pruned {s s' : Select} {cs : List Named} (thinned : Thinned (fun c => ¬K s.label c.name) s.columns cs)
    (distinct : s.distinct = true → ∀ name, K s.label name)
    (parts : SelectRelated (Expr.Alike I db (AgreesOn K (s.visible ++ T)) (AgreesOn K (s.visible ++ T)))
      (fun src src' => src.RowsAlike I db (AgreesOn K T) (AgreesOn K (src.visible ++ T)) src') { s with columns := cs } s')
    (total : s.isTotal = true → ∀ c ∈ s.columns, K s.label c.name) : s.Pruned I db K T s' := by
  have kept (all : ∀ c ∈ s.columns, K s.label c.name) : cs = s.columns := thinned.eq_of_stays fun c mem => not_not.2 (all c mem)
  have visible : s'.visible = s.visible := by
    rw [Select.visible, Select.visible, map_eq_of_rel parts.source fun _ _ _ _ part => part.visible]
  have isTotal : s'.isTotal = s.isTotal := by
    have same : s'.isTotal = ({ s with columns := cs } : Select).isTotal := by
      rw [Select.isTotal, Select.isTotal, SelectRelated.hasAggregates (parts.imp (fun _ _ part => part.hasAggregate) fun _ _ => id),
        isEmpty_of_forall₂ parts.groupBy]
    rw [same]
    cases kind : s.isTotal with
    | true => exact kept (total kind) ▸ kind
    | false =>
      refine Bool.eq_false_iff.2 fun more => Bool.false_ne_true (kind.symm.trans ?_)
      simp only [Select.isTotal, Select.hasAggregates, Bool.and_eq_true, Bool.or_eq_true, List.any_eq_true] at more ⊢
      refine ⟨more.1, more.2.imp_left (Or.imp_left ?_)⟩
      rintro ⟨c, mem, has⟩
      exact ⟨c, thinned.sublist.subset mem, has⟩
  have more {σ σ' : Env D} (agree : AgreesOn K T σ σ') : AgreesOn K (s.visible ++ T) σ σ' := agree.more (List.subset_append_right _ _)
  have outer {o o' : Option Expr} (related : Option.Rel (Expr.Alike I db (AgreesOn K (s.visible ++ T)) (AgreesOn K (s.visible ++ T))) o o') :
      Option.Rel (Expr.Alike I db (AgreesOn K T) (AgreesOn K T)) o o' :=
    rel_imp related fun _ _ part => ⟨part.hasAggregate, fun agree rows => part.eval (more agree) (rows.imp fun _ _ => more)⟩
  have clauses : s.ClausesAlike I db (AgreesOn K T) (AgreesOn K (s.visible ++ T)) (AgreesOn K (s.visible ++ T)) s' :=
    ⟨isTotal, parts.filter, parts.groupBy, parts.having, parts.orderBy, outer parts.offset, outer parts.limit, parts.distinct, fun _ _ => id,
      fun _ _ _ agree => visible.symm ▸ AgreesOn.adds _ _ _ agree _⟩
  have source : Option.Rel (Source.RowsAlike I db (AgreesOn K T) (AgreesOn K (s.visible ++ T))) s.source s'.source := by
    refine rel_imp_mem parts.source fun src mem _ part => ?_
    rw [Select.visible, Option.mem_def.1 mem]
    exact part
  refine ⟨parts.label, fun {ρ ρ'} agree => ?_⟩
  rw [Select.rows_eq, Select.rows_eq]
  have shows {g g' : List (Env D)} (rows : List.Forall₂ (AgreesOn K (s.visible ++ T)) g g') :
      s.ShowsLess K ((s.stage I db ρ).columns g) ((s'.stage I db ρ').columns g') ∧
        (s.distinct = true → (s.stage I db ρ).columns g = (s'.stage I db ρ').columns g') := by
    have first := clauses.first agree rows
    simp only [stage]
    generalize g.head?.or (s.emptyRow I ρ) = o at first
    generalize g'.head?.or (s'.emptyRow I ρ') = o' at first
    cases first with
    | none => exact ⟨⟨fun _ _ => rfl, fun _ => rfl⟩, fun _ => rfl⟩
    | @some σ σ' head =>
      simp only [Option.map_some, Option.getD_some, evalNamed_eq]
      rw [map_eq_of_forall₂ (g := fun c : Named => (c.name, c.expr.eval I db σ g)) parts.columns fun c c' part => Prod.ext part.1 (part.2.eval head rows)]
      refine ⟨⟨fun key chosen => (thinned.lookup Named.name _ fun c eq gone => gone (eq ▸ chosen)).symm, fun chosen => ?_⟩, fun distinct' => ?_⟩
      · rw [List.head?_map, List.head?_map, thinned.head fun c first gone => gone (chosen c first)]
      · rw [kept fun c _ => distinct distinct' c.name]
  exact (clauses.simulates_bare agree).run_related I.toComparison (fun g g' rows => (shows rows).1) (fun distinct g g' rows => (shows rows).2 distinct)
    (sourceRows_alike source (fun _ => more agree) agree)

variable (I db K) in
theorem Node.parts_expr {e : Expr} (query : ∀ q, e ≠ .query q) :
    ∀ p ∈ (expr e).parts, p.gives = [] ∧ ∀ {T p'}, p.Pruned I db K T p' → p.Alike I db (AgreesOn K T) (AgreesOn K T) p' := by
  by_cases op : e.isOperator = true
  · rw [parts_operator op]
    exact List.forall_mem_map.2 fun x _ => ⟨rfl, id⟩
  · cases e <;> simp only [Expr.isOperator, not_true_eq_false] at op
    case query q => exact absurd rfl (query q)
    case aggregate => exact List.forall_mem_map.2 fun x _ => ⟨rfl, id⟩
    case subquery | projection => exact List.forall_mem_singleton.2 ⟨rfl, id⟩
    all_goals rintro _ ⟨⟩

theorem Node.pruned_other {n n' : Node} (bound : n.isBound = true) (query : ∀ q, n ≠ expr (.query q)) (column : ∀ c, n ≠ expr (.column c))
    (other : ∀ s, n ≠ select s) (shape : n'.shape = n.shape) (firsts : ∀ s ∈ n.first?, ∀ c ∈ s.columns.head?, K s.label c.name)
    (prunable : n.Prunable Expr.Needs) (reads : Visited (fun T p _ => p.Reads K T) T n.visits n'.visits)
    (parts : Visited (Node.Pruned I db K) T n.visits n'.visits) : n.Pruned I db K T n' := by
  have more {as : List Alias} {σ σ' : Env D} (agree : AgreesOn K T σ σ') : AgreesOn K (as ++ T) σ σ' := agree.more (List.subset_append_right _ _)
  have whole := shape
  cases n <;> cases n' <;> simp only [isBound, Bool.false_eq_true] at bound <;>
    simp only [Node.shape, reduceCtorEq, expr.injEq, subquery.injEq, source.injEq, projection.injEq, Projection.mk.injEq] at shape
  case expr e e' =>
    have kinds := Node.parts_expr I db K fun q same => query q (congrArg Node.expr same)
    have related : Related (Node.Alike I db (AgreesOn K T) (AgreesOn K T)) (expr e) (expr e') :=
      ⟨whole, (forall₂_with_mem (parts.forall₂ fun p mem => (kinds p mem).1)).imp fun p p' part => (kinds p part.1).2 part.2.2⟩
    by_cases plain : (expr e).isPlain = true
    · exact related.alike_plain plain
    · cases e <;> simp only [isPlain, not_true_eq_false] at plain
      case column c => exact absurd rfl (column c)
      case query q => exact absurd rfl (query q)
      case aggregate =>
        cases e' <;> simp only [Expr.shape, Expr.mapOperands, reduceCtorEq, Expr.aggregate.injEq] at shape
        obtain ⟨rfl, -, rfl, rfl⟩ := shape
        exact Expr.alike_aggregate (rel_of_forall₂ related.parts)
  case subquery q q' =>
    cases q <;> cases q' <;> simp only [Subquery.shape, reduceCtorEq] at shape
    case scalar s t s' t' =>
      cases shape
      cases parts with
      | cons part _ =>
        obtain ⟨-, rows⟩ := part fun total c mem => by
          obtain ⟨d, only⟩ := List.length_eq_one_iff.1 (prunable.2 total)
          exact firsts s rfl c (by rw [only] at mem ⊢; exact (List.mem_singleton.1 mem ▸ rfl))
        intro ρ ρ' g g' agree _
        rw [Subquery.eval, Subquery.eval, head_of_forall₂ (rows agree) fun _ _ less => less.head (firsts s rfl)]
    case «exists» s s' =>
      cases parts with
      | cons part _ =>
        obtain ⟨-, rows⟩ := part fun total => absurd (prunable.2.symm.trans total) Bool.false_ne_true
        intro ρ ρ' g g' agree _
        rw [Subquery.eval, Subquery.eval, isEmpty_of_forall₂ (rows agree)]
    case inSelect e s e' s' =>
      rcases parts with _ | ⟨member, _ | ⟨part, _⟩⟩
      obtain ⟨-, rows⟩ := part fun total => absurd (prunable.2.2.symm.trans total) Bool.false_ne_true
      intro ρ ρ' g g' agree group
      rw [Subquery.eval, Subquery.eval, member.eval (more agree) (group.imp fun _ _ => more), filterMap_of_forall₂ (rows agree) fun _ _ less =>
        congrArg (Option.map Prod.snd) (less.head (firsts s rfl))]
    case inValues e vs e' vs' =>
      have kinds : ∀ p ∈ (subquery (.inValues e vs)).visits, p.gives = [] ∧ ∃ e, p = expr e :=
        List.forall_mem_cons.2 ⟨⟨rfl, _, rfl⟩, List.forall_mem_map.2 fun v _ => ⟨rfl, v, rfl⟩⟩
      have related : (subquery (.inValues e vs)).Related (Node.Alike I db (AgreesOn K T) (AgreesOn K T)) (subquery (.inValues e' vs')) := by
        refine ⟨whole, (forall₂_with_mem (parts.forall₂ fun p mem => (kinds p mem).1)).imp fun p p' part => ?_⟩
        obtain ⟨x, rfl⟩ := (kinds p part.1).2
        exact part.2.2
      intro ρ ρ' g g'
      exact related.alike_plain rfl
  case source src src' =>
    cases src <;> cases src' <;> simp only [Source.shape, reduceCtorEq] at shape
    case table => cases shape; exact Source.alike_table (AgreesOn.adds _)
    case raw => cases shape; exact Source.alike_raw (AgreesOn.adds _)
    case select s s' =>
      cases parts with
      | cons part _ =>
        obtain ⟨label, rows⟩ := part fun total => absurd (prunable.2.symm.trans total) Bool.false_ne_true
        refine ⟨congrArg (fun a => [a]) label, fun agree => ?_⟩
        rw [Source.rows, Source.rows, label, List.forall₂_map_left_iff, List.forall₂_map_right_iff]
        exact (rows agree).imp fun row row' less => agree.set less.named
    case join kind l r condition kind' l' r' condition' =>
      simp only [Source.join.injEq, true_and] at shape
      obtain ⟨rfl, shape⟩ := shape
      obtain ⟨test, sides⟩ := Visited.split (by cases condition <;> cases condition' <;> simp_all) parts
      rcases sides with _ | ⟨right, _ | ⟨left, _⟩⟩
      have test := rel_of_forall₂ (test.forall₂ (List.forall_mem_map.2 fun _ _ => rfl))
      simp only [List.flatMap_cons, List.flatMap_nil, List.append_nil, gives, List.append_assoc] at right test
      have joined : (Source.join kind' l r condition).RowsAlike I db (AgreesOn K T) (AgreesOn K (r.visible ++ (l.visible ++ T)))
          (.join kind' l' r' condition') :=
        Source.alike_join left right test (AgreesOn.adds _)
      refine ⟨joined.visible, fun agree => (joined.rows agree).imp fun _ _ agree => agree.more ?_⟩
      rw [Source.visible, ← List.append_assoc]
      exact List.append_subset.2 ⟨List.Subset.trans List.perm_append_comm.subset (List.subset_append_left _ _), List.subset_append_right _ _⟩
  case select s s' => exact absurd rfl (other s)
  case projection p p' =>
    obtain ⟨s, e, a⟩ := p
    obtain ⟨s', e', a'⟩ := p'
    obtain ⟨-, -, rfl⟩ := shape
    rcases parts with _ | ⟨projector, _ | ⟨part, _⟩⟩
    rcases reads with _ | ⟨read, _⟩
    obtain ⟨label, rows⟩ := part fun total c mem => read s.label List.mem_cons_self c.name (prunable.2.2 total c mem)
    refine ⟨rfl, fun agree => ?_⟩
    rw [Projection.values, Projection.values, label]
    exact map_eq_of_forall₂ (rows agree) fun row row' less => projector.row (agree.set less.named)

variable (I db) in
theorem pruned_cases : PruneCases fun K T n n' => n.Reads K T ∧ (n.Prunable Expr.Needs → n.Pruned I db K T n') where
  query K T q := ⟨reads_cases.query K T q, fun _ => ⟨rfl, fun _ _ => rfl⟩⟩
  column K T c read := ⟨reads_cases.column K T c read, fun _ => ⟨rfl, fun agree _ => (agree c.label c.name read).symm⟩⟩
  select K T s cs s' thinned distinct parts := by
    refine ⟨reads_cases.select K T s cs s' thinned distinct (parts.imp (fun _ _ => And.left) fun _ _ => And.left), fun prunable total => ?_⟩
    have clauses := Select.prunable_iff.1 prunable
    refine Select.pruned thinned distinct ((parts.imp (fun _ _ => And.right) fun _ _ => And.right).mp ?_) total
    exact { clauses with columns := fun c mem => clauses.columns c (thinned.sublist.subset mem) }
  other K T n n' bound query column select shape firsts visited := by
    refine ⟨reads_cases.other K T n n' bound query column select shape firsts (visited.imp fun _ _ _ _ => And.left),
      fun prunable => Node.pruned_other bound query column select shape firsts prunable (visited.imp fun _ _ _ _ => And.left) ?_⟩
    exact visited.imp fun _ p mem _ part => part.2 (Node.prunable_parts bound prunable p (n.visits_perm.subset mem))

end Pruned

/-- Without the columns that nothing reads, a projection means the same. -/
theorem Projection.Prunable.dropUnused {D : Type} (I : Interpretation D) (db : Database D) {p : Projection} (h : p.Prunable Expr.Needs)
    (nodup : p.declared.Nodup) : p.Alike I db Eq p.dropUnused := by
  obtain ⟨K, -, pruned⟩ := (pruned_cases I db).holds (n := .projection p) rfl nodup (fun _ _ => List.not_mem_nil) Usage.empty
  obtain ⟨aggregator, values⟩ : p.Alike I db (AgreesOn K []) p.dropUnused := pruned h
  refine ⟨aggregator, ?_⟩
  rintro ρ _ rfl
  exact values fun _ _ _ => rfl

end Relational

import Relational.Proofs.Rows.Meaning
import Relational.Proofs.Tree.Shapes

/-!
# Well-formed projections

A projection is well formed if every reference finds one column among those in sight, and every clause stands where it has a
meaning. In sight are the columns of the source and, from inside a nested statement, those of the
statements around it. Literals are those that `lit` allows, so that what is known of them stays known
of every tree that is made of the same literals.

Where aggregates range over no rows, everything beside them is absent, and so is a column that is a literal one select
further in. A select of aggregates alone therefore may not look at such columns
(`Select.columnContext`).
-/

namespace Relational

/-- The names that a source shows exactly once. -/
abbrev Heading := String → Bool

/-- The sources in sight. -/
abbrev Context := List (Alias × Heading)

/-- Whether a reference names one column of a source in sight. -/
def Context.sees (Γ : Context) (c : ColumnRef) : Prop := ∃ heading, (c.label, heading) ∈ Γ ∧ heading c.name = true

def Select.heading (s : Select) : Heading := fun name => s.columnNames.count name == 1

/-- What is in sight beside a source. -/
def Source.context : Source → Context
  | .table _ a _ _ | .raw a _ => [(a, fun _ => true)]
  | .select s => [(s.label, s.heading)]
  | .join _ l r _ => l.context ++ r.context

mutual

/-- Whether a column of a source is a literal of the select at its left end, or of a select further in. -/
def Source.givesLiteral (a : Alias) (name : String) : Source → Bool
  | .table _ _ _ _ | .raw _ _ => false
  | .select s => s.label == a && s.givesLiteral name
  | .join _ l _ _ => l.givesLiteral a name

def sourceGivesLiteral (a : Alias) (name : String) : Option Source → Bool
  | none => false
  | some s => s.givesLiteral a name

def Select.givesLiteral (name : String) : Select → Bool
  | ⟨_, columns, source, _, _, _, _, _, _, _⟩ =>
    columns.any fun c => c.name == name &&
      (c.expr.isLiteral || (c.expr.column?.any fun r => sourceGivesLiteral r.label r.name source))

end

/-- Where the literal is that an atom stands for: in the atom itself, or further in. -/
def Expr.standsForLiteral (e : Expr) (source : Option Source) : Bool :=
  e.isLiteral || e.column?.any fun r => sourceGivesLiteral r.label r.name source

theorem Select.givesLiteral_eq (s : Select) (name : String) :
    s.givesLiteral name = s.columns.any fun c => c.name == name && c.expr.standsForLiteral s.source := by
  cases s
  rfl

/-- Whether a column of the source of a select is a literal further in. -/
def Select.readsLiteral (s : Select) (a : Alias) (name : String) : Bool := sourceGivesLiteral a name s.source

/-- What the source of a select shows. -/
def Select.context (s : Select) : Context := (s.source.map Source.context).getD []

/-- The aliases that the source of a select shows. -/
def Select.visible (s : Select) : List Alias := (s.source.map Source.visible).getD []

/-- Whether all rows of the source make one group. -/
def Select.isTotal (s : Select) : Bool := s.groupBy.isEmpty && s.hasAggregates

/-- What the columns of a select may read of its source outside of aggregates. -/
def Select.columnContext (s : Select) : Context :=
  if s.isTotal then
    s.context.map fun (a, heading) => (a, fun name => heading name && !s.readsLiteral a name)
  else s.context

variable (lit : Value → Ty → Prop)

mutual

/-- Well-formed among the sources in sight; `agg` is what the aggregates may read, if they are allowed. -/
def Expr.Formed (Γ : Context) (agg : Option Context) : Expr → Prop
  | .param _ => True
  | .variable _ v t | .constant v t | .hostParameter v t => lit v t
  | .query _ => False
  | .column c => Γ.sees c
  | .binary _ l r => l.Formed Γ agg ∧ r.Formed Γ agg
  | .unary _ x => x.Formed Γ agg
  | .member x _ => x.Formed Γ agg
  | .call _ x args => x.Formed Γ agg ∧ formedAll Γ agg args
  | .conditional test yes no => test.Formed Γ agg ∧ yes.Formed Γ agg ∧ no.Formed Γ agg
  | .record _ ms => formedNamed Γ agg ms
  | .convert x _ => x.Formed Γ agg
  | .aggregate _ x _ _ => ∃ Δ, agg = some Δ ∧ formedOption Δ agg x
  | .subquery s => s.Formed Γ agg
  | .function _ args _ => formedAll Γ agg args
  | .projection p => p.Formed Γ
  | .group key elements => key.Formed Γ agg ∧ elements.Formed Γ agg

def formedAll (Γ : Context) (agg : Option Context) : List Expr → Prop
  | [] => True
  | e :: es => e.Formed Γ agg ∧ formedAll Γ agg es

def formedOption (Γ : Context) (agg : Option Context) : Option Expr → Prop
  | none => True
  | some e => e.Formed Γ agg

def formedNamed (Γ : Context) (agg : Option Context) : List Named → Prop
  | [] => True
  | ⟨_, e⟩ :: ms => e.Formed Γ agg ∧ formedNamed Γ agg ms

def formedKeys (Γ : Context) : List OrderKey → Prop
  | [] => True
  | ⟨e, _⟩ :: ks => e.Formed Γ none ∧ formedKeys Γ ks

def Subquery.Formed (Γ : Context) (agg : Option Context) : Subquery → Prop
  | .scalar s _ => s.Formed Γ
  | .exists s => s.Formed Γ
  | .inSelect e s => e.Formed Γ agg ∧ s.Formed Γ
  | .inValues e vs => e.Formed Γ agg ∧ formedAll Γ agg vs

/-- A select that is a source has a source itself. The right side of a join may read the left one. -/
def Source.Formed (Γ : Context) : Source → Prop
  | .table _ _ _ _ | .raw _ _ => True
  | .select s => s.source.isSome = true ∧ s.Formed Γ
  | .join _ l r condition =>
    l.Formed Γ ∧ r.Formed (Γ ++ l.context) ∧ formedOption (Γ ++ (l.context ++ r.context)) none condition

def formedSource (Γ : Context) : Option Source → Prop
  | none => True
  | some s => s.Formed Γ

/-- Aggregates stand in columns and in conditions on groups, which there are only where rows are grouped. A column that is a plain
reference refers to the select's own source. -/
def Select.Formed (Γ : Context) : Select → Prop
  | ⟨label, columns, source, filter, groupBy, having, orderBy, offset, limit, distinct⟩ =>
    let s : Select := ⟨label, columns, source, filter, groupBy, having, orderBy, offset, limit, distinct⟩
    formedSource Γ source ∧
    formedOption (Γ ++ s.context) none filter ∧
    formedNamed (Γ ++ s.columnContext) (some (Γ ++ s.context)) columns ∧
    (∀ c ∈ columns, ∀ r, c.expr.column? = some r → r.label ∈ s.visible) ∧
    formedAll (Γ ++ s.context) none groupBy ∧
    formedOption (Γ ++ s.context) (some (Γ ++ s.context)) having ∧
    (having.isSome = true → groupBy ≠ []) ∧
    formedKeys (Γ ++ s.context) orderBy ∧
    formedOption Γ none offset ∧
    formedOption Γ none limit

def Projection.Formed (Γ : Context) : Projection → Prop
  | ⟨s, e, _⟩ => s.Formed Γ ∧ e.Formed (Γ ++ [(s.label, s.heading)]) none

end

section Parts

variable {lit} {Γ : Context} {agg : Option Context}

@[simp] theorem formedAll_iff {es : List Expr} : formedAll lit Γ agg es ↔ ∀ e ∈ es, e.Formed lit Γ agg := by
  induction es with
  | nil => simp [formedAll]
  | cons e es ih => simp [formedAll, ih]

@[simp] theorem formedOption_iff {o : Option Expr} : formedOption lit Γ agg o ↔ ∀ e ∈ o, e.Formed lit Γ agg := by
  cases o <;> simp [formedOption]

@[simp] theorem formedNamed_iff {ms : List Named} : formedNamed lit Γ agg ms ↔ ∀ m ∈ ms, m.expr.Formed lit Γ agg := by
  induction ms with
  | nil => simp [formedNamed]
  | cons m ms ih => cases m; simp [formedNamed, ih]

@[simp] theorem formedKeys_iff {ks : List OrderKey} : formedKeys lit Γ ks ↔ ∀ k ∈ ks, k.expr.Formed lit Γ none := by
  induction ks with
  | nil => simp [formedKeys]
  | cons k ks ih => cases k; simp [formedKeys, ih]

@[simp] theorem formedSource_iff {o : Option Source} : formedSource lit Γ o ↔ ∀ s ∈ o, s.Formed lit Γ := by
  cases o <;> simp [formedSource]

theorem Expr.formed_operator {e : Expr} (op : e.isOperator = true) :
    e.Formed lit Γ agg ↔ ∀ x ∈ e.operands, x.Formed lit Γ agg := by
  cases e <;> simp [isOperator] at op <;> simp [Formed, operands]

end Parts

/-- The clauses of a well-formed select. -/
structure Select.Clauses (Γ : Context) (s : Select) : Prop where
  source : ∀ src ∈ s.source, src.Formed lit Γ
  filter : ∀ e ∈ s.filter, e.Formed lit (Γ ++ s.context) none
  columns : ∀ c ∈ s.columns, c.expr.Formed lit (Γ ++ s.columnContext) (some (Γ ++ s.context))
  own : ∀ c ∈ s.columns, ∀ r, c.expr.column? = some r → r.label ∈ s.visible
  groupBy : ∀ e ∈ s.groupBy, e.Formed lit (Γ ++ s.context) none
  having : ∀ e ∈ s.having, e.Formed lit (Γ ++ s.context) (some (Γ ++ s.context))
  grouped : s.having.isSome = true → s.groupBy ≠ []
  orderBy : ∀ k ∈ s.orderBy, k.expr.Formed lit (Γ ++ s.context) none
  offset : ∀ e ∈ s.offset, e.Formed lit Γ none
  limit : ∀ e ∈ s.limit, e.Formed lit Γ none

theorem Select.formed_iff {lit : Value → Ty → Prop} {Γ : Context} {s : Select} :
    s.Formed lit Γ ↔ s.Clauses lit Γ := by
  constructor
  · intro h
    cases s
    simp only [Select.Formed, formedSource_iff, formedOption_iff, formedNamed_iff, formedAll_iff, formedKeys_iff] at h
    obtain ⟨source, filter, columns, own, groupBy, having, grouped, orderBy, offset, limit⟩ := h
    exact ⟨source, filter, columns, own, groupBy, having, grouped, orderBy, offset, limit⟩
  · rintro ⟨source, filter, columns, own, groupBy, having, grouped, orderBy, offset, limit⟩
    cases s
    simp only [Select.Formed, formedSource_iff, formedOption_iff, formedNamed_iff, formedAll_iff, formedKeys_iff]
    exact ⟨source, filter, columns, own, groupBy, having, grouped, orderBy, offset, limit⟩

namespace Node

variable {lit : Value → Ty → Prop} {Γ : Context} {agg : Option Context} {n : Node}

variable (lit) in
def Formed (Γ : Context) (agg : Option Context) : Node → Prop
  | expr e => e.Formed lit Γ agg
  | subquery q => q.Formed lit Γ agg
  | source src => src.Formed lit Γ
  | select s => s.Formed lit Γ
  | projection p => p.Formed lit Γ
  | lambda _ | query _ => False

variable (lit) in
/-- Whether a node that is a literal is one of those that are allowed. -/
def Allowed : Node → Prop
  | expr (.variable _ v t) | expr (.constant v t) | expr (.hostParameter v t) => lit v t
  | _ => True

theorem formed_plain (plain : n.isPlain = true) : n.Formed lit Γ agg ↔ n.Allowed lit ∧ ∀ p ∈ n.parts, p.Formed lit Γ agg := by
  cases n with
  | expr e =>
    cases e <;> simp [isPlain] at plain <;>
      simp [Formed, Expr.Formed, Allowed, parts, Expr.operands, Expr.nodes]
  | subquery q => cases q <;> simp [Formed, Subquery.Formed, Allowed, parts, Subquery.nodes]
  | _ => cases plain

/-- The parts of a well-formed node are well formed where they stand. -/
theorem Formed.parts (h : n.Formed lit Γ agg) : n.Allowed lit ∧ ∀ p ∈ n.parts, ∃ Γ agg, p.Formed lit Γ agg := by
  by_cases plain : n.isPlain = true
  · obtain ⟨allowed, parts⟩ := (formed_plain plain).1 h
    exact ⟨allowed, fun p mem => ⟨Γ, agg, parts p mem⟩⟩
  cases n with
  | expr e =>
    cases e <;> simp only [isPlain, not_true_eq_false] at plain
    case column => exact ⟨trivial, by rintro _ ⟨⟩⟩
    case query => exact h.elim
    case aggregate =>
      obtain ⟨Δ, rfl, h⟩ := h
      exact ⟨trivial, List.forall_mem_map.2 fun e mem => ⟨Δ, some Δ, formedOption_iff.1 h e (Option.mem_toList.1 mem)⟩⟩
  | source src =>
    refine ⟨trivial, ?_⟩
    cases src with
    | select s => exact List.forall_mem_singleton.2 ⟨Γ, none, h.2⟩
    | join kind l r condition =>
      refine List.forall_mem_cons.2 ⟨⟨Γ, none, h.1⟩, List.forall_mem_cons.2 ⟨⟨_, none, h.2.1⟩, List.forall_mem_map.2 fun e mem => ?_⟩⟩
      exact ⟨_, none, formedOption_iff.1 h.2.2 e (Option.mem_toList.1 mem)⟩
    | _ => rintro _ ⟨⟩
  | select s =>
    have clauses := Select.formed_iff.1 h
    exact ⟨trivial, forall_parts_select.2 ⟨fun c mem => ⟨_, _, clauses.columns c mem⟩, fun src mem => ⟨_, none, clauses.source src mem⟩,
      fun e mem => ⟨_, _, clauses.filter e mem⟩, fun e mem => ⟨_, _, clauses.groupBy e mem⟩, fun e mem => ⟨_, _, clauses.having e mem⟩,
      fun k mem => ⟨_, _, clauses.orderBy k mem⟩, fun e mem => ⟨_, _, clauses.offset e mem⟩, fun e mem => ⟨_, _, clauses.limit e mem⟩⟩⟩
  | projection p =>
    cases p
    exact ⟨trivial, List.forall_mem_cons.2 ⟨⟨Γ, none, h.1⟩, List.forall_mem_singleton.2 ⟨_, _, h.2⟩⟩⟩
  | subquery => exact (plain rfl).elim
  | lambda | query => exact h.elim

end Node

/-- The clauses of a select whose parts are changed one by one. -/
theorem Select.clauses_mapParts {lit : Value → Ty → Prop} {Γ : Context} {s : Select} {g : Expr → Expr} {h : Source → Source}
    (source : ∀ src ∈ s.source, (h src).Formed lit Γ)
    (filter : ∀ e ∈ s.filter, (g e).Formed lit (Γ ++ (s.mapParts g h).context) none)
    (columns : ∀ c ∈ s.columns,
      (g c.expr).Formed lit (Γ ++ (s.mapParts g h).columnContext) (some (Γ ++ (s.mapParts g h).context)))
    (own : ∀ c ∈ s.columns, ∀ r, (g c.expr).column? = some r → r.label ∈ (s.mapParts g h).visible)
    (groupBy : ∀ e ∈ s.groupBy, (g e).Formed lit (Γ ++ (s.mapParts g h).context) none)
    (having : ∀ e ∈ s.having, (g e).Formed lit (Γ ++ (s.mapParts g h).context) (some (Γ ++ (s.mapParts g h).context)))
    (grouped : s.having.isSome = true → s.groupBy ≠ [])
    (orderBy : ∀ k ∈ s.orderBy, (g k.expr).Formed lit (Γ ++ (s.mapParts g h).context) none)
    (offset : ∀ e ∈ s.offset, (g e).Formed lit Γ none)
    (limit : ∀ e ∈ s.limit, (g e).Formed lit Γ none) : (s.mapParts g h).Clauses lit Γ where
  source := by simpa [mapParts] using source
  filter := by simpa [mapParts] using filter
  columns := List.forall_mem_map.2 columns
  own := List.forall_mem_map.2 own
  groupBy := List.forall_mem_map.2 groupBy
  having := by simpa [mapParts] using having
  grouped := by simpa [mapParts] using grouped
  orderBy := List.forall_mem_map.2 orderBy
  offset := by simpa [mapParts] using offset
  limit := by simpa [mapParts] using limit

/-! ## What is in sight -/

namespace Context

theorem sees_append {Γ Δ : Context} {c : ColumnRef} : (Γ ++ Δ).sees c ↔ Γ.sees c ∨ Δ.sees c := by
  simp only [sees, List.mem_append, or_and_right, exists_or]

theorem label_of_sees {Γ : Context} {c : ColumnRef} (h : Γ.sees c) : c.label ∈ Γ.map (·.1) := by
  obtain ⟨heading, mem, -⟩ := h
  exact List.mem_map.2 ⟨_, mem, rfl⟩

end Context

theorem Source.map_context (src : Source) : src.context.map (·.1) = src.visible := by
  induction src using Source.induction with
  | table kind a entity name => rfl
  | raw a sql => rfl
  | select s => rfl
  | join kind l r condition left right => simp [context, visible, left, right]

theorem Source.visible_of_sees {src : Source} {c : ColumnRef} (sees : src.context.sees c) : c.label ∈ src.visible :=
  src.map_context ▸ Context.label_of_sees sees

theorem Select.map_context (s : Select) : s.context.map (·.1) = s.visible := by
  cases h : s.source with
  | none => simp [context, visible, h]
  | some src => simp [context, visible, h, src.map_context]

theorem Select.visible_of_sees {s : Select} {c : ColumnRef} (sees : s.context.sees c) : c.label ∈ s.visible :=
  s.map_context ▸ Context.label_of_sees sees

theorem Select.map_columnContext (s : Select) : s.columnContext.map (·.1) = s.visible := by
  rw [columnContext, ← s.map_context]
  split
  · rw [List.map_map]
    rfl
  · rfl

theorem Select.visible_subset (s : Select) : s.visible ⊆ s.declared := by
  cases found : s.source with
  | none => simp [visible, found]
  | some src =>
    simp only [visible, found, Option.map_some, Option.getD_some]
    exact List.Subset.trans src.visible_subset (s.parts_subset.source src found)

theorem Select.sees_of_columnContext {s : Select} {c : ColumnRef} (h : s.columnContext.sees c) : s.context.sees c := by
  rw [columnContext] at h
  split at h
  · obtain ⟨heading, mem, shows⟩ := h
    obtain ⟨⟨a, inner⟩, found, eq⟩ := List.mem_map.1 mem
    cases eq
    simp only [Bool.and_eq_true] at shows
    exact ⟨inner, found, shows.1⟩
  · exact h

/-- A name that a select shows once has one column. -/
theorem Select.exists_column {s : Select} {name : String} (shows : s.heading name = true) :
    ∃ d, s.columns.filter (·.name == name) = [d] := by
  have one : s.columnNames.count name = 1 := by simpa [heading] using shows
  rw [columnNames, List.count, List.countP_map, List.countP_eq_length_filter] at one
  exact List.length_eq_one_iff.1 one

/-- Of the columns of a select, one is picked by a name that it shows once. -/
theorem Select.any_column {s : Select} {name : String} (shows : s.heading name = true) {d : Named} (mem : d ∈ s.columns)
    (eq : d.name = name) (p : Named → Bool) : (s.columns.any fun c => c.name == name && p c) = p d := by
  obtain ⟨x, only⟩ := exists_column shows
  have : d ∈ s.columns.filter (·.name == name) := List.mem_filter.2 ⟨mem, by simpa using eq⟩
  rw [only, List.mem_singleton] at this
  subst this
  rw [← List.any_filter, only]
  simp

/-- A row of a select by name. -/
theorem Select.lookup_column {D : Type} {s : Select} {name : String} (shows : s.heading name = true) {d : Named}
    (mem : d ∈ s.columns) (eq : d.name = name) (value : Named → D) :
    (s.columns.map fun c => (c.name, value c)).lookup name = some (value d) := by
  obtain ⟨x, only⟩ := exists_column shows
  have : d ∈ s.columns.filter (·.name == name) := List.mem_filter.2 ⟨mem, by simpa using eq⟩
  rw [only, List.mem_singleton] at this
  subst this
  generalize s.columns = l at only
  induction l with
  | nil => simp at only
  | cons c l ih =>
    rw [List.map_cons, List.lookup_cons]
    rw [List.filter_cons] at only
    cases same : c.name == name with
    | true =>
      rw [same, if_pos rfl] at only
      rw [(List.cons.inj only).1, show (name == d.name) = true by simp [eq]]
    | false =>
      rw [same, if_neg (by simp)] at only
      have : (name == c.name) = false := by rw [beq_eq_false_iff_ne] at same ⊢; exact Ne.symm same
      rw [this]
      exact ih only

end Relational

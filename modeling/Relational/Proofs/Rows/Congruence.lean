import Relational.Proofs.Rows.Formed
import Relational.Proofs.Tree.Traversal

/-!
# Trees that mean the same

Two nodes of one shape mean the same at related rows if their parts do. Which rows are related may change on the way in, where a source
adds rows to those in sight; where it does not, this is one statement about all kinds of nodes (`Node.Related.alike`).
-/

namespace Relational

variable {D : Type}

/-- Rows are related, perhaps in another way, when the same row is added to them under these aliases. -/
def Env.Adds (R S : Env D → Env D → Prop) (as : List Alias) : Prop :=
  ∀ ρ ρ', R ρ ρ' → ∀ row, S (ρ.setAll as row) (ρ'.setAll as row)

theorem Env.set_eq (ρ : Env D) (a : Alias) (row : String → D) : ρ.set a row = ρ.setAll [a] row := by
  funext b
  simp [set, setAll]

/-! ## What it is to mean the same -/

section Alike

variable (I : Interpretation D) (db : Database D) (R S : Env D → Env D → Prop)

/-- Expressions of the same value at related rows, where the rows are related that aggregates range over. -/
structure Expr.Alike (e e' : Expr) : Prop where
  hasAggregate : e'.hasAggregate = e.hasAggregate
  eval : ∀ {ρ ρ' g g'}, R ρ ρ' → List.Forall₂ S g g' → e'.eval I db ρ' g' = e.eval I db ρ g

def Subquery.Alike (q q' : Subquery) : Prop :=
  ∀ {ρ ρ' g g'}, R ρ ρ' → List.Forall₂ S g g' → q'.eval I db ρ' g' = q.eval I db ρ g

structure Source.RowsAlike (src src' : Source) : Prop where
  visible : src'.visible = src.visible
  rows : ∀ {ρ ρ'}, R ρ ρ' → List.Forall₂ S (src.rows I db ρ) (src'.rows I db ρ')

structure Select.Alike (s s' : Select) : Prop where
  label : s'.label = s.label
  rows : ∀ {ρ ρ'}, R ρ ρ' → s'.rows I db ρ' = s.rows I db ρ

structure Projection.Alike (p p' : Projection) : Prop where
  aggregator : p'.aggregator = p.aggregator
  values : ∀ {ρ ρ'}, R ρ ρ' → p'.values I db ρ' = p.values I db ρ

def Node.Alike : Node → Node → Prop
  | expr e, expr e' => e.Alike I db R S e'
  | subquery q, subquery q' => q.Alike I db R S q'
  | source src, source src' => src.RowsAlike I db R S src'
  | select s, select s' => s.Alike I db R s'
  | projection p, projection p' => p.Alike I db R p'
  | _, _ => False

end Alike

variable {I : Interpretation D} {db : Database D} {R S T : Env D → Env D → Prop} {ρ ρ' : Env D}

theorem Expr.Alike.row {e e' : Expr} (h : e.Alike I db S S e') (related : S ρ ρ') : e'.eval I db ρ' [ρ'] = e.eval I db ρ [ρ] :=
  h.eval related (.cons related .nil)

theorem evalOption_alike {o o' : Option Expr} (h : Option.Rel (Expr.Alike I db R S) o o') {g g' : List (Env D)} (related : R ρ ρ')
    (rows : List.Forall₂ S g g') : evalOption I db ρ' g' o' = evalOption I db ρ g o := by
  rw [evalOption_eq, evalOption_eq]
  exact map_eq_of_rel h fun _ _ _ _ part => part.eval related rows

theorem sourceRows_alike {o o' : Option Source} (h : Option.Rel (Source.RowsAlike I db R S) o o') (none : o = none → S ρ ρ') (related : R ρ ρ') :
    List.Forall₂ S (sourceRows I db ρ o) (sourceRows I db ρ' o') := by
  cases h with
  | none => exact .cons (none rfl) .nil
  | some part => exact part.rows related

/-! ## Expressions -/

theorem Expr.shape_operator {e : Expr} (op : e.isOperator = true) : e.shape = e.withOperands (e.operands.map fun _ => default) := by
  cases e <;> simp only [isOperator, Bool.false_eq_true] at op <;> rw [← mapOperands_eq] <;> rfl

theorem Expr.isOperator_of_shape {e e' : Expr} (shape : e'.shape = e.shape) : e'.isOperator = e.isOperator := by
  have same (e : Expr) : e.shape.isOperator = e.isOperator := by cases e <;> rfl
  rw [← same, shape, same]

/-- Operators of one shape differ in their operands alone. -/
theorem Expr.eq_withOperands {e e' : Expr} (op : e.isOperator = true) (shape : e'.shape = e.shape)
    (length : e'.operands.length = e.operands.length) : e' = e.withOperands e'.operands := by
  have op' := (isOperator_of_shape shape).trans op
  calc e' = e'.withOperands e'.operands := e'.withOperands_self.symm
    _ = e'.shape.withOperands e'.operands := by rw [shape_operator op', withOperands_withOperands op' (by simp) rfl]
    _ = e.withOperands e'.operands := by rw [shape, shape_operator op, withOperands_withOperands op (by simp) length]

/-- Operators mean the same if their operands do. -/
theorem Expr.alike_operator {e e' : Expr} (op : e.isOperator = true) (shape : e'.shape = e.shape)
    (operands : List.Forall₂ (Expr.Alike I db R S) e.operands e'.operands) : e.Alike I db R S e' where
  hasAggregate := by
    rw [hasAggregate_operator op, hasAggregate_operator ((isOperator_of_shape shape).trans op),
      any_eq_of_related operands fun _ _ _ _ part => part.hasAggregate]
  eval related rows := by
    rw [eq_withOperands op shape operands.length_eq.symm]
    exact eval_withOperands I db op (map_eq_of_forall₂ operands fun _ _ part => part.eval related rows)

/-- Aggregates range over rows that are related in the second way. -/
theorem Expr.alike_aggregate {kind : AggregateKind} {x x' : Option Expr} {distinct : Bool} {t : Ty} (h : Option.Rel (Expr.Alike I db S S) x x') :
    (Expr.aggregate kind x distinct t).Alike I db R S (.aggregate kind x' distinct t) where
  hasAggregate := rfl
  eval _ rows := by
    rw [Expr.eval, Expr.eval, map_eq_of_forall₂ rows fun σ σ' related => evalOption_alike h related (.cons related .nil)]

namespace Node.Related

theorem alike_plain {n n' : Node} (h : Related (Node.Alike I db R S) n n') (plain : n.isPlain = true) : n.Alike I db R S n' := by
  obtain ⟨shape, parts⟩ := h
  cases n <;> cases n' <;> simp only [isPlain, Bool.false_eq_true] at plain <;> simp only [Node.shape, reduceCtorEq, expr.injEq, subquery.injEq] at shape
  case expr e e' =>
    by_cases op : e.isOperator = true
    · rw [parts_operator op, parts_operator ((Expr.isOperator_of_shape shape).trans op), List.forall₂_map_left_iff, List.forall₂_map_right_iff] at parts
      exact Expr.alike_operator op shape parts
    · cases e <;> simp [Expr.isOperator] at op plain <;> cases e' <;> simp only [Expr.shape, Expr.mapOperands, reduceCtorEq] at shape
      case subquery =>
        rcases parts with _ | ⟨part, _⟩
        exact ⟨rfl, part⟩
      case projection =>
        rcases parts with _ | ⟨part, _⟩
        refine ⟨rfl, fun related _ => ?_⟩
        rw [Expr.eval, Expr.eval, part.aggregator, part.values related]
      all_goals
        cases shape
        exact ⟨rfl, fun _ _ => rfl⟩
  case subquery q q' =>
    intro ρ ρ' g g' related rows
    cases q <;> cases q' <;> simp only [Subquery.shape, reduceCtorEq] at shape
    case inSelect =>
      rcases parts with _ | ⟨first, _ | ⟨second, _⟩⟩
      rw [Subquery.eval, Subquery.eval, first.eval related rows, second.rows related]
    case inValues =>
      rcases parts with _ | ⟨first, rest⟩
      rw [List.forall₂_map_left_iff, List.forall₂_map_right_iff] at rest
      have values := map_eq_of_forall₂ rest fun _ _ part => Expr.Alike.eval part related rows
      rw [Subquery.eval, Subquery.eval, first.eval related rows, evalAll_eq, evalAll_eq, values]
    all_goals
      rcases parts with _ | ⟨part, _⟩
      rw [Subquery.eval, Subquery.eval, part.rows related]

end Node.Related

/-! ## Sources and projections -/

/-- Sources that add the same rows. -/
theorem Source.RowsAlike.adding {src src' : Source} {a : Alias} {given given' : Env D → List (String → D)} (visible : src'.visible = src.visible)
    (adds : Env.Adds R S [a]) (left : ∀ ρ, src.rows I db ρ = (given ρ).map fun row => ρ.set a row)
    (right : ∀ ρ, src'.rows I db ρ = (given' ρ).map fun row => ρ.set a row) (same : ∀ {ρ ρ'}, R ρ ρ' → given' ρ' = given ρ) :
    src.RowsAlike I db R S src' where
  visible := visible
  rows related := by
    simp only [left, right, same related, Env.set_eq]
    rw [List.forall₂_map_left_iff, List.forall₂_map_right_iff, List.forall₂_same]
    exact fun row _ => adds _ _ related row

theorem Source.alike_select {s s' : Select} (h : s.Alike I db R s') (adds : Env.Adds R S [s.label]) :
    (Source.select s).RowsAlike I db R S (.select s') := by
  refine .adding (congrArg (fun a => [a]) h.label) adds (fun ρ => ?_) (fun ρ => ?_) fun related => congrArg (List.map I.named) (h.rows related)
  all_goals simp [Source.rows, List.map_map, Function.comp_def, h.label]

theorem Source.alike_table {kind : SourceKind} {a : Alias} {entity name : String} (adds : Env.Adds R S [a]) :
    (Source.table kind a entity name).RowsAlike I db R S (.table kind a entity name) :=
  .adding rfl adds (fun _ => rfl) (fun _ => rfl) fun _ => rfl

theorem Source.alike_raw {a : Alias} {sql : String} (adds : Env.Adds R S [a]) : (Source.raw a sql).RowsAlike I db R S (.raw a sql) :=
  .adding rfl adds (fun _ => rfl) (fun _ => rfl) fun _ => rfl

theorem Source.alike_join {kind : JoinKind} {l l' r r' : Source} {condition condition' : Option Expr} (left : l.RowsAlike I db R S l')
    (right : r.RowsAlike I db S T r') (test : Option.Rel (Expr.Alike I db T T) condition condition') (adds : Env.Adds S T r.visible) :
    (Source.join kind l r condition).RowsAlike I db R T (.join kind l' r' condition') where
  visible := by rw [visible, visible, left.visible, right.visible]
  rows related := by
    rw [Source.rows, Source.rows, right.visible]
    refine joinRows_related (left.rows related) (fun σ σ' related => right.rows related) (fun τ τ' related => ?_) fun σ σ' related => adds σ σ' related _
    rw [evalOption_alike test related (.cons related .nil)]

theorem Projection.alike_parts {s s' : Select} {e e' : Expr} {a : Option Aggregator} (select : s.Alike I db R s') (projector : e.Alike I db S S e')
    (adds : Env.Adds R S [s.label]) : (Projection.mk s e a).Alike I db R ⟨s', e', a⟩ where
  aggregator := rfl
  values related := by
    simp only [Projection.values, Env.set_eq, select.label, select.rows related]
    exact List.map_congr_left fun row _ => projector.row (adds _ _ related _)

/-! ## Selects -/

namespace Select

variable {s s' : Select}

theorem emptyRow_of_total (h : s.isTotal = true) : s.emptyRow I ρ = some (ρ.setAll s.visible fun _ => I.null) := by
  have : (s.groupBy.isEmpty && s.hasAggregates) = true := h
  rw [emptyRow, if_pos this]
  rfl

theorem emptyRow_of_not_total (h : s.isTotal = false) : s.emptyRow I ρ = none := by
  have : ¬(s.groupBy.isEmpty && s.hasAggregates) = true := Bool.eq_false_iff.1 h
  rw [emptyRow, if_neg this]

variable (I db) in
/-- Selects whose clauses mean the same, columns and source apart: the clauses at rows that are related in a second way, and what is looked
at once for all rows of a group at rows that are related in a third way. -/
structure ClausesAlike (R S T : Env D → Env D → Prop) (s s' : Select) : Prop where
  isTotal : s'.isTotal = s.isTotal
  filter : Option.Rel (Expr.Alike I db S S) s.filter s'.filter
  groupBy : List.Forall₂ (Expr.Alike I db S S) s.groupBy s'.groupBy
  having : Option.Rel (Expr.Alike I db T S) s.having s'.having
  orderBy : List.Forall₂ (fun k k' => k'.descending = k.descending ∧ k.expr.Alike I db S S k'.expr) s.orderBy s'.orderBy
  offset : Option.Rel (Expr.Alike I db R R) s.offset s'.offset
  limit : Option.Rel (Expr.Alike I db R R) s.limit s'.limit
  distinct : s'.distinct = s.distinct
  head : ∀ σ σ', S σ σ' → T σ σ'
  empty : s.isTotal = true → ∀ {ρ ρ'}, R ρ ρ' → T (ρ.setAll s.visible fun _ => I.null) (ρ'.setAll s'.visible fun _ => I.null)

namespace ClausesAlike

/-- The row that is shown of a group, or of no rows. -/
theorem first (h : s.ClausesAlike I db R S T s') (related : R ρ ρ') {g g' : List (Env D)} (rows : List.Forall₂ S g g') :
    Option.Rel T (g.head?.or (s.emptyRow I ρ)) (g'.head?.or (s'.emptyRow I ρ')) := by
  cases rows with
  | cons head _ => exact .some (h.head _ _ head)
  | nil =>
    cases total : s.isTotal with
    | true =>
      rw [emptyRow_of_total total, emptyRow_of_total (h.isTotal.trans total)]
      exact .some (h.empty total related)
    | false =>
      rw [emptyRow_of_not_total total, emptyRow_of_not_total (h.isTotal.trans total)]
      exact .none

/-- The stages of the selects cannot tell rows apart that are related. -/
theorem simulates_bare (h : s.ClausesAlike I db R S T s') (related : R ρ ρ') : (s.stage I db ρ).bare.Simulates S (s'.stage I db ρ').bare where
  filter σ σ' related := by simp only [Stage.bare, stage, evalOption_alike h.filter related (.cons related .nil)]
  grouping := by
    have groups := isEmpty_of_forall₂ h.groupBy
    have kind := h.isTotal
    simp only [Select.isTotal, groups] at kind
    simp only [Stage.bare, stage, groups]
    split
    · refine .keyed fun σ σ' related => ?_
      rw [evalAll_eq, evalAll_eq, map_eq_of_forall₂ h.groupBy fun _ _ part => part.row related]
    · next grouped =>
      have none : s.groupBy.isEmpty = true := by simpa using grouped
      rw [none, Bool.true_and, Bool.true_and] at kind
      rw [kind]
      split
      · exact .all
      · exact .each
  having g g' rows := by
    have same := map_eq_of_rel (h.first related rows) fun σ _ σ' _ head => congrArg I.holds (evalOption_alike h.having head rows)
    exact congrArg (Option.getD · true) same.symm
  columns _ _ _ := rfl
  order := by
    simp only [Stage.bare, stage, evalKeys_eq]
    rw [List.forall₂_map_left_iff, List.forall₂_map_right_iff]
    refine h.orderBy.imp fun k k' part => ⟨fun g g' rows => ?_, part.1.symm⟩
    cases rows with
    | nil => rfl
    | cons head tail => exact (part.2.eval head (.cons head tail)).symm
  distinct := h.distinct.symm
  offset := by simp only [Stage.bare, stage, evalOption_alike h.offset related (.cons related .nil)]
  limit := by simp only [Stage.bare, stage, evalOption_alike h.limit related (.cons related .nil)]

theorem simulates (h : s.ClausesAlike I db R S T s')
    (columns : List.Forall₂ (fun c c' => c'.name = c.name ∧ c.expr.Alike I db T S c'.expr) s.columns s'.columns) (related : R ρ ρ') :
    (s.stage I db ρ).Simulates S (s'.stage I db ρ') := by
  obtain ⟨filter, grouping, having, -, order, distinct, offset, limit⟩ := h.simulates_bare related
  refine ⟨filter, grouping, having, fun g g' rows => ?_, order, distinct, offset, limit⟩
  refine congrArg (Option.getD · []) (map_eq_of_rel (h.first related rows) fun σ _ σ' _ head => ?_).symm
  rw [evalNamed_eq, evalNamed_eq]
  exact map_eq_of_forall₂ columns fun c c' part => Prod.ext part.1 (part.2.eval head rows)

/-- Selects whose columns mean the same too have the same rows. -/
theorem rows_eq (h : s.ClausesAlike I db R S T s')
    (columns : List.Forall₂ (fun c c' => c'.name = c.name ∧ c.expr.Alike I db T S c'.expr) s.columns s'.columns) (related : R ρ ρ')
    (rows : List.Forall₂ S (sourceRows I db ρ s.source) (sourceRows I db ρ' s'.source)) : s'.rows I db ρ' = s.rows I db ρ := by
  rw [Select.rows_eq, Select.rows_eq, (h.simulates columns related).run_eq I.toComparison rows]

end ClausesAlike

end Select

/-! ## Rows that are related in one way all through -/

/-- Selects have aggregates alike if their clauses have. -/
theorem SelectRelated.hasAggregates {F : Source → Source → Prop} {s s' : Select} (h : SelectRelated (fun e e' => e'.hasAggregate = e.hasAggregate) F s s') :
    s'.hasAggregates = s.hasAggregates := by
  rw [Select.hasAggregates, Select.hasAggregates, any_eq_of_related h.columns fun _ _ _ _ part => part.2,
    map_eq_of_rel h.having fun _ _ _ _ part => part, any_eq_of_related h.orderBy fun _ _ _ _ part => part.2]

/-- Nodes of one shape mean the same if their parts do, whatever rows are related. -/
theorem Node.Related.alike (adds : ∀ as, Env.Adds R R as) {n n' : Node} (bound : n.isBound = true) (other : ∀ q, n ≠ expr (.query q))
    (column : ∀ c, n = expr (.column c) → ∀ ρ ρ', R ρ ρ' → ρ' c.label c.name = ρ c.label c.name)
    (h : Related (Node.Alike I db R R) n n') : n.Alike I db R R n' := by
  by_cases plain : n.isPlain = true
  · exact h.alike_plain plain
  cases n <;> cases n' <;> (have shape := h.shape) <;> simp only [isBound, Bool.false_eq_true] at bound <;>
    simp only [Node.shape, reduceCtorEq, expr.injEq, source.injEq, projection.injEq, Projection.mk.injEq] at shape
  case expr e e' =>
    have parts := h.parts
    cases e <;> simp only [isPlain, not_true_eq_false] at plain <;> cases e' <;> simp only [Expr.shape, Expr.mapOperands, reduceCtorEq] at shape
    case column c c' =>
      cases shape
      exact ⟨rfl, fun related _ => column c rfl _ _ related⟩
    case query => exact absurd rfl (other _)
    case aggregate kind x distinct t kind' x' distinct' t' =>
      simp only [Expr.aggregate.injEq] at shape
      obtain ⟨rfl, -, rfl, rfl⟩ := shape
      exact Expr.alike_aggregate (rel_of_forall₂ parts)
  case source src src' =>
    have parts := h.parts
    cases src <;> cases src' <;> simp only [Source.shape, reduceCtorEq] at shape
    case join =>
      simp only [Source.join.injEq] at shape
      obtain ⟨rfl, -⟩ := shape
      rcases parts with _ | ⟨left, _ | ⟨right, test⟩⟩
      exact Source.alike_join left right (rel_of_forall₂ test) (adds _)
    case select =>
      rcases parts with _ | ⟨part, _⟩
      exact Source.alike_select part (adds _)
    case table => cases shape; exact Source.alike_table (adds _)
    case raw => cases shape; exact Source.alike_raw (adds _)
  case select s s' =>
    have parts := h.select
    have aggregates : s'.hasAggregates = s.hasAggregates := SelectRelated.hasAggregates (parts.imp (fun _ _ part => part.hasAggregate) fun _ _ => id)
    have visible : s'.visible = s.visible := by
      rw [Select.visible, Select.visible, map_eq_of_rel parts.source fun _ _ _ _ part => part.visible]
    have clauses : s.ClausesAlike I db R R R s' :=
      ⟨by rw [Select.isTotal, Select.isTotal, aggregates, isEmpty_of_forall₂ parts.groupBy], parts.filter, parts.groupBy, parts.having,
        parts.orderBy, parts.offset, parts.limit, parts.distinct, fun _ _ => id, fun _ _ _ related => visible ▸ adds _ _ _ related _⟩
    exact ⟨parts.label, fun related => clauses.rows_eq parts.columns related (sourceRows_alike parts.source (fun _ => related) related)⟩
  case projection p p' =>
    obtain ⟨s, e, a⟩ := p
    obtain ⟨s', e', a'⟩ := p'
    obtain ⟨-, -, rfl⟩ := shape
    rcases h.parts with _ | ⟨select, _ | ⟨projector, _⟩⟩
    exact Projection.alike_parts select projector (adds _)
  case subquery => exact (plain rfl).elim

theorem Node.Related.alike_eq {n n' : Node} (bound : n.isBound = true) (other : ∀ q, n ≠ expr (.query q))
    (h : Related (Node.Alike I db Eq Eq) n n') : n.Alike I db Eq Eq n' := by
  refine h.alike ?_ bound other ?_
  · rintro as ρ _ rfl row
    rfl
  · rintro c - ρ _ rfl
    rfl

end Relational

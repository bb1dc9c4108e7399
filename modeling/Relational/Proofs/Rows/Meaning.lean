import Relational.Proofs.Rows.Stage
import Relational.Proofs.Tree.Parts

/-!
# The rows of a select

What a projection means over a database. Operators, aggregates and comparisons are those of an interpretation, which may be
any functions on any values; what is fixed here is how rows flow. A source gives its rows in order, a
join pairs each row of its left side with the matching rows of its right side, and a select sends the
rows of its source through its stages. Subqueries and nested projections are answered again for each
row, of which they may read every column in sight.
-/

namespace Relational

variable {D : Type}

/-- Values and the operations on them. -/
structure Interpretation (D : Type) extends Comparison D where
  null : D
  isTrue : D → Bool
  ofBool : Bool → D
  constant : Value → Ty → D
  param : String → D
  query : Query → D
  binary : BinaryOp → D → D → D
  unary : UnaryOp → D → D
  member : D → String → D
  call : Method → D → List D → D
  conditional : D → D → D → D
  record : RecordTy → List (String × D) → D
  convert : D → Ty → D
  function : String → List D → Ty → D
  group : D → D → D
  /-- The aggregate of its argument over the rows of a group; no argument for a count of rows. -/
  aggregate : AggregateKind → Bool → Ty → List (Option D) → D
  isIn : D → List D → D
  /-- The value that the rows of a projection make. -/
  collect : Option Aggregator → List D → D
  limit : D → Option Nat
  offset : D → Nat

/-- Whether a condition holds; one that is not there does. -/
def Interpretation.holds (I : Interpretation D) (condition : Option D) : Bool := (condition.map I.isTrue).getD true

/-- The columns in sight: for each alias the row that it stands for. -/
abbrev Env (D : Type) := Alias → String → D

namespace Env

def set (ρ : Env D) (a : Alias) (row : String → D) : Env D := fun b => if b = a then row else ρ b

/-- The same row for several aliases. -/
def setAll (ρ : Env D) (as : List Alias) (row : String → D) : Env D := fun b => if b ∈ as then row else ρ b

end Env

structure Database (D : Type) where
  table : String → List (String → D)
  raw : String → List (String → D)

/-- A row by the names of its columns. -/
def Interpretation.named (I : Interpretation D) (row : List (String × D)) : String → D :=
  fun name => (row.lookup name).getD I.null

variable (I : Interpretation D) (db : Database D)

mutual

/-- The value of an expression at a row, where aggregates range over the rows of a group. -/
def Expr.eval (ρ : Env D) (g : List (Env D)) : Expr → D
  | .param name => I.param name
  | .variable _ v t | .constant v t | .hostParameter v t => I.constant v t
  | .binary op l r => I.binary op (l.eval ρ g) (r.eval ρ g)
  | .unary op x => I.unary op (x.eval ρ g)
  | .member x name => I.member (x.eval ρ g) name
  | .call m x args => I.call m (x.eval ρ g) (evalAll ρ g args)
  | .conditional test yes no => I.conditional (test.eval ρ g) (yes.eval ρ g) (no.eval ρ g)
  | .record r ms => I.record r (evalNamed ρ g ms)
  | .convert x t => I.convert (x.eval ρ g) t
  | .query q => I.query q
  | .column c => ρ c.label c.name
  | .aggregate kind x distinct t => I.aggregate kind distinct t (g.map fun ρ' => evalOption ρ' [ρ'] x)
  | .subquery s => s.eval ρ g
  | .function name args t => I.function name (evalAll ρ g args) t
  | .projection p => I.collect p.aggregator (p.values ρ)
  | .group key elements => I.group (key.eval ρ g) (elements.eval ρ g)

def evalAll (ρ : Env D) (g : List (Env D)) : List Expr → List D
  | [] => []
  | e :: es => e.eval ρ g :: evalAll ρ g es

def evalOption (ρ : Env D) (g : List (Env D)) : Option Expr → Option D
  | none => none
  | some e => some (e.eval ρ g)

def evalNamed (ρ : Env D) (g : List (Env D)) : List Named → List (String × D)
  | [] => []
  | ⟨name, e⟩ :: ms => (name, e.eval ρ g) :: evalNamed ρ g ms

/-- The sort keys of a group. A group without rows stands alone, so it needs none. -/
def evalKeys : List OrderKey → Criteria (List (Env D)) D
  | [] => []
  | ⟨e, descending⟩ :: ks =>
    (fun g => (g.head?.map fun ρ => e.eval ρ g).getD I.null, descending) :: evalKeys ks

def Subquery.eval (ρ : Env D) (g : List (Env D)) : Subquery → D
  | .scalar s _ => (((s.rows ρ).head?.bind List.head?).map (·.2)).getD I.null
  | .exists s => I.ofBool (!(s.rows ρ).isEmpty)
  | .inSelect e s => I.isIn (e.eval ρ g) ((s.rows ρ).filterMap fun row => row.head?.map (·.2))
  | .inValues e vs => I.isIn (e.eval ρ g) (evalAll ρ g vs)

/-- The rows of a source, each added to the columns in sight. -/
def Source.rows (ρ : Env D) : Source → List (Env D)
  | .table _ a _ name => (db.table name).map fun row => ρ.set a row
  | .raw a sql => (db.raw sql).map fun row => ρ.set a row
  | .select s => (s.rows ρ).map fun row => ρ.set s.label (I.named row)
  | .join kind l r condition =>
    joinRows kind (fun ρ' => r.rows ρ') (fun ρ' => I.holds (evalOption ρ' [ρ'] condition))
      (fun ρ' => ρ'.setAll r.visible fun _ => I.null) (l.rows ρ)

def sourceRows (ρ : Env D) : Option Source → List (Env D)
  | none => [ρ]
  | some s => s.rows ρ

/-- The rows of a select. What it shows of a group is read off the first row of the group; aggregates over no rows at
all are shown beside absent values. -/
def Select.rows (ρ : Env D) : Select → List (List (String × D))
  | ⟨label, columns, source, filter, groupBy, having, orderBy, offset, limit, distinct⟩ =>
    let s : Select := ⟨label, columns, source, filter, groupBy, having, orderBy, offset, limit, distinct⟩
    let empty : Option (Env D) :=
      if groupBy.isEmpty && s.hasAggregates then
        some (ρ.setAll ((source.map Source.visible).getD []) fun _ => I.null)
      else none
    let stage : Stage (Env D) D :=
      { filter := fun ρ' => I.holds (evalOption ρ' [ρ'] filter)
        grouping :=
          if !groupBy.isEmpty then .keyed fun ρ' => evalAll ρ' [ρ'] groupBy
          else if s.hasAggregates then .all
          else .each
        having := fun g => ((g.head?.or empty).map fun ρ' => I.holds (evalOption ρ' g having)).getD true
        columns := fun g => ((g.head?.or empty).map fun ρ' => evalNamed ρ' g columns).getD []
        order := evalKeys orderBy
        distinct := distinct
        offset := ((evalOption ρ [ρ] offset).map I.offset).getD 0
        limit := (evalOption ρ [ρ] limit).bind I.limit }
    stage.run I.toComparison (sourceRows ρ source)

/-- The values of a projection, one for each row. -/
def Projection.values (ρ : Env D) : Projection → List D
  | ⟨s, e, _⟩ => (s.rows ρ).map fun row => e.eval (ρ.set s.label (I.named row)) [ρ.set s.label (I.named row)]

end

section Parts

variable (ρ : Env D) (g : List (Env D))

@[simp] theorem evalAll_eq (es : List Expr) : evalAll I db ρ g es = es.map (Expr.eval I db ρ g) := by
  induction es with
  | nil => rfl
  | cons e es ih => rw [evalAll, ih, List.map_cons]

@[simp] theorem evalOption_eq (o : Option Expr) : evalOption I db ρ g o = o.map (Expr.eval I db ρ g) := by
  cases o <;> rfl

@[simp] theorem evalNamed_eq (ms : List Named) :
    evalNamed I db ρ g ms = ms.map fun m => (m.name, m.expr.eval I db ρ g) := by
  induction ms with
  | nil => rfl
  | cons m ms ih => cases m; rw [evalNamed, ih, List.map_cons]

/-- The value of an operator depends on the values of its operands. -/
theorem Expr.eval_withOperands {ρ ρ' : Env D} {g g' : List (Env D)} {e : Expr} {es : List Expr} (operates : e.isOperator = true)
    (same : es.map (Expr.eval I db ρ' g') = e.operands.map (Expr.eval I db ρ g)) :
    (e.withOperands es).eval I db ρ' g' = e.eval I db ρ g := by
  have length : es.length = e.operands.length := by simpa using congrArg List.length same
  cases e <;> simp only [isOperator, Bool.false_eq_true] at operates <;> simp only [operands] at same length
  case record r ms =>
    have named : (ms.zip es).map (fun m => (m.1.name, m.2.eval I db ρ' g')) =
        ms.map fun m => (m.name, m.expr.eval I db ρ g) := by
      rw [List.map_map] at same
      calc (ms.zip es).map (fun m => (m.1.name, m.2.eval I db ρ' g'))
          = (ms.map (·.name)).zip (es.map (Expr.eval I db ρ' g')) := List.zip_map.symm
        _ = (ms.map (·.name)).zip (ms.map fun m => m.expr.eval I db ρ g) := congrArg _ same
        _ = ms.map fun m => (m.name, m.expr.eval I db ρ g) := List.zip_map'
    simp only [withOperands, eval, evalNamed_eq, List.map_map, Function.comp_def, named]
  case function name args t => simp only [withOperands, eval, evalAll_eq, same]
  case call m x args =>
    cases es with
    | nil => cases length
    | cons y es =>
      simp only [List.map_cons, List.cons.injEq] at same
      simp only [withOperands, eval, evalAll_eq, same]
  case conditional test yes no =>
    obtain ⟨_, _, _, rfl⟩ := List.length_eq_three.1 length
    simp only [List.map_cons, List.map_nil, List.cons.injEq, and_true] at same
    simp only [withOperands, eval, same]
  case binary op l r =>
    obtain ⟨_, _, rfl⟩ := List.length_eq_two.1 length
    simp only [List.map_cons, List.map_nil, List.cons.injEq, and_true] at same
    simp only [withOperands, eval, same]
  case group key elements =>
    obtain ⟨_, _, rfl⟩ := List.length_eq_two.1 length
    simp only [List.map_cons, List.map_nil, List.cons.injEq, and_true] at same
    simp only [withOperands, eval, same]
  all_goals
    obtain ⟨_, rfl⟩ := List.length_eq_one_iff.1 length
    simp only [List.map_cons, List.map_nil, List.cons.injEq, and_true] at same
    simp only [withOperands, eval, same]

theorem Expr.eval_mapOperands {ρ ρ' : Env D} {g g' : List (Env D)} {e : Expr} {h : Expr → Expr}
    (operates : e.isOperator = true) (same : ∀ x ∈ e.operands, (h x).eval I db ρ' g' = x.eval I db ρ g) :
    (e.mapOperands h).eval I db ρ' g' = e.eval I db ρ g := by
  rw [mapOperands_eq]
  apply eval_withOperands I db operates
  rw [List.map_map]
  exact List.map_congr_left same

/-- The sort key of an expression: its value at the first row of a group. -/
def Expr.sortKey (e : Expr) (g : List (Env D)) : D := (g.head?.map fun ρ => e.eval I db ρ g).getD I.null

@[simp] theorem evalKeys_eq (ks : List OrderKey) :
    evalKeys I db ks = ks.map fun k => (k.expr.sortKey I db, k.descending) := by
  induction ks with
  | nil => rfl
  | cons k ks ih => cases k; rw [evalKeys, ih, List.map_cons]; rfl

end Parts

/-- The row that a select without groups shows where its aggregates range over no rows. -/
def Select.emptyRow (ρ : Env D) (s : Select) : Option (Env D) :=
  if s.groupBy.isEmpty && s.hasAggregates then
    some (ρ.setAll ((s.source.map Source.visible).getD []) fun _ => I.null)
  else none

/-- What a select does with the rows of its source. -/
def Select.stage (ρ : Env D) (s : Select) : Stage (Env D) D where
  filter ρ' := I.holds (evalOption I db ρ' [ρ'] s.filter)
  grouping :=
    if !s.groupBy.isEmpty then .keyed fun ρ' => evalAll I db ρ' [ρ'] s.groupBy
    else if s.hasAggregates then .all
    else .each
  having g := ((g.head?.or (s.emptyRow I ρ)).map fun ρ' => I.holds (evalOption I db ρ' g s.having)).getD true
  columns g := ((g.head?.or (s.emptyRow I ρ)).map fun ρ' => evalNamed I db ρ' g s.columns).getD []
  order := evalKeys I db s.orderBy
  distinct := s.distinct
  offset := ((evalOption I db ρ [ρ] s.offset).map I.offset).getD 0
  limit := (evalOption I db ρ [ρ] s.limit).bind I.limit

theorem Select.rows_eq (ρ : Env D) (s : Select) :
    s.rows I db ρ = (s.stage I db ρ).run I.toComparison (sourceRows I db ρ s.source) := by
  cases s
  rfl

theorem Select.stage_having_none {s : Select} (h : s.having = none) (ρ : Env D) (g : List (Env D)) :
    (s.stage I db ρ).having g = true := by
  simp only [stage, h, evalOption_eq, Option.map_none]
  cases g.head?.or (s.emptyRow I ρ) <;> rfl

end Relational

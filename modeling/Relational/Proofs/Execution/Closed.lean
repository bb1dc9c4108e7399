import Mathlib.Logic.Relation
import Relational.Proofs.Compilation.Folding
import Relational.Proofs.Scoping.Literals
import Relational.Session

/-!
# Executions of nested projections

A projection that is run starts those that are nested in its projector, once for each row, with the values of the row in the place of its columns
(`Projection.Starts`). If the projection is accepted by the scope check, declares no alias twice and refers to no column that a
select does not have, then so is every projection that is started, at every depth and whatever the
rows are (`Projection.Closed.starts`). So a reader is never refused for a column that is not there,
and no statement that is executed mentions an alias of another one
(`Executor.run_closed`).
-/

namespace Relational

/-- The projections that a reader of an expression runs. -/
inductive Expr.Nests : Expr → Projection → Prop where
  | projection (p : Projection) : Nests (.projection p) p
  | operand {e x : Expr} {p : Projection} (op : e.isOperator = true) (mem : x ∈ e.operands) (inner : Nests x p) : Nests e p

/-- What is run for a row with these values. -/
def Projection.Starts (p q : Projection) : Prop :=
  ∃ (t : Projection) (values : List (ColumnRef × Value)), p.projector.Nests t ∧
    values.map (·.1) = t.outerColumns p.select.label ∧ q = t.withRow values

/-- References to selects name columns that these have. -/
def Projection.NamesColumns (p : Projection) : Prop :=
  ∀ c ∈ p.collect columnRefs, ∀ heading ∈ p.collect headings, heading.1 = c.label → c.name ∈ heading.2

/-- A statement that can be run on its own. -/
structure Projection.Closed (p : Projection) : Prop where
  accepted : p.check = .ok ⟨⟩
  nodup : p.declared.Nodup
  names : p.NamesColumns

theorem Expr.Nests.collect_subset {α : Type} (C : Collector α) {e : Expr} {p : Projection} (h : e.Nests p) : p.collect C ⊆ e.collect C := by
  induction h with
  | projection p => exact List.Subset.refl _
  | operand op mem _ ih =>
    rw [Expr.collect_operator C op]
    exact fun a found => List.mem_flatMap.2 ⟨_, mem, ih found⟩

theorem Expr.Nests.declared_nodup {e : Expr} {p : Projection} (h : e.Nests p) (nodup : e.declared.Nodup) : p.declared.Nodup := by
  induction h with
  | projection p => exact nodup
  | operand op mem _ ih =>
    rw [Expr.declared, Expr.collect_operator _ op, List.nodup_flatMap] at nodup
    exact ih (nodup.1 _ mem)

theorem Expr.Nests.scoped {e : Expr} {p : Projection} (h : e.Nests p) {scope : List Alias} (within : e.Scoped scope) : p.Scoped scope := by
  induction h with
  | projection p => exact within
  | operand op mem _ ih => exact ih ((Expr.scoped_operator op).1 within _ mem)

theorem Projection.Closed.starts {p q : Projection} (h : p.Closed) (starts : p.Starts q) : q.Closed := by
  obtain ⟨t, values, nested, all, rfl⟩ := starts
  obtain ⟨s, e, a⟩ := p
  have nodup := h.nodup
  rw [declared, collect, List.nodup_append] at nodup
  have outside : s.label ∉ t.declared := fun mem =>
    nodup.2.2 _ s.label_mem_declared _ (nested.collect_subset declaredAliases mem) rfl
  have within : t.Scoped [s.label] := nested.scoped ((check_iff h.nodup).1 h.accepted).2
  have distinct : (t.withRow values).declared.Nodup := by
    rw [declared_withRow]
    exact nested.declared_nodup nodup.2.1
  refine ⟨(check_iff distinct).2 (within.withRow outside all), distinct, fun c mem heading found same => ?_⟩
  rw [columnRefs_withRow] at mem
  rw [headings_withRow] at found
  exact h.names c (List.mem_append_right _ (nested.collect_subset columnRefs (List.mem_filter.1 mem).1)) heading
    (List.mem_append_right _ (nested.collect_subset headings found)) same

/-! ## Readers -/

theorem columnIndex?_isSome {columns : List Named} {name : String} (mem : name ∈ columns.map (·.name)) : (columnIndex? columns name).isSome = true := by
  obtain ⟨c, found, rfl⟩ := List.mem_map.1 mem
  rw [columnIndex?, Option.isSome_map, List.findIdx?_isSome, List.any_reverse, List.any_eq_true]
  exact ⟨c, found, beq_self_eq_true _⟩

theorem ColumnRef.index_resolves {row : Alias} {columns : List Named} {c : ColumnRef} (own : c.label = row)
    (mem : c.name ∈ columns.map (·.name)) : (c.index row columns).Resolves := by
  obtain ⟨place, found⟩ := Option.isSome_iff_exists.1 (columnIndex?_isSome mem)
  rw [index, if_neg (not_not_intro own), found]
  exact .ok place

section Readers

variable {row : Alias} {columns : List Named}

theorem readerAll_resolves {es : List Expr} (each : ∀ e ∈ es, (e.reader row columns).Resolves) : (readerAll row columns es).Resolves := by
  induction es with
  | nil => exact .ok []
  | cons e es ih =>
    obtain ⟨head, tail⟩ := List.forall_mem_cons.1 each
    exact head.bind fun _ => (ih tail).bind fun _ => .ok _

theorem readerNamed_resolves {ms : List Named} (each : ∀ m ∈ ms, (m.expr.reader row columns).Resolves) :
    (readerNamed row columns ms).Resolves := by
  induction ms with
  | nil => exact .ok []
  | cons m ms ih =>
    obtain ⟨head, tail⟩ := List.forall_mem_cons.1 each
    cases m
    exact head.bind fun _ => (ih tail).bind fun _ => .ok _

/-- A reader of an expression over a row never misses a column that is there. -/
theorem Expr.reader_resolves (e : Expr) (within : e.Scoped [row])
    (names : ∀ c ∈ e.collect columnRefs, c.label = row → c.name ∈ columns.map (·.name)) : (e.reader row columns).Resolves := by
  induction e using Expr.induction with
  | column c =>
    have own : c.label = row := List.mem_singleton.1 within
    exact (c.index_resolves own (names c (List.mem_singleton_self c) own)).bind fun _ => .ok _
  | operator e op ih =>
    rw [scoped_operator op] at within
    rw [collect_operator _ op, List.forall_mem_flatMap] at names
    have each (x : Expr) (mem : x ∈ e.operands) : (x.reader row columns).Resolves := ih x mem (within x mem) (names x mem)
    clear ih within names
    cases e <;> simp only [isOperator, Bool.false_eq_true] at op <;>
      simp only [operands, List.forall_mem_cons, List.forall_mem_map, List.not_mem_nil, false_implies, implies_true, and_true] at each
    case binary op l r => exact each.1.bind fun _ => each.2.bind fun _ => .ok _
    case call m x args => exact each.1.bind fun _ => (readerAll_resolves each.2).bind fun _ => .ok _
    case conditional test yes no => exact each.1.bind fun _ => each.2.1.bind fun _ => each.2.2.bind fun _ => .ok _
    case record r ms => exact (readerNamed_resolves each).bind fun _ => .ok _
    case function name args t => rintro fault ⟨⟩
    case group key elements => exact each.1.bind fun _ => each.2.bind fun _ => .ok _
    all_goals exact each.bind fun _ => .ok _
  | projection p =>
    refine .bind (.mapM fun c mem => ?_) fun _ => .ok _
    obtain ⟨found, own⟩ := Projection.mem_outerColumns mem
    exact (c.index_resolves own (names c found own)).bind fun _ => .ok _
  | constant v t => exact .ok _
  | captured name v t => exact .ok _
  | hostParameter v t => exact .ok _
  | param name => rintro fault ⟨⟩
  | query q => rintro fault ⟨⟩
  | aggregate kind x distinct t => rintro fault ⟨⟩
  | subquery s => rintro fault ⟨⟩

theorem Projection.Closed.reader_resolves {p : Projection} (h : p.Closed) : p.reader.Resolves := by
  obtain ⟨s, e, a⟩ := p
  refine e.reader_resolves ((check_iff h.nodup).1 h.accepted).2 fun c mem own => ?_
  refine h.names c (List.mem_append_right _ mem) (s.label, s.columnNames) (List.mem_append_left _ ?_) own.symm
  rw [Select.collect_eq]
  exact List.mem_append_left _ (List.mem_singleton_self _)

/-! ## What is run -/

variable {σ : Type} {run run' : Projection → Execution σ Value}

variable (row run run') in
/-- Two ways to run projections that are the same for what is started by a reader of this expression. -/
def Expr.RunsAlike (e : Expr) : Prop :=
  ∀ t, e.Nests t → ∀ values, values.map (·.1) = t.outerColumns row → run (t.withRow values) = run' (t.withRow values)

theorem readArguments_alike {es : List Expr} {rs : List Reader} {cells : Row} (made : readerAll row columns es = .ok rs)
    (each : ∀ e ∈ es, ∀ r, e.reader row columns = .ok r → r.read run cells = r.read run' cells) :
    readArguments run cells rs = readArguments run' cells rs := by
  induction es generalizing rs with
  | nil => cases made; rfl
  | cons e es ih =>
    obtain ⟨head, tail⟩ := List.forall_mem_cons.1 each
    obtain ⟨r, first, made⟩ := Result.bind_eq_ok.1 made
    obtain ⟨rs, rest, ⟨⟩⟩ := Result.bind_eq_ok.1 made
    rw [readArguments, readArguments, head r first, ih rest tail]

theorem readFields_alike {ms : List Named} {rs : List (String × Reader)} {cells : Row} (made : readerNamed row columns ms = .ok rs)
    (each : ∀ m ∈ ms, ∀ r, m.expr.reader row columns = .ok r → r.read run cells = r.read run' cells) :
    readFields run cells rs = readFields run' cells rs := by
  induction ms generalizing rs with
  | nil => cases made; rfl
  | cons m ms ih =>
    obtain ⟨head, tail⟩ := List.forall_mem_cons.1 each
    cases m
    obtain ⟨r, first, made⟩ := Result.bind_eq_ok.1 made
    obtain ⟨rs, rest, ⟨⟩⟩ := Result.bind_eq_ok.1 made
    rw [readFields, readFields, head r first, ih rest tail]

/-- The places of columns, each beside its column. -/
theorem fst_of_places {cs : List ColumnRef} {outer : List (ColumnRef × Nat)}
    (found : (cs.mapM fun c => do return (c, ← c.index row columns) : Result _) = .ok outer) : outer.map (·.1) = cs := by
  induction cs generalizing outer with
  | nil => cases found; rfl
  | cons c cs ih =>
    rw [List.mapM_cons] at found
    obtain ⟨place, first, found⟩ := Result.bind_eq_ok.1 found
    obtain ⟨rest, others, ⟨⟩⟩ := Result.bind_eq_ok.1 found
    obtain ⟨index, -, ⟨⟩⟩ := Result.bind_eq_ok.1 first
    rw [List.map_cons, ih others]

/-- What follows the reading of columns depends on values for exactly these columns. -/
theorem bind_readColumns {cells : Row} (outer : List (ColumnRef × Nat)) {next next' : List (ColumnRef × Value) → Execution σ Value}
    (same : ∀ values, values.map (·.1) = outer.map (·.1) → next values = next' values) :
    (outer.mapM (fun (c, index) => do return (c, ← cells.read index c.ty) : _ → Execution σ _) >>= next) =
      outer.mapM (fun (c, index) => do return (c, ← cells.read index c.ty) : _ → Execution σ _) >>= next' := by
  induction outer generalizing next next' with
  | nil => simpa using same [] rfl
  | cons entry outer ih =>
    simp only [List.mapM_cons, bind_assoc, pure_bind]
    refine bind_congr fun v => ih fun values eq => same _ ?_
    rw [List.map_cons, List.map_cons, eq]

theorem Expr.reader_read (e : Expr) {r : Reader} (made : e.reader row columns = .ok r) (alike : e.RunsAlike row run run') (cells : Row) :
    r.read run cells = r.read run' cells := by
  induction e using Expr.induction generalizing r with
  | column c =>
    obtain ⟨_, _, ⟨⟩⟩ := Result.bind_eq_ok.1 made
    rfl
  | operator e op ih =>
    have each (x : Expr) (mem : x ∈ e.operands) (r : Reader) (made : x.reader row columns = .ok r) : r.read run cells = r.read run' cells :=
      ih x mem made fun t nested => alike t (.operand op mem nested)
    clear ih alike
    cases e <;> simp only [isOperator, Bool.false_eq_true] at op <;>
      simp only [operands, List.forall_mem_cons, List.forall_mem_map, List.not_mem_nil, false_implies, implies_true, and_true] at each
    case binary op l r =>
      obtain ⟨a, first, made⟩ := Result.bind_eq_ok.1 made
      obtain ⟨b, second, ⟨⟩⟩ := Result.bind_eq_ok.1 made
      simp only [Reader.read, each.1 a first, each.2 b second]
    case call m x args =>
      obtain ⟨a, first, made⟩ := Result.bind_eq_ok.1 made
      obtain ⟨bs, second, ⟨⟩⟩ := Result.bind_eq_ok.1 made
      simp only [Reader.read, each.1 a first, readArguments_alike second each.2]
    case conditional test yes no =>
      obtain ⟨a, first, made⟩ := Result.bind_eq_ok.1 made
      obtain ⟨b, second, made⟩ := Result.bind_eq_ok.1 made
      obtain ⟨c, third, ⟨⟩⟩ := Result.bind_eq_ok.1 made
      simp only [Reader.read, each.1 a first, each.2.1 b second, each.2.2 c third]
    case record name ms =>
      obtain ⟨rs, all, ⟨⟩⟩ := Result.bind_eq_ok.1 made
      simp only [Reader.read, readFields_alike all each]
    case function name args t => cases made
    case group key elements =>
      obtain ⟨a, first, made⟩ := Result.bind_eq_ok.1 made
      obtain ⟨b, second, ⟨⟩⟩ := Result.bind_eq_ok.1 made
      simp only [Reader.read, each.1 a first, each.2 b second]
    all_goals
      obtain ⟨a, only, ⟨⟩⟩ := Result.bind_eq_ok.1 made
      simp only [Reader.read, each a only]
  | projection p =>
    obtain ⟨outer, found, ⟨⟩⟩ := Result.bind_eq_ok.1 made
    exact bind_readColumns outer fun values eq => alike p (.projection p) values (eq.trans (fst_of_places found))
  | constant v t => cases made; rfl
  | captured name v t => cases made; rfl
  | hostParameter v t => cases made; rfl
  | param name => cases made
  | query q => cases made
  | aggregate kind x distinct t => cases made
  | subquery s => cases made

end Readers

section Runs

variable {σ : Type}

/-- Runs a projection with something done before each statement, at every depth. -/
def Executor.runGuarded (x : Executor σ) (guard : Projection → Execution σ PUnit) : (depth : Nat) → Projection → Execution σ Value
  | 0, _ => throw (.shape .computedProjector)
  | depth + 1, p => do
    guard p
    let statement := p.select.statement
    let result ← x.execute (← statement.placeholderText) statement.parameters
    let reader ← p.reader
    let values ← result.toRows.mapM fun row => reader.read (x.runGuarded guard depth) row
    collapse p.projector.ty values p.aggregator

/-- What follows a result only matters where there is one. -/
theorem bind_ofResult_congr {α β : Type} {r : Result α} {f g : α → Execution σ β} (alike : ∀ a, r = .ok a → f a = g a) :
    ((liftM r : Execution σ α) >>= f) = (liftM r >>= g) := by
  cases r with
  | error fault => rfl
  | ok a =>
    have pure_of_ok : (liftM (Except.ok a : Result α) : Execution σ α) = pure a := rfl
    rw [pure_of_ok, pure_bind, pure_bind, alike a rfl]

variable (x : Executor σ) (guard : Projection → Execution σ PUnit)

/-- Only projections that are started are run. -/
theorem Executor.runGuarded_eq {depth : Nat} {p : Projection} (passes : ∀ q, Relation.ReflTransGen Projection.Starts p q → guard q = pure ⟨⟩) :
    x.runGuarded guard depth p = x.runNested depth p := by
  induction depth generalizing p with
  | zero => rfl
  | succ depth ih =>
    rw [runGuarded, runNested, passes p .refl, pure_bind]
    refine bind_congr fun text => bind_congr fun result => bind_ofResult_congr fun r made => ?_
    have read : r.read (x.runGuarded guard depth) = r.read (x.runNested depth) := funext fun cells =>
      p.projector.reader_read made (fun t nested values all =>
        ih fun q runs => passes q (.head ⟨t, values, nested, all, rfl⟩ runs)) cells
    simp only [read]

/-- Whatever the database answers, every statement that is run, at whatever depth, is one that the scope check accepts, that refers to its own
aliases alone and for which there is a reader, unless its projector is one that no row can be read by. Checking this of each
statement before it is executed changes nothing. -/
theorem Executor.run_closed {p : Projection} (accepted : p.check = .ok ⟨⟩) (nodup : p.declared.Nodup) (names : p.NamesColumns) :
    (∀ q, Relation.ReflTransGen Projection.Starts p q →
      q.check = .ok ⟨⟩ ∧ q.referenced ⊆ q.declared ∧ ∀ fault, q.reader ≠ .error (.aliasResolution fault)) ∧
    ((∀ q, q.check = .ok ⟨⟩ → (∀ fault, q.reader ≠ .error (.aliasResolution fault)) → guard q = pure ⟨⟩) →
      x.runGuarded guard (p.nesting + 1) p = x.run p) := by
  have closed (q : Projection) (runs : Relation.ReflTransGen Projection.Starts p q) : q.Closed := by
    induction runs with
    | refl => exact ⟨accepted, nodup, names⟩
    | tail _ starts ih => exact ih.starts starts
  refine ⟨fun q runs => ?_, fun passes => x.runGuarded_eq guard fun q runs => ?_⟩
  · have h := closed q runs
    exact ⟨h.accepted, ((Projection.check_iff h.nodup).1 h.accepted).referenced, h.reader_resolves⟩
  · exact passes q (closed q runs).accepted (closed q runs).reader_resolves

end Runs

/-- The orders of customers with the items of each; an item knows its order and its customer. -/
def customerOrders : Projection :=
  let column (a : Nat) (name : String) : Expr := .column ⟨⟨a⟩, name, .i64⟩
  let items : Projection :=
    ⟨{ Select.plain ⟨4⟩ [⟨"count", column 5 "count"⟩] (.table .table ⟨5⟩ "Item" "items") with
        filter := some (.binary .and (.binary .eq (column 5 "number") (column 2 "number")) (.binary .eq (column 5 "customer") (column 0 "id"))) },
      column 4 "count", none⟩
  let orders : Projection :=
    ⟨{ Select.plain ⟨2⟩ [⟨"number", column 3 "number"⟩] (.table .table ⟨3⟩ "Order" "orders") with
        filter := some (.binary .eq (column 3 "customer") (column 0 "id")) },
      .projection items, none⟩
  ⟨.plain ⟨0⟩ [⟨"id", column 1 "id"⟩] (.table .table ⟨1⟩ "Customer" "customers"), .projection orders, none⟩

/-- A database that has one row with the number one for every statement. -/
def oneRow : Executor Unit := ⟨fun _ _ => pure ⟨["number"], [[.integer 1]]⟩⟩

theorem run_closed_customerOrders :
    oneRow.runGuarded (fun q => liftM q.check) (customerOrders.nesting + 1) customerOrders = oneRow.run customerOrders :=
  (oneRow.run_closed (fun q => liftM q.check) rfl (by decide) (by unfold Projection.NamesColumns; decide)).2 fun q accepted _ => by
    rw [accepted]
    rfl

end Relational

import Relational.Proofs.Compilation.Linear
import Relational.Proofs.Compilation.Shaping
import Relational.Proofs.Compilation.ValueOrder

/-!
# Compiled linear queries

A linear query is folded, its literals become parameters, and it is bound and shaped. What comes out has as its values the elements of
the query, in their order, whichever steps are switched on (`Query.Linear.values_compile`). The literals and members of the query are
to be told apart by their values and names; three queries show what happens otherwise (`values_compile_differs`).
-/

namespace Relational

variable {base : Interpretation Value} {db : Database Value} {V : Vocabulary} {catalog : Catalog} {options : CompileOptions}
  {q : Query} {p : Projection}

theorem Query.Linear.not_isTerminal {G : Grammar} (linear : q.Linear G) : q.isTerminal = false := by
  cases linear <;> rfl

/-- What is bound and shaped to a projection. -/
theorem Query.bindAndShape_eq_ok (ordinary : q.isTerminal = false) (h : q.bindAndShape catalog options = .ok p) :
    ∃ bound a, q.bindSource catalog [] ⟨0⟩ = .ok (.rows bound, a) ∧ p = bound.shape options := by
  obtain ⟨⟨bound, a⟩, binds, h⟩ := Result.bind_eq_ok.1 h
  obtain ⟨_, -, h⟩ := Result.bind_eq_ok.1 h
  cases h
  rw [bind, ordinary] at binds
  obtain ⟨sequence, a₁, source, rows⟩ := Binding.bind_eq_ok.1 binds
  cases sequence with
  | rows r =>
    cases rows
    exact ⟨_, _, source, rfl⟩
  | _ => cases rows

namespace Projection

variable {a a' : Alias} {run : List Value} {lit : Value → Ty → Prop}

theorem Stands.isStraight (stands : p.Stands lit a a') : p.Straight := ⟨stands.straight, stands.projector.flat⟩

theorem Stands.placed (stands : p.Stands lit a a') : p.Placed lit [] where
  formed := Projection.formed_iff.2 ⟨stands.formed, stands.projector.formed⟩
  nodup := by
    rw [Projection.declared_eq, stands.projector.flat.declared_eq, List.append_nil]
    exact stands.nodup
  apart _ _ := List.not_mem_nil

/-- A bound projection keeps its values in the form of a statement. -/
theorem Bound.values_shape (law : base.evaluating.Lawful V.literal) (bound : p.Bound base db V a a' run) (ρ : Env Value) :
    (p.shape options).values base.evaluating db ρ = run ∧ (p.shape options).aggregator = none := by
  obtain ⟨straight, ordered⟩ := bound.isStraight.order law bound.placed.formed bound.placed.nodup
  obtain ⟨values, aggregator⟩ := straight.elementary.values_shape law evaluating_identifies (bound.placed.rewrites ordered) options ρ
  exact ⟨values.trans ((ordered.values ρ).trans (bound.values ρ)), aggregator.trans (ordered.aggregator.trans bound.aggregator)⟩

end Projection

/-- A compiled linear query has the elements of the query as its values, in their order. -/
theorem Query.Linear.values_compile (names : catalog.NamesColumns) (sorts : SortsRecords base.le) (clear : V.Clear)
    (written : q.Linear .source) (folded : q.fold.Linear (V.grammar catalog)) (h : q.compile catalog options = .ok p)
    (ρ : Env Value) :
    p.values base.evaluating db ρ = q.run base.evaluating db catalog ∧ p.aggregator = none := by
  have law : base.evaluating.Lawful V.literal := evaluating_lawful sorts.order fun _ _ _ => clear.literal_eq
  obtain ⟨bound, a, source, rfl⟩ := bindAndShape_eq_ok folded.parameterize.not_isTerminal h
  obtain ⟨_, ⟨⟩, bound⟩ := ((clear.cases base db names sorts).binds folded.parameterize).1 _ _ _ source
  rw [← run_fold written, ← run_parameterize folded]
  exact bound.values_shape law ρ

namespace Expr.Built

variable {leaf node : Expr → Prop}

theorem binary {op : BinaryOp} {l r : Expr} (h : node (.binary op l r)) (left : l.Built leaf node) (right : r.Built leaf node) :
    (Expr.binary op l r).Built leaf node :=
  .operator rfl h (by simpa [operands] using ⟨left, right⟩)

theorem member {x : Expr} {name : String} (h : node (.member x name)) (part : x.Built leaf node) :
    (Expr.member x name).Built leaf node :=
  .operator rfl h (by simpa [operands] using part)

theorem record {r : RecordTy} {ms : List Named} (h : node (.record r ms)) (parts : ∀ m ∈ ms, m.expr.Built leaf node) :
    (Expr.record r ms).Built leaf node :=
  .operator rfl h (List.forall_mem_map.2 parts)

end Expr.Built

theorem Catalog.namesColumns_of_tables (h : ∀ s ∈ catalog.tables, (s.stored.map (·.name)).Nodup) : catalog.NamesColumns := by
  intro entity schema found
  unfold get at found
  split at found
  · next s mem =>
    cases found
    exact h _ (List.mem_of_find?_eq_some mem)
  · cases found

theorem Expr.comparesAlike_of_ne {op : BinaryOp} {l r : Expr} (h : op ≠ .eq ∧ op ≠ .ne) : (Expr.binary op l r).ComparesAlike := by
  rintro _ _ _ ⟨⟩ equality
  exact absurd equality (not_or.2 h)

/-! ## Parts in order -/

def partCatalog : Catalog := .ofList [⟨"Part", none, .table, [⟨"number", .i64, false, false⟩, ⟨"kind", .i64, false, false⟩]⟩]

def partRows : Database Value where
  table _ := [(3, 1), (9, 0), (4, 1), (1, 0)].map fun (row : Int64 × Int64) name => .int (if name = "number" then row.1 else row.2)
  raw _ := []

def partNumber : Expr := .member (.param "x") "number"

def isSmall : Lambda := ⟨["x"], .binary .lt partNumber (.binary .add (.constant (.int 4) .i64) (.constant (.int 5) .i64))⟩

def partKey : Lambda := ⟨["x"], .record ⟨"Key", []⟩ [⟨"kind", .member (.param "x") "kind"⟩]⟩

/-- One more than the number of each of the first two parts below nine. They are in the order of their kinds, the largest number first. -/
def firstTwo : Query :=
  .project (.take (.thenBy (.orderBy (.filter (.table "Part") isSmall) partKey false) ⟨["x"], partNumber⟩ true)
    (.constant (.int 2) .i64)) ⟨["x"], .binary .add partNumber (.constant (.int 1) .i64)⟩

def partVocabulary : Vocabulary where
  scalar v := ∃ n, v = .int n
  field name := name = "number" ∨ name = "kind"
  member name := name = "number" ∨ name = "kind"

theorem partVocabulary_clear : partVocabulary.Clear where
  literals := by
    rintro _ _ ⟨m, rfl⟩ ⟨n, rfl⟩ same
    simpa [Value.same] using same
  apart := by
    rintro _ (rfl | rfl) _ <;> decide

theorem partCatalog_namesColumns : partCatalog.NamesColumns := Catalog.namesColumns_of_tables (by decide)

theorem firstTwo_linear : firstTwo.Linear .source := by
  have literal (n : Int64) : (Expr.constant (.int n) .i64).Built Grammar.source.leaf Grammar.source.operator := .leaf ⟨rfl, rfl⟩
  have member (name : String) : (Expr.member (.param "x") name).Built Grammar.source.leaf Grammar.source.operator :=
    .member ⟨rfl, by rintro _ _ _ ⟨⟩⟩ (.leaf trivial)
  have sum {l r : Expr} (left : l.Built Grammar.source.leaf Grammar.source.operator)
      (right : r.Built Grammar.source.leaf Grammar.source.operator) :
      (Expr.binary .add l r).Built Grammar.source.leaf Grammar.source.operator :=
    .binary ⟨rfl, Expr.comparesAlike_of_ne (by simp)⟩ left right
  have small : isSmall.body.Built Grammar.source.leaf Grammar.source.operator :=
    .binary ⟨rfl, Expr.comparesAlike_of_ne (by simp)⟩ (member "number") (sum (literal 4) (literal 5))
  have key : partKey.body.Built Grammar.source.leaf Grammar.source.operator :=
    .record ⟨rfl, by rintro _ _ _ ⟨⟩⟩ (by simpa using member "kind")
  exact .project (.take (.thenBy (.orderBy (.filter (.table trivial) small) key) (member "number")) rfl)
    (sum (member "number") (literal 1))

theorem firstTwo_fold_linear : firstTwo.fold.Linear (partVocabulary.grammar partCatalog) := by
  have literal (n : Int64) : (Expr.constant (.int n) .i64).Built (partVocabulary.grammar partCatalog).leaf partVocabulary.operator :=
    .leaf ⟨n, rfl⟩
  have member (name : String) (known : partVocabulary.member name) :
      (Expr.member (.param "x") name).Built (partVocabulary.grammar partCatalog).leaf partVocabulary.operator :=
    .member ⟨rfl, known⟩ (.leaf trivial)
  have number := member "number" (.inl rfl)
  have entity (schema : TableSchema) (found : partCatalog.get "Part" = .ok schema) : ∀ c ∈ schema.stored, partVocabulary.field c.name := by
    cases found
    simp [TableSchema.stored, partVocabulary]
  have key : (Expr.record ⟨"Key", []⟩ [⟨"kind", .member (.param "x") "kind"⟩]).Built (partVocabulary.grammar partCatalog).leaf
      partVocabulary.operator :=
    .record ⟨rfl, by simp [Expr.SpokenIn, partVocabulary]⟩ (by simpa using member "kind" (.inr rfl))
  exact .project (.take (.thenBy (.orderBy (.filter (.table entity) (.binary ⟨rfl, trivial⟩ number (literal 9))) key) number) rfl)
    (.binary ⟨rfl, trivial⟩ number (literal 1))

theorem run_firstTwo : firstTwo.run Interpretation.sorting.evaluating partRows partCatalog = [.int 2, .int 5] := by
  let part (n k : Int64) : Value := .record "Part" [("number", .int n), ("kind", .int k)]
  have sorted (le : Value → Value → Bool) (second : le (part 3 1) (part 4 1) = false) (third : le (part 4 1) (part 1 0) = false) :
      [part 3 1, part 4 1, part 1 0].mergeSort le = [part 1 0, part 4 1, part 3 1] := by
    simp [List.mergeSort, List.MergeSort.Internal.splitInTwo, second, third]
  calc firstTwo.run Interpretation.sorting.evaluating partRows partCatalog
      = (([part 3 1, part 4 1, part 1 0].mergeSort (inOrder Value.before
          [(partKey.apply Interpretation.sorting.evaluating partRows, false),
            ((⟨["x"], partNumber⟩ : Lambda).apply Interpretation.sorting.evaluating partRows, true)])).take 2).map
          ((⟨["x"], .binary .add partNumber (.constant (.int 1) .i64)⟩ : Lambda).apply Interpretation.sorting.evaluating partRows) := rfl
    _ = [.int 2, .int 5] := by
      rw [sorted _ (by decide +kernel) (by decide +kernel)]
      rfl

theorem values_compile_firstTwo : ∃ p, firstTwo.compile partCatalog {} = .ok p ∧
    p.values Interpretation.sorting.evaluating partRows (fun _ _ => .null) = [.int 2, .int 5] := by
  cases compiled : firstTwo.compile partCatalog {} with
  | error e =>
    have ok : (firstTwo.compile partCatalog {}).toBool = true := by decide +kernel
    rw [compiled] at ok
    cases ok
  | ok p =>
    refine ⟨p, rfl, ?_⟩
    rw [← run_firstTwo]
    exact (Query.Linear.values_compile partCatalog_namesColumns Value.sortsRecords_before partVocabulary_clear firstTwo_linear
      firstTwo_fold_linear compiled _).1

/-! ## What a vocabulary has to keep apart -/

/-- A query whose compiled form has other values than its elements. -/
def Query.Differs (q : Query) (catalog : Catalog) (db : Database Value) : Prop :=
  ∃ p, q.compile catalog {} = .ok p ∧
    p.values Interpretation.sorting.evaluating db (fun _ _ => .null) ≠ q.run Interpretation.sorting.evaluating db catalog

theorem Query.differs_of_view {α : Type} {q : Query} {db : Database Value} (view : List Value → α) {x y : α}
    (compiled : (q.compile catalog {}).toOption.map
      (fun p => view (p.values Interpretation.sorting.evaluating db fun _ _ => .null)) = some x)
    (direct : view (q.run Interpretation.sorting.evaluating db catalog) = y) (ne : x ≠ y) : q.Differs catalog db := by
  cases found : q.compile catalog {} with
  | error e =>
    rw [found] at compiled
    cases compiled
  | ok p =>
    rw [found] at compiled
    refine ⟨p, found, fun same => ne ?_⟩
    rw [← direct, ← same]
    exact (Option.some.inj compiled).symm

/-- A table of one row, all of whose columns have the same value. -/
def Database.oneRow (v : Value) : Database Value where
  table _ := [fun _ => v]
  raw _ := []

def priceCatalog : Catalog := .ofList [⟨"Price", none, .table, [⟨"amount", .decimal, true, false⟩]⟩]

/-- Amounts as texts, where an absent amount counts as `1.00`. Beside it there is one that counts as `1.0`, which is the same. -/
def priceTexts : Query :=
  let amountOr (other : Decimal) : Expr := .binary .coalesce (.member (.param "x") "amount") (.constant (.decimal other) .decimal)
  .project (.project (.table "Price") ⟨["x"], .record ⟨"Ends", []⟩
    [⟨"low", amountOr ⟨false, 10, 1, by decide, by decide⟩⟩, ⟨"high", amountOr ⟨false, 100, 2, by decide, by decide⟩⟩]⟩)
    ⟨["r"], .call .toText (.member (.param "r") "high") []⟩

def cellCatalog : Catalog := .ofList [⟨"Cell", none, .table, [⟨"Value", .i64, false, false⟩]⟩]

/-- Of each cell its member `Value`, which is the column of that name, and the cell itself when it is taken of a record. -/
def cellValues : Query := .project (.table "Cell") ⟨["x"], .member (.param "x") "Value"⟩

/-- Cells where two records with the same members are equal, though their names differ. -/
def cellsOfSame : Query :=
  .filter (.table "Cell") ⟨["x"], .binary .eq (.record ⟨"Left", []⟩ [⟨"n", .constant (.int 1) .i64⟩])
    (.record ⟨"Right", []⟩ [⟨"n", .constant (.int 1) .i64⟩])⟩

/-- Literals that are the same share a column, the member `Value` may be a column, and closed comparisons of records are folded. -/
theorem values_compile_differs : priceTexts.Differs priceCatalog (.oneRow .null) ∧ cellValues.Differs cellCatalog (.oneRow (.int 3)) ∧
    cellsOfSame.Differs cellCatalog (.oneRow (.int 3)) := by
  refine ⟨Query.differs_of_view (fun vs => vs.map Value.toText?) (x := [some "1.0"]) (y := [some "1.00"]) ?_ ?_ ?_,
    Query.differs_of_view (fun vs => vs.map Value.isScalar) (x := [true]) (y := [false]) ?_ ?_ ?_,
    Query.differs_of_view List.length (x := 0) (y := 1) ?_ ?_ ?_⟩ <;> decide +kernel

end Relational

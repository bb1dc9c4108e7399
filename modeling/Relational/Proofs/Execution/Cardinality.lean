import Relational.Proofs.Binding.Statements
import Relational.Proofs.Rows.Stage
import Relational.Session

/-!
# The only element

A query for the only element of a sequence is to fail if there is a second one. At the root its statement reads two rows, so that a second
one is seen. Inside another query it reads but one, so it takes the first element of several
(`Query.bind_cardinality`, `nestedValues_onlyOrders`).
-/

namespace Relational

open Binding

/-- The number of rows that a statement reads at most, as far as it is a literal. -/
def Projection.rowLimit (p : Projection) : Option Nat :=
  match p.select.limit with
  | some (.constant (.int n) _) => some n.toInt.toNat
  | _ => none

/-- What is read of the rows that a statement has without its limit. -/
def Projection.collapseRows (p : Projection) (rows : List Value) : Result Value :=
  collapse p.projector.ty (takeUpTo p.rowLimit rows) p.aggregator

/-- The only element of all rows, if there are no more than one. -/
structure TakesOnly (orDefault : Bool) (t : Ty) (read : List Value → Result Value) : Prop where
  several : ∀ rows, read rows = .error .multipleElements ↔ 1 < rows.length
  absent : orDefault = false → ∀ rows, read rows = .error .noElement ↔ rows = []
  default : orDefault = true → read [] = .ok (Value.default t)
  only : ∀ v, read [v] = .ok v

theorem collapse_takesOnly (orDefault : Bool) (t : Ty) : TakesOnly orDefault t fun rows => collapse t rows (some (.single orDefault)) where
  several rows := by
    rcases rows with _ | ⟨v, _ | ⟨w, rows⟩⟩
    · cases orDefault <;> simp [collapse, emptyValue]
    · simp [collapse]
    · simp [collapse]
  absent refuse rows := by
    subst refuse
    rcases rows with _ | ⟨v, _ | ⟨w, rows⟩⟩ <;> simp [collapse, emptyValue]
  default accept := by
    subst accept
    rfl
  only _ := rfl

section Limits

variable {p : Projection} {orDefault : Bool} (single : p.aggregator = some (.single orDefault))
include single

/-- Two rows tell one from several. -/
theorem Projection.collapseRows_two (limit : p.select.limit = some (.ofValue (.int 2))) (rows : List Value) :
    p.collapseRows rows = collapse p.projector.ty rows (some (.single orDefault)) := by
  rw [collapseRows, single, rowLimit, limit]
  rcases rows with _ | ⟨v, _ | ⟨w, rows⟩⟩ <;> rfl

/-- Of one row it is not seen whether there are more. -/
theorem Projection.collapseRows_one (limit : p.select.limit = some (.ofValue (.int 1))) (rows : List Value) :
    p.collapseRows rows = collapse p.projector.ty rows (some (.first orDefault)) := by
  rw [collapseRows, single, rowLimit, limit]
  rcases rows with _ | ⟨v, rows⟩ <;> rfl

end Limits

/-- A query for the only element keeps to it at the root. A statement of a nested one takes the first of several elements. -/
theorem Query.bind_cardinality {catalog : Catalog} {q : Query} {a a' : Alias} {p : Projection} (free : q.every (!·.isStatement) = true)
    (bound : q.bind catalog a = .ok (p, a')) :
    (q.isSingle = true → ∃ orDefault, p.aggregator = some (.single orDefault) ∧ TakesOnly orDefault p.projector.ty p.collapseRows) ∧
      ∀ p', p.Fetches p' → (q.isSingle = true → ∃ inner ∈ p.projector.nested, inner.Fetches p') →
        ∀ orDefault, p'.aggregator = some (.single orDefault) →
          p'.collapseRows [] = emptyValue orDefault p'.projector.ty ∧ ∀ v rows, p'.collapseRows (v :: rows) = .ok v := by
  have first {p' : Projection} {orDefault : Bool} (single : p'.aggregator = some (.single orDefault))
      (limit : p'.select.limit = some (.ofValue (.int 1))) :
      p'.collapseRows [] = emptyValue orDefault p'.projector.ty ∧ ∀ v rows, p'.collapseRows (v :: rows) = .ok v :=
    ⟨p'.collapseRows_one single limit [], fun v rows => p'.collapseRows_one single limit (v :: rows)⟩
  have inside (projector : p.projector.Sparing) {inner p' : Projection} (mem : inner ∈ p.projector.nested) (fetches : inner.Fetches p')
      {orDefault : Bool} (single : p'.aggregator = some (.single orDefault)) :=
    first single ((projector inner mem p' fetches).limit orDefault single)
  cases asks : q.isSingle with
  | true =>
    cases q <;> cases asks
    obtain ⟨-, projector, single, limit⟩ := (Query.bind_single free).ok a a' p bound
    refine ⟨fun _ => ⟨_, single, ?_⟩, fun p' _ nested orDefault single => ?_⟩
    · rw [funext (p.collapseRows_two single limit)]
      exact collapse_takesOnly _ _
    · obtain ⟨inner, mem, fetches⟩ := nested rfl
      exact inside projector mem fetches single
  | false =>
    obtain ⟨-, projector, limit⟩ := (Query.bind_sparing free asks).ok a a' p bound
    refine ⟨by rintro ⟨⟩, fun p' fetches _ orDefault single => ?_⟩
    cases fetches with
    | own => exact first single (limit orDefault single)
    | nested mem fetches => exact inside projector mem fetches single

/-- Customers, and orders of customers. -/
def orderCatalog : Catalog :=
  .ofList [⟨"Customer", none, .table, [⟨"id", .i64, false, false⟩]⟩,
    ⟨"Order", none, .table, [⟨"customer", .i64, false, false⟩, ⟨"amount", .i64, false, false⟩]⟩]

/-- The only order of each customer. -/
def onlyOrders : Query :=
  .project (.table "Customer") ⟨["c"], .record ⟨"Only", []⟩ [⟨"order", .query (.single (.table "Order")
    (some ⟨["o"], .binary .eq (.member (.param "o") "customer") (.member (.param "c") "id")⟩) false)⟩]⟩

/-- The only customer, with an only order or none. -/
theorem bind_cardinality_onlyOrders : (Query.single onlyOrders none true).every (!·.isStatement) = true ∧
    ∃ p a, (Query.single onlyOrders none true).bind orderCatalog ⟨0⟩ = .ok (p, a) ∧
      (∃ orDefault, p.aggregator = some (.single orDefault) ∧ TakesOnly orDefault p.projector.ty p.collapseRows) ∧
        ∃ inner ∈ p.projector.nested, ∀ v rows, inner.collapseRows (v :: rows) = .ok v := by
  have free : (Query.single onlyOrders none true).every (!·.isStatement) = true := by decide
  obtain ⟨p, a, bound⟩ : ∃ p a, (Query.single onlyOrders none true).bind orderCatalog ⟨0⟩ = .ok (p, a) := ⟨_, _, rfl⟩
  have aggregators : ((Query.single onlyOrders none true).bind orderCatalog ⟨0⟩).toOption.map (fun r => r.1.projector.nested.map (·.aggregator)) =
      some [some (.single false)] := by decide +kernel
  rw [bound, Except.toOption, Option.map_some, Option.some.injEq, List.map_eq_singleton_iff] at aggregators
  obtain ⟨inner, nested, single⟩ := aggregators
  have mem : inner ∈ p.projector.nested := by rw [nested]; exact List.mem_singleton_self inner
  obtain ⟨root, inside⟩ := Query.bind_cardinality free bound
  exact ⟨free, p, a, bound, root rfl, inner, mem, (inside inner (.nested mem (.own inner)) (fun _ => ⟨inner, mem, .own inner⟩) false single).2⟩

/-- What the statements nested in a bound query read of some rows. -/
def Query.nestedValues (catalog : Catalog) (q : Query) (rows : List Value) : Option (List (Option Aggregator × Result Value)) :=
  (q.bind catalog ⟨0⟩).toOption.map fun r => r.1.projector.nested.map fun p => (p.aggregator, p.collapseRows rows)

/-- Of a customer with two orders the first one is taken. -/
theorem nestedValues_onlyOrders :
    onlyOrders.nestedValues orderCatalog [.text "first", .text "second"] = some [(some (.single false), .ok (.text "first"))] := by
  rfl

end Relational

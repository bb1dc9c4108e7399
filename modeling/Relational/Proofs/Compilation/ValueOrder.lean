import Relational.Proofs.Compilation.Vocabulary

/-!
# An order of values

Values are sorted by the trees of numbers that they hold, so records are sorted by their members in turn
(`Value.sortsRecords_before`).
-/

namespace Relational

/-- What values are sorted by: numbers, records by what their members are sorted by, and everything else. -/
inductive SortTree where
  | other
  | number (n : Int)
  | node (members : List SortTree)

namespace SortTree

mutual

def order : SortTree → SortTree → Ordering
  | .other, .other => .eq
  | .other, _ => .lt
  | .number _, .other => .gt
  | .number m, .number n => compare m n
  | .number _, .node _ => .lt
  | .node ts, .node us => orderAll ts us
  | .node _, _ => .gt

def orderAll : List SortTree → List SortTree → Ordering
  | [], [] => .eq
  | [], _ :: _ => .lt
  | _ :: _, [] => .gt
  | t :: ts, u :: us => (t.order u).then (orderAll ts us)

end

mutual

theorem order_swap : ∀ t u : SortTree, (t.order u).swap = u.order t
  | .other, u => by cases u <;> rfl
  | .number m, u => by
    cases u with
    | number n => exact Int.compare_swap m n
    | _ => rfl
  | .node ts, u => by
    cases u with
    | node us => exact orderAll_swap ts us
    | _ => rfl

theorem orderAll_swap : ∀ ts us : List SortTree, (orderAll ts us).swap = orderAll us ts
  | [], us => by cases us <;> rfl
  | t :: ts, us => by
    cases us with
    | nil => rfl
    | cons u us => rw [orderAll, orderAll, Ordering.swap_then, order_swap t u, orderAll_swap ts us]

end

mutual

theorem order_of_eq : ∀ t u : SortTree, t.order u = .eq → ∀ v, t.order v = u.order v
  | .other, .other, _ => fun _ => rfl
  | .number _, .number _, same => fun _ => by rw [Int.compare_eq_eq.1 same]
  | .node ts, .node us, same => fun
    | .node vs => orderAll_of_eq ts us same vs
    | .other => rfl
    | .number _ => rfl

theorem orderAll_of_eq : ∀ ts us : List SortTree, orderAll ts us = .eq → ∀ vs, orderAll ts vs = orderAll us vs
  | [], [], _ => fun _ => rfl
  | t :: ts, u :: us, same => fun
    | [] => rfl
    | v :: vs => by
      obtain ⟨first, rest⟩ := Ordering.then_eq_eq.1 same
      rw [orderAll, orderAll, order_of_eq t u first v, orderAll_of_eq ts us rest vs]

end

mutual

theorem order_of_lt : ∀ t u v : SortTree, t.order u = .lt → (u.order v).isLE = true → t.order v = .lt
  | .other, .number _, .number _, _, _ => rfl
  | .other, .number _, .node _, _, _ => rfl
  | .other, .node _, .node _, _, _ => rfl
  | .number _, .number _, .number _, first, next => by
    simp only [order, Int.compare_eq_lt, Int.isLE_compare] at first next ⊢
    omega
  | .number _, .number _, .node _, _, _ => rfl
  | .number _, .node _, .node _, _, _ => rfl
  | .node ts, .node us, .node vs, first, next => orderAll_of_lt ts us vs first next

theorem orderAll_of_lt : ∀ ts us vs : List SortTree, orderAll ts us = .lt → (orderAll us vs).isLE = true → orderAll ts vs = .lt
  | [], _ :: _, _ :: _, _, _ => rfl
  | t :: ts, u :: us, v :: vs, first, next => by
    simp only [orderAll, Ordering.then_eq_lt, Ordering.isLE_then_iff_or] at first next ⊢
    rcases first with first | ⟨first, rest⟩ <;> rcases next with next | ⟨next, later⟩
    · exact .inl (order_of_lt t u v first (by simp [next]))
    · exact .inl (order_of_lt t u v first (by simp [next]))
    · exact .inl ((order_of_eq t u first v).trans next)
    · exact .inr ⟨(order_of_eq t u first v).trans next, orderAll_of_lt ts us vs rest later⟩

end

/-- Sorted by numbers, by what records are sorted by, and by everything else. -/
def before (t u : SortTree) : Bool := (t.order u).isLE

theorem isOrder_before : IsOrder before where
  trans t u v first next := by
    rw [before, Ordering.isLE_iff_eq_lt_or_eq_eq] at first
    rcases first with first | first
    · simp [before, order_of_lt t u v first next]
    · rw [before, order_of_eq t u first v]
      exact next
  total t u := by
    rw [before, before, ← order_swap t u]
    cases t.order u <;> rfl

end SortTree

mutual

def Value.sortTree : Value → SortTree
  | .int n => .number n.toInt
  | .record _ fs => .node (sortTrees fs)
  | _ => .other

def sortTrees : List (String × Value) → List SortTree
  | [] => []
  | (_, v) :: fs => v.sortTree :: sortTrees fs

end

/-- Numbers are sorted by size and records by their members; everything else comes first. -/
def Value.before (v v' : Value) : Bool := v.sortTree.before v'.sortTree

theorem Value.sortsRecords_before : SortsRecords Value.before where
  order := SortTree.isOrder_before.comap Value.sortTree
  members name fs fs' names := by
    have length : fs.length = fs'.length := by simpa using congrArg List.length names
    clear names
    show (SortTree.orderAll (sortTrees fs) (sortTrees fs')).isLE = _
    induction fs generalizing fs' with
    | nil =>
      rw [List.length_eq_zero_iff.1 length.symm]
      rfl
    | cons f fs ih =>
      obtain ⟨g, gs, rfl⟩ := List.exists_cons_of_length_eq_add_one length.symm
      obtain ⟨_, v⟩ := f
      obtain ⟨_, w⟩ := g
      rw [sortTrees, sortTrees, SortTree.orderAll, List.map_cons, List.map_cons, lexicographic, ← ih gs (by simpa using length)]
      simp only [Value.before, SortTree.before, ← SortTree.order_swap v.sortTree w.sortTree]
      cases v.sortTree.order w.sortTree <;> rfl

/-- Scalars as they are, with an order and without the rest. -/
def Interpretation.sorting : Interpretation Value where
  equal _ _ := false
  le := Value.before
  null := .null
  isTrue _ := false
  ofBool := .bool
  constant v _ := v
  param _ := .null
  query _ := .null
  binary _ _ _ := .null
  unary _ _ := .null
  member _ _ := .null
  call _ _ _ := .null
  conditional _ _ _ := .null
  record _ _ := .null
  convert v _ := v
  function _ _ _ := .null
  group _ _ := .null
  aggregate _ _ _ _ := .null
  isIn _ _ := .null
  collect _ _ := .null
  limit _ := none
  offset _ := 0

end Relational

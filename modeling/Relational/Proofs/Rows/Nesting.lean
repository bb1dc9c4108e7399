import Relational.Proofs.Rows.Stage

/-!
# Arranging rows twice

One select reads the rows that another one has arranged, and arranges them again. Where the two do not get in each other's way,
one arrangement does both (`Arrangement.Absorbs.apply_eq`). What an inner select arranges before it is
expanded by joins can be arranged after them, if it only sorts or if there are no joins
(`Arrangement.apply_flatMap`).
-/

namespace Relational

variable {α β D : Type} {c : Comparison D}

theorem mergeSort_inOrder_nil (le : D → D → Bool) (l : List α) :
    l.mergeSort (inOrder le ([] : Criteria α D)) = l :=
  List.mergeSort_of_pairwise (List.pairwise_of_forall fun _ _ => rfl)

theorem sublist_takeUpTo (n : Option Nat) (l : List α) : (takeUpTo n l).Sublist l := by
  cases n with
  | none => exact List.Sublist.refl l
  | some n => exact List.take_sublist n l

namespace Arrangement

theorem comap_comap {γ : Type} (f : β → α) (g : γ → β) (a : Arrangement α D) :
    (a.comap f).comap g = a.comap fun x => f (g x) := by
  simp [comap, Criteria.comap, Function.comp_def]

/-- The outer order says nothing, or the inner one does not, or both say the same. -/
inductive Reorders (c : Comparison D) (inner outer merged : Criteria α D) : Prop where
  | inner (none : outer = []) (same : merged = inner)
  | outer (none : inner = []) (same : merged = outer)
  | both (same : merged = outer) (restated : inOrder c.le outer = inOrder c.le inner)

/-- What the outer arrangement may do after the inner one, and how the merged one looks then; `test` is a filter between them. -/
structure Absorbs (c : Comparison D) (test : α → Bool) (inner outer merged : Arrangement α D) : Prop where
  values : merged.values = outer.values
  distinct : merged.distinct = (outer.distinct || inner.distinct)
  repeats : inner.distinct = true → outer.repeats c = inner.repeats c ∧
    ∀ x y, inner.repeats c y x = true → test y = test x
  order : Reorders c inner.order outer.order merged.order
  sorted : outer.distinct = true → inner.order = []
  cuts : (inner.offset = 0 ∧ inner.limit = none ∧ merged.offset = outer.offset ∧ merged.limit = outer.limit) ∨
    (outer.distinct = false ∧ (∀ x, test x = true) ∧ (inner.order = [] → outer.order = []) ∧ outer.offset = 0 ∧
      merged.offset = inner.offset ∧
        (outer.limit = none ∧ merged.limit = inner.limit ∨ inner.limit = none ∧ merged.limit = outer.limit))

namespace Absorbs

variable {test : α → Bool} {inner outer merged : Arrangement α D}

/-- Repetitions can be removed after the filter, and once. -/
theorem shown_eq (h : Absorbs c test inner outer merged) (order : IsOrder c.le) (l : List α) :
    outer.shown c (((inner.shown c l).mergeSort (inOrder c.le inner.order)).filter test) =
      (merged.shown c (l.filter test)).mergeSort (inOrder c.le inner.order) := by
  rw [← (order.inOrder inner.order).mergeSort_filter]
  have filtered : (inner.shown c l).filter test = inner.shown c (l.filter test) := by
    rw [shown, shown]
    split
    · next distinct => exact (eraseDupsBy_filter (h.repeats distinct).2 l).symm
    · rfl
  rw [filtered]
  have repeats : merged.repeats c = outer.repeats c := by
    funext x y
    rw [Arrangement.repeats, h.values]
    rfl
  cases outerDistinct : outer.distinct with
  | false =>
    rw [shown, outerDistinct, if_neg (by simp), shown, shown, h.distinct, outerDistinct, Bool.false_or]
    split
    · next distinct => rw [repeats, (h.repeats distinct).1]
    · rfl
  | true =>
    rw [h.sorted outerDistinct, mergeSort_inOrder_nil, mergeSort_inOrder_nil, shown, outerDistinct, if_pos rfl, shown, shown,
      h.distinct, outerDistinct, Bool.true_or, if_pos rfl, repeats]
    split
    · next distinct =>
      rw [(h.repeats distinct).1]
      exact eraseDupsBy_of_pairwise (pairwise_eraseDupsBy _ _)
    · rfl

/-- Sorting again by the outer order is sorting by the merged one. -/
theorem sorted_eq (h : Reorders c inner.order outer.order merged.order) (order : IsOrder c.le) (l : List α) :
    (l.mergeSort (inOrder c.le inner.order)).mergeSort (inOrder c.le outer.order) =
      l.mergeSort (inOrder c.le merged.order) := by
  cases h with
  | inner none same => rw [none, same, mergeSort_inOrder_nil]
  | outer none same => rw [none, same, mergeSort_inOrder_nil]
  | both same restated =>
    rw [same, restated]
    exact List.mergeSort_of_pairwise ((order.inOrder inner.order).pairwise_mergeSort l)

/-- One arrangement does what two do one after the other. -/
theorem apply_eq (h : Absorbs c test inner outer merged) (order : IsOrder c.le) (l : List α) :
    outer.apply c ((inner.apply c l).filter test) = merged.apply c (l.filter test) := by
  have shown := h.shown_eq order l
  rcases h.cuts with ⟨offset, limit, offset', limit'⟩ | ⟨distinct, all, unordered, offset, offset', limits⟩
  · rw [apply, apply, apply, offset, limit, List.drop_zero, takeUpTo, shown, sorted_eq h.order order, offset', limit']
  · have everything (m : List α) : m.filter test = m := List.filter_eq_self.2 fun x _ => all x
    have once : outer.shown c = id := by
      funext m
      rw [Arrangement.shown, distinct]
      rfl
    rw [everything, everything, once] at shown
    have resorted : (inner.shown c l).mergeSort (inOrder c.le inner.order) =
        (merged.shown c l).mergeSort (inOrder c.le merged.order) := by
      rw [show (inner.shown c l).mergeSort (inOrder c.le inner.order) = _ from shown]
      cases h.order with
      | inner none same => rw [same]
      | outer none same => rw [same, none, unordered none]
      | both same restated => rw [same, restated]
    -- What is cut off a sorted list leaves a sorted list.
    have still (n : Nat) (m : Option Nat) (x : List α) :
        (takeUpTo m ((x.mergeSort (inOrder c.le inner.order)).drop n)).mergeSort (inOrder c.le outer.order) =
          takeUpTo m ((x.mergeSort (inOrder c.le inner.order)).drop n) := by
      have cut : (takeUpTo m ((x.mergeSort (inOrder c.le inner.order)).drop n)).Sublist
          (x.mergeSort (inOrder c.le inner.order)) := (sublist_takeUpTo m _).trans (List.drop_sublist n _)
      cases h.order with
      | inner none same => rw [none, mergeSort_inOrder_nil]
      | outer none same => rw [unordered none, mergeSort_inOrder_nil]
      | both same restated =>
        rw [restated]
        exact List.mergeSort_of_pairwise (((order.inOrder inner.order).pairwise_mergeSort x).sublist cut)
    rw [apply, apply, apply, everything, everything, once, id, still, resorted, offset, List.drop_zero, offset']
    rcases limits with ⟨none, same⟩ | ⟨none, same⟩
    · rw [none, same]
      rfl
    · rw [none, same]
      rfl

end Absorbs

/-! ## Before and after joins -/

/-- An arrangement that only sorts. -/
structure Sorts (a : Arrangement α D) : Prop where
  distinct : a.distinct = false
  offset : a.offset = 0
  limit : a.limit = none

theorem Sorts.comap {a : Arrangement α D} (h : a.Sorts) (f : β → α) : (a.comap f).Sorts := ⟨h.distinct, h.offset, h.limit⟩

theorem Sorts.apply_eq {a : Arrangement α D} (h : a.Sorts) (l : List α) :
    a.apply c l = l.mergeSort (inOrder c.le a.order) := by
  rw [apply, shown, h.distinct, h.offset, h.limit]
  rfl

/-- Rows that are arranged and then expanded, as rows that are expanded with their origin and then arranged by it. -/
theorem apply_flatMap (order : IsOrder c.le) {a : Arrangement α D} {expand : α → List β} (test : α → Bool)
    (h : a.Sorts ∨ ∃ one : α → β, ∀ x, expand x = [one x]) (l : List α) :
    (a.apply c (l.filter test)).flatMap expand =
      ((a.comap Prod.fst).apply c ((l.flatMap fun x => (expand x).map (Prod.mk x)).filter fun w => test w.1)).map Prod.snd := by
  have filtered : (l.flatMap fun x => (expand x).map (Prod.mk x)).filter (fun w => test w.1) =
      (l.filter test).flatMap fun x => (expand x).map (Prod.mk x) := by
    induction l with
    | nil => rfl
    | cons x l ih =>
      have own : ((expand x).map (Prod.mk x)).filter (fun w => test w.1) = if test x then (expand x).map (Prod.mk x) else [] := by
        rw [List.filter_map]
        cases pass : test x <;> simp [Function.comp_def, pass]
      rw [List.flatMap_cons, List.filter_append, ih, own, List.filter_cons]
      cases test x <;> simp
  rw [filtered]
  rcases h with sorts | ⟨one, single⟩
  · have place (x y : α) (v : α × β) (hv : v ∈ (expand x).map (Prod.mk x)) (w : α × β) (hw : w ∈ (expand y).map (Prod.mk y)) :
        inOrder c.le (a.comap (Prod.fst : α × β → α)).order v w = inOrder c.le a.order x y := by
      obtain ⟨v, -, rfl⟩ := List.mem_map.1 hv
      obtain ⟨w, -, rfl⟩ := List.mem_map.1 hw
      exact inOrder_comap c.le Prod.fst a.order _ _
    rw [sorts.apply_eq, (sorts.comap _).apply_eq, (order.inOrder a.order).mergeSort_flatMap (order.inOrder _) _ place, List.map_flatMap]
    simp only [List.map_map, Function.comp_def, List.map_id']
  · have pairs : ((l.filter test).flatMap fun x => (expand x).map (Prod.mk x)) = (l.filter test).map fun x => (x, one x) := by
      simp only [single, List.map_cons, List.map_nil]
      rw [List.map_eq_flatMap]
    have back : (a.comap (Prod.fst : α × β → α)).comap (fun x => (x, one x)) = a := by
      rw [comap_comap]
      simp [comap, Criteria.comap]
    rw [pairs, apply_map, back, List.map_map, funext single, ← List.map_eq_flatMap]
    rfl

end Arrangement

end Relational

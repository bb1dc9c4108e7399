import Mathlib.Data.List.Basic
import Mathlib.Data.List.Forall2

/-!
# Stable sorting and first occurrences

A stable sort is fixed by two facts: its result is in order, and elements that tie stay as they stood. What is known
about sorting beside filters, beside expansions and under a second key follows from these facts
alone. First occurrences are kept by an arbitrary relation, of which only its use matters.
-/

namespace Relational

variable {α β : Type}

/-- A comparison under which any two elements can be put in order. -/
structure IsOrder (le : α → α → Bool) : Prop where
  trans : ∀ a b c, le a b = true → le b c = true → le a c = true
  total : ∀ a b, (le a b || le b a) = true

/-- Whether neither of two elements has to stand before the other. -/
def tied (le : α → α → Bool) (a b : α) : Bool := le a b && le b a

namespace IsOrder

variable {le : α → α → Bool} (order : IsOrder le)
include order

theorem refl (a : α) : le a a = true := by
  simpa using order.total a a

theorem comap (f : β → α) : IsOrder fun x y => le (f x) (f y) :=
  ⟨fun _ _ _ => order.trans _ _ _, fun _ _ => order.total _ _⟩

theorem flip : IsOrder fun x y => le y x :=
  ⟨fun _ _ _ h h' => order.trans _ _ _ h' h, fun _ _ => order.total _ _⟩

theorem tied_self (a : α) : tied le a a = true := by
  simp [tied, order.refl]

/-- Elements that tie with one element tie with each other. -/
theorem pairwise_filter_tied (a : α) (l : List α) :
    (l.filter (tied le a)).Pairwise fun x y => le x y = true := by
  refine List.pairwise_of_forall_mem_list fun x hx y hy => ?_
  have ax := (List.mem_filter.1 hx).2
  have ay := (List.mem_filter.1 hy).2
  simp only [tied, Bool.and_eq_true] at ax ay
  exact order.trans _ _ _ ax.2 ay.1

/-- Sorting is stable: elements that tie stay as they stood. -/
theorem filter_tied_mergeSort (a : α) (l : List α) :
    (l.mergeSort le).filter (tied le a) = l.filter (tied le a) := by
  have sub : (l.filter (tied le a)).Sublist (l.mergeSort le) :=
    List.sublist_mergeSort order.trans order.total (order.pairwise_filter_tied a l) List.filter_sublist
  have kept : (l.filter (tied le a)).Sublist ((l.mergeSort le).filter (tied le a)) := by
    simpa using sub.filter (tied le a)
  exact (kept.eq_of_length ((List.mergeSort_perm l le).filter _).length_eq.symm).symm

theorem pairwise_mergeSort (l : List α) :
    (l.mergeSort le).Pairwise fun x y => le x y = true :=
  List.pairwise_mergeSort order.trans order.total l

/-- Two lists in order are equal if they agree on every set of elements that tie. -/
theorem eq_of_sorted {l l' : List α} (sorted : l.Pairwise fun x y => le x y = true)
    (sorted' : l'.Pairwise fun x y => le x y = true)
    (agree : ∀ a, a ∈ l ∨ a ∈ l' → l.filter (tied le a) = l'.filter (tied le a)) : l = l' := by
  induction l generalizing l' with
  | nil =>
    cases l' with
    | nil => rfl
    | cons b l' => simpa [order.tied_self] using agree b (by simp)
  | cons a l ih =>
    cases l' with
    | nil => simpa [order.tied_self] using agree a (by simp)
    | cons b l' =>
      have mem : a ∈ b :: l' := by
        have : a ∈ (b :: l').filter (tied le a) := by rw [← agree a (by simp)]; simp [order.tied_self]
        exact List.mem_of_mem_filter this
      have mem' : b ∈ a :: l := by
        have : b ∈ (a :: l).filter (tied le b) := by rw [agree b (by simp)]; simp [order.tied_self]
        exact List.mem_of_mem_filter this
      have ba : le b a = true := by
        rcases List.mem_cons.1 mem with rfl | h
        · exact order.refl _
        · exact (List.pairwise_cons.1 sorted').1 a h
      have ab : le a b = true := by
        rcases List.mem_cons.1 mem' with rfl | h
        · exact order.refl _
        · exact (List.pairwise_cons.1 sorted).1 b h
      -- The heads tie, so both lead the elements that tie with `a`.
      have heads : a = b := by
        have tie : tied le a b = true := by simp [tied, ab, ba]
        have := agree a (by simp)
        rw [List.filter_cons_of_pos (order.tied_self a), List.filter_cons_of_pos tie] at this
        exact (List.cons.inj this).1
      subst heads
      refine congrArg (a :: ·) (ih (List.pairwise_cons.1 sorted).2 (List.pairwise_cons.1 sorted').2 fun c hc => ?_)
      have := agree c (hc.imp (List.mem_cons_of_mem a) (List.mem_cons_of_mem a))
      simp only [List.filter_cons] at this
      split at this
      · exact (List.cons.inj this).2
      · exact this

/-- A list in order that keeps the elements that tie as they stood is the stable sort. -/
theorem mergeSort_eq {l l' : List α} (sorted : l'.Pairwise fun x y => le x y = true)
    (agree : ∀ a, a ∈ l ∨ a ∈ l' → l'.filter (tied le a) = l.filter (tied le a)) : l.mergeSort le = l' :=
  order.eq_of_sorted (order.pairwise_mergeSort l) sorted fun a ha => by
    rw [order.filter_tied_mergeSort, agree a (by simpa using ha)]

theorem mergeSort_filter (p : α → Bool) (l : List α) :
    (l.filter p).mergeSort le = (l.mergeSort le).filter p := by
  refine order.mergeSort_eq ((order.pairwise_mergeSort l).filter p) fun a _ => ?_
  rw [List.filter_comm, order.filter_tied_mergeSort, List.filter_comm]

/-- Elements expand to elements of the same place in the order, so sorting can wait. -/
theorem mergeSort_flatMap {le' : β → β → Bool} (order' : IsOrder le') (expand : α → List β)
    (place : ∀ a b, ∀ x ∈ expand a, ∀ y ∈ expand b, le' x y = le a b) (l : List α) :
    (l.flatMap expand).mergeSort le' = (l.mergeSort le).flatMap expand := by
  refine order'.mergeSort_eq (List.pairwise_flatMap.2 ⟨fun a _ => ?_, ?_⟩) fun x hx => ?_
  · exact List.pairwise_of_forall_mem_list fun x hx y hy => by rw [place a a x hx y hy, order.refl]
  · exact (order.pairwise_mergeSort l).imp fun h x hx y hy => by rw [place _ _ x hx y hy, h]
  · obtain ⟨a, -, hx⟩ : ∃ a ∈ l, x ∈ expand a := by simpa using hx
    -- Whether an element ties with `x` is decided by what it comes from.
    have whole (m : List α) : (m.flatMap expand).filter (tied le' x) = (m.filter (tied le a)).flatMap expand := by
      induction m with
      | nil => rfl
      | cons b m ih =>
        have all : ∀ y ∈ expand b, tied le' x y = tied le a b := fun y hy => by
          rw [tied, tied, place a b x hx y hy, place b a y hy x hx]
        rw [List.flatMap_cons, List.filter_append, ih, List.filter_cons, List.filter_congr all]
        cases tied le a b <;> simp
    rw [whole, whole, order.filter_tied_mergeSort]

end IsOrder

/-! ## Several keys -/

/-- The first comparison, and the second where elements tie. -/
def thenBy (le le' : α → α → Bool) (a b : α) : Bool := le a b && (!le b a || le' a b)

theorem thenBy_assoc (le le' le'' : α → α → Bool) : thenBy (thenBy le le') le'' = thenBy le (thenBy le' le'') := by
  funext x y
  simp only [thenBy]
  cases le x y <;> cases le y x <;> simp

theorem tied_thenBy (le le' : α → α → Bool) (a b : α) :
    tied (thenBy le le') a b = (tied le a b && tied le' a b) := by
  simp only [tied, thenBy]
  cases le a b <;> cases le b a <;> simp

theorem IsOrder.thenBy {le le' : α → α → Bool} (order : IsOrder le) (order' : IsOrder le') :
    IsOrder (thenBy le le') where
  trans a b c h h' := by
    simp only [Relational.thenBy, Bool.and_eq_true, Bool.or_eq_true, Bool.not_eq_true'] at *
    refine ⟨order.trans _ _ _ h.1 h'.1, ?_⟩
    cases back : le c a with
    | false => exact .inl rfl
    | true =>
      have cb := order.trans _ _ _ back h.1
      have ba := order.trans _ _ _ h'.1 back
      have ab' : le' a b = true := by simpa [ba] using h.2
      have bc' : le' b c = true := by simpa [cb] using h'.2
      exact .inr (order'.trans _ _ _ ab' bc')
  total a b := by
    have first := order.total a b
    have second := order'.total a b
    simp only [Relational.thenBy]
    cases ab : le a b <;> cases ba : le b a <;> simp_all

/-- Sorting by the first key after the second is sorting by both. -/
theorem IsOrder.mergeSort_thenBy {le le' : α → α → Bool} (order : IsOrder le) (order' : IsOrder le') (l : List α) :
    l.mergeSort (Relational.thenBy le le') = (l.mergeSort le').mergeSort le := by
  have both (m : List α) (sorted : m.Pairwise fun x y => le x y = true)
      (tie : ∀ a, (m.filter (tied le a)).Pairwise fun x y => le' x y = true) :
      m.Pairwise fun x y => Relational.thenBy le le' x y = true := by
    induction m with
    | nil => exact .nil
    | cons a m ih =>
      obtain ⟨head, tail⟩ := List.pairwise_cons.1 sorted
      refine List.pairwise_cons.2 ⟨fun b hb => ?_, ih tail fun c => ?_⟩
      · have own := tie a
        rw [List.filter_cons_of_pos (order.tied_self a)] at own
        simp only [Relational.thenBy, head b hb, Bool.true_and, Bool.or_eq_true, Bool.not_eq_true']
        cases back : le b a with
        | false => exact .inl rfl
        | true =>
          have tied : tied le a b = true := by simp [Relational.tied, head b hb, back]
          exact .inr ((List.pairwise_cons.1 own).1 b (List.mem_filter.2 ⟨hb, tied⟩))
      · exact (tie c).sublist ((List.sublist_cons_self a m).filter _)
  refine (order.thenBy order').mergeSort_eq (both _ (order.pairwise_mergeSort _) fun a => ?_) fun a _ => ?_
  · rw [order.filter_tied_mergeSort]
    exact (order'.pairwise_mergeSort l).filter _
  · have split (m : List α) :
        m.filter (tied (Relational.thenBy le le') a) = (m.filter (tied le a)).filter (tied le' a) := by
      rw [List.filter_filter]
      exact List.filter_congr fun b _ => by rw [tied_thenBy, Bool.and_comm]
    rw [split, split, order.filter_tied_mergeSort, List.filter_comm, order'.filter_tied_mergeSort, List.filter_comm]

/-! ## First occurrences -/

/-- Induction in which what follows an element may be thinned out. -/
theorem induction_filter {P : List α → Prop} (nil : P [])
    (cons : ∀ a l, (∀ p : α → Bool, P (l.filter p)) → P (a :: l)) (l : List α) : P l := by
  have upTo (n : Nat) : ∀ l : List α, l.length ≤ n → P l := by
    induction n with
    | zero => exact fun l h => List.length_eq_zero_iff.1 (Nat.le_zero.1 h) ▸ nil
    | succ n ih =>
      intro l h
      cases l with
      | nil => exact nil
      | cons a l =>
        exact cons a l fun p => ih _ (Nat.le_trans (List.length_filter_le p l) (Nat.le_of_succ_le_succ h))
  exact upTo l.length l (Nat.le_refl _)

theorem eraseDupsBy_map (r : β → β → Bool) (f : α → β) (l : List α) :
    (l.map f).eraseDupsBy r = (l.eraseDupsBy fun x y => r (f x) (f y)).map f := by
  induction l using induction_filter with
  | nil => rfl
  | cons a l ih =>
    rw [List.map_cons, List.eraseDupsBy_cons, List.eraseDupsBy_cons, List.map_cons, List.filter_map, ← ih]
    rfl

theorem mem_of_mem_eraseDupsBy {r : α → α → Bool} {l : List α} {a : α} (h : a ∈ l.eraseDupsBy r) : a ∈ l := by
  induction l using induction_filter with
  | nil => exact h
  | cons b l ih =>
    rw [List.eraseDupsBy_cons, List.mem_cons] at h
    rcases h with rfl | h
    · exact List.mem_cons_self
    · exact List.mem_cons_of_mem _ (List.mem_of_mem_filter (ih _ h))

/-- A test that repetitions pass alike can be made before they are removed. -/
theorem eraseDupsBy_filter {r : α → α → Bool} {p : α → Bool} (alike : ∀ a b, r b a = true → p b = p a)
    (l : List α) : (l.filter p).eraseDupsBy r = (l.eraseDupsBy r).filter p := by
  induction l using induction_filter with
  | nil => rfl
  | cons a l ih =>
    rw [List.eraseDupsBy_cons, List.filter_cons, List.filter_cons, ← ih]
    cases pa : p a with
    | true => rw [if_pos rfl, if_pos rfl, List.eraseDupsBy_cons, List.filter_comm]
    | false =>
      rw [if_neg (by simp), if_neg (by simp), List.filter_filter]
      refine congrArg _ (List.filter_congr fun b _ => ?_)
      cases pb : p b with
      | false => rfl
      | true =>
        cases rba : r b a with
        | false => rfl
        | true => simp [alike a b rba, pa] at pb

theorem pairwise_eraseDupsBy (r : α → α → Bool) (l : List α) :
    (l.eraseDupsBy r).Pairwise fun x y => r y x = false := by
  induction l using induction_filter with
  | nil => exact .nil
  | cons a l ih =>
    rw [List.eraseDupsBy_cons]
    refine List.pairwise_cons.2 ⟨fun b hb => ?_, ih _⟩
    simpa using (List.mem_filter.1 (mem_of_mem_eraseDupsBy hb)).2

theorem eraseDupsBy_of_pairwise {r : α → α → Bool} {l : List α} (h : l.Pairwise fun x y => r y x = false) :
    l.eraseDupsBy r = l := by
  induction l with
  | nil => rfl
  | cons a l ih =>
    obtain ⟨head, tail⟩ := List.pairwise_cons.1 h
    rw [List.eraseDupsBy_cons, List.filter_eq_self.2 (by simpa using head), ih tail]

end Relational

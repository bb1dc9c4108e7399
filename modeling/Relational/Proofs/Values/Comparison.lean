import Mathlib.Algebra.Order.Ring.Int
import Mathlib.Data.List.Forall2
import Mathlib.Order.Compare
import Relational.Value.Order

/-!
# The order of values

Doubles apart, a value that can be compared has a measure: numbers have their size, texts and characters their text, and every other kind has
its own. Values compare by their measures (`Value.compare?_eq`), so the chains in which the kinds of values change are those of one
order. What has no measure is the same as another value part by part.
-/

namespace Relational

/-! ## Values without doubles -/

/-- A value that has no parts. -/
def Value.isScalar : Value → Bool
  | .record _ _ | .list _ | .group _ _ => false
  | _ => true

/-- A value without doubles, at any depth. -/
inductive Value.Exact : Value → Prop where
  | scalar {v : Value} (whole : v.isScalar = true) (other : ∀ x, v ≠ .float x) : Exact v
  | record {name : String} {fields : List (String × Value)} (each : ∀ x ∈ fields, Exact x.2) : Exact (.record name fields)
  | list {items : List Value} (each : ∀ v ∈ items, Exact v) : Exact (.list items)
  | group {key : Value} {elements : List Value} (first : Exact key) (each : ∀ v ∈ elements, Exact v) : Exact (.group key elements)

theorem Value.Exact.not_float {x : Float} : ¬(Value.float x).Exact := by
  intro exact
  cases exact with
  | scalar _ other => exact other x rfl

/-! ## Measures -/

open Std (TransCmp LawfulEqCmp OrientedCmp ReflCmp)

instance : TransCmp Timestamp.compare :=
  inferInstanceAs (TransCmp (compareLex (compareOn Timestamp.day) (compareLex (compareOn Timestamp.second) (compareOn Timestamp.nano))))

instance : LawfulEqCmp Timestamp.compare where
  eq_of_compare {a b} h := by
    cases a
    cases b
    simpa [Timestamp.compare, Ordering.then_eq_eq] using h

instance : TransCmp Uuid.compare := inferInstanceAs (TransCmp (compareOn fun u : Uuid => u.bits.toNat))

instance : LawfulEqCmp Uuid.compare where
  eq_of_compare {a b} h := by
    cases a
    cases b
    simpa [Uuid.compare, BitVec.toNat_inj] using h

theorem Value.compareBytes_eq (a b : List UInt8) : compareBytes a b = compare a b := by
  induction a generalizing b with
  | nil => cases b <;> rfl
  | cons x a ih =>
    cases b with
    | nil => rfl
    | cons y b => rw [compareBytes, ih, List.compare_cons_cons]

/-- What values are compared by. -/
inductive Measure where
  | number (units : Int)
  | truth (b : Bool)
  | text (s : String)
  | moment (t : Timestamp)
  | duration (ticks : Int)
  | uuid (u : Uuid)
  | variant (name : String)
  | bytes (bs : List UInt8)

namespace Measure

/-- Measures of one kind compare. -/
def compare? : Measure → Measure → Option Ordering
  | number m, number n => some (compare m n)
  | truth b, truth c => some (compare b c)
  | text s, text t => some (compare s t)
  | moment s, moment t => some (s.compare t)
  | duration m, duration n => some (compare m n)
  | uuid u, uuid v => some (u.compare v)
  | variant s, variant t => some (compare s t)
  | bytes a, bytes b => some (compare a b)
  | _, _ => none

theorem compare?_swap (m n : Measure) : n.compare? m = (m.compare? n).map Ordering.swap := by
  cases m <;> cases n <;> first | rfl | exact congrArg some OrientedCmp.eq_swap

theorem compare?_trans {m n k : Measure} {o o' : Ordering} (first : m.compare? n = some o) (next : n.compare? k = some o') (le : o ≠ .gt)
    (le' : o' ≠ .gt) : ∃ o'', m.compare? k = some o'' ∧ o'' ≠ .gt := by
  have le := Ordering.isLE_iff_ne_gt.2 le
  have le' := Ordering.isLE_iff_ne_gt.2 le'
  cases m <;> cases n <;> cases first <;> cases k <;> cases next <;> exact ⟨_, rfl, Ordering.isLE_iff_ne_gt.1 (TransCmp.isLE_trans le le')⟩

theorem compare?_eq_iff {m n : Measure} : m.compare? n = some .eq ↔ m = n := by
  constructor
  · intro h
    cases m <;> cases n <;> first | exact congrArg _ (LawfulEqCmp.eq_of_compare (Option.some.inj h)) | cases h
  · rintro rfl
    cases m <;> exact congrArg some ReflCmp.compare_self

end Measure

namespace Value

def measure? : Value → Option Measure
  | bool b => some (.truth b)
  | int n => some (.number (Decimal.ofWord n).units)
  | decimal d => some (.number d.units)
  | text s => some (.text s)
  | char c => some (.text c.toString)
  | blob bs => some (.bytes bs)
  | timestamp t => some (.moment t)
  | duration ticks => some (.duration ticks.toInt)
  | uuid u => some (.uuid u)
  | enum variant => some (.variant variant)
  | _ => none

theorem compare_words (m n : Int64) : compare m.toInt n.toInt = compare (Decimal.ofWord m).units (Decimal.ofWord n).units := by
  have scaled (n : Int64) : (Decimal.ofWord n).units = n.toInt * pow10 28 := by
    simp only [Decimal.units, Decimal.ofWord, decide_eq_true_eq]
    split <;> push_cast
    · next negative => rw [abs_of_neg negative, neg_mul, neg_neg]
    · next positive => rw [abs_of_nonneg (not_lt.1 positive)]
  have grows : StrictMono fun x : Int => x * pow10 28 := fun _ _ less => mul_lt_mul_of_pos_right less (by decide)
  rw [scaled, scaled, ← cmp_eq_compare, ← cmp_eq_compare, grows.cmp_map_eq]

theorem compare_chars (c d : Char) : compare c d = compare c.toString d.toString := by
  have less : c.toString.toList < d.toString.toList ↔ c < d := by simp [Char.toString, List.cons_lt_cons_iff]
  have same : c.toString = d.toString ↔ c = d := by simp [Char.toString, ← String.toList_inj]
  simp only [compare, String.compare, compareOfLessAndEq, ← less, ← same]
  rfl

/-- Values compare by their measures. -/
theorem compare?_eq {a b : Value} (exact : a.Exact) (exact' : b.Exact) :
    a.compare? b = a.measure?.bind fun m => b.measure?.bind fun n => m.compare? n := by
  cases a <;> cases b
  case int.int m n => exact congrArg some (compare_words m n)
  case char.char c d => exact congrArg some (compare_chars c d)
  case blob.blob bs cs => exact congrArg some (compareBytes_eq bs cs)
  all_goals first | rfl | exact absurd exact Exact.not_float | exact absurd exact' Exact.not_float

/-! ## Values that are the same -/

/-- What holds of an equivalence at one place. -/
structure EquivalentAt {α : Type} (R : α → α → Prop) (a : α) : Prop where
  refl : R a a
  symm : ∀ b, R a b → R b a
  trans : ∀ b c, R a b → R b c → R a c

theorem EquivalentAt.forall₂ {α : Type} {R : α → α → Prop} {l : List α} (each : ∀ a ∈ l, EquivalentAt R a) : EquivalentAt (List.Forall₂ R) l := by
  induction l with
  | nil => exact ⟨.nil, fun _ h => by cases h; exact .nil, fun _ _ h h' => by cases h; exact h'⟩
  | cons a l ih =>
    obtain ⟨head, tail⟩ := List.forall_mem_cons.1 each
    have rest := ih tail
    refine ⟨.cons head.refl rest.refl, ?_, ?_⟩
    · rintro _ (_ | ⟨first, others⟩)
      exact .cons (head.symm _ first) (rest.symm _ others)
    · rintro _ _ (_ | ⟨first, others⟩) (_ | ⟨first', others'⟩)
      exact .cons (head.trans _ _ first first') (rest.trans _ _ others others')

theorem sameItems_iff {xs ys : List Value} : sameItems xs ys = true ↔ List.Forall₂ (fun x y => x.same y = true) xs ys := by
  induction xs generalizing ys with
  | nil => cases ys <;> simp [sameItems]
  | cons x xs ih => cases ys <;> simp [sameItems, ih]

theorem sameFields_iff {xs ys : List (String × Value)} :
    sameFields xs ys = true ↔ List.Forall₂ (fun x y => x.1 = y.1 ∧ x.2.same y.2 = true) xs ys := by
  induction xs generalizing ys with
  | nil => cases ys <;> simp [sameFields]
  | cons x xs ih => cases ys <;> simp [sameFields, ih]

theorem Exact.same_equivalent {v : Value} (exact : v.Exact) : EquivalentAt (fun a b => a.same b = true) v := by
  induction exact with
  | @scalar v whole other =>
    have decimals {d d' : Decimal} : d.compare d' = .eq ↔ d.units = d'.units := compare_eq_iff_eq
    cases v <;> simp only [isScalar, Bool.false_eq_true] at whole
    case float x => exact absurd rfl (other x)
    all_goals
      refine ⟨by simp [same, decimals], fun w h => ?_, fun w u h h' => ?_⟩
      · cases w <;> simp [same, decimals] at h ⊢ <;> exact h.symm
      · cases w <;> simp [same, decimals] at h
        cases u <;> simp [same, decimals] at h' ⊢ <;> exact h.trans h'
  | @record name fields each ih =>
    have each : ∀ x ∈ fields, EquivalentAt (fun x y => x.1 = y.1 ∧ x.2.same y.2 = true) x := fun x mem =>
      ⟨⟨rfl, (ih x mem).refl⟩, fun y h => ⟨h.1.symm, (ih x mem).symm _ h.2⟩, fun y z h h' => ⟨h.1.trans h'.1, (ih x mem).trans _ _ h.2 h'.2⟩⟩
    have fieldwise := EquivalentAt.forall₂ each
    refine ⟨by simpa [same, sameFields_iff] using fieldwise.refl, fun w h => ?_, fun w u h h' => ?_⟩
    · cases w <;> simp [same, sameFields_iff] at h ⊢
      exact ⟨h.1.symm, fieldwise.symm _ h.2⟩
    · cases w <;> simp [same, sameFields_iff] at h
      cases u <;> simp [same, sameFields_iff] at h' ⊢
      exact ⟨h.1.trans h'.1, fieldwise.trans _ _ h.2 h'.2⟩
  | list each ih =>
    have itemwise := EquivalentAt.forall₂ ih
    refine ⟨by simpa [same, sameItems_iff] using itemwise.refl, fun w h => ?_, fun w u h h' => ?_⟩
    · cases w <;> simp [same, sameItems_iff] at h ⊢
      exact itemwise.symm _ h
    · cases w <;> simp [same, sameItems_iff] at h
      cases u <;> simp [same, sameItems_iff] at h' ⊢
      exact itemwise.trans _ _ h h'
  | group first each ihk ih =>
    have itemwise := EquivalentAt.forall₂ ih
    refine ⟨by simpa only [same, Bool.and_eq_true, sameItems_iff] using ⟨ihk.refl, itemwise.refl⟩, fun w h => ?_, fun w u h h' => ?_⟩
    · cases w <;> simp [same, sameItems_iff] at h ⊢
      exact ⟨ihk.symm _ h.1, itemwise.symm _ h.2⟩
    · cases w <;> simp [same, sameItems_iff] at h
      cases u <;> simp [same, sameItems_iff] at h' ⊢
      exact ⟨ihk.trans _ _ h.1 h'.1, itemwise.trans _ _ h.2 h'.2⟩

/-! ## Equality -/

theorem measure?_of_same {a b : Value} (h : a.same b = true) : a.measure? = b.measure? := by
  cases a <;> cases b <;> simp [same, measure?] at h ⊢ <;> try rw [h]
  exact compare_eq_iff_eq.1 h

theorem nullSafeEq_eq (a b : Value) : a.nullSafeEq b = (a.compare? b == some .eq || a.same b) := by
  cases a <;> cases b <;> rfl

/-- Values are equal by their measures, or part by part if they have none. -/
theorem nullSafeEq_iff {a b : Value} (exact : a.Exact) (exact' : b.Exact) :
    a.nullSafeEq b = true ↔ a.measure? = b.measure? ∧ (a.measure? = none → a.same b = true) := by
  rw [nullSafeEq_eq, Bool.or_eq_true, beq_iff_eq, compare?_eq exact exact']
  cases measured : a.measure? with
  | none =>
    refine ⟨fun h => ?_, fun h => .inr (h.2 rfl)⟩
    obtain same := h.resolve_left (by simp)
    exact ⟨measured.symm.trans (measure?_of_same same), fun _ => same⟩
  | some m =>
    rw [← measured]
    refine ⟨fun h => ⟨?_, by simp [measured]⟩, fun h => .inl ?_⟩
    · obtain h | same := h
      · obtain ⟨_, measured', h⟩ := Option.bind_eq_some_iff.1 h
        obtain ⟨n, other, h⟩ := Option.bind_eq_some_iff.1 h
        rw [measured', other, Measure.compare?_eq_iff.1 h]
      · exact measure?_of_same same
    · rw [← h.1, measured]
      exact Measure.compare?_eq_iff.2 rfl

end Value

abbrev ExactValue := { v : Value // v.Exact }

/-- Doubles apart, null-safe equality is an equivalence, and the order of values is a partial order in step with it: swapped values compare
the other way round, what is not greater than what is not greater is not greater, and values that compare as equal are equal. -/
theorem ExactValue.compare_nullSafeEq : Equivalence (fun a b : ExactValue => a.1.nullSafeEq b.1 = true) ∧
    ∀ a b c : ExactValue, b.1.compare? a.1 = (a.1.compare? b.1).map Ordering.swap ∧
      (∀ o o', a.1.compare? b.1 = some o → b.1.compare? c.1 = some o' → o ≠ .gt → o' ≠ .gt → ∃ o'', a.1.compare? c.1 = some o'' ∧ o'' ≠ .gt) ∧
      (a.1.compare? b.1 = some .eq → a.1.nullSafeEq b.1 = true) := by
  refine ⟨⟨fun a => ?_, fun {a b} h => ?_, fun {a b c} h h' => ?_⟩, fun a b c => ⟨?_, fun o o' h h' le le' => ?_, fun h => ?_⟩⟩
  · exact (Value.nullSafeEq_iff a.2 a.2).2 ⟨rfl, fun _ => a.2.same_equivalent.refl⟩
  · rw [Value.nullSafeEq_iff a.2 b.2] at h
    exact (Value.nullSafeEq_iff b.2 a.2).2 ⟨h.1.symm, fun none => a.2.same_equivalent.symm _ (h.2 (h.1.trans none))⟩
  · rw [Value.nullSafeEq_iff a.2 b.2] at h
    rw [Value.nullSafeEq_iff b.2 c.2] at h'
    exact (Value.nullSafeEq_iff a.2 c.2).2
      ⟨h.1.trans h'.1, fun none => a.2.same_equivalent.trans _ _ (h.2 none) (h'.2 (h.1.symm.trans none))⟩
  · rw [Value.compare?_eq a.2 b.2, Value.compare?_eq b.2 a.2]
    cases a.1.measure? <;> cases b.1.measure? <;> first | rfl | exact Measure.compare?_swap _ _
  · rw [Value.compare?_eq a.2 b.2] at h
    rw [Value.compare?_eq b.2 c.2] at h'
    rw [Value.compare?_eq a.2 c.2]
    obtain ⟨m, first, h⟩ := Option.bind_eq_some_iff.1 h
    obtain ⟨n, second, h⟩ := Option.bind_eq_some_iff.1 h
    rw [second, Option.bind_some] at h'
    obtain ⟨k, third, h'⟩ := Option.bind_eq_some_iff.1 h'
    rw [first, third]
    exact Measure.compare?_trans h h' le le'
  · rw [Value.nullSafeEq_eq, h]
    rfl

end Relational

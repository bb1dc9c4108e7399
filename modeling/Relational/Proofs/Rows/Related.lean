import Mathlib.Data.List.Forall2

/-!
# Lists of related elements

What lists, options and outcomes have in common whose elements are related one by one.
-/

namespace Relational

variable {α β γ : Type} {R : α → β → Prop} {l : List α} {l' : List β}

theorem forall₂_with_mem (related : List.Forall₂ R l l') : List.Forall₂ (fun a b => a ∈ l ∧ b ∈ l' ∧ R a b) l l' := by
  induction related with
  | nil => exact .nil
  | cons head _ ih =>
    exact .cons ⟨by simp, by simp, head⟩ (ih.imp fun _ _ h => ⟨by simp [h.1], by simp [h.2.1], h.2.2⟩)

theorem map_eq_of_related {g : α → γ} {g' : β → γ} (related : List.Forall₂ R l l')
    (same : ∀ a ∈ l, ∀ b ∈ l', R a b → g' b = g a) : l'.map g' = l.map g := by
  induction related with
  | nil => rfl
  | cons head _ ih =>
    simp only [List.map_cons, same _ (by simp) _ (by simp) head,
      ih fun a ha b hb => same a (by simp [ha]) b (by simp [hb])]

theorem map_eq_of_forall₂ {g : α → γ} {g' : β → γ} (related : List.Forall₂ R l l') (same : ∀ a b, R a b → g' b = g a) :
    l'.map g' = l.map g :=
  map_eq_of_related related fun a _ b _ => same a b

theorem any_eq_of_related {p : α → Bool} {p' : β → Bool} (related : List.Forall₂ R l l')
    (same : ∀ a ∈ l, ∀ b ∈ l', R a b → p' b = p a) : l'.any p' = l.any p := by
  simpa [List.any_map] using congrArg (List.any · id) (map_eq_of_related related same)

theorem exists_of_forall₂ (related : List.Forall₂ R l l') {a : α} (mem : a ∈ l) : ∃ b ∈ l', R a b := by
  induction related with
  | nil => cases mem
  | cons head _ ih =>
    rcases List.mem_cons.1 mem with rfl | mem
    · exact ⟨_, List.mem_cons_self, head⟩
    · obtain ⟨b, found, related⟩ := ih mem
      exact ⟨b, List.mem_cons_of_mem _ found, related⟩

theorem forall_right {P : β → Prop} (related : List.Forall₂ R l l') (each : ∀ a b, R a b → P b) : ∀ b ∈ l', P b := by
  induction related with
  | nil => rintro _ ⟨⟩
  | cons h _ ih => exact List.forall_mem_cons.2 ⟨each _ _ h, ih⟩

theorem isEmpty_of_forall₂ (related : List.Forall₂ R l l') : l'.isEmpty = l.isEmpty := by
  cases related <;> rfl

theorem head_of_forall₂ {f : α → Option γ} {f' : β → Option γ} (related : List.Forall₂ R l l') (same : ∀ a b, R a b → f' b = f a) :
    l'.head?.bind f' = l.head?.bind f := by
  cases related with
  | nil => rfl
  | cons head _ => exact same _ _ head

theorem filterMap_of_forall₂ {f : α → Option γ} {f' : β → Option γ} (related : List.Forall₂ R l l')
    (same : ∀ a b, R a b → f' b = f a) : l'.filterMap f' = l.filterMap f := by
  induction related with
  | nil => rfl
  | cons head _ ih => rw [List.filterMap_cons, List.filterMap_cons, same _ _ head, ih]

theorem map_eq_of_rel {o : Option α} {o' : Option β} {g : α → γ} {g' : β → γ} (related : Option.Rel R o o')
    (same : ∀ a ∈ o, ∀ b ∈ o', R a b → g' b = g a) : o'.map g' = o.map g := by
  cases related with
  | none => rfl
  | some h => exact congrArg some (same _ rfl _ rfl h)

theorem rel_imp_mem {S S' : α → β → Prop} {o : Option α} {o' : Option β} (related : Option.Rel S o o')
    (imp : ∀ a ∈ o, ∀ b, S a b → S' a b) : Option.Rel S' o o' := by
  cases related with
  | none => exact .none
  | some same => exact .some (imp _ rfl _ same)

theorem rel_imp {S S' : α → β → Prop} {o : Option α} {o' : Option β} (related : Option.Rel S o o')
    (imp : ∀ a b, S a b → S' a b) : Option.Rel S' o o' := rel_imp_mem related fun a _ => imp a

/-- Outcomes that are related: the same error, or related results. -/
inductive ExceptRel {ε : Type} (R : α → β → Prop) : Except ε α → Except ε β → Prop where
  | ok {a : α} {b : β} (related : R a b) : ExceptRel R (.ok a) (.ok b)
  | error (e : ε) : ExceptRel R (.error e) (.error e)

/-! ## Elements that are made of others -/

theorem forall₂_map {g : α → β} (each : ∀ a ∈ l, R a (g a)) : List.Forall₂ R l (l.map g) := by
  induction l with
  | nil => exact .nil
  | cons a l ih => exact .cons (each a List.mem_cons_self) (ih fun b mem => each b (List.mem_cons_of_mem _ mem))

theorem rel_map {o : Option α} {g : α → β} (each : ∀ a ∈ o, R a (g a)) : Option.Rel R o (o.map g) := by
  cases o with
  | none => exact .none
  | some a => exact .some (each a rfl)

theorem eq_map_of_forall₂ {g : α → β} (related : List.Forall₂ (fun a b => b = g a) l l') : l' = l.map g := by
  have same : l'.map id = l.map g := map_eq_of_forall₂ related fun _ _ same => same
  simpa using same

theorem count_flatMap_le_of_forall₂ {A B C : Type} [BEq C] {R : A → B → Prop} {l : List A} {l' : List B} (h : List.Forall₂ R l l') {g : A → List C}
    {g' : B → List C} {c : C} (fewer : ∀ a b, R a b → (g' b).count c ≤ (g a).count c) : (l'.flatMap g').count c ≤ (l.flatMap g).count c := by
  induction h with
  | nil => exact Nat.le_refl _
  | cons head _ ih =>
    have first := fewer _ _ head
    rw [List.flatMap_cons, List.flatMap_cons, List.count_append, List.count_append]
    omega

end Relational

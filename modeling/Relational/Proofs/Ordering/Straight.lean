import Relational.Proofs.Ordering.Keys
import Relational.Proofs.Compilation.Splitting

/-!
# Orderings of straight projections

The orderings of selects in a row come to rest in the outermost select, and in every select that cuts its rows. What a source hands on
sorts its rows into the order that they had (`Source.Hands`): a filter can be put before a stable
sort, a second sort makes one with the first, and a cut keeps the order. So the outermost select has
the same rows as before (`Select.rows_order`).
-/

namespace Relational

variable {D : Type} {I : Interpretation D} {db : Database D} {lit : Value → Ty → Prop} {Γ : Context}

/-! ## Rows that are related -/

section Related

variable {α β : Type} {R : α → β → Prop} {l : List α} {l' : List β}

/-- Related rows are related when they are sorted by keys that relate them. -/
theorem forall₂_mergeSort {le : α → α → Bool} {le' : β → β → Bool} (related : List.Forall₂ R l l')
    (same : ∀ a b a' b', R a a' → R b b' → le a b = le' a' b') : List.Forall₂ R (l.mergeSort le) (l'.mergeSort le') := by
  obtain ⟨pairs, rfl, rfl⟩ := Stage.exists_pairs related
  rw [← List.map_mergeSort (r := fun p q => le p.1.1 q.1.1) fun _ _ _ _ => rfl,
    ← List.map_mergeSort (r := fun p q => le p.1.1 q.1.1) fun p _ q _ => (same _ _ _ _ p.2 q.2)]
  exact Stage.forall₂_sides _

theorem forall₂_filter {p : α → Bool} {p' : β → Bool} (related : List.Forall₂ R l l') (same : ∀ a b, R a b → p a = p' b) :
    List.Forall₂ R (l.filter p) (l'.filter p') :=
  List.rel_filter (fun a b h => by simp only [same a b h]) related

theorem forall₂_takeUpTo (n : Option Nat) (related : List.Forall₂ R l l') : List.Forall₂ R (takeUpTo n l) (takeUpTo n l') := by
  cases n with
  | none => exact related
  | some n => exact List.forall₂_take n related

end Related

/-- Rows that are alike in the columns of a source, and in what is beside it. -/
structure Source.Alike (src : Source) (σ σ' : Env D) : Prop where
  shown : ∀ c, src.context.sees c → σ c.label c.name = σ' c.label c.name
  beside : ∀ a, a ∉ src.visible → σ a = σ' a

theorem Source.Alike.eval {src : Source} {σ σ' : Env D} (alike : src.Alike σ σ') (apart : ∀ a ∈ Γ.map (·.1), a ∉ src.visible)
    {e : Expr} (formed : e.Formed lit (Γ ++ src.context) none) : e.eval I db σ [σ] = e.eval I db σ' [σ'] := by
  refine (Expr.eval_congr formed fun c sees => ?_).symm
  rcases Context.sees_append.1 sees with sees | sees
  · exact congrFun (alike.beside c.label (apart _ (Context.label_of_sees sees))) c.name
  · exact alike.shown c sees

/-- An expression without statements has no orderings. -/
theorem Expr.IsFlat.order_eq {e : Expr} (flat : e.IsFlat) (outermost : Bool) : e.order outermost = e := by
  induction flat with
  | @leaf e leaf => cases e <;> simp [Expr.isLeaf] at leaf <;> rfl
  | column => rfl
  | operator operates _ ih =>
    rw [Expr.order_operator outermost operates]
    exact Expr.mapOperands_self ih
  | @inValues e vs _ _ value values =>
    have given : (Expr.subquery (.inValues e vs)).order outermost = .subquery (.inValues (e.order outermost) (orderAll outermost vs)) := rfl
    rw [given, value, orderAll_eq, list_map_self values]

/-! ## What a source hands on -/

variable (I db lit) in
/-- A source in a form in which its rows stand in another order, with the keys that bring back the order they had. -/
structure Source.Hands (src src' : Source) (keys : Option (List OrderKey)) : Prop where
  straight : src'.Straight
  formed : src'.Formed lit []
  declared : src'.declared = src.declared
  visible : src'.visible = src.visible
  context : ∀ c, src.context.sees c → src'.context.sees c
  flat : ∀ k ∈ keys.getD [], k.expr.IsFlat
  known : ∀ k ∈ keys.getD [], k.expr.Formed lit src'.context none
  rows : ∀ ρ, List.Forall₂ src.Alike (src.rows I db ρ)
    ((src'.rows I db ρ).mergeSort (inOrder I.le (rowKeys I db (keys.getD []))))

namespace Select

variable {s : Select} {src src' : Source} {handed : Option (List OrderKey)}

theorem inOrder_gathered : inOrder I.le (rowKeys I db ((s.gathered handed).getD [])) =
    inOrder I.le (rowKeys I db (s.orderBy ++ handed.getD [])) := by
  unfold gathered
  split
  · next none => rw [List.isEmpty_iff.1 none, List.nil_append]
  · exact inOrder_prependKeys _ _

/-- What a select keeps of rows that are handed on: it filters them first, and sorts them once. -/
theorem kept_handed (order : IsOrder I.le) (hands : src.Hands I db lit src' handed)
    (apart : ∀ a ∈ Γ.map (·.1), a ∉ src.visible) (filter : ∀ e ∈ s.filter, e.Formed lit (Γ ++ src.context) none)
    (orderBy : ∀ k ∈ s.orderBy, k.expr.Formed lit (Γ ++ src.context) none) (ρ : Env D) :
    List.Forall₂ src.Alike (s.kept I db ρ (src.rows I db ρ))
      (s.cut I db ρ (((src'.rows I db ρ).filter (s.passes I db)).mergeSort
        (inOrder I.le (rowKeys I db ((s.gathered handed).getD []))))) := by
  have passes (σ σ' : Env D) (alike : src.Alike σ σ') : s.passes I db σ = s.passes I db σ' := by
    unfold Select.passes
    cases found : s.filter with
    | none => rfl
    | some e => exact congrArg I.isTrue (alike.eval apart (filter e found))
  have compares (σ τ σ' τ' : Env D) (alike : src.Alike σ σ') (alike' : src.Alike τ τ') :
      inOrder I.le (rowKeys I db s.orderBy) σ τ = inOrder I.le (rowKeys I db s.orderBy) σ' τ' := by
    generalize s.orderBy = ks at orderBy
    induction ks with
    | nil => rfl
    | cons k ks ih =>
      rw [List.forall_mem_cons] at orderBy
      have rest := ih orderBy.2
      simp only [rowKeys, List.map_cons, inOrder, thenBy] at rest ⊢
      rw [rest, alike.eval apart orderBy.1, alike'.eval apart orderBy.1]
  have all := order.inOrder (α := Env D)
  have sorted : ((src'.rows I db ρ).filter (s.passes I db)).mergeSort
        (inOrder I.le (rowKeys I db ((s.gathered handed).getD []))) =
      (((src'.rows I db ρ).mergeSort (inOrder I.le (rowKeys I db (handed.getD [])))).filter (s.passes I db)).mergeSort
        (inOrder I.le (rowKeys I db s.orderBy)) := by
    rw [inOrder_gathered, rowKeys, List.map_append, inOrder_append, (all _).mergeSort_thenBy (all _), (all _).mergeSort_filter]
    rfl
  rw [sorted]
  exact forall₂_takeUpTo _ (List.forall₂_drop _ (forall₂_mergeSort (forall₂_filter (hands.rows ρ) passes) compares))

/-! ## Selects with other orderings -/

/-- The columns of a flat select read its source. -/
theorem IsFlat.column_formed (flat : s.IsFlat) (formed : s.Formed lit Γ) (reads : s.source = some src) {c : Named}
    (mem : c ∈ s.columns) : c.expr.Formed lit (Γ ++ src.context) none := by
  have known := (formed_iff.1 formed).columns c mem
  have context : s.columnContext = src.context := by
    rw [Select.columnContext, Select.isTotal, flat.ungrouped.aggregates, Select.context, reads]
    simp
  rw [context] at known
  exact Expr.Scalar.formed_any (flat.columns c mem) known none

/-- A select over a source that hands on, with more columns and other keys. -/
structure Reordered (lit : Value → Ty → Prop) (src' : Source) (s s' : Select) : Prop where
  columns : ∀ c ∈ s'.columns, c ∈ s.columns ∨ c.expr.IsFlat ∧ c.expr.Formed lit src'.context none
  names : s'.columnNames.Nodup
  orderBy : ∀ k ∈ s'.orderBy, k ∈ s.orderBy ∨ k.expr.IsFlat ∧ k.expr.Formed lit src'.context none
  rest : { s' with columns := s.columns, orderBy := s.orderBy } = { s with source := some src' }

namespace Reordered

variable {s' : Select}

theorem fields (h : s.Reordered lit src' s') : s'.label = s.label ∧ s'.source = some src' ∧ s'.filter = s.filter ∧
    s'.groupBy = s.groupBy ∧ s'.having = s.having ∧ s'.offset = s.offset ∧ s'.limit = s.limit ∧ s'.distinct = s.distinct := by
  have rest := h.rest
  simp only [Select.mk.injEq] at rest
  obtain ⟨label, -, source, filter, groupBy, having, -, offset, limit, distinct⟩ := rest
  exact ⟨label, source, filter, groupBy, having, offset, limit, distinct⟩

theorem isFlat (h : s.Reordered lit src' s') (flat : s.IsFlat) : s'.IsFlat := by
  obtain ⟨-, -, filter, groupBy, having, offset, limit, distinct⟩ := h.fields
  exact
    { names := h.names
      columns := fun c mem => (h.columns c mem).elim (flat.columns c) And.left
      filter := filter ▸ flat.filter
      orderBy := fun k mem => (h.orderBy k mem).elim (flat.orderBy k) And.left
      offset := offset ▸ flat.offset
      limit := limit ▸ flat.limit
      groupBy := groupBy.trans flat.groupBy
      having := having.trans flat.having
      distinct := distinct.trans flat.distinct }

theorem formed (h : s.Reordered lit src' s') (flat : s.IsFlat) (formed : s.Formed lit Γ) (reads : s.source = some src)
    (hands : src.Hands I db lit src' handed) : s'.Formed lit Γ := by
  have flat' := h.isFlat flat
  obtain ⟨-, source, filter, groupBy, having, offset, limit, -⟩ := h.fields
  have clauses := Select.formed_iff.1 formed
  have context : s.context = src.context := by rw [Select.context, reads]; rfl
  have context' : s'.context = src'.context := by rw [Select.context, source]; rfl
  have columnContext' : s'.columnContext = src'.context := by
    rw [Select.columnContext, Select.isTotal, flat'.ungrouped.aggregates, context']
    simp
  have visible : s'.visible = s.visible := by
    rw [Select.visible, Select.visible, source, reads]
    exact hands.visible
  have more (c : ColumnRef) (sees : (Γ ++ src.context).sees c) : (Γ ++ src'.context).sees c :=
    Context.sees_append.2 ((Context.sees_append.1 sees).imp_right (hands.context c))
  have inner (c : ColumnRef) (sees : src'.context.sees c) : (Γ ++ src'.context).sees c := Context.sees_append.2 (.inr sees)
  refine Select.formed_iff.2 ⟨?_, ?_, fun c mem => ?_, fun c mem r eq => ?_, ?_, ?_, ?_, fun k mem => ?_, ?_, ?_⟩
  · rw [source]
    rintro _ ⟨⟩
    refine hands.formed.weaken ?_
    rintro c ⟨_, ⟨⟩, _⟩
  · rw [filter, context']
    exact fun e mem => (context ▸ clauses.filter e mem).weaken more
  · rw [columnContext']
    have plain : c.expr.Formed lit (Γ ++ src'.context) none := by
      rcases h.columns c mem with old | ⟨-, known⟩
      · exact (flat.column_formed formed reads old).weaken more
      · exact known.weaken inner
    exact Expr.Scalar.formed_any (flat'.columns c mem) plain _
  · rw [visible]
    rcases h.columns c mem with old | ⟨-, known⟩
    · exact clauses.own c old r eq
    · have same : c.expr = .column r := by
        cases found : c.expr <;> rw [found] at eq <;> cases eq
        rfl
      rw [same] at known
      have shown : s.visible = src'.visible := by
        rw [Select.visible, reads]
        exact hands.visible.symm
      exact shown ▸ src'.visible_of_sees known
  · rw [groupBy, flat.groupBy]
    rintro _ ⟨⟩
  · rw [having, flat.having]
    rintro _ ⟨⟩
  · rw [having, flat.having]
    rintro ⟨⟩
  · rw [context']
    rcases h.orderBy k mem with old | ⟨-, known⟩
    · exact (context ▸ clauses.orderBy k old).weaken more
    · exact known.weaken inner
  · rw [offset]
    exact clauses.offset
  · rw [limit]
    exact clauses.limit

end Reordered

/-! ## Placing the ordering of a select -/

namespace IsFlat

theorem order_eq (flat : s.IsFlat) (reads : s.source = some src) (outermost isSubquery : Bool) :
    s.order outermost isSubquery = ({ s with source := some src.order.1 }).placeOrdering outermost isSubquery src.order.2 := by
  have parts : SelectParts (fun e => e.order false = e) (fun _ => True) s :=
    ⟨fun c mem => (flat.columns c mem).order_eq _, fun _ _ => trivial, fun e mem => (flat.filter e mem).order_eq _,
      by rw [flat.groupBy]; rintro _ ⟨⟩, by rw [flat.having]; rintro _ ⟨⟩, fun k mem => (flat.orderBy k mem).order_eq _,
      fun e mem => (flat.offset e mem).order_eq _, fun e mem => (flat.limit e mem).order_eq _⟩
  rw [Select.order_eq, mapParts_source parts, reads]
  rfl

/-- The outermost select keeps all orderings. -/
theorem placeOrdering_outermost (flat : s.IsFlat) (isSubquery : Bool) :
    s.placeOrdering true isSubquery handed = ({ s with orderBy := (s.gathered handed).getD [] }, none) := by
  unfold placeOrdering gathered
  simp only [flat.groupBy, flat.distinct, flat.ungrouped.aggregates, Bool.true_or, Bool.not_true, Bool.not_false, Bool.false_and,
    List.isEmpty_nil, Bool.and_true, if_true, Bool.false_eq_true, if_false]
  split <;> rfl

/-- Another select hands its orderings on, and keeps them only for its limit. -/
theorem placeOrdering_inner (flat : s.IsFlat) : s.placeOrdering false false handed =
    match s.gathered handed with
    | some keys =>
      let r := rebindKeys s.label (collectSource declaredAliases s.source) s.columns keys
      ({ s with orderBy := if s.limit.isSome || s.offset.isSome then keys else [], columns := r.2 }, some (prependKeys r.1 none))
    | none => ({ s with orderBy := [] }, none) := by
  unfold placeOrdering
  simp only [flat.groupBy, flat.distinct, flat.ungrouped.aggregates, Bool.false_or, Bool.not_false,
    List.isEmpty_nil, Bool.and_true, if_true]
  rw [← gathered]
  cases s.gathered handed with
  | none => cases s.limit.isSome || s.offset.isSome <;> rfl
  | some keys => cases s.limit.isSome || s.offset.isSome <;> rfl

end IsFlat

/-- The keys of a select are flat and known beside a source that hands on. -/
theorem gathered_known (flat : s.IsFlat) (formed : s.Formed lit []) (reads : s.source = some src)
    (hands : src.Hands I db lit src' handed) : ∀ k ∈ (s.gathered handed).getD [],
      k.expr.IsFlat ∧ k.expr.Formed lit src'.context none := by
  intro k mem
  rcases mem_gathered mem with own | fromSource
  · refine ⟨flat.orderBy k own, ?_⟩
    have known := (formed_iff.1 formed).orderBy k own
    rw [Select.context, reads] at known
    exact known.weaken hands.context
  · exact ⟨hands.flat k fromSource, hands.known k fromSource⟩

/-! ## The outermost select -/

/-- The outermost select has the same rows as before. -/
theorem rows_outermost (order : IsOrder I.le) (flat : s.IsFlat) (formed : s.Formed lit Γ) (reads : s.source = some src)
    (hands : src.Hands I db lit src' handed) (apart : ∀ a ∈ Γ.map (·.1), a ∉ src.visible) (ρ : Env D) :
    ({ s with source := some src', orderBy := (s.gathered handed).getD [] } : Select).rows I db ρ = s.rows I db ρ := by
  have clauses := formed_iff.1 formed
  have context : s.context = src.context := by rw [Select.context, reads]; rfl
  have flat' : ({ s with source := some src', orderBy := (s.gathered handed).getD [] } : Select).IsFlat :=
    { flat with
      orderBy := fun k mem => (mem_gathered mem).elim (flat.orderBy k) (hands.flat k) }
  have kept := kept_handed order hands apart (s := s) (context ▸ clauses.filter) (context ▸ clauses.orderBy) ρ
  rw [flat'.rows_eq, flat.rows_eq, reads, sourceRows, sourceRows]
  rw [← List.forall₂_eq_eq_eq, List.forall₂_map_left_iff, List.forall₂_map_right_iff]
  refine (kept.imp fun σ σ' alike => ?_).flip
  exact List.map_congr_left fun c mem => congrArg (Prod.mk c.name) (alike.eval apart (flat.column_formed formed reads mem)).symm

/-! ## A select that hands on -/

theorem isOutside_of_formed {e : Expr} (formed : e.Formed lit src.context none) : e.isOutside src.declared = false := by
  cases e with
  | column c => simpa [Expr.isOutside] using src.visible_subset (src.visible_of_sees formed)
  | _ => rfl

variable (I db lit) in
/-- A select that sorts its rows only for its limit, with the keys that it hands on. -/
structure Defers (src' : Source) (all : List OrderKey) (s s' : Select) (keys : List OrderKey) : Prop extends
    Reordered lit src' s s' where
  grows : s.columns <+: s'.columns
  sorts : s'.orderBy = if s.limit.isSome || s.offset.isSome then all else []
  flat : ∀ k ∈ keys, k.expr.IsFlat
  known : ∀ k ∈ keys, k.expr.Formed lit [(s'.label, s'.heading)] none
  compares : ∀ ρ σ τ, inOrder I.le (rowKeys I db keys) (s'.shownRow I db ρ σ) (s'.shownRow I db ρ τ) =
    inOrder I.le (rowKeys I db all) σ τ

/-- What a select has kept, sorted by all keys: that is what it keeps if it sorts its rows by them. -/
theorem Defers.kept_sorted (order : IsOrder I.le) {s' : Select} {all keys : List OrderKey} (h : Defers I db lit src' all s s' keys)
    (ρ : Env D) (rows : List (Env D)) : (s'.kept I db ρ rows).mergeSort (inOrder I.le (rowKeys I db all)) =
      s.cut I db ρ ((rows.filter (s.passes I db)).mergeSort (inOrder I.le (rowKeys I db all))) := by
  obtain ⟨-, -, filter, -, -, offset, limit, -⟩ := h.fields
  have passes : s'.passes I db = s.passes I db := by
    unfold Select.passes
    rw [filter]
  have cut (l : List (Env D)) : s'.cut I db ρ l = s.cut I db ρ l := by rw [Select.cut, Select.cut, offset, limit]
  rw [kept, cut, passes, h.sorts]
  split
  · refine List.mergeSort_of_pairwise (List.Pairwise.sublist (s.cut_sublist I db ρ _) ?_)
    exact (order.inOrder (rowKeys I db all)).pairwise_mergeSort _
  · next whole =>
    simp only [Bool.or_eq_true, Option.isSome_iff_ne_none, not_or, not_not] at whole
    rw [cut_none whole.2 whole.1, cut_none whole.2 whole.1, rowKeys, List.map_nil, mergeSort_inOrder_nil]

theorem Defers.hands (order : IsOrder I.le) {s' : Select} {handed' : Option (List OrderKey)} (flat : s.IsFlat)
    (formed : s.Formed lit []) (reads : s.source = some src) (within : src.Hands I db lit src' handed)
    (h : Defers I db lit src' ((s.gathered handed).getD []) s s' (handed'.getD [])) :
    (Source.select s).Hands I db lit (.select s') handed' := by
  have flat' := h.isFlat flat
  obtain ⟨label, source, -⟩ := h.fields
  have names (name : String) (mem : name ∈ s.columnNames) : name ∈ s'.columnNames := (h.grows.map _).subset mem
  refine ⟨.select flat' source within.straight, ⟨by rw [source]; rfl, h.formed flat formed reads within⟩, ?_, ?_, fun c sees => ?_,
    h.flat, h.known, fun ρ => ?_⟩
  · rw [Source.declared_select, Source.declared_select, flat'.declared_eq, flat.declared_eq, source, reads, label]
    simp [within.declared]
  · simp [Source.visible, label]
  · obtain ⟨heading, mem, shows⟩ := sees
    obtain ⟨own, rfl⟩ := Prod.mk.inj (List.mem_singleton.1 mem)
    refine ⟨s'.heading, by rw [own, ← label]; exact List.mem_singleton_self _, ?_⟩
    rw [heading_eq_true flat.names] at shows
    exact (heading_eq_true flat'.names).2 (names c.name shows)
  · have kept := kept_handed order within (by simp) (s := s) (Γ := [])
      (fun e mem => by simpa [Select.context, reads] using (formed_iff.1 formed).filter e mem)
      (fun k mem => by simpa [Select.context, reads] using (formed_iff.1 formed).orderBy k mem) ρ
    have sorted : ((s'.kept I db ρ (src'.rows I db ρ)).map (s'.shownRow I db ρ)).mergeSort
          (inOrder I.le (rowKeys I db (handed'.getD []))) =
        (s.cut I db ρ (((src'.rows I db ρ).filter (s.passes I db)).mergeSort
          (inOrder I.le (rowKeys I db ((s.gathered handed).getD []))))).map (s'.shownRow I db ρ) := by
      rw [← h.kept_sorted order ρ]
      exact (List.map_mergeSort fun σ _ τ _ => (h.compares ρ σ τ).symm).symm
    rw [flat.source_rows_eq, flat'.source_rows_eq, reads, source, sourceRows, sourceRows, sorted, List.forall₂_map_left_iff,
      List.forall₂_map_right_iff]
    refine kept.imp fun σ σ' alike => ⟨fun c sees => ?_, fun a other => ?_⟩
    · obtain ⟨heading, mem, shows⟩ := sees
      obtain ⟨own, rfl⟩ := Prod.mk.inj (List.mem_singleton.1 mem)
      obtain ⟨d, mem, same⟩ := List.mem_map.1 ((heading_eq_true flat.names).1 shows)
      have first := I.named_of_nodup flat.names mem fun d => d.expr.eval I db σ [σ]
      have second := I.named_of_nodup flat'.names (h.grows.subset mem) fun d => d.expr.eval I db σ' [σ']
      have eval : d.expr.eval I db σ [σ] = d.expr.eval I db σ' [σ'] :=
        alike.eval (by simp) (flat.column_formed formed reads mem)
      rw [own, ← same, shownRow, shownRow, label, Env.set, Env.set, if_pos rfl, if_pos rfl]
      exact first.trans (eval.trans second.symm)
    · have other : a ≠ s.label := by simpa [Source.visible] using other
      simp [shownRow, Env.set, label, other]

/-- A select inside of another one hands its orderings on. -/
theorem hands (law : I.Lawful lit) (flat : s.IsFlat) (formed : s.Formed lit []) (reads : s.source = some src)
    (within : src.Hands I db lit src.order.1 src.order.2) :
    (Source.select s).Hands I db lit (Source.select s).order.1 (Source.select s).order.2 := by
  have flat₀ : ({ s with source := some src.order.1 } : Select).IsFlat := { flat with }
  have all := gathered_known flat formed reads within
  have placed : (Source.select s).order =
      (.select (({ s with source := some src.order.1 } : Select).placeOrdering false false src.order.2).1,
        (({ s with source := some src.order.1 } : Select).placeOrdering false false src.order.2).2) := by
    rw [Source.order, flat.order_eq reads]
  have same : ({ s with source := some src.order.1 } : Select).gathered src.order.2 = s.gathered src.order.2 := rfl
  rw [placed, flat₀.placeOrdering_inner, same]
  cases gathered : s.gathered src.order.2 with
  | none =>
    refine Defers.hands law.order flat formed reads within ?_
    rw [gathered]
    exact
      { columns := fun c mem => .inl mem
        names := flat.names
        orderBy := by rintro _ ⟨⟩
        rest := rfl
        grows := List.prefix_refl _
        sorts := by simp
        flat := by rintro _ ⟨⟩
        known := by rintro _ ⟨⟩
        compares := fun _ _ _ => rfl }
  | some ks =>
    rw [gathered, Option.getD_some] at all
    have rebound := rebindKeys_rebound s.label src.order.1.declared s.columns ks
    have inside (k : OrderKey) (mem : k ∈ ks) : k.expr.isOutside src.order.1.declared = false := isOutside_of_formed (all k mem).2
    have made (c : Named) (mem : c ∈ (rebindKeys s.label src.order.1.declared s.columns ks).2) :
        c ∈ s.columns ∨ c.expr.IsFlat ∧ c.expr.Formed lit src.order.1.context none := by
      refine (rebound.added c mem).imp_right ?_
      rintro ⟨k, mem, _, same⟩
      exact same ▸ all k mem
    have column : ∀ k ∈ (rebindKeys s.label src.order.1.declared s.columns ks).1,
        ∃ c ∈ (rebindKeys s.label src.order.1.declared s.columns ks).2, ∃ t, k.expr = .column ⟨s.label, c.name, t⟩ :=
      forall_right rebound.keys fun _ _ key => by
        obtain ⟨_, c, mem, _, same⟩ := key
        exact ⟨c, mem, _, same⟩
    have own (k : OrderKey) (mem : k ∈ prependKeys (rebindKeys s.label src.order.1.declared s.columns ks).1 none) :
        k ∈ (rebindKeys s.label src.order.1.declared s.columns ks).1 := by
      rcases mem_of_mem_prependKeys mem with found | ⟨_, ⟨⟩, _⟩
      exact found
    refine Defers.hands law.order flat formed reads within ?_
    rw [gathered]
    refine
      { columns := made
        names := rebound.names flat.names
        orderBy := fun k mem => .inr (all k ?_)
        rest := rfl
        grows := rebound.grows
        sorts := rfl
        flat := fun k mem => ?_
        known := fun k mem => ?_
        compares := fun ρ σ τ => ?_ }
    · change k ∈ if _ then ks else [] at mem
      split at mem
      · exact mem
      · cases mem
    · obtain ⟨c, -, t, same⟩ := column k (own k mem)
      rw [same]
      exact .column trivial
    · obtain ⟨c, found, t, same⟩ := column k (own k mem)
      rw [same]
      refine ⟨_, List.mem_singleton_self _, (heading_eq_true ?_).2 ?_⟩
      · exact rebound.names flat.names
      · exact List.mem_map_of_mem found
    · rw [Option.getD_some, inOrder_prependKeys, Option.getD_none, List.append_nil]
      refine inOrder_rebound rebound inside (fun k mem c found isKey σ => ?_) σ τ
      have known : c.expr.Formed lit src.order.1.context none :=
        (made c found).elim (fun old => (flat.column_formed formed reads old).weaken within.context) And.right
      have shown := I.named_of_nodup (rebound.names flat.names) found fun c => c.expr.eval I db σ [σ]
      have value : c.expr.eval I db σ [σ] = k.expr.eval I db σ [σ] := by
        rcases isKey with same | shares
        · rw [same]
        · exact Expr.eval_of_sharesColumn law.literals shares known (all k mem).2 σ [σ]
      rw [shownRow, Env.set, if_pos rfl]
      exact shown.trans value

end Select

theorem Source.Straight.hands (law : I.Lawful lit) {src : Source} (straight : src.Straight) (formed : src.Formed lit [])
    (nodup : src.declared.Nodup) : src.Hands I db lit src.order.1 src.order.2 := by
  induction straight with
  | table kind a entity name =>
    refine ⟨.table .., trivial, rfl, rfl, fun _ sees => sees, by rintro _ ⟨⟩, by rintro _ ⟨⟩, fun ρ => ?_⟩
    rw [Source.order, Option.getD_none, rowKeys, List.map_nil, mergeSort_inOrder_nil]
    exact List.forall₂_same.2 fun σ _ => ⟨fun _ _ => rfl, fun _ _ => rfl⟩
  | @select s src flat reads _ ih =>
    have known : src.Formed lit [] := (Select.formed_iff.1 formed.2).source src reads
    rw [Source.declared_select, Select.IsFlat.declared_eq flat, reads, List.nodup_cons] at nodup
    simp only [Option.toList_some, List.flatMap_cons, List.flatMap_nil, List.append_nil] at nodup
    exact Select.hands law flat formed.2 reads (ih known nodup.2)

/-! ## Whole statements -/

variable (I db lit Γ) in
/-- A flat select over a straight source of its own, with the orderings of all placed: it stands where it stood, and has the same rows. -/
structure Select.Settled (s s' : Select) : Prop where
  straight : (Source.select s').Straight
  label : s'.label = s.label
  columns : s'.columns = s.columns
  formed : s'.Formed lit Γ
  declared : s'.declared = s.declared
  rows : ∀ ρ, s'.rows I db ρ = s.rows I db ρ

theorem Select.IsFlat.settled (law : I.Lawful lit) {s : Select} {src : Source} (flat : s.IsFlat) (formed : s.Formed lit Γ)
    (reads : s.source = some src) (straight : src.Straight) (known : src.Formed lit []) (nodup : src.declared.Nodup)
    (apart : ∀ a ∈ Γ.map (·.1), a ∉ src.visible) : s.Settled I db lit Γ (s.order true false).1 := by
  have hands : src.Hands I db lit src.order.1 src.order.2 := straight.hands law known nodup
  have flat₀ : ({ s with source := some src.order.1 } : Select).IsFlat := { flat with }
  have placed : (s.order true false).1 = { s with source := some src.order.1, orderBy := (s.gathered src.order.2).getD [] } := by
    rw [flat.order_eq reads, flat₀.placeOrdering_outermost]
    rfl
  have reordered : s.Reordered lit src.order.1 { s with source := some src.order.1, orderBy := (s.gathered src.order.2).getD [] } :=
    { columns := fun c mem => .inl mem
      names := flat.names
      orderBy := fun k mem => (mem_gathered mem).imp_right fun mem => ⟨hands.flat k mem, hands.known k mem⟩
      rest := rfl }
  have flat' := reordered.isFlat flat
  rw [placed]
  refine ⟨.select flat' rfl hands.straight, rfl, rfl, reordered.formed flat formed reads hands, ?_,
    fun ρ => rows_outermost law.order flat formed reads hands apart ρ⟩
  rw [flat'.declared_eq, flat.declared_eq, reads]
  simp [hands.declared]

/-- A straight projection keeps its values when its orderings are placed. -/
theorem Projection.Straight.order (law : I.Lawful lit) {p : Projection} (straight : p.Straight) (formed : p.Formed lit [])
    (nodup : p.declared.Nodup) : p.order.Straight ∧ p.Rewrites I db lit [] p.order := by
  obtain ⟨s, e, a⟩ := p
  obtain ⟨flat, src, reads, within⟩ : s.IsFlat ∧ ∃ src, s.source = some src ∧ src.Straight := by
    cases straight.select with
    | select flat reads within => exact ⟨flat, _, reads, within⟩
  obtain ⟨known, projector⟩ := formed
  have nodup : src.declared.Nodup := by
    rw [declared_eq, flat.declared_eq, reads] at nodup
    simpa using (List.nodup_cons.1 (List.nodup_append.1 nodup).1).2
  have settled : s.Settled I db lit [] (s.order true false).1 :=
    flat.settled law known reads within ((Select.formed_iff.1 known).source src reads) nodup (by simp)
  have placed : (⟨s, e, a⟩ : Projection).order = ⟨(s.order true false).1, e, a⟩ := by
    rw [Projection.order, Expr.IsFlat.order_eq straight.projector]
  have heading : (s.order true false).1.heading = s.heading := by
    funext name
    rw [Select.heading, Select.heading, Select.columnNames, Select.columnNames, settled.columns]
  rw [placed]
  refine ⟨⟨settled.straight, straight.projector⟩, ⟨settled.formed, ?_⟩, fun b => ?_, rfl, fun ρ => ?_⟩
  · rw [settled.label, heading]
    exact projector
  · exact Nat.le_of_eq (by rw [declared_eq, declared_eq, settled.declared])
  · rw [values, values, settled.rows, settled.label]

end Relational

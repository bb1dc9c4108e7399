import Relational.Proofs.Tree.Shapes

/-!
# Traversals with a state that grows

A traversal visits the parts of a tree one after another, and what it puts in depends on its state. If the state only grows,
and what was put in once is what a later state would put in too, the result is a substitution: the one
that the state at the end stands for (`GrowingState.traverse`). And if what was put in for each column can be traced
back to it, the tree comes back (`Undone.traverse`).
-/

namespace Relational

variable {σ α β : Type} {R : σ → σ → Prop} {s : σ}

/-- What a step with a growing state gives: something that every later state agrees with. -/
structure Advances (R : σ → σ → Prop) (s : σ) (post : σ → α → Prop) (r : α × σ) : Prop where
  grows : R s r.2
  result : ∀ s', R r.2 s' → post s' r.1

/-- An order of states. -/
structure IsGrowth (R : σ → σ → Prop) : Prop where
  refl : ∀ s, R s s
  trans : ∀ s s' s'', R s s' → R s' s'' → R s s''

namespace Advances

variable {P : σ → α → Prop} {Q : σ → β → Prop}

theorem pure (growth : IsGrowth R) {a : α} (h : ∀ s', R s s' → P s' a) :
    Advances R s P ((Pure.pure a : StateM σ α) s) :=
  ⟨growth.refl s, h⟩

/-- One step after another. -/
theorem bind (growth : IsGrowth R) {x : StateM σ α} {f : α → StateM σ β} (first : Advances R s P (x s))
    (next : ∀ a s', R s s' → (∀ s'', R s' s'' → P s'' a) → Advances R s' Q (f a s')) : Advances R s Q ((x >>= f) s) := by
  have second := next _ _ first.grows first.result
  exact ⟨growth.trans _ _ _ first.grows second.grows, second.result⟩

theorem imp {P' : σ → α → Prop} {r : α × σ} (h : Advances R s P r) (imp : ∀ s' a, P s' a → P' s' a) : Advances R s P' r :=
  ⟨h.grows, fun s' later => imp s' _ (h.result s' later)⟩

end Advances

/-! ## The parts of a node -/

variable {f : Expr → Option (StateM σ Expr)}

theorem Expr.traverse_given {e : Expr} {m : StateM σ Expr} (given : f e = some m) : e.traverse f = m := by
  rw [traverse.eq_def, given]

/-- Two selects whose parts are related one by one. -/
structure SelectRelated (E : Expr → Expr → Prop) (S : Source → Source → Prop) (s s' : Select) : Prop where
  label : s'.label = s.label
  columns : List.Forall₂ (fun c c' => c'.name = c.name ∧ E c.expr c'.expr) s.columns s'.columns
  source : Option.Rel S s.source s'.source
  filter : Option.Rel E s.filter s'.filter
  groupBy : List.Forall₂ E s.groupBy s'.groupBy
  having : Option.Rel E s.having s'.having
  orderBy : List.Forall₂ (fun k k' => k'.descending = k.descending ∧ E k.expr k'.expr) s.orderBy s'.orderBy
  offset : Option.Rel E s.offset s'.offset
  limit : Option.Rel E s.limit s'.limit
  distinct : s'.distinct = s.distinct

theorem SelectRelated.imp {E E' : Expr → Expr → Prop} {S S' : Source → Source → Prop} {s s' : Select} (related : SelectRelated E S s s')
    (expr : ∀ e e', E e e' → E' e e') (source : ∀ src src', S src src' → S' src src') : SelectRelated E' S' s s' where
  label := related.label
  columns := related.columns.imp fun _ _ same => ⟨same.1, expr _ _ same.2⟩
  source := rel_imp related.source source
  filter := rel_imp related.filter expr
  groupBy := related.groupBy.imp expr
  having := rel_imp related.having expr
  orderBy := related.orderBy.imp fun _ _ same => ⟨same.1, expr _ _ same.2⟩
  offset := rel_imp related.offset expr
  limit := rel_imp related.limit expr
  distinct := related.distinct

theorem SelectRelated.mp {E : Expr → Expr → Prop} {S : Source → Source → Prop} {E' : Expr → Prop} {S' : Source → Prop} {s s' : Select}
    (related : SelectRelated (fun e e' => E' e → E e e') (fun src src' => S' src → S src src') s s') (parts : SelectParts E' S' s) :
    SelectRelated E S s s' where
  label := related.label
  columns := (forall₂_with_mem related.columns).imp fun c _ part => ⟨part.2.2.1, part.2.2.2 (parts.columns c part.1)⟩
  source := rel_imp_mem related.source fun src mem _ part => part (parts.source src mem)
  filter := rel_imp_mem related.filter fun e mem _ part => part (parts.filter e mem)
  groupBy := (forall₂_with_mem related.groupBy).imp fun e _ part => part.2.2 (parts.groupBy e part.1)
  having := rel_imp_mem related.having fun e mem _ part => part (parts.having e mem)
  orderBy := (forall₂_with_mem related.orderBy).imp fun k _ part => ⟨part.2.2.1, part.2.2.2 (parts.orderBy k part.1)⟩
  offset := rel_imp_mem related.offset fun e mem _ part => part (parts.offset e mem)
  limit := rel_imp_mem related.limit fun e mem _ part => part (parts.limit e mem)
  distinct := related.distinct

theorem SelectRelated.mapParts {E : Expr → Expr → Prop} {S : Source → Source → Prop} {s : Select} {g : Expr → Expr} {h : Source → Source}
    (parts : SelectParts (fun e => E e (g e)) (fun src => S src (h src)) s) : SelectRelated E S s (s.mapParts g h) where
  label := rfl
  columns := forall₂_map fun c mem => ⟨rfl, parts.columns c mem⟩
  source := rel_map parts.source
  filter := rel_map parts.filter
  groupBy := forall₂_map parts.groupBy
  having := rel_map parts.having
  orderBy := forall₂_map fun k mem => ⟨rfl, parts.orderBy k mem⟩
  offset := rel_map parts.offset
  limit := rel_map parts.limit
  distinct := rfl

section Splitting

variable {A B : Type} {T : A → B → Prop} {l rest : List A} {l' rest' : List B}

theorem forall₂_split (length : l'.length = l.length) (h : List.Forall₂ T (l ++ rest) (l' ++ rest')) :
    List.Forall₂ T l l' ∧ List.Forall₂ T rest rest' := by
  induction l generalizing l' with
  | nil =>
    cases List.length_eq_zero_iff.1 length
    exact ⟨.nil, h⟩
  | cons a l ih =>
    cases l' with
    | nil => cases length
    | cons b l' =>
      cases h with
      | cons head tail => exact (ih (Nat.succ.inj length) tail).imp_left (.cons head)

theorem rel_of_forall₂ {o o' : Option A} {T : Node → Node → Prop} {g : A → Node}
    (h : List.Forall₂ T (o.toList.map g) (o'.toList.map g)) : Option.Rel (fun a a' => T (g a) (g a')) o o' := by
  cases o <;> cases o' <;> cases h
  · exact .none
  · exact .some ‹_›

theorem forall₂_named {T : Node → Node → Prop} {ms ms' : List Named}
    (names : ms'.map (Named.mapExpr fun _ => default) = ms.map (Named.mapExpr fun _ => default))
    (parts : List.Forall₂ T (ms.map (.expr ·.expr)) (ms'.map (.expr ·.expr))) :
    List.Forall₂ (fun m m' => m'.name = m.name ∧ T (.expr m.expr) (.expr m'.expr)) ms ms' := by
  have names := congrArg (List.map Named.name) names
  rw [List.map_map, List.map_map, ← List.forall₂_eq_eq_eq, List.forall₂_map_left_iff, List.forall₂_map_right_iff] at names
  rw [List.forall₂_map_left_iff, List.forall₂_map_right_iff] at parts
  exact List.forall₂_iff_zip.2 ⟨parts.length_eq, fun mem => ⟨(List.forall₂_iff_zip.1 names.flip).2 mem, (List.forall₂_iff_zip.1 parts).2 mem⟩⟩

theorem forall₂_split_option {o o' : Option A} {g : A → Node} {T : Node → Node → Prop} {rest rest' : List Node} {b : B}
    (same : o'.map (fun _ => b) = o.map fun _ => b) (h : List.Forall₂ T (o.toList.map g ++ rest) (o'.toList.map g ++ rest')) :
    Option.Rel (fun a a' => T (g a) (g a')) o o' ∧ List.Forall₂ T rest rest' :=
  (forall₂_split (by cases o <;> cases o' <;> simp_all) h).imp_left rel_of_forall₂

end Splitting

theorem Node.shape_select {s s' : Select} (shape : (select s').shape = (select s).shape) : s'.label = s.label ∧
    s'.columns.map (Named.mapExpr fun _ => default) = s.columns.map (Named.mapExpr fun _ => default) ∧
    s'.source.map (fun _ => blankSource) = s.source.map (fun _ => blankSource) ∧
    s'.filter.map (fun _ => (default : Expr)) = s.filter.map (fun _ => default) ∧
    s'.groupBy.map (fun _ => (default : Expr)) = s.groupBy.map (fun _ => default) ∧
    s'.having.map (fun _ => (default : Expr)) = s.having.map (fun _ => default) ∧
    s'.orderBy.map (OrderKey.mapExpr fun _ => default) = s.orderBy.map (OrderKey.mapExpr fun _ => default) ∧
    s'.offset.map (fun _ => (default : Expr)) = s.offset.map (fun _ => default) ∧
    s'.limit.map (fun _ => (default : Expr)) = s.limit.map (fun _ => default) ∧ s'.distinct = s.distinct := by
  simpa only [Node.shape, Select.mapParts, select.injEq, Select.mk.injEq] using shape

theorem forall₂_keys {T : Node → Node → Prop} {ks ks' : List OrderKey}
    (flags : ks'.map (OrderKey.mapExpr fun _ => default) = ks.map (OrderKey.mapExpr fun _ => default))
    (parts : List.Forall₂ T (ks.map (.expr ·.expr)) (ks'.map (.expr ·.expr))) :
    List.Forall₂ (fun k k' => k'.descending = k.descending ∧ T (.expr k.expr) (.expr k'.expr)) ks ks' := by
  have flags := congrArg (List.map OrderKey.descending) flags
  rw [List.map_map, List.map_map, ← List.forall₂_eq_eq_eq, List.forall₂_map_left_iff, List.forall₂_map_right_iff] at flags
  rw [List.forall₂_map_left_iff, List.forall₂_map_right_iff] at parts
  exact List.forall₂_iff_zip.2 ⟨parts.length_eq, fun mem => ⟨(List.forall₂_iff_zip.1 flags.flip).2 mem, (List.forall₂_iff_zip.1 parts).2 mem⟩⟩

/-- The parts of related selects are related clause by clause. -/
theorem Node.Related.select {T : Node → Node → Prop} {s s' : Select} (h : Related T (.select s) (.select s')) :
    SelectRelated (fun e e' => T (.expr e) (.expr e')) (fun src src' => T (.source src) (.source src')) s s' := by
  obtain ⟨label, columns, source, filter, groupBy, having, orderBy, offset, limit, distinct⟩ := shape_select h.shape
  obtain ⟨source, parts⟩ := forall₂_split_option source h.parts
  obtain ⟨filter, parts⟩ := forall₂_split_option filter parts
  obtain ⟨columns', parts⟩ := forall₂_split (by simpa using congrArg List.length columns) parts
  obtain ⟨groupBy, parts⟩ := forall₂_split (by simpa using congrArg List.length groupBy) parts
  obtain ⟨having, parts⟩ := forall₂_split_option having parts
  obtain ⟨orderBy', parts⟩ := forall₂_split (by simpa using congrArg List.length orderBy) parts
  obtain ⟨offset, limit⟩ := forall₂_split_option offset parts
  rw [List.forall₂_map_left_iff, List.forall₂_map_right_iff] at groupBy
  exact ⟨label, forall₂_named columns columns', source, filter, groupBy, having, forall₂_keys orderBy orderBy', offset, rel_of_forall₂ limit, distinct⟩

theorem SelectRelated.parts {T : Node → Node → Prop} {s s' : Select}
    (h : SelectRelated (fun e e' => T (.expr e) (.expr e')) (fun src src' => T (.source src) (.source src')) s s') :
    List.Forall₂ T (Node.select s).parts (Node.select s').parts := by
  have option {A : Type} {o o' : Option A} {g : A → Node} (h : Option.Rel (fun a a' => T (g a) (g a')) o o') :
      List.Forall₂ T (o.toList.map g) (o'.toList.map g) := by
    cases h with
    | none => exact .nil
    | some head => exact .cons head .nil
  have list {A : Type} {l l' : List A} {g : A → Node} (h : List.Forall₂ (fun a a' => T (g a) (g a')) l l') : List.Forall₂ T (l.map g) (l'.map g) :=
    List.forall₂_map_left_iff.2 (List.forall₂_map_right_iff.2 h)
  exact List.rel_append (option h.source) (List.rel_append (option h.filter) (List.rel_append (list (h.columns.imp fun _ _ part => part.2))
    (List.rel_append (list h.groupBy) (List.rel_append (option h.having) (List.rel_append (list (h.orderBy.imp fun _ _ part => part.2))
      (List.rel_append (option h.offset) (option h.limit)))))))

namespace Node

variable (growth : IsGrowth R) {P : σ → Node → Node → Prop}

include growth

theorem mapM_advances {ps : List Node} (each : ∀ p ∈ ps, ∀ s, Advances R s (fun s' p' => P s' p p') (p.traverse f s)) (s : σ) :
    Advances R s (fun s' ps' => List.Forall₂ (P s') ps ps') (ps.mapM (traverse f) s) := by
  induction ps generalizing s with
  | nil => exact .pure growth fun _ _ => .nil
  | cons p ps ih =>
    rw [List.forall_mem_cons] at each
    rw [List.mapM_cons]
    refine .bind growth (each.1 s) fun p' s₁ _ head => ?_
    refine .bind growth (ih each.2 s₁) fun ps' s₂ later tail => .pure growth fun s' last => ?_
    exact .cons (head s' (growth.trans _ _ _ later last)) (tail s' last)

/-- A node that is rebuilt comes to one of its shape, with what its parts come to. -/
theorem traverse_advances {n : Node} (bound : n.isBound = true) (rebuilt : ∀ e, n = expr e → f e = none)
    (each : ∀ p ∈ n.parts, ∀ s, Advances R s (fun s' p' => P s' p p') (p.traverse f s)) (s : σ) :
    Advances R s (fun s' n' => Related (P s') n n') (n.traverse f s) := by
  obtain ⟨shape, parts⟩ := traverse_rebuilt bound rebuilt s
  have all := mapM_advances growth each s
  rw [parts] at all
  exact ⟨all.grows, fun s' later => ⟨shape, all.result s' later⟩⟩

end Node

/-! ## Whole trees -/

/-- A traversal that does at each state what a substitution for that state does. -/
structure GrowingState (R : σ → σ → Prop) (f : Expr → Option (StateM σ Expr)) (S : σ → Substitution) : Prop extends IsGrowth R where
  kept : ∀ s a, (S s).removes a = false
  query : ∀ s q, f (.query q) = none ∧ (S s).expr (.query q) = some (.query q)
  rebuilt : ∀ s e, f e = none → (∀ q, e ≠ .query q) → (S s).expr e = none
  given : ∀ e m, f e = some m → ∀ s, Advances R s (fun s' e' => (S s').expr e = some e') (m s)

theorem GrowingState.traverse {S : σ → Substitution} (h : GrowingState R f S) {n : Node} (bound : n.isBound = true) (s : σ) :
    Advances R s (fun s' n' => n' = n.substitute (S s')) (n.traverse f s) := by
  have growth := h.toIsGrowth
  induction n, bound using Node.bound_induction generalizing s with
  | query q =>
    rw [Node.traverse, Expr.traverse.eq_def, (h.query s q).1]
    refine .pure growth fun s' _ => ?_
    rw [Node.substitute, Expr.substitute_given (h.query s' q).2]
  | step n bound other ih =>
    obtain ⟨e, m, rfl, acts⟩ | rebuilt := n.given_or_rebuilt f
    · rw [Node.traverse, Expr.traverse_given acts]
      refine .bind growth (h.given e m acts s) fun e' s₁ _ put => .pure growth fun s' last => ?_
      rw [Node.substitute, Expr.substitute_given (put s' last)]
    · have parts (p : Node) (mem : p ∈ n.parts) := ih p mem (Node.isBound_parts bound other p mem)
      refine (Node.traverse_advances growth bound rebuilt parts s).imp fun s' n' related => ?_
      refine related.eq (Node.related_substitute (fun _ _ => h.kept s' _) (fun e same => ?_) bound)
      exact h.rebuilt s' e (rebuilt e same) fun q query => other q (query ▸ same)

/-! ## Traversals that a substitution undoes -/

section Undoing

variable {φ : σ → ColumnRef → Expr} {dom : ColumnRef → Prop}
  {fits : σ → Prop}

/-- A traversal that acts on columns alone. Those of `dom` come back from what it puts in by a substitution for a later state that `fits`. -/
structure Undone (R : σ → σ → Prop) (f : Expr → Option (StateM σ Expr)) (φ : σ → ColumnRef → Expr) (dom : ColumnRef → Prop)
    (fits : σ → Prop) : Prop extends IsGrowth R where
  other : ∀ e, e.isColumn = false → f e = none
  column : ∀ c, dom c → ∀ s, Advances R s (fun s' e' => fits s' → .column c = e'.substitute (onColumns (φ s'))) ((Expr.column c).traverse f s)

/-- Nodes of one shape are both columns, or both queries, or neither. -/
theorem Node.rebuilt_of_shape {n n' : Node} (same : n'.shape = n.shape) {g : ColumnRef → Expr} (rebuilt : ∀ e, n = expr e → (onColumns g).expr e = none) :
    ∀ e', n' = expr e' → (onColumns g).expr e' = none := by
  rintro e' rfl
  cases n with
  | expr e =>
    have left := rebuilt e rfl
    cases e' with
    | column c | query q => cases e <;> simp [shape, Expr.shape, Expr.mapOperands, onColumns] at same left
    | _ => rfl
  | _ => cases same

theorem Undone.traverse (h : Undone R f φ dom fits) {n : Node} (bound : n.isBound = true) (known : ∀ c ∈ n.collect columnRefs, dom c) (s : σ) :
    Advances R s (fun s' n' => fits s' → n = n'.substitute (onColumns (φ s'))) (n.traverse f s) := by
  have growth := h.toIsGrowth
  induction n, bound using Node.bound_induction generalizing s with
  | query q =>
    rw [Node.traverse, Expr.traverse.eq_def, h.other _ rfl]
    exact .pure growth fun _ _ _ => rfl
  | step n bound other ih =>
    by_cases column : ∃ c, n = .expr (.column c)
    · obtain ⟨c, rfl⟩ := column
      refine .bind growth (h.column c (known c List.mem_cons_self) s) fun e' s₁ _ back => .pure growth fun s' last fit => ?_
      exact congrArg Node.expr (back s' last fit)
    · have rebuilt (φ : ColumnRef → Expr) (e : Expr) (same : n = .expr e) : f e = none ∧ (onColumns φ).expr e = none := by
        cases e
        case column c => exact absurd ⟨c, same⟩ column
        case query q => exact absurd same (other q)
        all_goals exact ⟨h.other _ rfl, rfl⟩
      rw [Node.collect_eq _ bound, List.forall_mem_append, List.forall_mem_flatMap] at known
      have parts (p : Node) (mem : p ∈ n.parts) := ih p mem (Node.isBound_parts bound other p mem) (known.2 p mem)
      refine (Node.traverse_advances growth bound (fun e same => (rebuilt .column e same).1) parts s).imp fun s' n' related fit => ?_
      have bound' : n'.isBound = true := (Node.isBound_of_shape related.shape).trans bound
      exact (related.flip.imp fun _ _ back => back fit).eq
        (Node.related_substitute (fun _ _ => rfl) (Node.rebuilt_of_shape related.shape fun e same => (rebuilt _ e same).2) bound')

end Undoing

end Relational

import Mathlib
import Relational.Projection.Pruning
import Relational.Proofs.Rows.Congruence

/-!
# The order of pruning

Pruning visits what reads before what is read. So when a select is reached, all that may read its columns is done, and a column that was
not read by then is read by nothing that stays. What holds of a pruned tree can be proved from this alone, without the state of the
run (`PruneCases.holds`): there is a choice of columns such that selects lose only columns that are not chosen, and every reference to
a source in sight is to a chosen one.
-/

namespace Relational

/-! ## Lists without some elements -/

/-- A list without some elements that may go. -/
inductive Thinned {α : Type} (goes : α → Prop) : List α → List α → Prop where
  | nil : Thinned goes [] []
  | keep (a : α) {l l' : List α} (rest : Thinned goes l l') : Thinned goes (a :: l) (a :: l')
  | drop {a : α} {l l' : List α} (gone : goes a) (rest : Thinned goes l l') : Thinned goes (a :: l) l'

namespace Thinned

variable {α : Type} {goes : α → Prop} {l l' : List α}

theorem imp {goes' : α → Prop} (h : Thinned goes l l') (gone : ∀ a, goes a → goes' a) : Thinned goes' l l' := by
  induction h with
  | nil => exact .nil
  | keep a _ ih => exact .keep a ih
  | drop head _ ih => exact .drop (gone _ head) ih

theorem sublist (h : Thinned goes l l') : l'.Sublist l := by
  induction h with
  | nil => exact .slnil
  | keep a _ ih => exact ih.cons_cons a
  | drop _ _ ih => exact ih.cons _

/-- Where nothing may go, all is there. -/
theorem eq_of_stays (h : Thinned goes l l') (stays : ∀ a ∈ l, ¬goes a) : l' = l := by
  induction h with
  | nil => rfl
  | keep a _ ih => rw [ih fun b mem => stays b (List.mem_cons_of_mem _ mem)]
  | drop gone _ _ => exact absurd gone (stays _ List.mem_cons_self)

theorem mem_of_stays (h : Thinned goes l l') {a : α} (mem : a ∈ l) (stays : ¬goes a) : a ∈ l' := by
  induction h with
  | nil => exact mem
  | keep b _ ih => exact List.mem_cons.2 ((List.mem_cons.1 mem).imp_right ih)
  | drop gone _ ih =>
    rcases List.mem_cons.1 mem with rfl | mem
    · exact absurd gone stays
    · exact ih mem

/-- The first element is there, if it may not go. -/
theorem head (h : Thinned goes l l') (stays : ∀ a ∈ l.head?, ¬goes a) : l'.head? = l.head? := by
  cases h with
  | nil => rfl
  | keep => rfl
  | drop gone _ => exact absurd gone (stays _ rfl)

/-- What is found under a name of which nothing may go. -/
theorem lookup {D : Type} (h : Thinned goes l l') (name : α → String) (f : α → D) {key : String} (stays : ∀ a, name a = key → ¬goes a) :
    (l'.map fun a => (name a, f a)).lookup key = (l.map fun a => (name a, f a)).lookup key := by
  induction h with
  | nil => rfl
  | keep a _ ih => rw [List.map_cons, List.map_cons, List.lookup_cons, List.lookup_cons, ih]
  | @drop a _ _ gone _ ih =>
    have other : (key == name a) = false := beq_eq_false_iff_ne.2 fun eq => stays a eq.symm gone
    rw [List.map_cons, List.lookup_cons, other, ih]

end Thinned

/-! ## Nodes in the order of pruning -/

namespace Node

/-- What a node shows to those that are visited before it. -/
def gives : Node → List Alias
  | source src => src.visible
  | select s => [s.label]
  | _ => []

/-- The clauses of a select between its columns and its source. -/
def clauses (s : Select) : List Node :=
  s.limit.toList.map expr ++ (s.offset.toList.map expr ++ (s.groupBy.map expr ++ (s.having.toList.map expr ++
    (s.orderBy.map (expr ·.expr) ++ s.filter.toList.map expr))))

/-- The parts of a node, those that read before those that are read. -/
def visits : Node → List Node
  | source (.join _ l r condition) => condition.toList.map expr ++ [source r, source l]
  | select s => s.columns.map (expr ·.expr) ++ clauses s ++ s.source.toList.map source
  | projection p => [expr p.projector, select p.select]
  | n => n.parts

/-- The select whose first column a node takes. -/
def first? : Node → Option Select
  | subquery (.scalar s _) | subquery (.inSelect _ s) => some s
  | _ => none

abbrev declared (n : Node) : List Alias := n.collect declaredAliases

def prune : Node → Pruning Node
  | expr e => do return expr (← e.prune)
  | subquery s => do return subquery (← s.prune)
  | source src => do return source (← src.prune)
  | select s => do return select (← s.prune)
  | projection p => do return projection (← p.prune)
  | lambda l => pure (lambda l)
  | query q => pure (query q)

open Classical in
theorem visits_perm (n : Node) : n.visits.Perm n.parts := by
  refine List.perm_iff_count.2 fun a => ?_
  cases n with
  | source src =>
    cases src with
    | join kind l r condition =>
      simp only [visits, parts, Source.nodes, List.count_append, List.count_cons, List.count_nil]
      omega
    | _ => rfl
  | select s =>
    simp only [visits, clauses, parts, List.count_append]
    omega
  | projection p =>
    simp only [visits, parts, List.count_cons, List.count_nil]
    omega
  | _ => rfl

theorem parts_sublist {s : Select} {cs : List Named} (sub : cs.Sublist s.columns) :
    (select { s with columns := cs }).parts.Sublist (select s).parts :=
  (List.Sublist.refl _).append ((List.Sublist.refl _).append ((sub.map _).append (List.Sublist.refl _)))

/-- The sources in sight of a part of a node. -/
def reach (n : Node) (T : List Alias) : Node → List Alias
  | expr _ => n.shown ++ T
  | _ => T

theorem gives_subset (n : Node) : n.gives ⊆ n.declared := by
  cases n with
  | source src => exact src.visible_subset
  | select s => exact List.cons_subset.2 ⟨s.label_mem_declared, List.nil_subset _⟩
  | _ => exact List.nil_subset _

end Node

theorem flatMap_gives_subset {ps : List Node} : ps.flatMap Node.gives ⊆ ps.flatMap Node.declared := by
  intro a mem
  obtain ⟨p, found, mem⟩ := List.mem_flatMap.1 mem
  exact List.mem_flatMap.2 ⟨p, found, p.gives_subset mem⟩

/-- Nodes that are related one by one, where each one sees what those after it give. -/
inductive Visited (R : List Alias → Node → Node → Prop) (T : List Alias) : List Node → List Node → Prop where
  | nil : Visited R T [] []
  | cons {p p' : Node} {ps ps' : List Node} (head : R (ps.flatMap Node.gives ++ T) p p') (tail : Visited R T ps ps') : Visited R T (p :: ps) (p' :: ps')

/-! ## Runs -/

theorem Usage.isUsed_mark {u : Usage} {a b : Alias} {name other : String} :
    (u.mark a name).isUsed b other = true ↔ (b, other) = (a, name) ∨ u.isUsed b other = true := by
  simp [isUsed, mark]

/-- A run over nodes one after another, in which flags may be set on the way. -/
inductive Visits : Usage → List Node → List Node → Usage → Prop where
  | done {u v : Usage} (same : v.used = u.used) : Visits u [] [] v
  | next {u w v : Usage} {p : Node} {ps ps' : List Node} (same : w.used = u.used) (rest : Visits (p.prune w).2 ps ps' v) :
    Visits u (p :: ps) ((p.prune w).1 :: ps') v

namespace Visits

variable {u u' v w : Usage} {ps ps' qs qs' : List Node}

theorem of_used (h : Visits u ps ps' v) (same : u.used = u'.used) : Visits u' ps ps' v := by
  cases h with
  | done same' => exact .done (same'.trans same)
  | next same' rest => exact .next (same'.trans same) rest

theorem append (h : Visits u ps ps' v) (h' : Visits u' qs qs' w) (same : u'.used = v.used) : Visits u (ps ++ qs) (ps' ++ qs') w := by
  induction h with
  | done same' => exact h'.of_used (same.trans same')
  | next same' _ ih => exact .next same' (ih same)

theorem flag (h : Visits u ps ps' v) (same : w.used = v.used) : Visits u ps ps' w := by simpa using h.append (.done rfl) same

theorem of_prune {p p' : Node} {x : Usage} (made : p.prune w = (p', x)) (same : w.used = u.used)
    (rest : Visits x ps ps' v) : Visits u (p :: ps) (p' :: ps') v := by
  have next := Visits.next (p := p) same (by rw [made]; exact rest)
  rwa [made] at next

theorem of_mapM (made : ps.mapM Node.prune u = (ps', v)) : Visits u ps ps' v := by
  induction ps generalizing u ps' with
  | nil =>
    cases made
    exact .done rfl
  | cons p ps ih =>
    rw [Node.mapM_cons] at made
    cases made
    exact .next rfl (ih rfl)

end Visits

namespace Node

theorem mapM_pruneAll (es : List Expr) (u : Usage) : (pruneAll es u).1.map (fun _ => (default : Expr)) = es.map (fun _ => default) ∧
    (es.map expr).mapM prune u = ((pruneAll es u).1.map expr, (pruneAll es u).2) :=
  mapM_list pruneAll Expr.prune rfl (fun _ _ => rfl) (fun _ _ => rfl) (fun _ _ => rfl) es u

theorem mapM_pruneNamed (ms : List Named) (u : Usage) :
    (pruneNamed ms u).1.map (Named.mapExpr fun _ => default) = ms.map (Named.mapExpr fun _ => default) ∧
      (ms.map (expr ·.expr)).mapM prune u = ((pruneNamed ms u).1.map (expr ·.expr), (pruneNamed ms u).2) :=
  mapM_list pruneNamed (fun m => do return ⟨m.name, ← m.expr.prune⟩) rfl (by rintro ⟨⟩ l; rfl) (fun _ _ => rfl) (fun _ _ => rfl) ms u

theorem mapM_pruneKeys (ks : List OrderKey) (u : Usage) :
    (pruneKeys ks u).1.map (OrderKey.mapExpr fun _ => default) = ks.map (OrderKey.mapExpr fun _ => default) ∧
      (ks.map (expr ·.expr)).mapM prune u = ((pruneKeys ks u).1.map (expr ·.expr), (pruneKeys ks u).2) :=
  mapM_list pruneKeys (fun k => do return ⟨← k.expr.prune, k.descending⟩) rfl (by rintro ⟨⟩ l; rfl) (fun _ _ => rfl) (fun _ _ => rfl) ks u

theorem mapM_pruneOption (o : Option Expr) (u : Usage) : (pruneOption o u).1.map (fun _ => (default : Expr)) = o.map (fun _ => default) ∧
    (o.toList.map expr).mapM prune u = ((pruneOption o u).1.toList.map expr, (pruneOption o u).2) := by
  cases o <;> exact ⟨rfl, rfl⟩

theorem mapM_pruneSource (o : Option Source) (u : Usage) : (pruneSource o u).1.map (fun _ => blankSource) = o.map (fun _ => blankSource) ∧
    (o.toList.map source).mapM prune u = ((pruneSource o u).1.toList.map source, (pruneSource o u).2) := by
  cases o <;> exact ⟨rfl, rfl⟩

/-- Whether the parts of a node are pruned one after another, without a change of the flag in between. -/
def isFlat : Node → Bool
  | expr (.column _) | source (.join _ _ _ _) | select _ | lambda _ | query _ => false
  | _ => true

/-- What is known when the first part of a flat node is reached. -/
def enter (u : Usage) : Node → Usage
  | expr (.aggregate kind x _ _) => if kind = .count && x.isNone then { u with keepAll := true } else u
  | subquery (.scalar s _) | subquery (.inSelect _ s) => { (markFirst s u).2 with keepAll := false }
  | subquery _ => { u with keepAll := false }
  | _ => u

/-- A subquery has a flag of its own. -/
def leave (u v : Usage) : Node → Usage
  | subquery _ => { v with keepAll := u.keepAll }
  | _ => v

theorem markFirst_keepAll (s : Select) (u : Usage) : (markFirst s u).2.keepAll = u.keepAll := by
  rw [markFirst]
  cases s.columns <;> rfl

theorem prune_flat {n : Node} (flat : n.isFlat = true) (u : Usage) : (n.prune u).1.shape = n.shape ∧
    ∃ v, (n.prune u).2 = n.leave u v ∧ n.visits.mapM prune (n.enter u) = ((n.prune u).1.visits, v) := by
  cases n with
  | expr e =>
    cases e with
    | call m x args =>
      obtain ⟨shape, run⟩ := mapM_pruneAll args (x.prune u).2
      refine ⟨congrArg (fun args => expr (.call m default args)) shape, _, rfl, ?_⟩
      show (expr (.call m x args)).parts.mapM prune u = ((expr (.call m (x.prune u).1 (pruneAll args (x.prune u).2).1)).parts, _)
      rw [parts_operator rfl, parts_operator rfl, Expr.operands, List.map_cons, mapM_cons]
      exact congrArg (fun r : List Node × Usage => (expr (x.prune u).1 :: r.1, r.2)) run
    | record r ms =>
      obtain ⟨shape, run⟩ := mapM_pruneNamed ms u
      refine ⟨congrArg (fun ms => expr (.record r ms)) shape, _, rfl, ?_⟩
      show (expr (.record r ms)).parts.mapM prune u = ((expr (.record r (pruneNamed ms u).1)).parts, _)
      rw [parts_operator rfl, parts_operator rfl, Expr.operands, Expr.operands, List.map_map, List.map_map]
      exact run
    | function name args t =>
      obtain ⟨shape, run⟩ := mapM_pruneAll args u
      refine ⟨congrArg (fun args => expr (.function name args t)) shape, _, rfl, ?_⟩
      show (expr (.function name args t)).parts.mapM prune u = ((expr (.function name (pruneAll args u).1 t)).parts, _)
      rw [parts_operator rfl, parts_operator rfl]
      exact run
    | aggregate kind x distinct t =>
      obtain ⟨shape, run⟩ := mapM_pruneOption x ((expr (.aggregate kind x distinct t)).enter u)
      have made : (expr (.aggregate kind x distinct t)).prune u =
          (expr (.aggregate kind (pruneOption x ((expr (.aggregate kind x distinct t)).enter u)).1 distinct t),
          (pruneOption x ((expr (.aggregate kind x distinct t)).enter u)).2) := by
        rw [prune, Expr.prune, enter]
        split <;> rfl
      rw [made]
      exact ⟨congrArg (fun x => expr (.aggregate kind x distinct t)) shape, _, rfl, run⟩
    | column c => cases flat
    | _ => exact ⟨rfl, _, rfl, rfl⟩
  | subquery q =>
    cases q with
    | inValues e vs =>
      obtain ⟨shape, run⟩ := mapM_pruneAll vs (e.prune { u with keepAll := false }).2
      refine ⟨congrArg (fun vs => subquery (.inValues default vs)) shape, _, rfl, ?_⟩
      show (expr e :: vs.map expr).mapM prune _ = _
      rw [mapM_cons]
      exact congrArg (fun r : List Node × Usage => (expr (e.prune { u with keepAll := false }).1 :: r.1, r.2)) run
    | scalar s t => exact ⟨rfl, _, congrArg (Usage.mk _) (markFirst_keepAll s u), rfl⟩
    | inSelect e s => exact ⟨rfl, _, congrArg (Usage.mk _) (markFirst_keepAll s u), rfl⟩
    | «exists» s => exact ⟨rfl, _, rfl, rfl⟩
  | source src => cases src <;> first | exact ⟨rfl, _, rfl, rfl⟩ | cases flat
  | projection p =>
    cases p
    exact ⟨rfl, _, rfl, rfl⟩
  | _ => cases flat

end Node

theorem pruneColumns_cons (a : Alias) (keepAll : Bool) (c : Named) (cs : List Named) (u : Usage) :
    pruneColumns a keepAll (c :: cs) u = if keepAll || u.isUsed a c.name then
      (⟨c.name, (c.expr.prune u).1⟩ :: (pruneColumns a keepAll cs (c.expr.prune u).2).1, (pruneColumns a keepAll cs (c.expr.prune u).2).2)
      else pruneColumns a keepAll cs u := by
  cases c
  rw [pruneColumns]
  show (if _ then _ else _ : Pruning (List Named)) u = _
  split <;> rfl

/-- The columns that are left of a select, if what reads them stays known in between. -/
theorem Visits.columns {a : Alias} (keepAll : Bool) {cs : List Named} (stays : ∀ c ∈ cs, ∀ (w : Usage) (name : String), w.isUsed a name = true →
    (c.expr.prune w).2.isUsed a name = true) (u : Usage) :
    ∃ cs', Thinned (fun c => keepAll = false ∧ u.isUsed a c.name = false) cs cs' ∧
      (pruneColumns a keepAll cs u).1.map (Named.mapExpr fun _ => default) = cs'.map (Named.mapExpr fun _ => default) ∧
      Visits u (cs'.map (.expr ·.expr)) ((pruneColumns a keepAll cs u).1.map (.expr ·.expr)) (pruneColumns a keepAll cs u).2 := by
  induction cs generalizing u with
  | nil => exact ⟨[], .nil, rfl, .done rfl⟩
  | cons c cs ih =>
    obtain ⟨name, e⟩ := c
    rw [List.forall_mem_cons] at stays
    rw [pruneColumns_cons]
    split
    · obtain ⟨cs', thinned, shape, run⟩ := ih stays.2 (e.prune u).2
      refine ⟨⟨name, e⟩ :: cs', .keep _ (thinned.imp fun c gone => ⟨gone.1, Bool.eq_false_iff.2 fun used => ?_⟩),
        congrArg (Named.mk name default :: ·) shape, .next rfl run⟩
      exact Bool.false_ne_true (gone.2.symm.trans (stays.1 u c.name used))
    · next gone =>
      obtain ⟨cs', thinned, shape, run⟩ := ih stays.2 u
      rw [Bool.not_eq_true, Bool.or_eq_false_iff] at gone
      exact ⟨cs', .drop gone thinned, shape, run⟩

theorem isUsed_markFirst {s : Select} {u : Usage} {a : Alias} {name : String} :
    (markFirst s u).2.isUsed a name = true ↔ (∃ c ∈ s.columns.head?, (a, name) = (s.label, c.name)) ∨ u.isUsed a name = true := by
  rw [markFirst]
  cases s.columns with
  | nil => exact (or_iff_right (by rintro ⟨_, ⟨⟩, _⟩)).symm
  | cons c cs => exact Usage.isUsed_mark.trans (or_congr_left ⟨fun same => ⟨c, rfl, same⟩, by rintro ⟨_, ⟨⟩, same⟩; exact same⟩)

namespace Node

/-- A run over a join: the condition, then the right side, then the left one. -/
theorem prune_join (kind : JoinKind) (l r : Source) (condition : Option Expr) (u : Usage) :
    ∃ (l' r' : Source) (condition' : Option Expr) (w v v' : Usage),
    (source (.join kind l r condition)).prune u = (source (.join kind l' r' condition'), v') ∧
    condition'.map (fun _ => (default : Expr)) = condition.map (fun _ => default) ∧
    (condition.toList.map expr).mapM prune u = (condition'.toList.map expr, w) ∧
    (source r).prune { w with keepAll := u.keepAll } = (source r', v) ∧ (source l).prune { v with keepAll := u.keepAll } = (source l', v') := by
  obtain ⟨shape, test⟩ := mapM_pruneOption condition u
  exact ⟨_, _, _, _, _, _, rfl, shape, test, rfl, rfl⟩

/-- On the way into a node the first columns are marked that it takes. -/
theorem isUsed_enter {n : Node} {u : Usage} {a : Alias} {name : String} : (n.enter u).isUsed a name = true ↔
    (∃ s ∈ n.first?, ∃ c ∈ s.columns.head?, (a, name) = (s.label, c.name)) ∨ u.isUsed a name = true := by
  have plain {w : Usage} (none : n.first? = none) (same : w.used = u.used) :
      w.isUsed a name = true ↔ (∃ s ∈ n.first?, ∃ c ∈ s.columns.head?, (a, name) = (s.label, c.name)) ∨ u.isUsed a name = true := by
    rw [none, Usage.isUsed, same]
    exact (or_iff_right (by rintro ⟨_, ⟨⟩, _⟩)).symm
  cases n with
  | expr e =>
    refine plain rfl ?_
    cases e with
    | aggregate =>
      rw [enter]
      split <;> rfl
    | _ => rfl
  | subquery q =>
    have marked (s : Select) : (markFirst s u).2.isUsed a name = true ↔
        (∃ t ∈ some s, ∃ c ∈ t.columns.head?, (a, name) = (t.label, c.name)) ∨ u.isUsed a name = true := by
      rw [isUsed_markFirst]
      simp
    cases q with
    | scalar s t => exact marked s
    | inSelect e s => exact marked s
    | _ => exact plain rfl rfl
  | _ => exact plain rfl rfl

/-- A node that is no select keeps its shape, and its parts are visited after the first columns are marked that it takes. -/
theorem prune_visits {n : Node} (bound : n.isBound = true) (column : ∀ c, n ≠ expr (.column c)) (other : ∀ s, n ≠ select s) (u : Usage) :
    (n.prune u).1.shape = n.shape ∧ ∃ w, Visits w n.visits (n.prune u).1.visits (n.prune u).2 ∧
      (∀ a name, u.isUsed a name = true → w.isUsed a name = true) ∧ ∀ s ∈ n.first?, ∀ c ∈ s.columns.head?, w.isUsed s.label c.name = true := by
  by_cases flat : n.isFlat = true
  · obtain ⟨shape, v, state, run⟩ := prune_flat flat u
    refine ⟨shape, n.enter u, Visits.flag (.of_mapM run) ?_, fun a name used => isUsed_enter.2 (.inr used),
      fun s first c head => isUsed_enter.2 (.inl ⟨s, first, c, head, rfl⟩)⟩
    rw [state]
    cases n <;> rfl
  cases n with
  | expr e => cases e <;> first | exact absurd rfl flat | exact absurd rfl (column _)
  | source src =>
    cases src with
    | join kind l r condition =>
      obtain ⟨l', r', condition', w, v, v', run, shape, test, right, left⟩ := prune_join kind l r condition u
      rw [run]
      refine ⟨congrArg (fun condition => source (.join kind blankSource blankSource condition)) shape,
        u, .append (.of_mapM test) ?_ rfl, fun _ _ => id, by rintro _ ⟨⟩⟩
      exact .of_prune right rfl (.of_prune left rfl (.done rfl))
    | _ => exact absurd rfl flat
  | select s => exact absurd rfl (other s)
  | lambda | query => cases bound
  | _ => exact absurd rfl flat

/-- A run over a select: its columns, which may count rows, then its other clauses, then its source. -/
theorem prune_run (s : Select) (u : Usage) : ∃ (s' : Select) (w v v' : Usage),
    (select s).prune u = (select s', ({ v' with keepAll := false } : Usage).forget s.label) ∧
    (select { s' with columns := [] }).shape = (select { s with columns := [] }).shape ∧
    pruneColumns s.label (u.keepAll || s.distinct) s.columns { u with keepAll := false } = (s'.columns, w) ∧
    (clauses s).mapM prune { w with keepAll := false } = (clauses s', v) ∧
    (s.source.toList.map source).mapM prune { v with keepAll := w.keepAll } = (s'.source.toList.map source, v') := by
  obtain ⟨a, columns, source, filter, groupBy, having, orderBy, offset, limit, distinct⟩ := s
  rcases made₀ : pruneColumns a (u.keepAll || distinct) columns { u with keepAll := false } with ⟨columns', w⟩
  obtain ⟨shape₁, each₁⟩ := mapM_pruneOption limit { w with keepAll := false }
  rcases made₁ : pruneOption limit { w with keepAll := false } with ⟨limit', u₁⟩
  obtain ⟨shape₂, each₂⟩ := mapM_pruneOption offset u₁
  rcases made₂ : pruneOption offset u₁ with ⟨offset', u₂⟩
  obtain ⟨shape₃, each₃⟩ := mapM_pruneAll groupBy u₂
  rcases made₃ : pruneAll groupBy u₂ with ⟨groupBy', u₃⟩
  obtain ⟨shape₄, each₄⟩ := mapM_pruneOption having u₃
  rcases made₄ : pruneOption having u₃ with ⟨having', u₄⟩
  obtain ⟨shape₅, each₅⟩ := mapM_pruneKeys orderBy u₄
  rcases made₅ : pruneKeys orderBy u₄ with ⟨orderBy', u₅⟩
  obtain ⟨shape₆, each₆⟩ := mapM_pruneOption filter u₅
  rcases made₆ : pruneOption filter u₅ with ⟨filter', u₆⟩
  obtain ⟨shape₇, each₇⟩ := mapM_pruneSource source { u₆ with keepAll := w.keepAll }
  rcases made₇ : pruneSource source { u₆ with keepAll := w.keepAll } with ⟨source', u₇⟩
  rw [made₁] at shape₁ each₁
  rw [made₂] at shape₂ each₂
  rw [made₃] at shape₃ each₃
  rw [made₄] at shape₄ each₄
  rw [made₅] at shape₅ each₅
  rw [made₆] at shape₆ each₆
  rw [made₇] at shape₇ each₇
  refine ⟨⟨a, columns', source', filter', groupBy', having', orderBy', offset', limit', distinct⟩, w, u₆, u₇, ?_, ?_, rfl, ?_, each₇⟩
  · simp only [prune, Select.prune, takeKeepAll, setKeepAll, modify, modifyGet, MonadStateOf.modifyGet, StateT.modifyGet, bind,
      StateT.bind, pure, StateT.pure, made₀, made₁, made₂,
      made₃, made₄, made₅, made₆, made₇]
  · simp only [shape, Select.mapParts, shape₁, shape₂, shape₃, shape₄, shape₅, shape₆, shape₇]
  · simp only [clauses, mapM_append, each₁, each₂, each₃, each₄, each₅, each₆]

/-- The clauses of a select are visited first, then its source. -/
theorem prune_select {s : Select} (stays : ∀ c ∈ s.columns, ∀ (w : Usage) (name : String), w.isUsed s.label name = true →
    (c.expr.prune w).2.isUsed s.label name = true) (u : Usage) :
    ∃ cs v, Thinned (fun c => s.distinct = false ∧ u.isUsed s.label c.name = false) s.columns cs ∧
      ((select s).prune u).1.shape = (select { s with columns := cs }).shape ∧
      Visits u (select { s with columns := cs }).visits ((select s).prune u).1.visits v ∧ ((select s).prune u).2.used = (v.forget s.label).used := by
  obtain ⟨s', w, v, v', run, shape, first, clauses, source⟩ := prune_run s u
  obtain ⟨cs, thinned, names, columns⟩ := Visits.columns (u.keepAll || s.distinct) stays { u with keepAll := false }
  rw [first] at names columns
  rw [run]
  refine ⟨cs, v', thinned.imp fun c gone => ⟨(Bool.or_eq_false_iff.1 gone.1).2, gone.2⟩, ?_, ?_, rfl⟩
  · simp only [Node.shape, select.injEq, Select.mapParts, Select.mk.injEq, List.map_nil, true_and] at shape ⊢
    exact ⟨shape.1, names, shape.2⟩
  · exact ((columns.append (.of_mapM clauses) rfl).append (.of_mapM source) rfl).of_used rfl

end Node

/-! ## What comes of a run -/

/-- What a run gives, beside sources in sight. Sources that it does not declare keep what is known of them. Some columns of those that it
declares are gone, none of which was known to be read at the start; and the result is as wanted for every choice of columns that leaves
out those, and holds what is known at the end of the sources in sight. -/
def PruneOutcome (T declared gives : List Alias) (u v : Usage) (wanted : (Alias → String → Prop) → Prop) : Prop :=
  (∀ a, a ∉ declared → ∀ name, u.isUsed a name = true → v.isUsed a name = true) ∧
    ∃ gone : Alias → String → Prop, (∀ a name, gone a name → a ∈ declared) ∧ (∀ a ∈ gives, ∀ name, u.isUsed a name = true → ¬gone a name) ∧
      ∀ K : Alias → String → Prop, (∀ a ∈ T, ∀ name, v.isUsed a name = true → K a name) → (∀ a ∈ declared, ∀ name, K a name ↔ ¬gone a name) → wanted K

variable {P : (Alias → String → Prop) → List Alias → Node → Node → Prop}

variable (P) in
def Node.Runs (n : Node) : Prop :=
  ∀ T, (∀ a ∈ n.declared, a ∉ T) → ∀ u, PruneOutcome T n.declared n.gives u (n.prune u).2 fun K => P K T n (n.prune u).1

/-- One node after another. -/
theorem Visits.outcome {u v : Usage} {ps ps' : List Node} (h : Visits u ps ps' v) (each : ∀ p ∈ ps, p.Runs P)
    (nodup : (ps.flatMap Node.declared).Nodup) {T : List Alias} (apart : ∀ a ∈ ps.flatMap Node.declared, a ∉ T) :
    PruneOutcome T (ps.flatMap Node.declared) (ps.flatMap Node.gives) u v fun K => Visited (P K) T ps ps' := by
  induction h with
  | @done u v same => exact
    ⟨fun a _ name used => by rwa [Usage.isUsed, same], fun _ _ => False, fun _ _ => False.elim, fun _ _ _ _ => id, fun _ _ _ => .nil⟩
  | @next u w v p ps ps' same _ ih =>
    rw [List.flatMap_cons] at nodup apart ⊢
    obtain ⟨-, nodup, disjoint⟩ := List.nodup_append.1 nodup
    rw [List.forall_mem_append] at apart
    rw [List.forall_mem_cons] at each
    have shown {a : Alias} (mem : a ∈ ps.flatMap Node.gives) : a ∈ ps.flatMap Node.declared := flatMap_gives_subset mem
    have left {a : Alias} (mem : a ∈ p.declared) (mem' : a ∈ ps.flatMap Node.declared) : False := disjoint a mem a mem' rfl
    obtain ⟨keeps, gone, inside, known, first⟩ := each.1 (ps.flatMap Node.gives ++ T) (fun a mem => by
      rw [List.mem_append, not_or]
      exact ⟨fun mem' => left mem (shown mem'), apart.1 a mem⟩) w
    obtain ⟨keeps', gone', inside', known', rest⟩ := ih each.2 nodup apart.2
    have start {a : Alias} {name : String} (used : u.isUsed a name = true) : w.isUsed a name = true := by rwa [Usage.isUsed, same]
    refine ⟨fun a outside name used => ?_, fun a name => gone a name ∨ gone' a name, fun a name => ?_,
      fun a mem name used => ?_, fun K seen chosen => ?_⟩
    · rw [List.mem_append, not_or] at outside
      exact keeps' a outside.2 name (keeps a outside.1 name (start used))
    · rw [List.mem_append]
      exact Or.imp (inside a name) (inside' a name)
    · rw [List.flatMap_cons, List.mem_append] at mem
      rcases mem with mem | mem
      · exact not_or.2 ⟨known a mem name (start used), fun gone => left (p.gives_subset mem) (inside' a name gone)⟩
      · have outside : a ∉ p.declared := fun mem' => left mem' (shown mem)
        exact not_or.2 ⟨fun gone => outside (inside a name gone), known' a mem name (keeps a outside name (start used))⟩
    · have second (a : Alias) (mem : a ∈ ps.flatMap Node.declared) (name : String) : K a name ↔ ¬gone' a name := by
        rw [chosen a (List.mem_append_right _ mem) name, not_or]
        exact and_iff_right fun gone => left (inside a name gone) mem
      refine .cons (first K (fun a mem name used => ?_) fun a mem name => ?_) (rest K seen second)
      · rcases List.mem_append.1 mem with mem | mem
        · exact (second a (shown mem) name).2 (known' a mem name used)
        · exact seen a mem name (keeps' a (fun mem' => apart.2 a mem' mem) name used)
      · rw [chosen a (List.mem_append_left _ mem) name, not_or]
        exact and_iff_left fun gone => left mem (inside' a name gone)

/-! ## Whole trees -/

namespace Visited

variable {R : List Alias → Node → Node → Prop} {T : List Alias} {ps ps' : List Node}

theorem split {rest rest' : List Node} (length : ps'.length = ps.length) (h : Visited R T (ps ++ rest) (ps' ++ rest')) :
    Visited R (rest.flatMap Node.gives ++ T) ps ps' ∧ Visited R T rest rest' := by
  induction ps generalizing ps' with
  | nil =>
    cases List.length_eq_zero_iff.1 length
    exact ⟨.nil, h⟩
  | cons p ps ih =>
    cases ps' with
    | nil => cases length
    | cons p' ps' =>
      rw [List.cons_append, List.cons_append] at h
      cases h with
      | cons head tail =>
        rw [List.flatMap_append, List.append_assoc] at head
        exact (ih (Nat.succ.inj length) tail).imp_left (.cons head)

theorem imp {R' : List Alias → Node → Node → Prop} (h : Visited R T ps ps') (imp : ∀ T, ∀ p ∈ ps, ∀ p', R T p p' → R' T p p') :
    Visited R' T ps ps' := by
  induction h with
  | nil => exact .nil
  | cons head _ ih => exact .cons (imp _ _ List.mem_cons_self _ head) (ih fun T p mem => imp T p (List.mem_cons_of_mem _ mem))

/-- Where no node gives anything, all see the same. -/
theorem forall₂ (h : Visited R T ps ps') (none : ∀ p ∈ ps, p.gives = []) : List.Forall₂ (R T) ps ps' := by
  induction h with
  | nil => exact .nil
  | cons head _ ih =>
    rw [List.forall_mem_cons] at none
    rw [List.flatMap_eq_nil_iff.2 none.2] at head
    exact .cons head (ih none.2)

/-- The parts of a node that is no select: its expressions see all that the node shows them, and the other parts what the node sees. -/
theorem related {n n' : Node} (mono : ∀ {T T' p p'}, T ⊆ T' → R T' p p' → R T p p') (other : ∀ s, n ≠ .select s) (shape : n'.shape = n.shape)
    (h : Visited R T n.visits n'.visits) : n.Related (fun p p' => R (n.reach T p) p p') n' := by
  have plain (same : n.visits = n.parts) (same' : n'.visits = n'.parts) (none : n.shown = []) : n.Related (fun p p' => R (n.reach T p) p p') n' := by
    rw [same, same'] at h
    refine ⟨shape, ?_⟩
    generalize n.parts = ps at h
    generalize n'.parts = ps' at h
    induction h with
    | nil => exact .nil
    | @cons p p' ps ps' head _ ih =>
      refine .cons (mono ?_ head) ih
      cases p <;> simp [Node.reach, none]
  have whole := shape
  cases n <;> cases n' <;> simp only [Node.shape, reduceCtorEq, Node.source.injEq] at shape
  case source src src' =>
    cases src <;> cases src' <;> simp only [Source.shape, reduceCtorEq] at shape
    case join kind l r condition kind' l' r' condition' =>
      simp only [Source.join.injEq, true_and] at shape
      obtain ⟨rfl, shape⟩ := shape
      obtain ⟨test, sides⟩ := Visited.split (by cases condition <;> cases condition' <;> simp_all) h
      rcases sides with _ | ⟨right, _ | ⟨left, _⟩⟩
      refine ⟨whole, .cons left (.cons (mono (List.subset_append_right _ _) right) ?_)⟩
      refine (forall₂_with_mem (test.forall₂ (List.forall_mem_map.2 fun _ _ => rfl))).imp fun p p' part => mono ?_ part.2.2
      obtain ⟨e, -, rfl⟩ := List.mem_map.1 part.1
      simp [Node.reach, Node.shown, Node.gives]
    all_goals exact plain rfl rfl rfl
  case projection p p' =>
    rcases h with _ | ⟨projector, _ | ⟨part, _⟩⟩
    exact ⟨whole, .cons part (.cons projector .nil)⟩
  case select s s' => exact absurd rfl (other s)
  all_goals exact plain rfl rfl rfl

/-- The clauses of a select see its source. -/
theorem select {s s' : Select} (shape : (Node.select s').shape = (Node.select s).shape)
    (h : Visited R T (Node.select s).visits (Node.select s').visits) :
    SelectRelated (fun e e' => R (s.visible ++ T) (.expr e) (.expr e')) (fun src src' => R T (.source src) (.source src')) s s' := by
  obtain ⟨label, names, sources, filters, groups, havings, orders, offsets, limits, distinct⟩ := Node.shape_select shape
  have count {α β : Type} {f : α → β} {l l' : List α} (same : l'.map f = l.map f) : l'.length = l.length := by simpa using congrArg List.length same
  have count? {α β : Type} {f : α → β} {o o' : Option α} (same : o'.map f = o.map f) : o'.toList.length = o.toList.length := by
    cases o <;> cases o' <;> simp_all
  obtain ⟨parts, source⟩ := h.split (by
    simp only [Node.clauses, List.length_append, List.length_map, count names, count? limits, count? offsets, count groups, count? havings, count orders,
      count? filters])
  have shown : (s.source.toList.map Node.source).flatMap Node.gives = s.visible :=
    by cases found : s.source <;> simp [Select.visible, found, Node.gives]
  rw [shown] at parts
  obtain ⟨columns, parts⟩ := forall₂_split (by simpa using count names) (parts.forall₂ (by simp [Node.clauses, Node.gives, or_imp, forall_and]))
  obtain ⟨limit, parts⟩ := forall₂_split_option limits parts
  obtain ⟨offset, parts⟩ := forall₂_split_option offsets parts
  obtain ⟨groupBy, parts⟩ := forall₂_split (by simpa using count groups) parts
  obtain ⟨having, parts⟩ := forall₂_split_option havings parts
  obtain ⟨orderBy, filter⟩ := forall₂_split (by simpa using count orders) parts
  rw [List.forall₂_map_left_iff, List.forall₂_map_right_iff] at groupBy
  refine ⟨label, forall₂_named names columns, ?_, rel_of_forall₂ filter, groupBy, having, forall₂_keys orders orderBy, offset, limit, distinct⟩
  generalize s.source = o at source
  generalize s'.source = o' at source
  cases o <;> cases o' <;> cases source
  · exact .none
  · exact .some ‹_›

end Visited

/-- What to show of a pruned tree: of a select that loses columns which are not chosen, of a column, and of any other node, given the same of its parts. -/
structure PruneCases (P : (Alias → String → Prop) → List Alias → Node → Node → Prop) : Prop where
  query : ∀ K T q, P K T (.expr (.query q)) (.expr (.query q))
  column : ∀ K T c, (c.label ∈ T → K c.label c.name) → P K T (.expr (.column c)) (.expr (.column c))
  select : ∀ (K : Alias → String → Prop) T s cs s', Thinned (fun c => ¬K s.label c.name) s.columns cs → (s.distinct = true → ∀ name, K s.label name) →
    SelectRelated (fun e e' => P K (s.visible ++ T) (.expr e) (.expr e')) (fun src src' => P K T (.source src) (.source src'))
      { s with columns := cs } s' → P K T (.select s) (.select s')
  other : ∀ (K : Alias → String → Prop) T n n', n.isBound = true → (∀ q, n ≠ .expr (.query q)) → (∀ c, n ≠ .expr (.column c)) → (∀ s, n ≠ .select s) →
    n'.shape = n.shape → (∀ s ∈ n.first?, ∀ c ∈ s.columns.head?, K s.label c.name) → Visited (P K) T n.visits n'.visits → P K T n n'

namespace PruneCases

theorem runs_select (h : PruneCases P) {s : Select} (nodup : (Node.select s).declared.Nodup) (each : ∀ p ∈ (Node.select s).parts, p.Runs P) :
    (Node.select s).Runs P := by
  intro T apart u
  have declared : (Node.select s).declared = s.label :: (Node.select s).parts.flatMap Node.declared := Node.collect_eq _ rfl
  rw [declared, List.nodup_cons] at nodup
  rw [declared, List.forall_mem_cons] at apart
  have apartLabel {p : Node} (mem : p ∈ (Node.select s).parts) : s.label ∉ p.declared := fun found => nodup.1 (List.mem_flatMap.2 ⟨p, mem, found⟩)
  have columns (c : Named) (mem : c ∈ s.columns) : Node.expr c.expr ∈ (Node.select s).parts :=
    (Node.forall_parts_select.1 fun p (found : p ∈ (Node.select s).parts) => found).columns c mem
  obtain ⟨cs, v, thinned, shape, run, used⟩ := Node.prune_select (fun c mem w name =>
    (each _ (columns c mem) [] (fun _ _ => List.not_mem_nil) w).1 s.label (apartLabel (columns c mem)) name) u
  have sub := Node.parts_sublist thinned.sublist
  have perm := (Node.select { s with columns := cs }).visits_perm
  have inside := List.Subset.trans (perm.flatMap_right Node.declared).subset (sub.flatMap Node.declared).subset
  obtain ⟨keeps, gone, lost, -, wanted⟩ := run.outcome (fun p mem => each p (sub.subset (perm.subset mem)))
    ((perm.flatMap_right Node.declared).nodup_iff.2 ((sub.flatMap Node.declared).nodup nodup.2)) fun a mem => apart.2 a (inside mem)
  have other {a : Alias} (ne : a ≠ s.label) {name : String} (known : v.isUsed a name = true) : ((Node.select s).prune u).2.isUsed a name = true := by
    rw [Usage.isUsed, used]
    simpa [Usage.isUsed, Usage.forget, ne] using known
  rw [declared]
  refine ⟨fun a outside name known => ?_, fun a name => gone a name ∨ a = s.label ∧ s.distinct = false ∧ u.isUsed a name = false, fun a name => ?_,
    fun a mem name known => ?_, fun K seen chosen => ?_⟩
  · rw [List.mem_cons, not_or] at outside
    exact other outside.1 (keeps a (fun mem => outside.2 (inside mem)) name known)
  · rw [List.mem_cons, or_comm]
    exact Or.imp (fun gone => inside (lost a name gone)) And.left
  · cases List.mem_singleton.1 mem
    exact not_or.2 ⟨fun gone => nodup.1 (inside (lost _ _ gone)), fun gone => Bool.false_ne_true (gone.2.2.symm.trans known)⟩
  · rw [List.forall_mem_cons] at chosen
    refine h.select K T s cs _ (thinned.imp fun c gone kept => ?_) (fun distinct name => ?_)
      (Visited.select shape (wanted K (fun a mem name known => ?_) fun a mem name => ?_))
    · exact (chosen.1 c.name).1 kept (.inr ⟨rfl, gone⟩)
    · refine (chosen.1 name).2 (not_or.2 ⟨fun gone => nodup.1 (inside (lost _ _ gone)), fun gone => ?_⟩)
      exact Bool.false_ne_true (gone.2.1.symm.trans distinct)
    · exact seen a mem name (other (fun eq => apart.1 (eq ▸ mem)) known)
    · rw [chosen.2 a (inside mem) name, not_or]
      exact and_iff_left fun gone => nodup.1 (gone.1 ▸ inside mem)

theorem runs_other (h : PruneCases P) {n : Node} (bound : n.isBound = true) (query : ∀ q, n ≠ .expr (.query q)) (column : ∀ c, n ≠ .expr (.column c))
    (select : ∀ s, n ≠ .select s) (nodup : n.declared.Nodup) (each : ∀ p ∈ n.parts, p.Runs P) : n.Runs P := by
  intro T apart u
  obtain ⟨shape, w, run, marks, firsts⟩ := Node.prune_visits bound column select u
  have declared : n.declared = n.found declaredAliases ++ n.parts.flatMap Node.declared := Node.collect_eq _ bound
  have perm := n.visits_perm
  have inside : n.visits.flatMap Node.declared ⊆ n.declared := by
    rw [declared]
    exact List.Subset.trans (perm.flatMap_right Node.declared).subset (List.subset_append_right _ _)
  rw [declared] at nodup
  obtain ⟨keeps, gone, lost, known, wanted⟩ := run.outcome (fun p mem => each p (perm.subset mem))
    ((perm.flatMap_right Node.declared).nodup_iff.2 (List.nodup_append.1 nodup).2.1) fun a mem => apart a (inside mem)
  refine ⟨fun a outside name used => keeps a (fun mem => outside (inside mem)) name (marks a name used),
    gone, fun a name gone => inside (lost a name gone),
    fun a mem name used lost' => ?_, fun K seen chosen => ?_⟩
  · cases n with
    | source src =>
      cases src with
      | table => cases lost a name lost'
      | raw => cases lost a name lost'
      | select s => exact known a (by simpa [Node.visits, Node.parts, Source.nodes, Node.gives, Source.visible] using mem) name (marks a name used) lost'
      | join kind l r condition =>
        refine known a ?_ name (marks a name used) lost'
        simp only [Node.gives, Source.visible, List.mem_append] at mem
        simpa [Node.visits, Node.gives, or_comm] using mem
    | select s => exact absurd rfl (select s)
    | _ => cases mem
  · refine h.other K T n _ bound query column select shape (fun s first c head => ?_) (wanted K seen fun a mem => chosen a (inside mem))
    have mem : s.label ∈ n.visits.flatMap Node.gives := by
      unfold Node.first? at first
      split at first <;> cases first <;> simp [Node.visits, Node.parts, Subquery.nodes, Node.gives]
    exact (chosen _ (inside (flatMap_gives_subset mem)) c.name).2 (known _ mem c.name (firsts s first c head))

theorem runs (h : PruneCases P) {n : Node} (bound : n.isBound = true) (nodup : n.declared.Nodup) : n.Runs P := by
  induction n, bound using Node.bound_induction with
  | query q => exact fun T _ u => ⟨fun _ _ _ => id, fun _ _ => False, fun _ _ => False.elim, fun _ _ _ _ => id, fun K _ _ => h.query K T q⟩
  | step n bound other ih =>
    have each (p : Node) (mem : p ∈ n.parts) : p.Runs P := by
      rw [Node.declared, Node.collect_eq _ bound] at nodup
      exact ih p mem (Node.isBound_parts bound other p mem) ((List.nodup_flatMap.1 (List.nodup_append.1 nodup).2.1).1 p mem)
    by_cases column : ∃ c, n = .expr (.column c)
    · obtain ⟨c, rfl⟩ := column
      refine fun T _ u => ⟨fun a _ name used => Usage.isUsed_mark.2 (.inr used), fun _ _ => False, fun _ _ => False.elim,
        fun _ _ _ _ => id, fun K seen _ => ?_⟩
      exact h.column K T c fun mem => seen c.label mem c.name (Usage.isUsed_mark.2 (.inl rfl))
    by_cases select : ∃ s, n = .select s
    · obtain ⟨s, rfl⟩ := select
      exact h.runs_select nodup each
    · exact h.runs_other bound other (not_exists.1 column) (not_exists.1 select) nodup each

/-- What the cases show holds of every pruned tree, for some choice of columns. -/
theorem holds (h : PruneCases P) {n : Node} (bound : n.isBound = true) (nodup : n.declared.Nodup) {T : List Alias} (apart : ∀ a ∈ n.declared, a ∉ T)
    (u : Usage) : ∃ K, P K T n (n.prune u).1 := by
  obtain ⟨-, gone, inside, -, wanted⟩ := h.runs bound nodup T apart u
  refine ⟨fun a name => ¬gone a name, wanted _ (fun a mem name _ lost => apart a (inside a name lost) mem) fun _ _ _ => Iff.rfl⟩

end PruneCases

/-- No alias is declared more often in a pruned tree. -/
theorem declared_cases : PruneCases fun _ _ n n' => ∀ a, n'.declared.count a ≤ n.declared.count a where
  query _ _ _ _ := Nat.le_refl _
  column _ _ _ _ _ := Nat.le_refl _
  select K T s cs s' thinned _ parts a := by
    have fewer := count_flatMap_le_of_forall₂ (parts.imp (fun e e' part => part a) fun _ _ part => part a).parts fun _ _ => id
    have dropped := ((Node.parts_sublist thinned.sublist).flatMap (Node.collect declaredAliases)).count_le a
    rw [Node.declared, Node.declared, Node.collect_eq _ rfl, Node.collect_eq _ rfl, List.count_append, List.count_append]
    have label : s'.label = s.label := parts.label
    show List.count a [s'.label] + _ ≤ List.count a [s.label] + _
    rw [label]
    exact Nat.add_le_add_left (Nat.le_trans fewer dropped) _
  other K T n n' bound _ _ select shape _ visited a :=
    ((visited.related (R := fun _ p p' => ∀ a, p'.declared.count a ≤ p.declared.count a) (fun _ => id) select shape).imp
      fun _ _ part => part a).count_le bound

end Relational

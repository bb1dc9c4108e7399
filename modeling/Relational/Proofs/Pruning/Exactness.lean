import Relational.Proofs.Pruning.Visits
import Relational.Proofs.Rows.Change

/-!
# What is kept

Pruning is done in one run. A second one changes nothing, since it meets each node with the same knowledge as the first (`Node.settles`),
and a run that drops nothing meets no column without a reason to be there (`Node.exact`). So each column that is left
in a projection is needed (`Projection.Arranged.dropUnused_exact`): it is referred to, it is shown without repetition, rows
are counted where it is read, or a first column that stands for a value has its name.
-/

namespace Relational

variable {u v w : Usage} {n n' : Node} {ps : List Node}

/-! ## A second run -/

theorem Visited.refl {R : List Alias → Node → Node → Prop} {T : List Alias} (refl : ∀ T p, R T p p) (ps : List Node) : Visited R T ps ps := by
  induction ps with
  | nil => exact .nil
  | cons p ps ih => exact .cons (refl _ p) ih

theorem Visits.origin {ps' : List Node} (h : Visits u ps ps' v) : ∀ p' ∈ ps', ∃ p ∈ ps, ∃ w, (p.prune w).1 = p' := by
  induction h with
  | done => rintro _ ⟨⟩
  | @next u w v p ps ps' _ _ ih =>
    exact List.forall_mem_cons.2 ⟨⟨p, List.mem_cons_self, w, rfl⟩, fun p' mem => (ih p' mem).imp fun q => And.imp_left (List.mem_cons_of_mem _)⟩

namespace Node

theorem ext_visits (shape : n'.shape = n.shape) (visits : n'.visits = n.visits) : n' = n := by
  have same : Visited (fun _ p p' => p = p') [] n.visits n'.visits := visits ▸ .refl (fun _ _ => rfl) _
  refine ext shape (Eq.symm ?_)
  rw [← List.forall₂_eq_eq_eq]
  by_cases select : ∃ s, n = .select s
  · obtain ⟨s, rfl⟩ := select
    obtain ⟨s', rfl⟩ : ∃ s', n' = .select s' := by cases n' <;> first | exact ⟨_, rfl⟩ | cases shape
    exact (Visited.select shape same).parts
  · exact (same.related (fun _ => id) (not_exists.1 select) shape).parts

/-- What is known of a source stays known where the source is not declared. -/
theorem stays_used (n : Node) {a : Alias} {name : String} (bound : n.isBound = true) (nodup : n.declared.Nodup) (outside : a ∉ n.declared)
    (used : u.isUsed a name = true) : (n.prune u).2.isUsed a name = true := by
  have all : PruneCases fun _ _ _ _ => True := by constructor <;> intros <;> trivial
  exact (all.runs bound nodup [] (fun _ _ => List.not_mem_nil) u).1 a outside name used

/-- A node that comes to the same in a second run. -/
def Settles (n : Node) : Prop := ∀ u, (n.prune u).1.prune u = n.prune u

theorem mapM_settles (each : ∀ p ∈ ps, p.Settles) (u : Usage) : (ps.mapM prune u).1.mapM prune u = ps.mapM prune u := by
  induction ps generalizing u with
  | nil => rfl
  | cons p ps ih =>
    rw [List.forall_mem_cons] at each
    rw [mapM_cons, mapM_cons, each.1 u, ih each.2]

theorem pruneColumns_length (a : Alias) (keepAll : Bool) (cs : List Named) (u : Usage) : (pruneColumns a keepAll cs u).1.length ≤ cs.length := by
  induction cs generalizing u with
  | nil => exact Nat.le_refl _
  | cons c cs ih =>
    rw [pruneColumns_cons]
    split
    · exact Nat.succ_le_succ (ih _)
    · exact Nat.le_succ_of_le (ih u)

theorem pruneColumns_settles (a : Alias) (keepAll : Bool) {cs : List Named} (each : ∀ c ∈ cs, (expr c.expr).Settles) (u : Usage) :
    pruneColumns a keepAll (pruneColumns a keepAll cs u).1 u = pruneColumns a keepAll cs u := by
  induction cs generalizing u with
  | nil => rfl
  | cons c cs ih =>
    rw [List.forall_mem_cons] at each
    rw [pruneColumns_cons]
    split
    · next kept =>
      obtain ⟨same, state⟩ : (expr ((c.expr.prune u).1.prune u).1 = expr (c.expr.prune u).1) ∧ _ := Prod.mk.inj (each.1 u)
      rw [pruneColumns_cons, if_pos kept, expr.inj same, state, ih each.2]
    · exact ih each.2 u

theorem length_prune (s : Select) (u : Usage) : (s.prune u).1.columns.length ≤ s.columns.length := by
  obtain ⟨s', _, _, _, run, -, columns, -, -⟩ := prune_run s u
  have fewer := pruneColumns_length s.label (u.keepAll || s.distinct) s.columns { u with keepAll := false }
  rw [columns] at fewer
  have pruned : (s.prune u).1 = s' := select.inj (congrArg Prod.fst run)
  rwa [pruned]

/-- The first column of a select is there, if it is known to be read. -/
theorem markFirst_prune {s : Select} (marked : ∀ c ∈ s.columns.head?, w.isUsed s.label c.name = true) (u : Usage) :
    markFirst (s.prune w).1 u = markFirst s u := by
  obtain ⟨s', _, _, _, run, shape, columns, -, -⟩ := prune_run s w
  have label : s'.label = s.label := (shape_select shape).1
  have pruned : (s.prune w).1 = s' := select.inj (congrArg Prod.fst run)
  rw [pruned, markFirst, markFirst, label]
  have columns : s'.columns = _ := (congrArg Prod.fst columns).symm
  rw [columns]
  cases given : s.columns with
  | nil => rfl
  | cons c cs =>
    have marked : ({ w with keepAll := false } : Usage).isUsed s.label c.name = true := marked c (by rw [given]; rfl)
    rw [pruneColumns_cons, marked, Bool.or_true, if_pos rfl]

theorem isFlat_of_shape (shape : n'.shape = n.shape) : n'.isFlat = n.isFlat := by
  cases n <;> cases n' <;> simp only [Node.shape, reduceCtorEq, expr.injEq, source.injEq] at shape <;> try rfl
  case expr e e' => cases e <;> cases e' <;> first | rfl | cases shape
  case source src src' => cases src <;> cases src' <;> first | rfl | cases shape

theorem enter_prune (flat : n.isFlat = true) (stays : ∀ e s, n = subquery (.inSelect e s) → ∀ w name, w.isUsed s.label name = true →
    (e.prune w).2.isUsed s.label name = true) (u : Usage) : (n.prune u).1.enter u = n.enter u := by
  cases n with
  | expr e =>
    cases e with
    | aggregate kind x distinct t =>
      rw [prune, Expr.prune]
      cases x <;> split <;> rfl
    | _ => rfl
  | subquery q =>
    have marked (s : Select) (c : Named) (first : c ∈ s.columns.head?) : (markFirst s u).2.isUsed s.label c.name = true :=
      isUsed_markFirst.2 (.inl ⟨c, first, rfl⟩)
    let inside (r : Unit × Usage) : Usage := { r.2 with keepAll := false }
    cases q with
    | scalar s t => exact congrArg inside (markFirst_prune (w := inside (markFirst s u)) (marked s) u)
    | inSelect e s => exact congrArg inside (markFirst_prune (fun c first => stays e s rfl (inside (markFirst s u)) _ (marked s c first)) u)
    | _ => rfl
  | source src => cases src <;> rfl
  | projection p =>
    cases p
    rfl
  | _ => cases flat

theorem settles_flat (flat : n.isFlat = true) (enters : ∀ u, (n.prune u).1.enter u = n.enter u) (each : ∀ p ∈ n.parts, p.Settles) : n.Settles := by
  intro u
  obtain ⟨shape, v, state, run⟩ := prune_flat flat u
  obtain ⟨shape', v', state', run'⟩ := prune_flat ((isFlat_of_shape shape).trans flat) u
  have again := mapM_settles (fun p mem => each p (n.visits_perm.subset mem)) (n.enter u)
  rw [run, ← enters, run'] at again
  obtain ⟨same, rfl⟩ := Prod.mk.inj again
  refine Prod.ext (ext_visits shape' same) ?_
  rw [state', state]
  generalize (n.prune u).1 = n' at shape
  cases n <;> cases n' <;> first | rfl | cases shape

theorem settles_select {s : Select} (each : ∀ p ∈ (select s).parts, p.Settles) : (select s).Settles := by
  intro u
  obtain ⟨s', w, v, v', run, shape, columns, clauses, source⟩ := prune_run s u
  obtain ⟨s'', x, y, y', run', shape', columns', clauses', source'⟩ := prune_run s' u
  have parts := fun p mem => each p ((select s).visits_perm.subset mem)
  rw [visits, List.forall_mem_append, List.forall_mem_append, List.forall_mem_map] at parts
  obtain ⟨label, -, -, -, -, -, -, -, -, distinct⟩ := shape_select shape
  have first := pruneColumns_settles s.label (u.keepAll || s.distinct) parts.1.1 { u with keepAll := false }
  have second := mapM_settles parts.1.2 { w with keepAll := false }
  have third := mapM_settles parts.2 { v with keepAll := w.keepAll }
  rw [columns, ← label, ← distinct, columns'] at first
  obtain ⟨names, rfl⟩ := Prod.mk.inj first
  rw [clauses, clauses'] at second
  obtain ⟨others, rfl⟩ := Prod.mk.inj second
  rw [source, source'] at third
  obtain ⟨sources, rfl⟩ := Prod.mk.inj third
  have same : select s'' = select s' := by
    refine ext_visits ?_ ?_
    · simp only [Node.shape, select.injEq, Select.mapParts, Select.mk.injEq, List.map_nil, true_and] at shape' ⊢
      exact ⟨shape'.1, congrArg _ names, shape'.2⟩
    · rw [visits, visits, names, others, sources]
  rw [run, run', same, label]

theorem settles (bound : n.isBound = true) (nodup : n.declared.Nodup) : n.Settles := by
  induction n, bound using bound_induction with
  | query q => exact fun _ => rfl
  | step n bound other ih =>
    rw [declared, collect_eq _ bound] at nodup
    have nodup := (List.nodup_append.1 nodup).2.1
    have each (p : Node) (mem : p ∈ n.parts) : p.Settles := ih p mem (isBound_parts bound other p mem) ((List.nodup_flatMap.1 nodup).1 p mem)
    by_cases flat : n.isFlat = true
    · refine settles_flat flat (enter_prune flat ?_) each
      rintro e s rfl w name used
      simp only [parts, Subquery.nodes, List.flatMap_cons, List.flatMap_nil, List.append_nil] at nodup
      obtain ⟨inner, -, apart⟩ := List.nodup_append.1 nodup
      exact (expr e).stays_used rfl inner (fun mem => apart _ mem _ s.label_mem_declared rfl) used
    cases n with
    | expr e => cases e <;> first | exact absurd rfl flat | exact fun _ => rfl
    | source src =>
      cases src with
      | join kind l r condition =>
        intro u
        obtain ⟨left, right, test⟩ := by simpa only [parts, Source.nodes, List.forall_mem_cons] using each
        obtain ⟨l', r', condition', w, v, v', run, -, first, second, third⟩ := prune_join kind l r condition u
        obtain ⟨l'', r'', condition'', x, y, y', run', shape, first', second', third'⟩ := prune_join kind l' r' condition' u
        have again := mapM_settles test u
        rw [first, first'] at again
        obtain ⟨same, rfl⟩ := Prod.mk.inj again
        have again := right { x with keepAll := u.keepAll }
        rw [second, second'] at again
        obtain ⟨same', rfl⟩ := Prod.mk.inj again
        have again := left { y with keepAll := u.keepAll }
        rw [third, third'] at again
        obtain ⟨same'', rfl⟩ := Prod.mk.inj again
        have equal : source (.join kind l'' r'' condition'') = source (.join kind l' r' condition') := by
          refine ext_visits (congrArg (fun condition => source (.join kind blankSource blankSource condition)) shape) ?_
          rw [visits, visits, same, same', same'']
        rw [run, run', equal]
      | _ => exact absurd rfl flat
    | select s => exact settles_select each
    | lambda | query => cases bound
    | _ => exact absurd rfl flat

end Node

/-! ## Nodes below others -/

/-- Whether all that is known to be read is among these columns. -/
def Usage.Within (u : Usage) (known : Alias → String → Prop) : Prop := ∀ a name, u.isUsed a name = true → known a name

/-- The selects that a source reads, be it through joins. -/
def Source.selects : Source → List Select
  | .select s => [s]
  | .join _ l r _ => l.selects ++ r.selects
  | _ => []

namespace Node

/-- A node in a tree that is reached through some nodes alone. -/
inductive Below (through : Node → Bool) (x : Node) : Node → Prop where
  | self : Below through x x
  | part {n p : Node} (passes : through n = true) (mem : p ∈ n.parts) (below : Below through x p) : Below through x n

/-- Whether the parts of a node are bound. -/
def isOpen : Node → Bool
  | expr (.query _) | lambda _ | query _ => false
  | _ => true

/-- Whether the parts of a node belong to the same clause. -/
def isClause : Node → Bool
  | expr (.query _) | source _ | select _ | lambda _ | query _ => false
  | _ => true

/-- There are no projections in a node. -/
def Plain (n : Node) : Prop := ∀ p, ¬Below isOpen (projection p) n

/-- Rows are counted in the clause of a node. -/
def CountsRows (n : Node) : Prop := ∃ distinct t, Below isClause (expr (.aggregate .count none distinct t)) n

/-- A node, other than a source, that counts no rows. -/
def Quiet (n : Node) : Prop := (∀ src, n ≠ source src) ∧ ¬n.CountsRows

/-- The selects that a node reads. -/
def reads : Node → List Select
  | select s => [s]
  | source src => src.selects
  | projection p => [p.select]
  | _ => []

theorem Plain.parts (plain : n.Plain) (opens : n.isOpen = true) {p : Node} (mem : p ∈ n.parts) : p.Plain :=
  fun q below => plain q (.part opens mem below)

theorem CountsRows.of_part (clause : n.isClause = true) {p : Node} (mem : p ∈ n.parts) (counts : p.CountsRows) : n.CountsRows :=
  counts.imp fun _ => Exists.imp fun _ => .part clause mem

theorem countsRows_source {src : Source} : ¬(source src).CountsRows := by
  rintro ⟨_, _, below⟩
  cases below with
  | part passes => cases passes

theorem quiet_select (s : Select) : (select s).Quiet := by
  refine ⟨by rintro _ ⟨⟩, ?_⟩
  rintro ⟨_, _, below⟩
  cases below with
  | part passes => cases passes

theorem Quiet.parts (quiet : n.Quiet) (clause : n.isClause = true) {p : Node} (mem : p ∈ n.parts) : p.Quiet := by
  refine ⟨?_, fun counts => quiet.2 (counts.of_part clause mem)⟩
  rintro src rfl
  cases n with
  | expr e => cases e <;> simp [parts, Expr.operands, Expr.nodes] at mem
  | subquery q => cases q <;> simp [parts, Subquery.nodes] at mem
  | projection p => simp [parts] at mem
  | _ => cases clause

theorem isClause_expr {e : Expr} (opens : (expr e).isOpen = true) : (expr e).isClause = true := by
  cases e <;> first | rfl | cases opens

/-- What an expression holds reads no select, if it is plain. -/
theorem reads_expr {e : Expr} {p : Node} (mem : p ∈ (expr e).parts) (plain : p.Plain) : p.reads = [] := by
  cases p with
  | source src | select s => cases e <;> simp [parts, Expr.operands, Expr.nodes] at mem
  | projection q => exact absurd .self (plain q)
  | _ => rfl

/-! ## Reasons -/

section Reasons

variable {known : Alias → String → Prop} {explained : Select → Named → Prop}

variable (known explained) in
/-- What holds of each node, if the columns that are marked on the way are known, and those are explained that are known, are shown without
repetition, or are read where rows are counted. -/
structure Explains (n : Node) : Prop where
  column : ∀ c, n = expr (.column c) → known c.label c.name
  first : ∀ s ∈ n.first?, ∀ c ∈ s.columns.head?, known s.label c.name
  list : ∀ e s, n = subquery (.inSelect e s) → s.columns.length ≤ 1
  plain : ∀ s, n = select s → n.Plain
  read : ∀ s, n = select s → ∀ c ∈ s.columns, known s.label c.name ∨ s.distinct = true → explained s c
  counted : ∀ s, n = select s → (∃ c ∈ s.columns, (expr c.expr).CountsRows) →
    ∀ src ∈ s.source, ∀ t ∈ src.selects, ∀ c ∈ t.columns, explained t c

variable (explained) in
/-- A node is reached without the flag, or all is explained that is kept for it. -/
def Enters (n : Node) (u : Usage) : Prop :=
  n.Plain ∧ (u.keepAll = true → ∀ s ∈ n.reads, ∀ c ∈ s.columns, explained s c) ∨ u.keepAll = false ∧ n.Quiet

variable (explained) in
/-- The columns of all selects below a node are explained. -/
def Justified (n : Node) : Prop := ∀ s, Below isOpen (select s) n → ∀ c ∈ s.columns, explained s c

variable (known explained) in
/-- What a run that drops nothing says of a node. -/
def Exact (n : Node) : Prop :=
  ∀ u v, n.prune u = (n, v) → u.Within known → n.Enters explained u →
    v.Within known ∧ (v.keepAll = true → u.keepAll = true ∨ n.CountsRows) ∧ n.Justified explained

theorem enters_expr {e : Expr} (plain : (expr e).Plain) (u : Usage) : (expr e).Enters explained u := .inl ⟨plain, fun _ => by rintro _ ⟨⟩⟩

theorem exact_mapM (each : ∀ p ∈ ps, p.Exact known explained) (run : ps.mapM prune u = (ps, v)) (marks : u.Within known)
    (enters : (∀ p ∈ ps, ∀ w, p.Enters explained w) ∨ u.keepAll = false ∧ ∀ p ∈ ps, p.Quiet) :
    v.Within known ∧ (v.keepAll = true → u.keepAll = true ∨ ∃ p ∈ ps, p.CountsRows) ∧ ∀ p ∈ ps, p.Justified explained := by
  induction ps generalizing u with
  | nil =>
    cases run
    exact ⟨marks, .inl, by rintro _ ⟨⟩⟩
  | cons p ps ih =>
    rw [List.forall_mem_cons] at each
    rw [mapM_cons] at run
    obtain ⟨same, state⟩ := Prod.mk.inj run
    obtain ⟨head, tail⟩ := List.cons.inj same
    have enter : p.Enters explained u :=
      enters.elim (fun all => all p List.mem_cons_self u) fun quiet => .inr ⟨quiet.1, quiet.2 p List.mem_cons_self⟩
    obtain ⟨marks', flag, own⟩ := each.1 u _ (Prod.ext head rfl) marks enter
    -- the flag is still down for the rest if nothing counts rows
    have later : (∀ q ∈ ps, ∀ w, q.Enters explained w) ∨ (p.prune u).2.keepAll = false ∧ ∀ q ∈ ps, q.Quiet := by
      refine enters.imp (fun all q mem => all q (List.mem_cons_of_mem _ mem)) fun quiet => ?_
      refine ⟨Bool.eq_false_iff.2 fun kept => ?_, fun q mem => quiet.2 q (List.mem_cons_of_mem _ mem)⟩
      rcases flag kept with kept | counts
      · exact Bool.false_ne_true (quiet.1.symm.trans kept)
      · exact (quiet.2 p List.mem_cons_self).2 counts
    obtain ⟨marks'', flag', rest⟩ := ih each.2 (Prod.ext tail state) marks' later
    refine ⟨marks'', fun kept => ?_, List.forall_mem_cons.2 ⟨own, rest⟩⟩
    rcases flag' kept with kept | ⟨q, mem, counts⟩
    · exact (flag kept).imp_right fun counts => ⟨p, List.mem_cons_self, counts⟩
    · exact .inr ⟨q, List.mem_cons_of_mem _ mem, counts⟩

/-- How the parts of a flat node are reached. -/
theorem Enters.parts (flat : n.isFlat = true) (opens : n.isOpen = true) (here : n.Explains known explained)
    (each : ∀ p ∈ n.parts, p.Explains known explained) (h : n.Enters explained u) :
    (∀ p ∈ n.parts, ∀ w, p.Enters explained w) ∨ (n.enter u).keepAll = false ∧ ∀ p ∈ n.parts, p.Quiet := by
  have always {p : Node} (plain : p.Plain) (none : p.reads = []) (w : Usage) : p.Enters explained w :=
    .inl ⟨plain, fun _ => by rw [none]; rintro _ ⟨⟩⟩
  cases n with
  | expr e =>
    rcases h with ⟨plain, -⟩ | ⟨flag, quiet⟩
    · exact .inl fun p mem => always (plain.parts opens mem) (reads_expr mem (plain.parts opens mem))
    · refine .inr ⟨?_, fun p mem => quiet.parts (isClause_expr opens) mem⟩
      cases e with
      | aggregate kind x distinct t =>
        rw [enter]
        split
        · next counts =>
          obtain ⟨rfl, none⟩ := by simpa using counts
          subst none
          exact absurd ⟨distinct, t, .self⟩ quiet.2
        · exact flag
      | _ => exact flag
  | subquery q =>
    cases q with
    | inSelect e s =>
      rcases h with ⟨plain, -⟩ | ⟨-, quiet⟩
      · have inner : select s ∈ (subquery (.inSelect e s)).parts := List.mem_cons_of_mem _ List.mem_cons_self
        refine .inl (List.forall_mem_cons.2 ⟨always (plain.parts rfl List.mem_cons_self) rfl, List.forall_mem_singleton.2 fun w => ?_⟩)
        refine .inl ⟨plain.parts rfl inner, fun _ => ?_⟩
        -- the one column of the list is its first
        rintro _ (⟨⟩ | ⟨_, ⟨⟩⟩) c mem
        refine (each (select s) inner).read s rfl c mem (.inl (here.first s rfl c ?_))
        obtain ⟨d, only⟩ := List.length_eq_one_iff.1 (Nat.le_antisymm (here.list e s rfl) (List.length_pos_of_mem mem))
        rw [only] at mem ⊢
        exact List.mem_singleton.1 mem ▸ rfl
      · exact .inr ⟨rfl, fun p mem => quiet.parts rfl mem⟩
    | inValues e vs =>
      rcases h with ⟨plain, -⟩ | ⟨-, quiet⟩
      · refine .inl fun p mem => always (plain.parts rfl mem) ?_
        rcases List.mem_cons.1 mem with rfl | mem
        · rfl
        · obtain ⟨v, -, rfl⟩ := List.mem_map.1 mem
          rfl
      · exact .inr ⟨rfl, fun p mem => quiet.parts rfl mem⟩
    | _ => exact .inr ⟨rfl, List.forall_mem_singleton.2 (quiet_select _)⟩
  | source src =>
    rcases h with ⟨plain, excused⟩ | ⟨-, quiet⟩
    · cases src with
      | select s =>
        by_cases flag : u.keepAll = true
        · exact .inl (List.forall_mem_singleton.2 fun w => .inl ⟨plain.parts rfl List.mem_cons_self, fun _ => excused flag⟩)
        · exact .inr ⟨Bool.eq_false_iff.2 flag, List.forall_mem_singleton.2 (quiet_select s)⟩
      | join => cases flat
      | _ => exact .inl (by rintro _ ⟨⟩)
    · exact absurd rfl (quiet.1 src)
  | projection p =>
    rcases h with ⟨plain, -⟩ | ⟨flag, quiet⟩
    · exact absurd .self (plain p)
    · exact .inr ⟨flag, fun p mem => quiet.parts rfl mem⟩
  | _ => cases flat

/-- The flag is up after a flat node if it was up before, or if rows are counted. -/
theorem keepAll_leave (flat : n.isFlat = true) (opens : n.isOpen = true)
    (flag : v.keepAll = true → (n.enter u).keepAll = true ∨ ∃ p ∈ n.parts, p.CountsRows)
    (kept : (n.leave u v).keepAll = true) : u.keepAll = true ∨ n.CountsRows := by
  cases n with
  | expr e =>
    rcases flag kept with kept | ⟨p, mem, counts⟩
    · cases e with
      | aggregate kind x distinct t =>
        rw [enter] at kept
        split at kept
        · next counts =>
          obtain ⟨rfl, none⟩ := by simpa using counts
          subst none
          exact .inr ⟨distinct, t, .self⟩
        · exact .inl kept
      | _ => exact .inl kept
    · exact .inr (counts.of_part (isClause_expr opens) mem)
  | subquery q => exact .inl kept
  | source src =>
    refine (flag kept).imp_right ?_
    rintro ⟨p, mem, counts⟩
    cases src with
    | select s =>
      cases List.mem_singleton.1 mem
      exact absurd counts (quiet_select s).2
    | join => cases flat
    | _ => cases mem
  | projection p => exact (flag kept).imp_right fun part => part.elim fun p found => found.2.of_part rfl found.1
  | _ => cases flat

theorem exact_flat (flat : n.isFlat = true) (opens : n.isOpen = true) (here : n.Explains known explained)
    (explains : ∀ p ∈ n.parts, p.Explains known explained) (each : ∀ p ∈ n.parts, p.Exact known explained) : n.Exact known explained := by
  intro u v run marks enters
  obtain ⟨-, v', state, made⟩ := prune_flat flat u
  rw [run] at state made
  obtain rfl : v = n.leave u v' := state
  have perm := n.visits_perm
  have start : (n.enter u).Within known := by
    intro a name used
    rcases isUsed_enter.1 used with ⟨s, first, c, head, same⟩ | used
    · cases same
      exact here.first s first c head
    · exact marks a name used
  have reached := (enters.parts flat opens here explains).imp (fun all p (mem : p ∈ n.visits) => all p (perm.subset mem))
    (And.imp_right fun quiet p (mem : p ∈ n.visits) => quiet p (perm.subset mem))
  obtain ⟨marks', flag, parts⟩ := exact_mapM (fun p mem => each p (perm.subset mem)) made start reached
  refine ⟨?_, keepAll_leave flat opens fun kept => ?_, fun s below => ?_⟩
  · cases n <;> exact marks'
  · exact (flag kept).imp_right (Exists.imp fun p => And.imp_left fun mem => perm.subset mem)
  · cases below with
    | self => cases flat
    | part _ mem below => exact parts _ (perm.symm.subset mem) s below

theorem exact_columns {a : Alias} {keepAll : Bool} {cs : List Named} (each : ∀ c ∈ cs, (expr c.expr).Exact known explained)
    (plain : ∀ c ∈ cs, (expr c.expr).Plain) (run : pruneColumns a keepAll cs u = (cs, v)) (marks : u.Within known) :
    v.Within known ∧ (v.keepAll = true → u.keepAll = true ∨ ∃ c ∈ cs, (expr c.expr).CountsRows) ∧
      ∀ c ∈ cs, (keepAll = true ∨ known a c.name) ∧ (expr c.expr).Justified explained := by
  induction cs generalizing u with
  | nil =>
    cases run
    exact ⟨marks, .inl, by rintro _ ⟨⟩⟩
  | cons c cs ih =>
    rw [List.forall_mem_cons] at each plain
    rw [pruneColumns_cons] at run
    split at run
    · next kept =>
      obtain ⟨same, state⟩ := Prod.mk.inj run
      obtain ⟨head, tail⟩ := List.cons.inj same
      have head : (c.expr.prune u).1 = c.expr := congrArg Named.expr head
      obtain ⟨marks', flag, own⟩ := each.1 u _ (Prod.ext (congrArg expr head) rfl) marks (enters_expr plain.1 u)
      obtain ⟨marks'', flag', rest⟩ := ih each.2 plain.2 (Prod.ext tail state) marks'
      refine ⟨marks'', fun kept => ?_, List.forall_mem_cons.2 ⟨⟨(Bool.or_eq_true_iff.1 kept).imp_right (marks a c.name), own⟩, rest⟩⟩
      rcases flag' kept with kept | ⟨d, mem, counts⟩
      · exact (flag kept).imp_right fun counts => ⟨c, List.mem_cons_self, counts⟩
      · exact .inr ⟨d, List.mem_cons_of_mem _ mem, counts⟩
    · have fewer := pruneColumns_length a keepAll cs u
      rw [run, List.length_cons] at fewer
      omega

theorem exact_join {kind : JoinKind} {l r : Source} {condition : Option Expr}
    (each : ∀ p ∈ (source (.join kind l r condition)).parts, p.Exact known explained) :
    (source (.join kind l r condition)).Exact known explained := by
  intro u v run marks enters
  obtain ⟨plain, excused⟩ := enters.resolve_right fun quiet => quiet.2.1 _ rfl
  have left : source l ∈ (source (.join kind l r condition)).parts := List.mem_cons_self
  have right : source r ∈ (source (.join kind l r condition)).parts := List.mem_cons_of_mem _ List.mem_cons_self
  have test {p : Node} (mem : p ∈ condition.toList.map expr) : p ∈ (source (.join kind l r condition)).parts :=
    List.mem_cons_of_mem _ (List.mem_cons_of_mem _ mem)
  obtain ⟨l', r', condition', w, x, x', made, -, first, second, third⟩ := prune_join kind l r condition u
  obtain ⟨same, rfl⟩ := Prod.mk.inj (run.symm.trans made)
  cases same
  obtain ⟨marks, -, conditions⟩ := exact_mapM (fun p mem => each p (test mem)) first marks (.inl fun p mem w => by
    obtain ⟨e, -, rfl⟩ := List.mem_map.1 mem
    exact enters_expr (plain.parts rfl (test mem)) w)
  obtain ⟨marks, -, rights⟩ := each _ right _ _ second marks
    (.inl ⟨plain.parts rfl right, fun kept s mem => excused kept s (List.mem_append_right _ mem)⟩)
  obtain ⟨marks, flag, lefts⟩ := each _ left _ _ third marks
    (.inl ⟨plain.parts rfl left, fun kept s mem => excused kept s (List.mem_append_left _ mem)⟩)
  refine ⟨marks, fun kept => (flag kept).imp_right fun counts => absurd counts countsRows_source, fun s below => ?_⟩
  cases below with
  | part _ mem below =>
    rcases List.mem_cons.1 mem with rfl | mem
    · exact lefts s below
    rcases List.mem_cons.1 mem with rfl | mem
    · exact rights s below
    · exact conditions _ mem s below

theorem exact_select {s : Select} (here : (select s).Explains known explained) (each : ∀ p ∈ (select s).parts, p.Exact known explained) :
    (select s).Exact known explained := by
  intro u v run marks enters
  obtain ⟨s', w, x, x', made, -, columns, clauses, reads⟩ := prune_run s u
  obtain ⟨same, rfl⟩ := Prod.mk.inj (run.symm.trans made)
  cases same
  have perm := (select s).visits_perm
  have parts := fun p mem => each p (perm.subset mem)
  have plain : ∀ p ∈ (select s).visits, p.Plain := fun p mem => (here.plain s rfl).parts rfl (perm.subset mem)
  rw [visits, List.forall_mem_append, List.forall_mem_append, List.forall_mem_map] at parts plain
  obtain ⟨marks, counts, shown⟩ := exact_columns parts.1.1 plain.1.1 columns marks
  obtain ⟨marks, -, others⟩ := exact_mapM parts.1.2 clauses marks (.inl fun p mem w => by
    have clause : ∀ p ∈ Node.clauses s, ∃ e, p = expr e := by simp [Node.clauses, or_imp, forall_and]
    obtain ⟨e, rfl⟩ := clause p mem
    exact enters_expr (plain.1.2 _ mem) w)
  have excused (kept : w.keepAll = true) := here.counted s rfl ((counts kept).resolve_left Bool.false_ne_true)
  obtain ⟨marks, sources⟩ : x'.Within known ∧ ∀ p ∈ s.source.toList.map source, p.Justified explained := by
    cases given : s.source with
    | none =>
      rw [given] at reads
      cases reads
      exact ⟨marks, by rintro _ ⟨⟩⟩
    | some src =>
      rw [given] at reads parts plain
      rw [Option.toList_some, List.map_singleton, mapM_cons] at reads
      obtain ⟨same, rfl⟩ := Prod.mk.inj reads
      obtain ⟨marks, -, inner⟩ := parts.2 _ List.mem_cons_self _ _ (Prod.ext (List.cons.inj same).1 rfl) marks
        (.inl ⟨plain.2 _ List.mem_cons_self, fun kept => excused kept src given⟩)
      exact ⟨marks, List.forall_mem_singleton.2 inner⟩
  refine ⟨fun a name used => marks a name ?_, by rintro ⟨⟩, fun t below => ?_⟩
  · rw [Usage.isUsed, Usage.forget, List.contains_iff_mem, List.mem_filter] at used
    exact List.contains_iff_mem.2 used.1
  · cases below with
    | self =>
      intro c mem
      rcases (shown c mem).1 with kept | read
      · rcases Bool.or_eq_true_iff.1 kept with flag | distinct
        · rcases enters with ⟨-, excused⟩ | ⟨down, -⟩
          · exact excused flag s List.mem_cons_self c mem
          · exact absurd (down.symm.trans flag) Bool.false_ne_true
        · exact here.read s rfl c mem (.inr distinct)
      · exact here.read s rfl c mem (.inl read)
    | part _ mem below =>
      have part := perm.symm.subset mem
      rw [visits, List.mem_append, List.mem_append, List.mem_map] at part
      rcases part with (⟨c, column, rfl⟩ | clause) | source
      · exact (shown c column).2 t below
      · exact others _ clause t below
      · exact sources _ source t below

variable (known explained) in
/-- The columns are explained of all selects below a node. -/
theorem exact (bound : n.isBound = true) (explains : ∀ m, Below isOpen m n → m.Explains known explained) : n.Exact known explained := by
  induction n, bound using bound_induction with
  | query q =>
    intro u v run marks _
    cases run
    refine ⟨marks, .inl, fun s below => ?_⟩
    cases below with
    | part passes => cases passes
  | step n bound other ih =>
    have opens : n.isOpen = true := by
      cases n with
      | expr e => cases e <;> first | rfl | exact absurd rfl (other _)
      | _ => first | rfl | cases bound
    have each (p : Node) (mem : p ∈ n.parts) : p.Exact known explained :=
      ih p mem (isBound_parts bound other p mem) fun m below => explains m (.part opens mem below)
    by_cases flat : n.isFlat = true
    · exact exact_flat flat opens (explains n .self) (fun p mem => explains p (.part opens mem .self)) each
    cases n with
    | expr e =>
      cases e with
      | column c =>
        intro u v run marks _
        cases run
        refine ⟨fun a name used => ?_, .inl, fun s below => ?_⟩
        · rcases Usage.isUsed_mark.1 used with same | used
          · cases same
            exact (explains _ .self).column c rfl
          · exact marks a name used
        · cases below with
          | part _ mem => cases mem
      | _ => exact absurd rfl flat
    | source src =>
      cases src with
      | join => exact exact_join each
      | _ => exact absurd rfl flat
    | select s => exact exact_select (explains _ .self) each
    | lambda | query => cases bound
    | _ => exact absurd rfl flat

end Reasons

/-! ## Nodes of a pruned tree -/

theorem Below.collect {α : Type} (C : Collector α) {x : Node} (below : Below isOpen x n) : x.collect C ⊆ n.collect C := by
  induction below with
  | self => exact List.Subset.refl _
  | @part n p passes mem _ ih =>
    have bound : n.isBound = true := by cases n <;> first | rfl | cases passes
    rw [collect_eq _ bound]
    exact List.subset_append_of_subset_right _ fun a found => List.mem_flatMap.2 ⟨p, mem, ih found⟩

theorem labels_sublist (bound : n.isBound = true) : ((n.collect selectNodes).map (·.label)).Sublist (n.collect declaredAliases) := by
  induction n, bound using bound_induction with
  | query q => exact .slnil
  | step n bound other ih =>
    rw [collect_eq _ bound, collect_eq _ bound, List.map_append, List.map_flatMap]
    refine List.Sublist.append ?_ ?_
    · cases n with
      | expr e => cases e <;> exact List.nil_sublist _
      | select s => exact List.Sublist.refl _
      | _ => exact List.nil_sublist _
    · have each (p : Node) (mem : p ∈ n.parts) := ih p mem (isBound_parts bound other p mem)
      generalize n.parts = ps at each
      induction ps with
      | nil => exact .slnil
      | cons p ps rest =>
        rw [List.forall_mem_cons] at each
        exact each.1.append (rest each.2)

/-- No two selects of a tree have one alias. -/
theorem eq_of_label (bound : n.isBound = true) (nodup : n.declared.Nodup) {s t : Select} (first : Below isOpen (select s) n)
    (second : Below isOpen (select t) n) (label : s.label = t.label) : s = t := by
  have own (s : Select) : s ∈ (select s).collect selectNodes := by
    rw [collect_eq _ rfl]
    exact List.mem_append_left _ List.mem_cons_self
  exact List.inj_on_of_nodup_map ((labels_sublist bound).nodup nodup) (first.collect selectNodes (own s))
    (second.collect selectNodes (own t)) label

theorem pruneColumns_origin (a : Alias) (keepAll : Bool) (cs : List Named) (u : Usage) :
    ∀ c' ∈ (pruneColumns a keepAll cs u).1, ∃ c ∈ cs, ∃ w, (c.expr.prune w).1 = c'.expr := by
  induction cs generalizing u with
  | nil => rintro _ ⟨⟩
  | cons c cs ih =>
    have later (u : Usage) (c' : Named) (mem : c' ∈ (pruneColumns a keepAll cs u).1) :
        ∃ d ∈ c :: cs, ∃ w, (d.expr.prune w).1 = c'.expr :=
      (ih u c' mem).imp fun d => And.imp_left (List.mem_cons_of_mem _)
    rw [pruneColumns_cons]
    split
    · exact List.forall_mem_cons.2 ⟨⟨c, List.mem_cons_self, u, rfl⟩, later _⟩
    · exact later u

theorem parts_prune (opens : n.isOpen = true) (u : Usage) : ∀ p' ∈ (n.prune u).1.parts, ∃ p ∈ n.parts, ∃ w, (p.prune w).1 = p' := by
  intro p' part
  have mem := (visits_perm _).symm.subset part
  clear part
  by_cases select : ∃ s, n = select s
  · obtain ⟨s, rfl⟩ := select
    obtain ⟨s', w, v, v', run, -, columns, clauses, reads⟩ := prune_run s u
    rw [run, visits, List.mem_append, List.mem_append, List.mem_map] at mem
    have inside {p : Node} (found : p ∈ (Node.select s).visits) := (Node.select s).visits_perm.subset found
    rw [visits] at inside
    rcases mem with (⟨c', column, rfl⟩ | mem) | mem
    · have origin := pruneColumns_origin s.label (u.keepAll || s.distinct) s.columns { u with keepAll := false }
      rw [columns] at origin
      obtain ⟨c, found, w, same⟩ := origin c' column
      exact ⟨expr c.expr, inside (List.mem_append_left _ (List.mem_append_left _ (List.mem_map_of_mem found))), w, congrArg expr same⟩
    · obtain ⟨p, found, w, same⟩ := (Visits.of_mapM clauses).origin p' mem
      exact ⟨p, inside (List.mem_append_left _ (List.mem_append_right _ found)), w, same⟩
    · obtain ⟨p, found, w, same⟩ := (Visits.of_mapM reads).origin p' mem
      exact ⟨p, inside (List.mem_append_right _ found), w, same⟩
  by_cases column : ∃ c, n = expr (.column c)
  · obtain ⟨c, rfl⟩ := column
    cases mem
  · have bound : n.isBound = true := by cases n <;> first | rfl | cases opens
    obtain ⟨-, w, run, -⟩ := prune_visits bound (not_exists.1 column) (not_exists.1 select) u
    obtain ⟨p, found, origin⟩ := run.origin p' mem
    exact ⟨p, n.visits_perm.subset found, origin⟩

/-- A node below a pruned one is a pruned node. -/
theorem Below.origin {through : Node → Bool} {x' : Node} (opens : ∀ n, through n = true → n.isOpen = true)
    (kinds : ∀ n u, through (n.prune u).1 = through n) (below : Below through x' (n.prune u).1) :
    ∃ x w, Below through x n ∧ (x.prune w).1 = x' := by
  generalize made : (n.prune u).1 = n' at below
  induction below generalizing n u with
  | self => exact ⟨n, u, .self, made⟩
  | @part n' p' passes mem _ ih =>
    subst made
    rw [kinds] at passes
    obtain ⟨p, found, w, same⟩ := parts_prune (opens n passes) u p' mem
    obtain ⟨x, w, below, same⟩ := ih same
    exact ⟨x, w, .part passes found below, same⟩

theorem kinds_prune (n : Node) (u : Usage) : (n.prune u).1.isOpen = n.isOpen ∧ (n.prune u).1.isClause = n.isClause := by
  cases n with
  | expr e =>
    cases e with
    | aggregate =>
      rw [prune, Expr.prune]
      split <;> exact ⟨rfl, rfl⟩
    | _ => exact ⟨rfl, rfl⟩
  | _ => exact ⟨rfl, rfl⟩

theorem isOpen_of_isClause (clause : n.isClause = true) : n.isOpen = true := by
  cases n with
  | expr e => cases e <;> first | rfl | cases clause
  | _ => first | rfl | cases clause

theorem Below.trans {through : Node → Bool} {x y : Node} (first : Below through x y) (second : Below through y n) : Below through x n := by
  induction second with
  | self => exact first
  | part passes mem _ ih => exact .part passes mem ih

/-- What holds with each of some nodes their parts holds all nodes below them. -/
theorem Below.mem {through : Node → Bool} {x : Node} (h : Below through x n)
    (closed : ∀ m ∈ ps, through m = true → ∀ p ∈ m.parts, p ∈ ps) (start : n ∈ ps) : x ∈ ps := by
  induction h with
  | self => exact start
  | part passes mem _ ih => exact ih (closed _ start passes _ mem)

end Node

/-! ## Whole projections -/

open Node (Below isOpen isClause)

/-- No alias is declared twice, projections stand in projectors alone and aggregates in selects alone, and lists are of one column. -/
structure Projection.Arranged (p : Projection) : Prop where
  distinct : p.declared.Nodup
  projections : ∀ s, Below isOpen (.select s) (.projection p) → (Node.select s).Plain
  aggregates : ∀ kind x distinct t, ¬Below isClause (.expr (.aggregate kind x distinct t)) (.projection p)
  lists : ∀ e s, Below isOpen (.subquery (.inSelect e s)) (.projection p) → s.columns.length ≤ 1

/-- Why a select of a projection has a column. -/
inductive Projection.Needed (p : Projection) (s : Select) (c : Named) : Prop where
  | referenced {r : ColumnRef} (stands : Below isOpen (.expr (.column r)) (.projection p)) (label : r.label = s.label) (name : r.name = c.name)
  | distinct (shown : s.distinct = true)
  | counted {t : Select} {src : Source} (stands : Below isOpen (.select t) (.projection p)) (reads : src ∈ t.source) (mem : s ∈ src.selects)
      (counts : ∃ d ∈ t.columns, (Node.expr d.expr).CountsRows)
  | first {q : Subquery} {f : Named} (stands : Below isOpen (.subquery q) (.projection p)) (takes : s ∈ (Node.subquery q).first?)
      (head : f ∈ s.columns.head?) (name : f.name = c.name)

theorem Projection.Arranged.dropUnused {p : Projection} (h : p.Arranged) : p.dropUnused.Arranged := by
  have opened {n x' : Node} {u : Usage} (below : Below isOpen x' (n.prune u).1) := below.origin (fun _ => id) fun n u => (n.kinds_prune u).1
  have made : Node.projection p.dropUnused = ((Node.projection p).prune Usage.empty).1 := rfl
  constructor
  · obtain ⟨-, fewer⟩ := declared_cases.holds (n := .projection p) (T := []) rfl h.distinct (fun _ _ => List.not_mem_nil) Usage.empty
    exact nodup_of_count_le h.distinct fewer
  · intro s' below q' inner
    rw [made] at below
    obtain ⟨x, w, stands, same⟩ := opened below
    cases x with
    | select s =>
      cases same
      obtain ⟨x, w, inner, same⟩ := opened (n := .select s) inner
      cases x with
      | projection q => exact h.projections s stands q inner
      | _ => cases same
    | _ => cases same
  · intro kind x distinct t below
    rw [made] at below
    obtain ⟨x, w, below, same⟩ := below.origin (fun _ => Node.isOpen_of_isClause) fun n u => (n.kinds_prune u).2
    cases x with
    | expr e =>
      cases e with
      | aggregate => exact h.aggregates _ _ _ _ below
      | _ => cases same
    | _ => cases same
  · intro e' s' below
    rw [made] at below
    obtain ⟨x, w, stands, same⟩ := opened below
    cases x with
    | subquery q =>
      cases q with
      | inSelect e s =>
        cases same
        exact Nat.le_trans (Node.length_prune s _) (h.lists e s stands)
      | _ => cases same
    | _ => cases same

/-- One run drops all columns that can go: a second one changes nothing, and each column that is left is needed. -/
theorem Projection.Arranged.dropUnused_exact {p : Projection} (h : p.Arranged) : p.dropUnused.dropUnused = p.dropUnused ∧
    ∀ s, Below isOpen (.select s) (.projection p.dropUnused) → ∀ c ∈ s.columns, p.dropUnused.Needed s c := by
  have settles := Node.settles (n := .projection p) rfl h.distinct Usage.empty
  have arranged := h.dropUnused
  have again : (Node.projection p.dropUnused).prune Usage.empty = (Node.projection p.dropUnused, (p.prune Usage.empty).2) := settles
  refine ⟨Node.projection.inj (congrArg Prod.fst again), ?_⟩
  generalize p.dropUnused = p' at arranged again
  -- a run knows of the columns that are referred to, and of first columns
  let known (a : Alias) (name : String) : Prop := (∃ r, Below isOpen (.expr (.column r)) (.projection p') ∧ r.label = a ∧ r.name = name) ∨
    ∃ q, Below isOpen (.subquery q) (.projection p') ∧ ∃ s ∈ (Node.subquery q).first?, ∃ c ∈ s.columns.head?, s.label = a ∧ c.name = name
  refine (Node.exact known p'.Needed rfl (fun m stands => ?_) _ _ again ?_ ?_).2.2
  · refine ⟨?_, ?_, ?_, ?_, ?_, ?_⟩
    · rintro c rfl
      exact .inl ⟨c, stands, rfl, rfl⟩
    · intro s takes c head
      cases m with
      | subquery q => exact .inr ⟨q, stands, s, takes, c, head, rfl, rfl⟩
      | _ => cases takes
    · rintro e s rfl
      exact arranged.lists e s stands
    · rintro s rfl
      exact arranged.projections s stands
    · rintro s rfl c mem ((⟨r, refers, label, name⟩ | ⟨q, takes, t, first, f, head, label, name⟩) | shown)
      · exact .referenced refers label name
      · have part : Node.select t ∈ (Node.subquery q).parts := by
          cases q <;> cases first <;> simp [Node.parts, Subquery.nodes]
        have stands' := Below.trans (.part rfl part .self) takes
        cases Node.eq_of_label (n := .projection p') rfl arranged.distinct stands stands' label.symm
        exact .first takes first head name
      · exact .distinct shown
    · rintro s rfl counts src reads t mem c -
      exact .counted stands reads mem counts
  · rintro a name ⟨⟩
  · refine .inr ⟨rfl, by rintro _ ⟨⟩, ?_⟩
    rintro ⟨distinct, t, counts⟩
    exact arranged.aggregates _ _ _ _ counts

/-- A kind, with a second column of the same name. -/
def anyKind : Select :=
  .plain ⟨1⟩ [⟨"kind", .column ⟨⟨0⟩, "kind", .i64⟩⟩, ⟨"kind", .column ⟨⟨0⟩, "number", .i64⟩⟩] (.table .table ⟨0⟩ "Item" "items")

def itemsWithKind : Select :=
  .plain ⟨3⟩ [⟨"number", .column ⟨⟨2⟩, "number", .i64⟩⟩, ⟨"kind", .subquery (.scalar anyKind .i64)⟩] (.table .table ⟨2⟩ "Item" "items")

/-- The number of items, beside a column that nothing reads. -/
def itemCount : Projection :=
  ⟨.plain ⟨4⟩ [⟨"rows", .aggregate .count none false .i64⟩, ⟨"one", .constant (.int 1) .i64⟩] (.select itemsWithKind),
    .column ⟨⟨4⟩, "rows", .i64⟩, none⟩

theorem arranged_itemCount : itemCount.Arranged := by
  let inner : List Node := [.select itemCount.select, .expr itemCount.projector, .source (.select itemsWithKind),
    .expr (.aggregate .count none false .i64),
    .expr (.constant (.int 1) .i64), .select itemsWithKind, .source (.table .table ⟨2⟩ "Item" "items"), .expr (.column ⟨⟨2⟩, "number", .i64⟩),
    .expr (.subquery (.scalar anyKind .i64)), .subquery (.scalar anyKind .i64), .select anyKind, .source (.table .table ⟨0⟩ "Item" "items"),
    .expr (.column ⟨⟨0⟩, "kind", .i64⟩), .expr (.column ⟨⟨0⟩, "number", .i64⟩)]
  have closed : ∀ m ∈ inner, ∀ p ∈ m.parts, p ∈ inner := by
    simp [inner, itemCount, itemsWithKind, anyKind, Select.plain, Node.parts, Expr.operands, Expr.nodes, Source.nodes, Subquery.nodes]
  have whole : ∀ m ∈ Node.projection itemCount :: inner, ∀ p ∈ m.parts, p ∈ Node.projection itemCount :: inner :=
    List.forall_mem_cons.2 ⟨by simp [inner, Node.parts], fun m mem p part => List.mem_cons_of_mem _ (closed m mem p part)⟩
  have outer : ∀ m ∈ [Node.projection itemCount, .select itemCount.select, .expr itemCount.projector], isClause m = true →
      ∀ p ∈ m.parts, p ∈ [Node.projection itemCount, .select itemCount.select, .expr itemCount.projector] := by
    simp [Node.parts, isClause, itemCount, Expr.operands, Expr.nodes]
  refine ⟨by decide, fun s stands q below => ?_, fun kind x distinct t below => ?_, fun e s stands => ?_⟩
  · have start := stands.mem (fun m mem _ => whole m mem) List.mem_cons_self
    have found := below.mem (fun m mem _ => closed m mem) ((List.mem_cons.1 start).resolve_left (by rintro ⟨⟩))
    simp [inner] at found
  · have found := below.mem outer List.mem_cons_self
    simp [itemCount] at found
  · have found := stands.mem (fun m mem _ => whole m mem) List.mem_cons_self
    simp [inner, itemCount] at found

theorem dropUnused_exact_itemCount : itemCount.Arranged ∧ itemCount.dropUnused.dropUnused = itemCount.dropUnused ∧
    ∀ s, Below isOpen (.select s) (.projection itemCount.dropUnused) → ∀ c ∈ s.columns, itemCount.dropUnused.Needed s c :=
  ⟨arranged_itemCount, arranged_itemCount.dropUnused_exact⟩

/-- Columns are known by name: the second column of `anyKind` is left with the first one, though nothing refers to it. -/
theorem dropUnused_anyKind : itemCount.Arranged ∧
    itemCount.dropUnused = ⟨.plain ⟨4⟩ [⟨"rows", .aggregate .count none false .i64⟩] (.select itemsWithKind), .column ⟨⟨4⟩, "rows", .i64⟩, none⟩ ∧
    ∀ c ∈ itemCount.dropUnused.collect columnRefs, c.label ≠ anyKind.label :=
  ⟨arranged_itemCount, rfl, by decide⟩

end Relational

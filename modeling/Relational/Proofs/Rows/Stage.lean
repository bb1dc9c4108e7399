import Relational.Proofs.Rows.Sorting
import Relational.Tree.Basic

/-!
# The stages of a select

What a select does with the rows of its source, whatever a row is: it filters them, puts them into groups, filters and
names what each group shows, removes repetitions, sorts and cuts. The stages look at rows only through
the functions that they are given, so two lists of rows that those functions cannot tell apart
have the same result (`Stage.Simulates.run_eq`).
-/

namespace Relational

variable {α β D : Type}

/-- How values are compared: equality for groups and repetitions, in which absent values are equal, and the order. -/
structure Comparison (D : Type) where
  equal : D → D → Bool
  le : D → D → Bool

/-- Equality of lists of values. -/
def Comparison.equalAll (c : Comparison D) : List D → List D → Bool
  | [], [] => true
  | a :: as, b :: bs => c.equal a b && c.equalAll as bs
  | _, _ => false

/-- Lists of values that count as equal are equal, if values are. -/
theorem Comparison.eq_of_equalAll {c : Comparison D} (equal : ∀ a b, c.equal a b = true → a = b) {as bs : List D}
    (h : c.equalAll as bs = true) : as = bs := by
  induction as generalizing bs with
  | nil =>
    cases bs with
    | nil => rfl
    | cons b bs => simp [equalAll] at h
  | cons a as ih =>
    cases bs with
    | nil => simp [equalAll] at h
    | cons b bs =>
      simp only [equalAll, Bool.and_eq_true] at h
      rw [equal a b h.1, ih h.2]

/-! ## Sort keys -/

/-- Sort keys with their directions; `true` is descending. -/
abbrev Criteria (α D : Type) := List ((α → D) × Bool)

/-- A comparison in one direction. -/
def directed (le : D → D → Bool) (descending : Bool) (a b : D) : Bool := if descending then le b a else le a b

/-- The comparison by keys: the first key decides, the next ones where it ties. -/
def inOrder (le : D → D → Bool) : Criteria α D → α → α → Bool
  | [] => fun _ _ => true
  | (key, descending) :: rest => thenBy (fun a b => directed le descending (key a) (key b)) (inOrder le rest)

theorem IsOrder.directed {le : D → D → Bool} (order : IsOrder le) (descending : Bool) :
    IsOrder (directed le descending) := by
  cases descending with
  | false => exact order
  | true => exact order.flip

theorem IsOrder.inOrder {le : D → D → Bool} (order : IsOrder le) :
    ∀ criteria : Criteria α D, IsOrder (inOrder le criteria)
  | [] => ⟨fun _ _ _ _ _ => rfl, fun _ _ => rfl⟩
  | (key, descending) :: rest => ((order.directed descending).comap key).thenBy (order.inOrder rest)

/-- Keys after others decide where those tie. -/
theorem inOrder_append (le : D → D → Bool) (ks ks' : Criteria α D) :
    inOrder le (ks ++ ks') = thenBy (inOrder le ks) (inOrder le ks') := by
  induction ks with
  | nil =>
    funext x y
    simp [inOrder, thenBy]
  | cons k ks ih => rw [List.cons_append, inOrder, inOrder, ih, thenBy_assoc]

theorem inOrder_singleton (le : D → D → Bool) (key : α → D) (descending : Bool) (x y : α) :
    inOrder le [(key, descending)] x y = directed le descending (key x) (key y) := by
  simp [inOrder, thenBy]

def Criteria.comap (f : β → α) (criteria : Criteria α D) : Criteria β D :=
  criteria.map fun k => (fun x => k.1 (f x), k.2)

theorem inOrder_comap (le : D → D → Bool) (f : β → α) (criteria : Criteria α D) (x y : β) :
    inOrder le (criteria.comap f) x y = inOrder le criteria (f x) (f y) := by
  induction criteria generalizing x y with
  | nil => rfl
  | cons k rest ih =>
    simp only [Criteria.comap, List.map_cons, inOrder, thenBy] at ih ⊢
    rw [ih]

/-! ## Arranging what is shown -/

def takeUpTo : Option Nat → List α → List α
  | none, l => l
  | some n, l => l.take n

theorem map_takeUpTo (f : α → β) (n : Option Nat) (l : List α) : (takeUpTo n l).map f = takeUpTo n (l.map f) := by
  cases n <;> simp [takeUpTo]

/-- Removal of repetitions, sorting and cutting. -/
structure Arrangement (α D : Type) where
  distinct : Bool
  values : α → List D
  order : Criteria α D
  offset : Nat
  limit : Option Nat

namespace Arrangement

variable (c : Comparison D)

/-- Whether the second element shows the same as the first one. -/
def repeats (a : Arrangement α D) (later earlier : α) : Bool := c.equalAll (a.values earlier) (a.values later)

def shown (a : Arrangement α D) (l : List α) : List α := if a.distinct then l.eraseDupsBy (a.repeats c) else l

def apply (a : Arrangement α D) (l : List α) : List α :=
  takeUpTo a.limit (((a.shown c l).mergeSort (inOrder c.le a.order)).drop a.offset)

def comap (f : β → α) (a : Arrangement α D) : Arrangement β D :=
  { a with values := fun x => a.values (f x), order := a.order.comap f }

theorem apply_map (f : β → α) (a : Arrangement α D) (l : List β) :
    a.apply c (l.map f) = ((a.comap f).apply c l).map f := by
  have shown : a.shown c (l.map f) = ((a.comap f).shown c l).map f := by
    obtain ⟨distinct, values, order, offset, limit⟩ := a
    cases distinct with
    | false => rfl
    | true => exact eraseDupsBy_map _ _ _
  have sorted : (((a.comap f).shown c l).map f).mergeSort (inOrder c.le a.order) =
      (((a.comap f).shown c l).mergeSort (inOrder c.le (a.comap f).order)).map f :=
    (List.map_mergeSort fun x _ y _ => inOrder_comap c.le f a.order x y).symm
  rw [apply, apply, map_takeUpTo, List.map_drop, shown, sorted]
  rfl

end Arrangement

/-! ## Groups -/

/-- For each row that no earlier one is the same as, the rows that are the same. -/
def groupRows (same : α → α → Bool) (rows : List α) : List (List α) :=
  (rows.eraseDupsBy fun later earlier => same earlier later).map fun row => rows.filter (same row)

theorem groupRows_map (same : α → α → Bool) (f : β → α) (rows : List β) :
    groupRows same (rows.map f) = (groupRows (fun x y => same (f x) (f y)) rows).map (List.map f) := by
  simp only [groupRows, eraseDupsBy_map, List.map_map, List.filter_map, Function.comp_def]

/-- How rows are put together: each one alone, all of them, or those with equal keys. -/
inductive Grouping (α D : Type) where
  | each
  | all
  | keyed (key : α → List D)

namespace Grouping

def groups (c : Comparison D) : Grouping α D → List α → List (List α)
  | each, rows => rows.map fun row => [row]
  | all, rows => [rows]
  | keyed key, rows => groupRows (fun a b => c.equalAll (key a) (key b)) rows

def comap (f : β → α) : Grouping α D → Grouping β D
  | each => each
  | all => all
  | keyed key => keyed fun x => key (f x)

theorem groups_map (c : Comparison D) (f : β → α) (g : Grouping α D) (rows : List β) :
    g.groups c (rows.map f) = ((g.comap f).groups c rows).map (List.map f) := by
  cases g with
  | each => simp [groups, comap]
  | all => simp [groups, comap]
  | keyed key => exact groupRows_map _ f rows

/-- Groupings that put related rows into related groups. -/
inductive Simulates (R : α → β → Prop) : Grouping α D → Grouping β D → Prop where
  | each : Simulates R each each
  | all : Simulates R all all
  | keyed {key : α → List D} {key' : β → List D} (same : ∀ a b, R a b → key a = key' b) :
    Simulates R (keyed key) (keyed key')

end Grouping

/-! ## Joins -/

/-- Each row with its partners; an outer join shows a row that has none beside absent values. -/
def joinRows (kind : JoinKind) (right : α → List α) (test : α → Bool) (absent : α → α) (left : List α) : List α :=
  left.flatMap fun row =>
    if kind = .outer ∧ (right row).filter test = [] then [absent row] else (right row).filter test

theorem joinRows_related {kind : JoinKind} {R S : α → β → Prop} {left : List α} {left' : List β}
    {right : α → List α} {right' : β → List β} {test : α → Bool} {test' : β → Bool} {absent : α → α} {absent' : β → β}
    (lefts : List.Forall₂ R left left') (rights : ∀ a b, R a b → List.Forall₂ S (right a) (right' b))
    (tests : ∀ a b, S a b → test a = test' b) (absents : ∀ a b, R a b → S (absent a) (absent' b)) :
    List.Forall₂ S (joinRows kind right test absent left) (joinRows kind right' test' absent' left') := by
  refine List.rel_flatMap lefts fun a b related => ?_
  have partners : List.Forall₂ S ((right a).filter test) ((right' b).filter test') :=
    List.rel_filter (fun x y h => by simp only [tests x y h]) (rights a b related)
  have none : (right a).filter test = [] ↔ (right' b).filter test' = [] := by
    constructor
    · intro none
      rw [none] at partners
      exact List.forall₂_nil_left_iff.1 partners
    · intro none
      rw [none] at partners
      exact List.forall₂_nil_right_iff.1 partners
  simp only [none]
  split
  · exact .cons (absents a b related) .nil
  · exact partners

/-! ## A whole select -/

/-- What a select does with rows. What it shows of a group it shows by name. -/
structure Stage (α D : Type) where
  filter : α → Bool
  grouping : Grouping α D
  having : List α → Bool
  columns : List α → List (String × D)
  order : Criteria (List α) D
  distinct : Bool
  offset : Nat
  limit : Option Nat

namespace Stage

variable (c : Comparison D)

def arrangement (s : Stage α D) : Arrangement (List α) D :=
  ⟨s.distinct, fun g => (s.columns g).map (·.2), s.order, s.offset, s.limit⟩

def run (s : Stage α D) (rows : List α) : List (List (String × D)) :=
  (s.arrangement.apply c ((s.grouping.groups c (rows.filter s.filter)).filter s.having)).map s.columns

def comap (f : β → α) (s : Stage α D) : Stage β D :=
  { s with
    filter := fun x => s.filter (f x)
    grouping := s.grouping.comap f
    having := fun g => s.having (g.map f)
    columns := fun g => s.columns (g.map f)
    order := s.order.comap (List.map f) }

theorem run_map (f : β → α) (s : Stage α D) (rows : List β) : s.run c (rows.map f) = (s.comap f).run c rows := by
  rw [run, List.filter_map, Grouping.groups_map, List.filter_map, Arrangement.apply_map, List.map_map]
  rfl

/-- Two stages cannot tell rows apart that are related. -/
structure Simulates (R : α → β → Prop) (s : Stage α D) (s' : Stage β D) : Prop where
  filter : ∀ a b, R a b → s.filter a = s'.filter b
  grouping : s.grouping.Simulates R s'.grouping
  having : ∀ g g', List.Forall₂ R g g' → s.having g = s'.having g'
  columns : ∀ g g', List.Forall₂ R g g' → s.columns g = s'.columns g'
  order : List.Forall₂ (fun k k' => (∀ g g', List.Forall₂ R g g' → k.1 g = k'.1 g') ∧ k.2 = k'.2) s.order s'.order
  distinct : s.distinct = s'.distinct
  offset : s.offset = s'.offset
  limit : s.limit = s'.limit

/-- Related lists are the two sides of one list of related pairs. -/
theorem exists_pairs {R : α → β → Prop} {l : List α} {l' : List β} (h : List.Forall₂ R l l') :
    ∃ pairs : List { p : α × β // R p.1 p.2 }, pairs.map (·.1.1) = l ∧ pairs.map (·.1.2) = l' := by
  induction h with
  | nil => exact ⟨[], rfl, rfl⟩
  | cons head _ ih =>
    obtain ⟨pairs, rfl, rfl⟩ := ih
    exact ⟨⟨(_, _), head⟩ :: pairs, rfl, rfl⟩

theorem forall₂_sides {R : α → β → Prop} (pairs : List { p : α × β // R p.1 p.2 }) :
    List.Forall₂ R (pairs.map (·.1.1)) (pairs.map (·.1.2)) := by
  induction pairs with
  | nil => exact .nil
  | cons p pairs ih => exact .cons p.2 ih

theorem Simulates.comap_eq {R : α → β → Prop} {s : Stage α D} {s' : Stage β D} (h : s.Simulates R s') :
    s.comap (fun p : { p : α × β // R p.1 p.2 } => p.1.1) = s'.comap fun p => p.1.2 := by
  have grouping : s.grouping.comap (fun p : { p : α × β // R p.1 p.2 } => p.1.1) =
      s'.grouping.comap fun p => p.1.2 := by
    have same := h.grouping
    generalize s.grouping = g at same
    generalize s'.grouping = g' at same
    cases same with
    | each => rfl
    | all => rfl
    | keyed same => exact congrArg Grouping.keyed (funext fun p => same _ _ p.2)
  have order : s.order.comap (List.map fun p : { p : α × β // R p.1 p.2 } => p.1.1) =
      s'.order.comap (List.map fun p => p.1.2) := by
    have all := h.order
    generalize s.order = ks at all
    generalize s'.order = ks' at all
    induction all with
    | nil => rfl
    | cons head _ ih =>
      simp only [Criteria.comap, List.map_cons, List.cons.injEq, Prod.mk.injEq] at ih ⊢
      exact ⟨⟨funext fun g => head.1 _ _ (forall₂_sides g), head.2⟩, ih⟩
  have filter : (fun p : { p : α × β // R p.1 p.2 } => s.filter p.1.1) = fun p => s'.filter p.1.2 :=
    funext fun p => h.filter _ _ p.2
  have having : (fun g : List { p : α × β // R p.1 p.2 } => s.having (g.map (·.1.1))) =
      fun g => s'.having (g.map (·.1.2)) := funext fun g => h.having _ _ (forall₂_sides g)
  have columns : (fun g : List { p : α × β // R p.1 p.2 } => s.columns (g.map (·.1.1))) =
      fun g => s'.columns (g.map (·.1.2)) := funext fun g => h.columns _ _ (forall₂_sides g)
  simp only [comap, filter, grouping, having, columns, order, h.distinct, h.offset, h.limit]

/-- Rows that the stages of a select cannot tell apart have the same result. -/
theorem Simulates.run_eq {R : α → β → Prop} {s : Stage α D} {s' : Stage β D} (h : s.Simulates R s')
    {rows : List α} {rows' : List β} (related : List.Forall₂ R rows rows') : s.run c rows = s'.run c rows' := by
  obtain ⟨pairs, rfl, rfl⟩ := exists_pairs related
  rw [run_map, run_map, h.comap_eq]

/-- A stage that shows nothing of its groups. -/
def bare (s : Stage α D) : Stage α D := { s with columns := fun _ => [] }

/-- What is shown of related groups is related, if repetitions are not looked for, or are the same. -/
theorem Simulates.run_related {R : α → β → Prop} {Q : List (String × D) → List (String × D) → Prop} {s : Stage α D} {s' : Stage β D}
    (h : s.bare.Simulates R s'.bare) (shows : ∀ g g', List.Forall₂ R g g' → Q (s.columns g) (s'.columns g'))
    (distinct : s.distinct = true → ∀ g g', List.Forall₂ R g g' → s.columns g = s'.columns g')
    {rows : List α} {rows' : List β} (related : List.Forall₂ R rows rows') : List.Forall₂ Q (s.run c rows) (s'.run c rows') := by
  obtain ⟨pairs, rfl, rfl⟩ := exists_pairs related
  rw [run_map, run_map]
  -- over pairs of related rows, the two stages are the same up to what they show
  have same := h.comap_eq
  generalize lefts : s.comap (fun p : { p : α × β // R p.1 p.2 } => p.1.1) = t
  generalize rights : s'.comap (fun p : { p : α × β // R p.1 p.2 } => p.1.2) = t'
  have bare : t.bare = t'.bare := by
    rw [← lefts, ← rights]
    exact same
  have columns (g : List { p : α × β // R p.1 p.2 }) : Q (t.columns g) (t'.columns g) := by
    rw [← lefts, ← rights]
    exact shows _ _ (forall₂_sides g)
  have groups : t.arrangement.apply c ((t.grouping.groups c (pairs.filter t.filter)).filter t.having) =
      t'.arrangement.apply c ((t'.grouping.groups c (pairs.filter t'.filter)).filter t'.having) := by
    cases repeats : s.distinct with
    | true =>
      have shown : t.columns = t'.columns := by
        rw [← lefts, ← rights]
        exact funext fun g => distinct repeats _ _ (forall₂_sides g)
      have eq : t = t' := by
        cases t
        cases t'
        simp only [Stage.bare, Stage.mk.injEq] at bare shown ⊢
        simp only [bare, shown, and_self]
      rw [eq]
    | false =>
      have plain : t.distinct = false := by rw [← lefts]; exact repeats
      cases t
      cases t'
      simp only [Stage.bare, Stage.mk.injEq] at bare plain
      obtain ⟨rfl, rfl, rfl, -, rfl, rfl, rfl, rfl⟩ := bare
      subst plain
      rfl
  rw [run, run, groups, List.forall₂_map_left_iff, List.forall₂_map_right_iff, List.forall₂_same]
  exact fun g _ => columns g

end Stage

end Relational

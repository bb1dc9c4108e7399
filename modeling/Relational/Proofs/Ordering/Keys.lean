import Relational.Projection.Columns
import Relational.Projection.Ordering
import Relational.Proofs.Compilation.Straight
import Relational.Proofs.Tree.Names

/-!
# Sort keys that move outward

A key that repeats an earlier column decides nothing, so it can go (`inOrder_prependKeys`). A select hands its keys on in terms of its
columns, and gets a column for each key that has none yet (`rebindKeys_rebound`).
-/

namespace Relational

/-! ## Repeated keys -/

section Repeated

variable {D : Type} {I : Interpretation D} {db : Database D}

/-- The first key decides where it does not tie. -/
theorem thenBy_congr {α : Type} {le le₁ le₂ : α → α → Bool} {a b : α} (same : tied le a b = true → le₁ a b = le₂ a b) :
    thenBy le le₁ a b = thenBy le le₂ a b := by
  unfold thenBy
  unfold tied at same
  cases forth : le a b <;> cases back : le b a <;> simp_all

theorem thenBy_of_tied {α : Type} {le le' : α → α → Bool} {a b : α} (tie : tied le a b = true) : thenBy le le' a b = le' a b := by
  unfold thenBy
  unfold tied at tie
  simp_all

theorem tied_directed (le : D → D → Bool) (descending : Bool) (a b : D) : tied (directed le descending) a b = tied le a b := by
  cases descending with
  | false => rfl
  | true => exact Bool.and_comm _ _

/-- Keys on columns in which two rows tie do not put them in order. -/
theorem inOrder_dropRepeated {seen : List (Alias × String)} {σ τ : Env D}
    (ties : ∀ c ∈ seen, tied I.le (σ c.1 c.2) (τ c.1 c.2) = true) (ks : List OrderKey) :
    inOrder I.le (rowKeys I db (dropRepeated seen ks)) σ τ = inOrder I.le (rowKeys I db ks) σ τ := by
  induction ks generalizing seen with
  | nil => rfl
  | cons k ks ih =>
    have next {seen' : List (Alias × String)} (more : tied (fun σ τ : Env D => directed I.le k.descending
        (k.expr.eval I db σ [σ]) (k.expr.eval I db τ [τ])) σ τ = true → ∀ c ∈ seen', tied I.le (σ c.1 c.2) (τ c.1 c.2) = true) :
        inOrder I.le (rowKeys I db (k :: dropRepeated seen' ks)) σ τ = inOrder I.le (rowKeys I db (k :: ks)) σ τ :=
      thenBy_congr fun tie => ih (more tie)
    rw [dropRepeated]
    split
    · next c column =>
      have key (σ : Env D) : k.expr.eval I db σ [σ] = σ c.label c.name := by rw [column, Expr.eval]
      split
      · next repeated =>
        have tie := ties (c.label, c.name) (List.contains_iff_mem.1 repeated)
        rw [ih ties]
        refine (thenBy_of_tied ?_).symm
        simp only [tied, key]
        exact (tied_directed I.le k.descending _ _).trans tie
      · refine next fun tie => List.forall_mem_cons.2 ⟨?_, ties⟩
        simp only [tied, key] at tie
        exact (tied_directed I.le k.descending _ _).symm.trans tie
    · exact next fun _ => ties

/-- Keys in front of others sort like all of them. -/
theorem inOrder_prependKeys (ks : List OrderKey) (gathered : Option (List OrderKey)) :
    inOrder I.le (rowKeys I db (prependKeys ks gathered)) = inOrder I.le (rowKeys I db (ks ++ gathered.getD [])) :=
  funext fun _ => funext fun _ => inOrder_dropRepeated (by simp) _

end Repeated

theorem mem_of_mem_dropRepeated {seen : List (Alias × String)} {ks : List OrderKey} {k : OrderKey} (mem : k ∈ dropRepeated seen ks) :
    k ∈ ks := by
  induction ks generalizing seen with
  | nil => exact mem
  | cons head ks ih =>
    rw [dropRepeated] at mem
    split at mem
    · split at mem
      · exact List.mem_cons_of_mem _ (ih mem)
      · exact (List.mem_cons.1 mem).elim (fun eq => eq ▸ List.mem_cons_self) fun mem => List.mem_cons_of_mem _ (ih mem)
    · exact (List.mem_cons.1 mem).elim (fun eq => eq ▸ List.mem_cons_self) fun mem => List.mem_cons_of_mem _ (ih mem)

theorem mem_of_mem_prependKeys {ks : List OrderKey} {gathered : Option (List OrderKey)} {k : OrderKey}
    (mem : k ∈ prependKeys ks gathered) : k ∈ ks ∨ ∃ more ∈ gathered, k ∈ more := by
  rcases List.mem_append.1 (mem_of_mem_dropRepeated mem) with mem | mem
  · exact .inl mem
  · cases gathered with
    | none => cases mem
    | some more => exact .inr ⟨more, rfl, mem⟩

/-- The keys of a select in front of those of its source. -/
def Select.gathered (s : Select) (fromSource : Option (List OrderKey)) : Option (List OrderKey) :=
  if s.orderBy.isEmpty then fromSource else some (prependKeys s.orderBy fromSource)

theorem Select.mem_gathered {s : Select} {handed : Option (List OrderKey)} {k : OrderKey} (mem : k ∈ (s.gathered handed).getD []) :
    k ∈ s.orderBy ∨ k ∈ handed.getD [] := by
  unfold gathered at mem
  split at mem
  · exact .inr mem
  · rcases mem_of_mem_prependKeys mem with own | ⟨more, rfl, fromSource⟩
    · exact .inl own
    · exact .inr fromSource

/-! ## Keys as columns -/

/-- A key on a column that is not of these sources. -/
def Expr.isOutside (declared : List Alias) : Expr → Bool
  | .column c => !declared.contains c.label
  | _ => false

/-- The column of a key among others: one that is there already, or a new one. -/
def keyColumn (columns : List Named) (e : Expr) : String × List Named :=
  match columns.find? (·.expr.sharesColumn e) with
  | some c => (c.name, columns)
  | none =>
    let base :=
      match e with
      | .column c => c.name
      | _ => "c" ++ Nat.repr columns.length
    (freshName (columns.map (·.name)) base, columns ++ [⟨freshName (columns.map (·.name)) base, e⟩])

/-- Whether a key is that of a column is decided as for the columns of a projector. -/
theorem same_or_isSame (c e : Expr) :
    (c.same e || match e, c with | .column a, .column b => a.isSame b | _, _ => false) = c.sharesColumn e := by
  unfold Expr.sharesColumn
  cases c <;> cases e <;> simp only [Bool.or_false]
  case column.column a b =>
    have same : (Expr.column a).same (.column b) = (a == b) := by simp [Expr.same]
    rw [same]
    by_cases eq : a = b
    · subst eq
      simp [ColumnRef.isSame]
    · simp only [ColumnRef.isSame, beq_eq_false_iff_ne.2 eq, Bool.false_or]
      rw [Bool.beq_comm (a := b.label), Bool.beq_comm (a := b.name)]

theorem rebindKeys_cons (label : Alias) (declared : List Alias) (columns : List Named) (k : OrderKey) (ks : List OrderKey) :
    rebindKeys label declared columns (k :: ks) =
      if k.expr.isOutside declared then rebindKeys label declared columns ks
      else
        let rest := rebindKeys label declared (keyColumn columns k.expr).2 ks
        (⟨.column ⟨label, (keyColumn columns k.expr).1, k.expr.ty⟩, k.descending⟩ :: rest.1, rest.2) := by
  obtain ⟨e, descending⟩ := k
  have raw : (fun c : Named => c.expr.same e || match e, c.expr with | .column a, .column b => a.isSame b | _, _ => false) =
      fun c => c.expr.sharesColumn e := funext fun c => same_or_isSame c.expr e
  unfold keyColumn
  rw [← raw, rebindKeys.eq_def]
  rfl

theorem keyColumn_cases (columns : List Named) (e : Expr) :
    (∃ c ∈ columns, c.expr.sharesColumn e = true ∧ keyColumn columns e = (c.name, columns)) ∨
      ∃ name, name ∉ columns.map (·.name) ∧ keyColumn columns e = (name, columns ++ [⟨name, e⟩]) := by
  unfold keyColumn
  split
  · next c found => exact .inl ⟨c, List.mem_of_find?_eq_some found, by simpa using List.find?_some found, rfl⟩
  · exact .inr ⟨_, freshName_not_mem _ _, rfl⟩

/-- A column for a key: it has the expression of the key, or one that can share a column with it. -/
def Named.IsKey (c : Named) (e : Expr) : Prop := c.expr = e ∨ c.expr.sharesColumn e = true

/-- What comes of keys in terms of the columns of a select: columns are only added, each for a key, and each key that is not outside is a
column. -/
structure Rebound (label : Alias) (declared : List Alias) (columns : List Named) (ks : List OrderKey)
    (r : List OrderKey × List Named) : Prop where
  grows : columns <+: r.2
  names : (columns.map (·.name)).Nodup → (r.2.map (·.name)).Nodup
  added : ∀ c ∈ r.2, c ∈ columns ∨ ∃ k ∈ ks, k.expr.isOutside declared = false ∧ c.expr = k.expr
  keys : List.Forall₂ (fun k k' => k'.descending = k.descending ∧
      ∃ c ∈ r.2, c.IsKey k.expr ∧ k'.expr = .column ⟨label, c.name, k.expr.ty⟩)
    (ks.filter (!·.expr.isOutside declared)) r.1

theorem rebindKeys_rebound (label : Alias) (declared : List Alias) (columns : List Named) (ks : List OrderKey) :
    Rebound label declared columns ks (rebindKeys label declared columns ks) := by
  induction ks generalizing columns with
  | nil => exact ⟨List.prefix_refl _, id, fun _ => .inl, .nil⟩
  | cons k ks ih =>
    rw [rebindKeys_cons]
    split
    · next outside =>
      have rest := ih columns
      refine ⟨rest.grows, rest.names, fun c mem => ?_, ?_⟩
      · refine (rest.added c mem).imp_right ?_
        rintro ⟨k, mem, more⟩
        exact ⟨k, List.mem_cons_of_mem _ mem, more⟩
      · rw [List.filter_cons_of_neg (by simpa using outside)]
        exact rest.keys
    · next inside =>
      have rest := ih (keyColumn columns k.expr).2
      have inside : k.expr.isOutside declared = false := by simpa using inside
      -- The column of the first key is there before the others are looked at, and stays.
      have first : columns <+: (keyColumn columns k.expr).2 ∧
          ((columns.map (·.name)).Nodup → ((keyColumn columns k.expr).2.map (·.name)).Nodup) ∧
          (∀ c ∈ (keyColumn columns k.expr).2, c ∈ columns ∨ c.expr = k.expr) ∧
          ∃ c ∈ (keyColumn columns k.expr).2, c.IsKey k.expr ∧ (keyColumn columns k.expr).1 = c.name := by
        rcases keyColumn_cases columns k.expr with ⟨c, mem, shares, made⟩ | ⟨name, free, made⟩ <;> rw [made]
        · exact ⟨List.prefix_refl _, id, fun _ => .inl, c, mem, .inr shares, rfl⟩
        · refine ⟨List.prefix_append _ _, fun nodup => ?_, fun c mem => ?_, ⟨name, k.expr⟩, by simp, .inl rfl, rfl⟩
          · rw [List.map_append, List.nodup_append]
            refine ⟨nodup, List.nodup_singleton _, fun x mem y mem' eq => ?_⟩
            rw [List.map_cons, List.map_nil, List.mem_singleton] at mem'
            rw [eq, mem'] at mem
            exact free mem
          · exact (List.mem_append.1 mem).imp_right fun mem => by rw [List.mem_singleton.1 mem]
      obtain ⟨grows, names, added, c, mem, isKey, named⟩ := first
      refine ⟨grows.trans rest.grows, rest.names ∘ names, fun d mem => ?_, ?_⟩
      · rcases rest.added d mem with mem | ⟨k', mem, more⟩
        · exact (added d mem).imp_right fun eq => ⟨k, List.mem_cons_self, inside, eq⟩
        · exact .inr ⟨k', List.mem_cons_of_mem _ mem, more⟩
      · rw [List.filter_cons_of_pos (by simpa using inside)]
        exact .cons ⟨rfl, c, rest.grows.subset mem, isKey, by rw [named]⟩ rest.keys

/-- Keys in terms of columns sort the rows that show these columns like the keys themselves. -/
theorem inOrder_rebound {D : Type} {I : Interpretation D} {db : Database D} {label : Alias} {declared : List Alias}
    {columns : List Named} {ks : List OrderKey} {r : List OrderKey × List Named} (rebound : Rebound label declared columns ks r)
    (inside : ∀ k ∈ ks, k.expr.isOutside declared = false) {shown : Env D → Env D}
    (shows : ∀ k ∈ ks, ∀ c ∈ r.2, c.IsKey k.expr → ∀ σ, shown σ label c.name = k.expr.eval I db σ [σ]) (σ τ : Env D) :
    inOrder I.le (rowKeys I db r.1) (shown σ) (shown τ) = inOrder I.le (rowKeys I db ks) σ τ := by
  have keys := rebound.keys
  rw [List.filter_eq_self.2 fun k mem => by simpa using inside k mem] at keys
  have both := (List.forall₂_and_left ks r.1).2 ⟨shows, keys⟩
  clear shows keys inside rebound
  generalize r.1 = ks' at both
  induction both with
  | nil => rfl
  | @cons k k' ks ks' head _ ih =>
    obtain ⟨shows, descending, c, mem, isKey, column⟩ := head
    have key (σ : Env D) : k'.expr.eval I db (shown σ) [shown σ] = k.expr.eval I db σ [σ] := by
      rw [column, Expr.eval]
      exact shows c mem isKey σ
    simp only [rowKeys, List.map_cons, inOrder, thenBy, key, descending] at ih ⊢
    rw [ih]

/-! ## The parts of a tree -/

section Parts

variable (outermost : Bool)

@[simp] theorem orderAll_eq (es : List Expr) : orderAll outermost es = es.map (Expr.order outermost) := by
  induction es with
  | nil => rfl
  | cons e es ih => rw [orderAll, ih, List.map_cons]

@[simp] theorem orderOption_eq (o : Option Expr) : orderOption outermost o = o.map (Expr.order outermost) := by
  cases o <;> rfl

@[simp] theorem orderNamed_eq (ms : List Named) : orderNamed outermost ms = ms.map (Named.mapExpr (Expr.order outermost)) := by
  induction ms with
  | nil => rfl
  | cons m ms ih => cases m; rw [orderNamed, ih, List.map_cons]; rfl

@[simp] theorem orderOrderKeys_eq (ks : List OrderKey) :
    orderOrderKeys outermost ks = ks.map (OrderKey.mapExpr (Expr.order outermost)) := by
  induction ks with
  | nil => rfl
  | cons k ks ih => cases k; rw [orderOrderKeys, ih, List.map_cons]; rfl

theorem Expr.order_operator {e : Expr} (op : e.isOperator = true) :
    e.order outermost = e.mapOperands (Expr.order outermost) := by
  cases e <;> simp [isOperator] at op <;> simp [order, mapOperands]

theorem Select.order_eq (isSubquery : Bool) (s : Select) :
    s.order outermost isSubquery =
      (s.mapParts (Expr.order false) fun src => src.order.1).placeOrdering outermost isSubquery (orderSource s.source).2 := by
  obtain ⟨a, columns, source, filter, groupBy, having, orderBy, offset, limit, distinct⟩ := s
  cases source <;>
    simp [order, mapParts, orderSource]

end Parts

end Relational

import Relational.Proofs.Compilation.Folding
import Relational.Query.Binding

/-!
# What equalities and members are bound to

Records are compared member by member, and members of records and of conditionals are taken out of them. Whatever is to be shown of the
outcome is shown once for each way it can come about (`EqualityCases.yields`, `MemberCases.yields`).
-/

namespace Relational

def Error.isAliasFault : Error → Bool
  | .aliasResolution _ => true
  | _ => false

def Result.isAliasFault {α : Type} : Result α → Bool
  | .error e => e.isAliasFault
  | .ok _ => false

theorem Result.resolves_iff {α : Type} {x : Result α} : x.Resolves ↔ x.isAliasFault = false := by
  cases x with
  | ok a => exact iff_of_true (.ok a) rfl
  | error e => cases e <;> simp [Resolves, isAliasFault, Error.isAliasFault]

/-- What a computation gives has a property. If it gives nothing, that is for no fault of an alias. -/
structure Result.Yields {α : Type} (P : α → Prop) (x : Result α) : Prop where
  ok : ∀ a, x = .ok a → P a
  resolves : x.Resolves

namespace Result.Yields

variable {α β : Type} {P : α → Prop} {Q : β → Prop} {x : Result α}

theorem given {a : α} (h : P a) : Yields P (.ok a) := ⟨by rintro _ ⟨⟩; exact h, .ok a⟩

theorem error {e : Error} (other : e.isAliasFault = false) : Yields P (.error e) :=
  ⟨by rintro _ ⟨⟩, resolves_iff.2 other⟩

theorem imp {P' : α → Prop} (h : x.Yields P) (imp : ∀ a, P a → P' a) : x.Yields P' := ⟨fun a given => imp a (h.ok a given), h.resolves⟩

theorem bind {f : α → Result β} (h : x.Yields P) (next : ∀ a, P a → (f a).Yields Q) : (x >>= f).Yields Q := by
  cases x with
  | ok a => exact next a (h.ok a rfl)
  | error e =>
    refine ⟨by rintro _ ⟨⟩, ?_⟩
    rintro fault ⟨⟩
    exact h.resolves fault rfl

theorem map {f : α → β} (h : x.Yields P) (next : ∀ a, P a → Q (f a)) : Yields Q (x.map f) := by
  cases x with
  | ok a => exact given (next a (h.ok a rfl))
  | error e =>
    refine ⟨by rintro _ ⟨⟩, ?_⟩
    rintro fault ⟨⟩
    exact h.resolves fault rfl

end Result.Yields

namespace Binding

/-! ## Equalities -/

/-- Members that are compared one by one. -/
inductive Compared (M : Expr → Expr → Expr → Prop) : List Named → List Named → List Expr → Prop where
  | nil : Compared M [] [] []
  | cons {name name' : String} {l r part : Expr} {ms ms' : List Named} {parts : List Expr} (head : M l r part) (tail : Compared M ms ms' parts) :
    Compared M (⟨name, l⟩ :: ms) (⟨name', r⟩ :: ms') (part :: parts)

/-- What to show of the equality of two expressions: that they are compared as a whole, unless both are records. -/
structure EqualityCases (M : Expr → Expr → Expr → Prop) : Prop where
  whole : ∀ {l r : Expr}, ((∀ t ms, l ≠ .record t ms) ∨ ∀ t ms, r ≠ .record t ms) → M l r (.binary .eq l r)
  members : ∀ {t ms t' ms' parts}, Compared M ms ms' parts → M (.record t ms) (.record t' ms') ((Expr.conjunction parts).getD (.ofBool true))

variable {M : Expr → Expr → Expr → Prop}

theorem memberEqualities_yields {ms ms' : List Named} (each : ∀ m ∈ ms, ∀ r, (equality m.expr r).Yields (M m.expr r))
    (length : ms.length = ms'.length) : (memberEqualities ms ms').Yields (Compared M ms ms') := by
  induction ms generalizing ms' with
  | nil =>
    cases List.length_eq_zero_iff.1 length.symm
    exact .given .nil
  | cons m ms ih =>
    cases ms' with
    | nil => cases length
    | cons m' ms' =>
      cases m
      cases m'
      rw [List.forall_mem_cons] at each
      rw [memberEqualities]
      exact (each.1 _).bind fun part head => (ih each.2 (Nat.succ.inj length)).bind fun parts tail => .given (.cons head tail)

theorem EqualityCases.yields (cases : EqualityCases M) (l r : Expr) : (equality l r).Yields (M l r) := by
  induction l using Expr.induction generalizing r with
  | operator l operates ih =>
    cases l <;> simp only [Expr.isOperator, Bool.false_eq_true] at operates
    case record t ms =>
      cases r
      case record t' ms' =>
        rw [equality]
        split
        · exact .error rfl
        · next length => exact (memberEqualities_yields (List.forall_mem_map.1 ih) (by simpa using length)).map fun _ => cases.members
      all_goals exact .given (cases.whole (.inr (by rintro _ _ ⟨⟩)))
    all_goals exact .given (cases.whole (.inl (by rintro _ _ ⟨⟩)))
  | _ => exact .given (cases.whole (.inl (by rintro _ _ ⟨⟩)))

theorem equality_resolves (l r : Expr) : (equality l r).Yields fun _ => True :=
  EqualityCases.yields (M := fun _ _ _ => True) ⟨fun _ => trivial, fun _ => trivial⟩ l r

theorem EqualityCases.operator (cases : EqualityCases M) {op : BinaryOp} {l r : Expr} {P : Expr → Prop}
    (eq : op = .eq → ∀ e, M l r e → P e) (ne : op = .ne → ∀ e, M l r e → P e.not) (binary : P (.binary op l r)) :
    (operator op l r).Yields P := by
  unfold Binding.operator
  split
  · exact (cases.yields l r).imp (eq rfl)
  · exact (cases.yields _ _).map (ne rfl)
  · exact .given binary

/-! ## Members -/

/-- What to show of a member: it is taken out of a record, out of both branches of a conditional, or off a group; or it tells whether there
is a value, is the value, or stays a member. -/
structure MemberCases (name : String) (M : Expr → Expr → Prop) : Prop where
  record : ∀ {r ms m}, ms.find? (·.name == name) = some m → M (.record r ms) m.expr
  known : ∀ {n fields t v}, Value.lookup? fields name = some v →
    M (.constant (.record n fields) t) (.constant v ((t.member? name).getD v.naturalTy))
  conditional : ∀ {test yes no yes' no' : Expr}, M yes yes' → M no no' → M (.conditional test yes no) (.conditional test yes' no')
  key : ∀ {key elements}, name = "Key" → M (.group key elements) key
  hasValue : ∀ {x : Expr}, name = "HasValue" → M x (.binary .ne x (.constant .null x.ty))
  value : ∀ {x : Expr}, name = "Value" → M x x
  own : ∀ {x : Expr}, M x (.member x name)

variable {name : String} {M : Expr → Expr → Prop}

theorem MemberCases.scalarMember_yields (cases : MemberCases name M) (x : Expr) : (member.scalarMember name x).Yields (M x) := by
  unfold member.scalarMember
  dsimp only
  split
  · next has => exact .given (cases.hasValue (eq_of_beq (Bool.and_eq_true_iff.1 has).2))
  split
  · next has => exact .given (cases.value (eq_of_beq (Bool.and_eq_true_iff.1 has).2))
  split
  · exact .given cases.own
  · exact .error rfl

theorem MemberCases.yields (cases : MemberCases name M) (x : Expr) : (member name x).Yields (M x) := by
  induction x using Expr.induction with
  | operator x operates ih =>
    cases x <;> simp only [Expr.isOperator, Bool.false_eq_true] at operates
    case record r ms =>
      rw [member]
      split
      · next found => exact .given (cases.record found)
      · exact .error rfl
    case conditional test yes no =>
      simp only [Expr.operands, List.forall_mem_cons] at ih
      rw [member]
      split
      · exact cases.scalarMember_yields _
      · exact ih.2.1.bind fun _ yes => ih.2.2.1.bind fun _ no => .given (cases.conditional yes no)
    case group key elements =>
      rw [member]
      split
      · next own => exact .given (cases.key (eq_of_beq own))
      · exact cases.scalarMember_yields _
    all_goals exact cases.scalarMember_yields _
  | constant v t =>
    cases v
    case record n fields =>
      rw [member]
      split
      · next found => exact .given (cases.known found)
      · exact .error rfl
    all_goals exact cases.scalarMember_yields _
  | _ => exact cases.scalarMember_yields _

end Binding

end Relational

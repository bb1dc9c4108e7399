import Relational.Proofs.Compilation.Folding
import Relational.Query.Parameters

/-!
# Vocabularies

The literals and names that a query uses. In a clear vocabulary no two literals are the same without being equal, as `1.0` and `1.00`
are, and the members `Value` and `HasValue`, which every value has, are not fields of records as
well. A query keeps to its vocabulary when its literals become parameters.
-/

namespace Relational

structure Vocabulary where
  scalar : Value → Prop
  /-- The names of the fields of records. -/
  field : String → Prop
  /-- The names that are taken as members. -/
  member : String → Prop

variable {V : Vocabulary}

mutual

/-- A scalar of the vocabulary, or a record of such values. -/
def Value.In (V : Vocabulary) : Value → Prop
  | .record _ fs => fieldsIn V fs
  | .list _ | .group _ _ => False
  | v => V.scalar v

def fieldsIn (V : Vocabulary) : List (String × Value) → Prop
  | [] => True
  | (name, v) :: fs => V.field name ∧ v.In V ∧ fieldsIn V fs

end

theorem fieldsIn_iff {fs : List (String × Value)} : fieldsIn V fs ↔ ∀ f ∈ fs, V.field f.1 ∧ f.2.In V := by
  induction fs with
  | nil => simp [fieldsIn]
  | cons f fs ih =>
    obtain ⟨name, v⟩ := f
    simp only [fieldsIn, ih, List.forall_mem_cons, and_assoc]

/-- A value that is the same only as itself. -/
def Value.isPlain : Value → Bool
  | .null | .bool _ | .int _ => true
  | _ => false

/-- Whether the names at a node are in the vocabulary. -/
def Expr.SpokenIn (V : Vocabulary) : Expr → Prop
  | .member _ name => V.member name
  | .record _ ms => ∀ m ∈ ms, V.field m.name
  | _ => True

namespace Vocabulary

structure Clear (V : Vocabulary) : Prop where
  literals : ∀ v v', V.scalar v → V.scalar v' → v.same v' = true → v = v'
  apart : ∀ name, V.member name → V.field name → name ≠ "Value" ∧ name ≠ "HasValue"

/-- An operator on scalars whose names are in the vocabulary. -/
def operator (V : Vocabulary) (e : Expr) : Prop := e.isScalarOperator = true ∧ e.SpokenIn V

/-- Linear queries in a vocabulary. The columns of the table are fields as well. -/
def grammar (V : Vocabulary) (catalog : Catalog) : Grammar where
  literal v _ := v.In V
  operator := V.operator
  entity entity := ∀ schema, catalog.get entity = .ok schema → ∀ c ∈ schema.stored, V.field c.name

/-- The literals of a compiled query: those of the vocabulary, numbers of rows, and what the members of absent values and of
records without fields are compiled to. -/
def literal (V : Vocabulary) (v : Value) (_ : Ty) : Prop := v.In V ∨ v.isPlain = true

end Vocabulary

/-! ## Literals that are the same -/

theorem Value.isScalar_of_same {v v' : Value} (h : v.same v' = true) : v'.isScalar = v.isScalar := by
  cases v <;> cases v' <;> simp [Value.same, Value.isScalar] at h ⊢

theorem Value.in_of_isScalar {v : Value} (h : v.isScalar = true) : v.In V ↔ V.scalar v := by
  cases v <;> simp [Value.isScalar] at h <;> rfl

mutual

theorem Value.eq_of_same (clear : V.Clear) : ∀ {v v' : Value}, v.In V → v'.In V → v.same v' = true → v = v'
  | .record n fs, v', hv, hv', h => by
    cases v' with
    | record n' fs' =>
      simp only [Value.same, Bool.and_eq_true, beq_iff_eq] at h
      rw [h.1, eq_of_sameFields clear hv hv' h.2]
    | _ => simp [Value.same] at h
  | .list _, _, hv, _, _ => hv.elim
  | .group _ _, _, hv, _, _ => hv.elim
  | .null, v', hv, hv', h | .bool _, v', hv, hv', h | .int _, v', hv, hv', h | .float _, v', hv, hv', h
  | .decimal _, v', hv, hv', h | .text _, v', hv, hv', h | .char _, v', hv, hv', h | .blob _, v', hv, hv', h
  | .timestamp _, v', hv, hv', h | .duration _, v', hv, hv', h | .uuid _, v', hv, hv', h | .enum _, v', hv, hv', h => by
    have scalar : v'.isScalar = true := Value.isScalar_of_same h
    exact clear.literals _ _ hv ((Value.in_of_isScalar scalar).1 hv') h

theorem eq_of_sameFields (clear : V.Clear) : ∀ {fs fs' : List (String × Value)}, fieldsIn V fs → fieldsIn V fs' →
    Value.sameFields fs fs' = true → fs = fs'
  | [], fs', _, _, h => by
    cases fs' with
    | nil => rfl
    | cons f fs' => simp [Value.sameFields] at h
  | (n, v) :: fs, fs', hv, hv', h => by
    cases fs' with
    | nil => simp [Value.sameFields] at h
    | cons f fs' =>
      obtain ⟨n', v'⟩ := f
      simp only [Value.sameFields, Bool.and_eq_true, beq_iff_eq] at h
      rw [h.1.1, Value.eq_of_same clear hv.2.1 hv'.2.1 h.1.2, eq_of_sameFields clear hv.2.2 hv'.2.2 h.2]

end

theorem Value.eq_of_isPlain {v v' : Value} (plain : v.isPlain = true) (h : v.same v' = true) : v' = v := by
  cases v <;> simp [isPlain] at plain <;> cases v' <;> simp [Value.same] at h <;> simp [h]

theorem Value.eq_of_isPlain_right {v v' : Value} (plain : v'.isPlain = true) (h : v.same v' = true) : v' = v := by
  cases v' <;> simp [isPlain] at plain <;> cases v <;> simp [Value.same] at h <;> simp [h]

/-- Literals of a compiled query that are the same are equal. -/
theorem Vocabulary.Clear.literal_eq (clear : V.Clear) {v v' : Value} {t : Ty} (hv : V.literal v t) (hv' : V.literal v' t)
    (h : v.same v' = true) : v' = v := by
  rcases hv with hv | plain
  · rcases hv' with hv' | plain
    · exact (Value.eq_of_same clear hv hv' h).symm
    · exact Value.eq_of_isPlain_right plain h
  · exact Value.eq_of_isPlain plain h

/-! ## Parameters -/

section Parameters

variable {D : Type} {I : Interpretation D} {db : Database D} {catalog : Catalog}

theorem Expr.parameter?_operator {e : Expr} (op : e.isOperator = true) : e.parameter? = none := by
  cases e <;> simp [isOperator] at op <;> rfl

/-- A literal becomes a parameter, or stays. -/
theorem Expr.parameterize_leaf {G : Grammar} {e : Expr} (leaf : G.leaf e) :
    e.parameterize = e ∨ ∃ v t, e = .constant v t ∧ e.parameterize = .hostParameter v t := by
  cases e <;> simp only [Grammar.leaf] at leaf
  case constant v t =>
    cases fits : !v.isNull && t.isColumn with
    | true =>
      have given : parameterizing.expr (.constant v t) = some (.hostParameter v t) := by
        simp only [parameterizing, parameter?, fits, if_true]
      exact .inr ⟨v, t, rfl, substitute_given given⟩
    | false =>
      have kept : parameterizing.expr (.constant v t) = none := by
        simp [parameterizing, parameter?, fits]
      exact .inl (by rw [parameterize, substitute, kept])
  all_goals exact .inl rfl

theorem Expr.eval_parameterize {G : Grammar} {e : Expr} (built : e.Built G.leaf G.operator) (ρ : Env D) (g : List (Env D)) :
    e.parameterize.eval I db ρ g = e.eval I db ρ g := by
  induction built with
  | leaf leaf =>
    rcases parameterize_leaf leaf with same | ⟨v, t, rfl, eq⟩
    · rw [same]
    · rw [eq]
      rfl
  | operator op _ _ ih =>
    rw [parameterize, substitute_operator op (parameter?_operator op)]
    exact eval_mapOperands I db op ih

theorem Expr.parameterize_count {e : Expr} (count : e.count?.isSome = true) : e.parameterize.count? = e.count? := by
  unfold count? at count
  split at count
  · next n t =>
    rw [parameterize, substitute]
    cases fits : t.isColumn <;> simp [parameterizing, parameter?, fits, Value.isNull, count?]
  · rfl
  · cases count

theorem Query.run_parameterize {G : Grammar} {q : Query} (linear : q.Linear G) :
    q.parameterize.run I db catalog = q.run I db catalog :=
  (run_substitute (fun _ built _ ρ g => Expr.eval_parameterize built ρ g) (fun _ => Expr.parameterize_count) linear).1

/-- What a vocabulary asks of an operator does not depend on its operands. -/
theorem Vocabulary.operator_withOperands {e : Expr} (h : V.operator e) (es : List Expr) : V.operator (e.withOperands es) := by
  obtain ⟨scalar, spoken⟩ := h
  unfold Expr.withOperands
  split
  case h_4 m _ _ _ _ => cases m <;> exact ⟨scalar, spoken⟩
  case h_6 r ms es =>
    refine ⟨scalar, List.forall_mem_map.2 fun m mem => ?_⟩
    exact spoken m.1 (List.of_mem_zip mem).1
  all_goals exact ⟨scalar, spoken⟩

theorem Query.Linear.parameterize {q : Query} (linear : q.Linear (V.grammar catalog)) :
    q.parameterize.Linear (V.grammar catalog) := by
  refine linear.substitute (fun _ h => h) (fun e built => ?_) fun e => Expr.parameterize_count
  induction built with
  | leaf leaf =>
    refine .leaf ?_
    rw [← Expr.parameterize]
    rcases Expr.parameterize_leaf leaf with same | ⟨v, t, rfl, eq⟩
    · rwa [same]
    · rwa [eq]
  | @operator e op node _ ih =>
    rw [Expr.substitute_operator op (Expr.parameter?_operator op)]
    refine .operator (by simpa using op) (e.mapOperands_eq _ ▸ V.operator_withOperands node _) ?_
    rw [Expr.operands_mapOperands]
    exact List.forall_mem_map.2 ih

end Parameters

end Relational

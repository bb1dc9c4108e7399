import Relational.Proofs.Rows.Congruence
import Relational.Tree.Same

/-!
# Expressions that are the same

Expressions that `Expr.same` cannot tell apart have the same value everywhere, as long as literals of one type do that it cannot
tell apart.
-/

namespace Relational

def Node.Same : Node → Node → Prop
  | expr e, expr e' => e.same e' = true
  | subquery q, subquery q' => q.same q' = true
  | source src, source src' => src.same src' = true
  | select s, select s' => s.same s' = true
  | projection p, projection p' => p.same p' = true
  | _, _ => False

section Lists

theorem sameAll_related {es es' : List Expr} (h : sameAll es es' = true) :
    es'.map (fun _ => (default : Expr)) = es.map (fun _ => default) ∧ List.Forall₂ Node.Same (es.map .expr) (es'.map .expr) := by
  induction es generalizing es' with
  | nil => cases es' <;> simp_all [sameAll]
  | cons e es ih =>
    cases es' with
    | nil => simp [sameAll] at h
    | cons e' es' =>
      simp only [sameAll, Bool.and_eq_true] at h
      simp [ih h.2, Node.Same, h.1]

theorem sameOption_related {o o' : Option Expr} (h : sameOption o o' = true) :
    o'.map (fun _ => (default : Expr)) = o.map (fun _ => default) ∧ List.Forall₂ Node.Same (o.toList.map .expr) (o'.toList.map .expr) := by
  cases o <;> cases o' <;> simp_all [sameOption, Node.Same]

theorem sameSource_related {o o' : Option Source} (h : sameSource o o' = true) :
    o'.map (fun _ => blankSource) = o.map (fun _ => blankSource) ∧ List.Forall₂ Node.Same (o.toList.map .source) (o'.toList.map .source) := by
  cases o <;> cases o' <;> simp_all [sameSource, Node.Same]

theorem sameNamed_related {ms ms' : List Named} (h : sameNamed ms ms' = true) :
    ms'.map (Named.mapExpr fun _ => default) = ms.map (Named.mapExpr fun _ => default) ∧
      List.Forall₂ Node.Same (ms.map (.expr ·.expr)) (ms'.map (.expr ·.expr)) := by
  induction ms generalizing ms' with
  | nil => cases ms' <;> simp_all [sameNamed]
  | cons m ms ih =>
    cases m
    cases ms' with
    | nil => simp [sameNamed] at h
    | cons m' ms' =>
      cases m'
      simp only [sameNamed, Bool.and_eq_true, beq_iff_eq] at h
      simp [h.1.1, ih h.2, Node.Same, h.1.2, Named.mapExpr]

theorem sameKeys_related {ks ks' : List OrderKey} (h : sameKeys ks ks' = true) :
    ks'.map (OrderKey.mapExpr fun _ => default) = ks.map (OrderKey.mapExpr fun _ => default) ∧
      List.Forall₂ Node.Same (ks.map (.expr ·.expr)) (ks'.map (.expr ·.expr)) := by
  induction ks generalizing ks' with
  | nil => cases ks' <;> simp_all [sameKeys]
  | cons k ks ih =>
    cases k
    cases ks' with
    | nil => simp [sameKeys] at h
    | cons k' ks' =>
      cases k'
      simp only [sameKeys, Bool.and_eq_true, beq_iff_eq] at h
      simp [h.1.1, ih h.2, Node.Same, h.1.2, OrderKey.mapExpr]

end Lists

variable {D : Type} {I : Interpretation D} {db : Database D} {lit : Value → Ty → Prop}

namespace Node.Same

variable (literals : ∀ v v' t, lit v t → lit v' t → v.same v' = true → I.constant v' t = I.constant v t) {n n' : Node}

include literals

/-- Nodes that are the same are of one shape, and so are their parts; literals have the same value. -/
theorem related (bound : n.isBound = true) (other : ∀ q, n ≠ expr (.query q)) (allowed : n.Allowed lit) (allowed' : n'.Allowed lit)
    (h : n.Same n') : Related Same n n' ∨ n.Alike I db Eq Eq n' := by
  cases n <;> simp only [isBound, Bool.false_eq_true] at bound <;> cases n' <;> first | exact h.elim | skip
  case expr e e' =>
    cases e <;> cases e' <;> simp only [Same, Expr.same, Bool.and_eq_true, beq_iff_eq, Bool.false_eq_true] at h
    case query => exact absurd rfl (other _)
    case call.call m x args m' x' args' =>
      obtain ⟨shape, parts⟩ := sameAll_related h.2
      refine .inl ⟨?_, ?_⟩ <;> simp_all [Node.shape, Expr.shape, Expr.mapOperands, Node.parts, Expr.operands, Expr.nodes, Same]
    case function.function name args t name' args' t' =>
      obtain ⟨shape, parts⟩ := sameAll_related h.1.2
      refine .inl ⟨?_, ?_⟩ <;> simp_all [Node.shape, Expr.shape, Expr.mapOperands, Node.parts, Expr.operands, Expr.nodes]
    case record.record r ms r' ms' =>
      obtain ⟨shape, parts⟩ := sameNamed_related h.2
      refine .inl ⟨?_, ?_⟩ <;> simp_all [Node.shape, Expr.shape, Expr.mapOperands, Node.parts, Expr.operands, Expr.nodes, Function.comp_def]
    case aggregate.aggregate kind x distinct t kind' x' distinct' t' =>
      obtain ⟨shape, parts⟩ := sameOption_related h.1.1.2
      refine .inl ⟨?_, ?_⟩ <;> simp_all [Node.shape, Expr.shape, Node.parts, Expr.operands, Expr.nodes]
    all_goals first
      | (refine .inl ⟨?_, ?_⟩ <;> simp_all [Node.shape, Expr.shape, Expr.mapOperands, Node.parts, Expr.operands, Expr.nodes, Same]; done)
      | (obtain ⟨⟨-, same⟩, rfl⟩ := h; exact .inr ⟨rfl, fun _ _ => literals _ _ _ allowed allowed' same⟩)
      | (obtain ⟨same, rfl⟩ := h; exact .inr ⟨rfl, fun _ _ => literals _ _ _ allowed allowed' same⟩)
  case subquery q q' =>
    cases q <;> cases q' <;> simp only [Same, Subquery.same, Bool.and_eq_true, beq_iff_eq, Bool.false_eq_true] at h
    case inValues =>
      obtain ⟨shape, parts⟩ := sameAll_related h.2
      exact .inl ⟨congrArg (fun vs => subquery (.inValues default vs)) shape, .cons h.1 parts⟩
    all_goals refine .inl ⟨?_, ?_⟩ <;> simp_all [Node.shape, Subquery.shape, Node.parts, Subquery.nodes, Same]
  case source src src' =>
    cases src <;> cases src' <;> simp only [Same, Source.same, Bool.and_eq_true, beq_iff_eq, Bool.false_eq_true] at h
    case join =>
      obtain ⟨⟨⟨rfl, left⟩, right⟩, test⟩ := h
      obtain ⟨shape, parts⟩ := sameOption_related test
      exact .inl ⟨congrArg (fun c => source (.join _ blankSource blankSource c)) shape, .cons left (.cons right parts)⟩
    all_goals refine .inl ⟨?_, ?_⟩ <;> simp_all [Node.shape, Source.shape, Node.parts, Source.nodes, Same]
  case select s s' =>
    cases s
    cases s'
    simp only [Same, Select.same, Bool.and_eq_true, beq_iff_eq, and_assoc] at h
    obtain ⟨rfl, columns, source, filter, groupBy, having, orderBy, offset, limit, rfl⟩ := h
    have columns := sameNamed_related columns
    have source := sameSource_related source
    have filter := sameOption_related filter
    have groupBy := sameAll_related groupBy
    have having := sameOption_related having
    have orderBy := sameKeys_related orderBy
    have offset := sameOption_related offset
    have limit := sameOption_related limit
    refine .inl ⟨?_, ?_⟩
    · simp only [Node.shape, Select.mapParts, columns.1, source.1, filter.1, groupBy.1, having.1, orderBy.1, offset.1, limit.1]
    · exact List.rel_append source.2 (List.rel_append filter.2 (List.rel_append columns.2 (List.rel_append groupBy.2 (List.rel_append having.2
        (List.rel_append orderBy.2 (List.rel_append offset.2 limit.2))))))
  case projection p p' =>
    cases p
    cases p'
    simp only [Same, Projection.same, Bool.and_eq_true, beq_iff_eq] at h
    exact .inl ⟨by simp [Node.shape, h.2], .cons h.1.1 (.cons h.1.2 .nil)⟩

/-- Nodes that are the same mean the same, where this holds of literals. -/
theorem alike (bound : n.isBound = true) {Γ Γ' : Context} {agg agg' : Option Context} (formed : n.Formed lit Γ agg) (formed' : n'.Formed lit Γ' agg')
    (h : n.Same n') : n.Alike I db Eq Eq n' := by
  induction n, bound using bound_induction generalizing n' Γ Γ' agg agg' with
  | query q => exact formed.elim
  | step n bound other ih =>
    obtain ⟨shape, parts⟩ | alike := related literals bound other formed.parts.1 formed'.parts.1 h
    · refine Related.alike_eq bound other ⟨shape, (forall₂_with_mem parts).imp fun p p' part => ?_⟩
      obtain ⟨_, _, formed⟩ := formed.parts.2 p part.1
      obtain ⟨_, _, formed'⟩ := formed'.parts.2 p' part.2.1
      exact ih p part.1 (isBound_parts bound other p part.1) formed formed' part.2.2
    · exact alike

end Node.Same

/-- Expressions that are the same have the same value everywhere. -/
theorem Expr.eval_of_same (literals : ∀ v v' t, lit v t → lit v' t → v.same v' = true → I.constant v' t = I.constant v t) {e e' : Expr}
    {Γ Γ' : Context} {agg agg' : Option Context} (same : e.same e' = true) (formed : e.Formed lit Γ agg) (formed' : e'.Formed lit Γ' agg')
    (ρ : Env D) (γ : List (Env D)) : e'.eval I db ρ γ = e.eval I db ρ γ := by
  have alike : Node.Alike I db Eq Eq (.expr e) (.expr e') := Node.Same.alike literals rfl formed formed' same
  exact alike.eval rfl (List.forall₂_refl γ)

end Relational

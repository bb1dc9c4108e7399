import Relational.Projection.Grouping
import Relational.Proofs.Merging.Hereditary

/-!
# Passes over elementary trees

Merging selects puts columns of selects in the place of references to them, so a tree without aggregates and subqueries has none
afterwards either (`Projection.Elementary.simplifySelects`). In such a tree there is no subquery to be
taken for the aggregate of a group (`Projection.Elementary.simplifyAggregates_eq`).
-/

namespace Relational

theorem elementary_kept : KeptByMerging (·.isElementary = true) where
  atom e atom := by cases e <;> first | rfl | cases atom
  and _ _ := rfl
  projection _ := rfl
  absorb _ _ _ _ _ := rfl
  substitute _ _ _ n _ here := (n.isElementary_mapParts _).trans here
  inside _ _ n _ here := (n.isElementary_mapParts _).trans here

/-- Merging selects brings no aggregates and no subqueries. -/
theorem Projection.Elementary.simplifySelects {p : Projection} (h : p.Elementary) : p.simplifySelects.Elementary := elementary_kept.simplifySelects h

/-! ## Aggregates of groups -/

theorem Expr.Elementary.inlineAggregates {e : Expr} (h : e.Elementary) (group : Select) : e.substitute (inlineAggregates group) = e := by
  refine Node.expr.inj (Node.All.substitute_self (fun _ => rfl) (fun _ => rfl) (fun e e' here acts => ?_) h)
  cases e with
  | subquery q =>
    obtain ⟨x, vs, rfl⟩ := Expr.Elementary.inValues here
    cases acts
    rfl
  | query q =>
    cases acts
    rfl
  | _ => cases acts

section Traversal

variable {f : Expr → Option (StateM Select Expr)}

theorem traverseOption_pure {o : Option Expr} (each : ∀ e ∈ o, e.traverse f = pure e) : traverseOption f o = pure o := by
  cases o with
  | none => rfl
  | some e => simp [traverseOption, each e rfl]

theorem traverseNamed_pure {ms : List Named} (each : ∀ m ∈ ms, m.expr.traverse f = pure m.expr) :
    traverseNamed f ms = pure ms := by
  induction ms with
  | nil => rfl
  | cons m ms ih =>
    obtain ⟨name, e⟩ := m
    rw [List.forall_mem_cons] at each
    simp [traverseNamed, each.1, ih each.2]

theorem traverseKeys_pure {ks : List OrderKey} (each : ∀ k ∈ ks, k.expr.traverse f = pure k.expr) :
    traverseKeys f ks = pure ks := by
  induction ks with
  | nil => rfl
  | cons k ks ih =>
    obtain ⟨e, descending⟩ := k
    rw [List.forall_mem_cons] at each
    simp [traverseKeys, each.1, ih each.2]

end Traversal

/-- There is nothing to lift out of an elementary expression. -/
theorem Expr.Elementary.liftAggregates {e : Expr} (h : e.Elementary) : e.traverse liftAggregates = pure e := by
  funext group
  have same := Node.All.traverse_self (g := Relational.liftAggregates) (fun _ => rfl) (fun e x here acts => by
    cases e with
    | subquery q =>
      obtain ⟨y, vs, rfl⟩ := Expr.Elementary.inValues here
      cases acts
      rfl
    | _ => cases acts) h group
  obtain ⟨expr, state⟩ := Prod.mk.inj same
  exact Prod.ext (Node.expr.inj expr) state

namespace Select.Elementary

variable {s : Select}

theorem inlineOwn_eq (h : s.Elementary) : s.inlineOwn = s := by
  have h := elementary_iff.1 h
  rw [Select.inlineOwn]
  split
  · have columns : s.columns.map (Named.mapExpr (Expr.substitute (inlineAggregates s))) = s.columns :=
      list_map_self fun c mem => by
        cases c
        exact congrArg _ ((h.columns _ mem).inlineAggregates s)
    rw [substituteNamed_eq, columns, substituteOption_eq, option_map_self fun e mem => (h.having e mem).inlineAggregates s]
    cases s
    rfl
  · rfl

theorem liftFromSource_eq (h : s.Elementary) : s.liftFromSource = s := by
  have h := elementary_iff.1 h
  rw [Select.liftFromSource]
  split
  · next group reads =>
    split
    · rw [traverseNamed_pure fun c mem => (h.columns c mem).liftAggregates, traverseOption_pure fun e mem => (h.filter e mem).liftAggregates,
        traverseKeys_pure fun k mem => (h.orderBy k mem).liftAggregates]
      show { s with source := some (.select group) } = s
      rw [← reads]
      cases s
      rfl
    · rfl
  · rfl

end Select.Elementary

/-- There are no aggregates of groups in an elementary projection. -/
theorem Projection.Elementary.simplifyAggregates_eq {p : Projection} (h : p.Elementary) : p.simplifyAggregates = p := by
  refine Node.projection.inj (Node.All.inside_self (c := simplifyGroups) (fun s part => ?_) (fun _ _ => rfl) h)
  change s.inlineOwn.liftFromSource = s
  rw [Select.Elementary.inlineOwn_eq part, Select.Elementary.liftFromSource_eq part]

end Relational

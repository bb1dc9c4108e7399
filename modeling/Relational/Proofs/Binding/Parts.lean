import Relational.Proofs.Binding.Lifting

/-!
# The parts of an expression that is split

When an expression is split into columns, each part that is whole becomes a column, unless it refers to a source of an enclosing select, and what is
left is the expression with references in the places of those parts (`Expr.Splits`). The columns hold
such parts, and references of nested statements, under names of their own (`ColumnList.Made`).
-/

namespace Relational

variable {target : ColumnTarget} {l l' : ColumnList} {e e' : Expr} {P : Expr → Prop}

/-- What is left of an expression beside the columns of a list. -/
inductive Expr.Splits (target : ColumnTarget) (l : ColumnList) : Expr → Expr → Prop where
  | outer {c : ColumnRef} (outside : c.label ∉ target.sources) : Splits target l (.column c) (.column c)
  | column {e : Expr} {d : Named} (whole : e.isWhole = true) (mem : d ∈ l.columns)
    (shares : d.expr = e ∨ d.expr.sharesColumn e = true) :
    Splits target l e (.column ⟨target.label, d.name, e.ty⟩)
  | operator {e : Expr} {es : List Expr} (operates : e.isOperator = true) (split : e.isWhole = false)
    (length : es.length = e.operands.length) (parts : ∀ x ∈ e.operands.zip es, Splits target l x.1 x.2) :
    Splits target l e (e.withOperands es)
  | leaf {e : Expr} (leaf : e.isOperator = false) (statement : ∀ p, e ≠ .projection p) (split : e.isWhole = false) : Splits target l e e
  | statement (p : Projection) : Splits target l (.projection p) (.projection (target.lift l p))

/-- The parts of an expression that can become columns. -/
inductive Expr.HasPart : Expr → Expr → Prop where
  | whole {e : Expr} (whole : e.isWhole = true) : HasPart e e
  | operand {e x y : Expr} (operates : e.isOperator = true) (split : e.isWhole = false) (mem : x ∈ e.operands) (part : HasPart x y) :
    HasPart e y

/-- Columns with names of their own, made of parts. -/
structure ColumnList.Made (target : ColumnTarget) (P : Expr → Prop) (l : ColumnList) : Prop where
  names : (l.columns.map (·.name)).Nodup
  parts : ∀ c ∈ l.columns, P c.expr
  own : ∀ c ∈ l.columns, ∀ r, c.expr = .column r → r.label ∈ target.sources

/-- More columns, made of parts if those before are. -/
structure ColumnList.Grows (target : ColumnTarget) (P : Expr → Prop) (l l' : ColumnList) : Prop where
  «extends» : l.Extends l'
  made : l.Made target P → l'.Made target P

theorem ColumnList.grows_growth (target : ColumnTarget) (P : Expr → Prop) : IsGrowth (ColumnList.Grows target P) where
  refl _ := ⟨List.prefix_refl _, id⟩
  trans _ _ _ first second := ⟨first.extends.trans second.extends, fun made => second.made (first.made made)⟩

theorem makeColumn_splits (whole : e.isWhole = true) (part : P e) (l : ColumnList) :
    Advances (ColumnList.Grows target P) l (fun l' e' => e.Splits target l' e') (makeColumn target e l) := by
  rcases makeColumn_cases target e l with ⟨c, rfl, outer, made⟩ | ⟨inner, ⟨d, found, made⟩ | ⟨-, made⟩⟩ <;> rw [made]
  · exact ⟨(ColumnList.grows_growth target P).refl l, fun l' _ => .outer outer⟩
  · refine ⟨(ColumnList.grows_growth target P).refl l, fun l' later => ?_⟩
    have mem : d ∈ l'.columns := later.extends.subset (List.mem_of_find?_eq_some found)
    have shares : d.expr.sharesColumn e = true := by simpa using List.find?_some found
    exact .column whole mem (.inr shares)
  · refine ⟨⟨List.prefix_append _ _, fun before => ⟨?_, ?_, ?_⟩⟩, fun l' later => ?_⟩
    · rw [List.map_append, List.map_cons, List.map_nil, ← List.concat_eq_append]
      exact before.names.concat (l.name_not_mem e)
    · exact List.forall_mem_append.2 ⟨before.parts, List.forall_mem_singleton.2 part⟩
    · exact List.forall_mem_append.2 ⟨before.own, List.forall_mem_singleton.2 inner⟩
    · have mem : (⟨(l.name e).1, e⟩ : Named) ∈ l'.columns :=
        later.extends.subset (List.mem_append_right _ (List.mem_singleton_self _))
      exact .column whole mem (.inl rfl)

variable (target P) in
/-- What is left of an expression has references in the places of its parts that are whole. -/
theorem splitCases_splits : SplitCases target (fun e => (∀ p ∈ e.nested, ∀ c, P (.column c)) ∧ ∀ x, e.HasPart x → P x)
    (ColumnList.Grows target P) (Expr.Splits target) where
  toIsGrowth := ColumnList.grows_growth target P
  operand e known split operates x mem := by
    obtain ⟨lifted, parts⟩ := known
    rw [Expr.nested_operator operates, List.forall_mem_flatMap] at lifted
    exact ⟨lifted x mem, fun y part => parts y (.operand operates split mem part)⟩
  column e known whole := makeColumn_splits whole (known.2 e (.whole whole))
  leaf e _ split leaf statement l := .leaf leaf statement split
  operator e _ split operates l es rests := by
    obtain ⟨length, operands⟩ := List.forall₂_iff_zip.1 rests
    exact .operator operates split length.symm fun x mem => operands mem
  projection p known l := by
    have makes := known.1 p List.mem_cons_self
    have growing := liftOuter_growing (ColumnList.grows_growth target P) (fun _ _ => ColumnList.Grows.extends) fun c l =>
      (makeColumn_splits rfl (makes c) l).grows
    have lifted := growing.traverse (n := .projection p) rfl l
    exact ⟨lifted.grows, fun l' later => Node.projection.inj (lifted.result l' later) ▸ .statement p⟩

/-- The columns of an expression, and what is left of it. -/
theorem Expr.projectColumns_splits (target : ColumnTarget) (lifted : ∀ p ∈ e.nested, ∀ c, P (.column c)) (parts : ∀ x, e.HasPart x → P x) :
    ∃ l : ColumnList, (e.projectColumns target.label target.sources).columns = l.columns ∧ l.Made target P ∧
      e.Splits target l (e.projectColumns target.label target.sources).projector := by
  obtain ⟨l, grows, columns, rest⟩ := (splitCases_splits target P).projectColumns ⟨lifted, parts⟩
  have made : ColumnList.Made target P ⟨[], 0⟩ := ⟨List.nodup_nil, by rintro _ ⟨⟩, by rintro _ ⟨⟩⟩
  exact ⟨l, columns, grows.made made, rest⟩

end Relational

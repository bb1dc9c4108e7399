import Relational.Proofs.Rows.Congruence
import Relational.Proofs.Rows.Replacement

/-!
# Statements under a replacement

The main statement (`Node.simulated`) is an induction on the tree: at rows that agree on what is in sight, a part and the replaced
part have the same value, the same rows or rows that agree again.
-/

namespace Relational

variable {D : Type} {I : Interpretation D} {db : Database D} {f : Substitution} {φ : ColumnRef → Expr} {Γ Δ : Context}
  {agg : Option Context} {lit : Value → Ty → Prop} {ρ ρ' : Env D}

theorem subset_flatMap {α β : Type} {l : List α} {a : α} (g : α → List β) (mem : a ∈ l) : g a ⊆ l.flatMap g :=
  fun _ found => List.mem_flatMap.2 ⟨a, mem, found⟩

theorem Expr.Alike.mono {R R' S S' : Env D → Env D → Prop} {e e' : Expr} (h : e.Alike I db R S e') (row : ∀ σ σ', R' σ σ' → R σ σ')
    (rows : ∀ σ σ', S' σ σ' → S σ σ') : e.Alike I db R' S' e' :=
  ⟨h.hasAggregate, fun related relateds => h.eval (row _ _ related) (relateds.imp rows)⟩

theorem Agrees.adds (repl : Replaces f φ) {as : List Alias} (untouched : ∀ a ∈ as, Untouched f φ Γ a) (labels : ∀ a ∈ Δ.map (·.1), a ∈ as) :
    Env.Adds (Agrees I db φ Γ) (Agrees I db φ (Γ ++ Δ)) as := fun _ _ agree row => agree.setAll repl untouched labels row

namespace Node

variable (I db φ) in
/-- Which rows agree where a node gives rows or looks at those of a group. -/
def RowsAgree (Γ : Context) (agg : Option Context) : Node → Env D → Env D → Prop
  | source src => Agrees I db φ (Γ ++ src.context)
  | _ => fun σ σ' => ∀ Δ ∈ agg, Agrees I db φ Δ σ σ'

variable (I db f φ lit) in
/-- The replaced node means at rows that agree what the node means, beside aliases that are left alone. -/
def Simulated (n : Node) : Prop :=
  ∀ Γ agg, n.Formed lit Γ agg → (∀ a ∈ n.collect declaredAliases, Untouched f φ Γ a ∧ ∀ Δ ∈ agg, Untouched f φ Δ a) →
    n.Alike I db (Agrees I db φ Γ) (n.RowsAgree I db φ Γ agg) (n.substitute f)

end Node

theorem Select.isTotal_substitute (repl : Replaces f φ) (s : Select) : (s.substitute f).isTotal = s.isTotal := by
  simp only [isTotal, substitute_groupBy, List.isEmpty_map, hasAggregates_substitute repl]

/-- The clauses of a select and of the replaced select cannot tell rows apart that agree. -/
theorem Select.clausesAlike_substitute {s : Select} (repl : Replaces f φ) (clauses : s.Clauses lit Γ)
    (parts : SelectParts (fun e => Node.Simulated I db f φ lit (.expr e)) (fun _ => True) s) (outer : ∀ a ∈ s.declaredBeside, Untouched f φ Γ a)
    (inner : ∀ a ∈ s.declaredBeside, Untouched f φ (Γ ++ s.context) a)
    (empty : s.isTotal = true → ∀ {ρ ρ'}, Agrees I db φ Γ ρ ρ' → Agrees I db φ (Γ ++ s.columnContext) (ρ.setAll s.visible fun _ => I.null)
      (ρ'.setAll (s.substitute f).visible fun _ => I.null)) :
    s.ClausesAlike I db (Agrees I db φ Γ) (Agrees I db φ (Γ ++ s.context)) (Agrees I db φ (Γ ++ s.columnContext)) (s.substitute f) ∧
      List.Forall₂ (fun c c' => c'.name = c.name ∧ c.expr.Alike I db (Agrees I db φ (Γ ++ s.columnContext)) (Agrees I db φ (Γ ++ s.context)) c'.expr)
        s.columns (s.substitute f).columns := by
  have sub (c : ColumnRef) (sees : (Γ ++ s.columnContext).sees c) : (Γ ++ s.context).sees c :=
    Context.sees_append.2 ((Context.sees_append.1 sees).imp_right sees_of_columnContext)
  have clause {e : Expr} {Δ : Context} (simulated : Node.Simulated I db f φ lit (.expr e)) (formed : e.Formed lit Δ none)
      (untouched : ∀ a ∈ e.declared, Untouched f φ Δ a) : e.Alike I db (Agrees I db φ Δ) (Agrees I db φ Δ) (e.substitute f) :=
    Expr.Alike.mono (simulated Δ none formed fun a mem => ⟨untouched a mem, by rintro _ ⟨⟩⟩) (fun _ _ => id) fun _ _ _ => by rintro _ ⟨⟩
  have shown {e : Expr} (simulated : Node.Simulated I db f φ lit (.expr e)) (formed : e.Formed lit (Γ ++ s.columnContext) (some (Γ ++ s.context)))
      (beside : e.declared ⊆ s.declaredBeside) :
      e.Alike I db (Agrees I db φ (Γ ++ s.columnContext)) (Agrees I db φ (Γ ++ s.context)) (e.substitute f) := by
    refine Expr.Alike.mono (simulated _ _ formed fun a mem => ?_) (fun _ _ => id) fun _ _ agree => by rintro _ ⟨⟩; exact agree
    exact ⟨(inner a (beside mem)).mono sub, by rintro _ ⟨⟩; exact inner a (beside mem)⟩
  refine ⟨⟨s.isTotal_substitute repl, ?_, ?_, ?_, ?_, ?_, ?_, substitute_distinct f s, fun _ _ agree => agree.mono sub, empty⟩, ?_⟩
  · rw [substitute_filter]
    exact rel_map fun e mem => clause (parts.filter e mem) (clauses.filter e mem) fun a ha => inner a (s.beside_subset.filter e mem ha)
  · rw [substitute_groupBy]
    exact forall₂_map fun e mem => clause (parts.groupBy e mem) (clauses.groupBy e mem) fun a ha => inner a (s.beside_subset.groupBy e mem ha)
  · rw [substitute_having]
    refine rel_map fun e mem => shown (parts.having e mem) ?_ (s.beside_subset.having e mem)
    -- groups are filtered only where there are keys, so all columns are in sight
    rw [columnContext, isTotal, List.isEmpty_eq_false_iff.2 (clauses.grouped (by simp [Option.mem_def.1 mem]))]
    exact clauses.having e mem
  · rw [substitute_orderBy]
    exact forall₂_map fun k mem => ⟨rfl, clause (parts.orderBy k mem) (clauses.orderBy k mem) fun a ha => inner a (s.beside_subset.orderBy k mem ha)⟩
  · rw [substitute_offset]
    exact rel_map fun e mem => clause (parts.offset e mem) (clauses.offset e mem) fun a ha => outer a (s.beside_subset.offset e mem ha)
  · rw [substitute_limit]
    exact rel_map fun e mem => clause (parts.limit e mem) (clauses.limit e mem) fun a ha => outer a (s.beside_subset.limit e mem ha)
  · rw [substitute_columns]
    exact forall₂_map fun c mem => ⟨rfl, shown (parts.columns c mem) (clauses.columns c mem) (s.beside_subset.columns c mem)⟩

/-- Replacing columns keeps the meaning of every kind of tree. -/
theorem Node.simulated (repl : Replaces f φ) {n : Node} (bound : n.isBound = true) : n.Simulated I db f φ lit := by
  induction n, bound using bound_induction with
  | query q => exact fun _ _ formed => formed.elim
  | step n bound other ih =>
    intro Γ agg formed untouched
    have part (p : Node) (mem : p ∈ n.parts) (a : Alias) (found : a ∈ p.collect declaredAliases) : a ∈ n.collect declaredAliases := by
      rw [collect_eq _ bound]
      exact List.mem_append_right _ (List.mem_flatMap.2 ⟨p, mem, found⟩)
    by_cases plain : n.isPlain = true
    · have keeps (s : Select) (same : n = source (.select s)) : f.removes s.label = false := by rw [same] at plain; cases plain
      have rebuilt (e : Expr) (same : n = expr e) : f.expr e = none := by
        rw [same] at plain
        rw [repl.expr]
        cases e <;> first | rfl | cases plain
      have seen (p : Node) (no : ∀ src, p ≠ source src) : p.RowsAgree I db φ Γ agg = fun σ σ' => ∀ Δ ∈ agg, Agrees I db φ Δ σ σ' := by
        cases p with
        | source src => exact absurd rfl (no src)
        | _ => rfl
      rw [seen n (by rintro src rfl; cases plain)]
      refine Related.alike_plain ⟨(related_substitute keeps rebuilt bound).shape, ?_⟩ plain
      rw [parts_substitute keeps rebuilt]
      refine forall₂_map fun p mem => ?_
      rw [← seen p (parts_plain plain p mem)]
      exact ih p mem (isBound_parts bound other p mem) Γ agg (((formed_plain plain).1 formed).2 p mem) fun a found => untouched a (part p mem a found)
    cases n with
    | expr e =>
      cases e <;> simp only [isPlain, not_true_eq_false] at plain
      case column c =>
        simp only [substitute, Expr.substitute, repl.expr, onColumns]
        refine ⟨Expr.hasAggregate_atom (repl.atom c), fun agree _ => ?_⟩
        rw [Expr.eval_atom (repl.atom c), ← agree c formed, Expr.eval]
      case query => exact formed.elim
      case aggregate kind x distinct t =>
        obtain ⟨Δ, rfl, formed⟩ := formed
        simp only [substitute, Expr.substitute, repl.expr, onColumns, substituteOption_eq]
        refine Expr.alike_aggregate (rel_map fun e mem => ?_)
        have inside : expr e ∈ (expr (.aggregate kind x distinct t)).parts := List.mem_map_of_mem (Option.mem_toList.2 mem)
        refine Expr.Alike.mono (ih _ inside rfl Δ (some Δ) (formedOption_iff.1 formed e mem) fun a found => ?_) (fun _ _ agree => agree Δ rfl) fun _ _ => id
        exact ⟨(untouched a (part _ inside a found)).2 Δ rfl, (untouched a (part _ inside a found)).2⟩
    | source src =>
      have fixed (src : Source) {Γ : Context} (all : ∀ a ∈ src.declared, Untouched f φ Γ a) (c : ColumnRef)
          (mem : c.label ∈ src.context.map (·.1)) : φ c = .column c :=
        (all _ (src.visible_subset (src.map_context ▸ mem))).fixed c rfl
      have untouched (a : Alias) (mem : a ∈ src.declared) : Untouched f φ Γ a := (untouched a mem).1
      have adds (src : Source) {Γ : Context} (all : ∀ a ∈ src.declared, Untouched f φ Γ a) :
          Env.Adds (Agrees I db φ Γ) (Agrees I db φ (Γ ++ src.context)) src.visible :=
        Agrees.adds repl (fun a mem => all a (src.visible_subset mem)) (by simp [src.map_context])
      cases src with
      | table => exact Source.alike_table (adds _ untouched)
      | raw => exact Source.alike_raw (adds _ untouched)
      | select s =>
        rw [substitute, Source.substitute_of_kept (untouched _ s.label_mem_declared).kept]
        refine Source.alike_select (ih (select s) List.mem_cons_self rfl Γ none formed.2 fun a mem => ⟨untouched a mem, by rintro _ ⟨⟩⟩) (adds _ untouched)
      | join kind l r condition =>
        have formed := formed
        simp only [Formed, Source.Formed, formedOption_iff, ← List.append_assoc] at formed
        simp only [Source.declared_join, List.mem_append] at untouched
        have left (a : Alias) (mem : a ∈ l.declared) := untouched a (.inl mem)
        have right (a : Alias) (mem : a ∈ r.declared) := (untouched a (.inr (.inl mem))).append (fixed l left)
        have lefts := ih (source l) (by simp [parts, Source.nodes]) rfl Γ none formed.1 fun a mem => ⟨left a mem, by rintro _ ⟨⟩⟩
        have rights := ih (source r) (by simp [parts, Source.nodes]) rfl _ none formed.2.1 fun a mem => ⟨right a mem, by rintro _ ⟨⟩⟩
        simp only [substitute, Source.substitute, substituteOption_eq, Alike, RowsAgree, Source.context, ← List.append_assoc] at lefts rights ⊢
        refine Source.alike_join lefts rights (rel_map fun e mem => ?_) (adds r right)
        refine Expr.Alike.mono (ih (expr e) (by simp [parts, Source.nodes, Option.mem_def.1 mem]) rfl _ none (formed.2.2 e mem) fun a found =>
          ⟨?_, by rintro _ ⟨⟩⟩) (fun _ _ => id) fun _ _ _ => by rintro _ ⟨⟩
        have := untouched a (.inr (.inr (subset_flatMap _ (Option.mem_toList.2 mem) found)))
        exact (this.append (fixed l left)).append (fixed r right)
    | select s =>
      have clauses := Select.formed_iff.1 formed
      have untouched (a : Alias) (mem : a ∈ s.declared) : Untouched f φ Γ a := (untouched a mem).1
      have shown (a : Alias) (mem : a ∈ s.visible) := untouched a (s.visible_subset mem)
      have beside (a : Alias) (mem : a ∈ s.declaredBeside) := untouched a (s.declaredBeside_subset mem)
      have parts := forall_parts_select.1 ih
      have source : Option.Rel (Source.RowsAlike I db (Agrees I db φ Γ) (Agrees I db φ (Γ ++ s.context))) s.source (s.substitute f).source := by
        rw [Select.substitute_source]
        refine rel_map fun src mem => ?_
        rw [Select.context, Option.mem_def.1 mem]
        exact parts.source src mem rfl Γ none (clauses.source src mem) fun a found =>
          ⟨untouched a (s.parts_subset.source src mem found), by rintro _ ⟨⟩⟩
      have visible : (s.substitute f).visible = s.visible := by
        rw [Select.visible, Select.visible, map_eq_of_rel source fun _ _ _ _ part => part.visible]
      have inside : SelectParts (fun e => Node.Simulated I db f φ lit (.expr e)) (fun _ => True) s := parts.imp (fun _ h => h rfl) fun _ _ => trivial
      obtain ⟨alike, columns⟩ := Select.clausesAlike_substitute repl clauses inside beside
        (fun a mem => (beside a mem).append fun c mem => (shown _ (s.map_context ▸ mem)).fixed c rfl) fun total ρ ρ' agree => by
          rw [visible]
          exact agree.setAll repl shown (by simp [s.map_columnContext]) _
      refine ⟨Select.substitute_label f s, fun agree => alike.rows_eq columns agree (sourceRows_alike source (fun none => ?_) agree)⟩
      simpa [Select.context, none] using agree
    | projection p =>
      obtain ⟨s, e, a⟩ := p
      have label := untouched s.label (List.mem_append_left _ s.label_mem_declared)
      refine Projection.alike_parts (ih (select s) List.mem_cons_self rfl Γ none formed.1 fun a mem =>
        ⟨(untouched a (List.mem_append_left _ mem)).1, by rintro _ ⟨⟩⟩) (Expr.Alike.mono (ih (expr e) (by simp [parts]) rfl _ none formed.2 fun a mem =>
          ⟨(untouched a (List.mem_append_right _ mem)).1.append (by simpa using label.1.fixed), by rintro _ ⟨⟩⟩) (fun _ _ => id)
            fun _ _ _ => by rintro _ ⟨⟩) (Agrees.adds repl (by simpa using label.1) (by simp))
    | subquery => exact (plain rfl).elim
    | lambda | query => cases bound

/-- At rows that agree, the replaced expression has the value of the expression. -/
theorem Expr.eval_substitute (repl : Replaces f φ) {e : Expr} (formed : e.Formed lit Γ none) (agree : Agrees I db φ Γ ρ ρ')
    (untouched : ∀ a ∈ e.declared, Untouched f φ Γ a) : (e.substitute f).eval I db ρ' [ρ'] = e.eval I db ρ [ρ] :=
  (Node.simulated (n := .expr e) repl rfl Γ none formed fun a mem => ⟨untouched a mem, by rintro _ ⟨⟩⟩).eval agree
    (.cons (by rintro _ ⟨⟩) .nil)

theorem Source.rows_substitute (repl : Replaces f φ) {src : Source} (formed : src.Formed lit Γ) (agree : Agrees I db φ Γ ρ ρ')
    (untouched : ∀ a ∈ src.declared, Untouched f φ Γ a) :
    List.Forall₂ (Agrees I db φ (Γ ++ src.context)) (src.rows I db ρ) ((src.substitute f).rows I db ρ') :=
  (Node.simulated (n := .source src) repl rfl Γ none formed fun a mem => ⟨untouched a mem, by rintro _ ⟨⟩⟩).rows agree

end Relational

import Relational.Proofs.Merging.Removal
import Relational.Proofs.Rows.Plain

/-!
# Rows of a source with selects removed

A select that goes gives way to the rows of its source. Where it only showed columns, the rows that are left agree with the rows
that there were, one by one (`Source.rows_replaced`).
-/

namespace Relational

variable {D : Type} {I : Interpretation D} {db : Database D} {f : Substitution} {φ : ColumnRef → Expr}
  {lit : Value → Ty → Prop} {Γ Δ : Context} {ρ ρ' : Env D}

/-- Absent values beside rows that agree. -/
theorem Agrees.absent (repl : Replaces f φ) (h : Agrees I db φ Γ ρ ρ') {shown shown' : List Alias} (x : D)
    (outer : ∀ c, Γ.sees c → c.label ∉ shown ∧ ∀ a ∈ (φ c).referenced, a ∉ shown')
    (inner : ∀ c, Δ.sees c → c.label ∈ shown ∧ ∃ r, φ c = .column r ∧ r.label ∈ shown') :
    Agrees I db φ (Γ ++ Δ) (ρ.setAll shown fun _ => x) (ρ'.setAll shown' fun _ => x) := by
  intro c sees
  rcases Context.sees_append.1 sees with sees | sees
  · have other : ∀ a ∈ (φ c).referenced, ρ'.setAll shown' (fun _ => x) a = ρ' a := fun a mem => by
      simp [Env.setAll, (outer c sees).2 a mem]
    rw [Expr.eval_atom_congr (repl.atom c) other, ← h c sees]
    simp [Env.setAll, (outer c sees).1]
  · obtain ⟨mem, r, image, mem'⟩ := inner c sees
    simp [image, Expr.eval, Env.setAll, mem, mem']

/-- A row of a select that goes agrees with the row of its source that it was made of. -/
theorem Removes.agrees {s : Select} {src : Source} (repl : Replaces f φ) (removes : Removes f φ s)
    (source : s.source = some src) (clauses : s.Clauses lit Γ) (apart : ∀ a ∈ s.declared, a ∉ Γ.map (·.1))
    {σ σ' : Env D} (frame : ∀ a, a ∉ src.visible → σ a = ρ a) (agree : Agrees I db φ (Γ ++ src.context) σ σ') :
    Agrees I db φ (Γ ++ (Source.select s).context) (ρ.set s.label (I.named (s.shownAt I db σ))) σ' := by
  intro c sees
  rcases Context.sees_append.1 sees with sees | sees
  · have outside (a : Alias) (mem : a ∈ s.declared) : c.label ≠ a :=
      fun eq => apart a mem (eq ▸ Context.label_of_sees sees)
    have label : c.label ≠ s.label := outside _ s.label_mem_declared
    have other : c.label ∉ src.visible := fun mem =>
      outside _ (s.parts_subset.source src source (src.visible_subset mem)) rfl
    rw [← agree c (Context.sees_append.2 (.inl sees)), frame c.label other]
    simp [Env.set, label]
  · obtain ⟨d, mem, name, shows, image, sight⟩ := removes.stands source clauses apart sees
    have label : c.label = s.label := by simpa [Source.visible] using Source.visible_of_sees sees
    have value : I.named (s.shownAt I db σ) c.name = d.expr.eval I db σ [σ] := by
      simp only [Interpretation.named, Select.shownAt]
      rw [Select.lookup_column shows mem name fun d => d.expr.eval I db σ [σ]]
      rfl
    have atom := image ▸ repl.atom c
    simp only [Env.set, label, if_true, value, image]
    cases kind : d.expr <;> rw [kind] at atom <;> simp [Expr.isAtom, Expr.isColumn, Expr.isLiteral] at atom
    case constant => rfl
    case hostParameter => rfl
    case column r =>
      obtain ⟨sees, fixed⟩ := sight r kind
      have := agree r (Context.sees_append.2 (.inr sees))
      rw [fixed] at this
      exact this

/-- Where selects that only show columns go, the rows that are left agree with those that there were. -/
theorem Source.rows_replaced (repl : Replaces f φ) : ∀ (src : Source) {literals : Bool} {Γ Γ' : Context} {ρ ρ' : Env D},
    src.Formed lit Γ → src.Ready f φ Select.Plain literals → src.declared.Nodup →
      (∀ a ∈ src.declared, a ∉ Γ.map (·.1)) → (∀ a ∈ src.declared, ∀ c, Γ.sees c → a ∉ (φ c).referenced) →
        Images lit φ Γ Γ' → Agrees I db φ Γ ρ ρ' →
          List.Forall₂ (Agrees I db φ (Γ ++ src.context)) (src.rows I db ρ) ((src.substitute f).rows I db ρ')
  | .table kind a entity name, literals, Γ, Γ', ρ, ρ', formed, ready, _, _, other, _, agree => by
    refine Source.rows_substitute repl formed agree fun b mem => ⟨?_, fun c sees _ => other b mem c sees⟩
    simpa [Source.Ready, (by simpa [Source.collect, declaredAliases] using mem : b = a)] using ready
  | .raw a sql, literals, Γ, Γ', ρ, ρ', formed, ready, _, _, other, _, agree => by
    refine Source.rows_substitute repl formed agree fun b mem => ⟨?_, fun c sees _ => other b mem c sees⟩
    simpa [Source.Ready, (by simpa [Source.collect, declaredAliases] using mem : b = a)] using ready
  | .select s, literals, Γ, Γ', ρ, ρ', formed, ready, nodup, apart, other, images, agree => by
    rcases ready with fixes | ⟨removes, plain, -⟩
    · exact Source.rows_substitute repl formed agree fun b mem => ⟨fixes b mem, fun c sees _ => other b mem c sees⟩
    · obtain ⟨src, source⟩ := Option.isSome_iff_exists.1 formed.1
      have clauses := Select.formed_iff.1 formed.2
      have rows := Source.rows_substitute repl (clauses.source src source) agree fun b mem =>
        ⟨removes.inside src source b mem, fun c sees _ => other b (s.parts_subset.source src source mem) c sees⟩
      rw [substitute_of_removed removes.removes source, Source.rows, Select.rows_of_plain plain, List.map_map, source,
        List.forall₂_map_left_iff]
      refine ((List.forall₂_and_left (p := (· ∈ src.rows I db ρ)) _ _).2 ⟨fun _ mem => mem, rows⟩).imp fun σ σ' h => ?_
      exact removes.agrees repl source clauses apart (fun a => src.rows_frame h.1 a) h.2
  | .join kind l r condition, literals, Γ, Γ', ρ, ρ', formed, ready, nodup, apart, other, images, agree => by
    simp only [Source.Formed, formedOption_iff] at formed
    rw [Source.declared_join] at nodup apart other
    obtain ⟨nodupL, nodupRest, disjoint⟩ := List.nodup_append.1 nodup
    obtain ⟨nodupR, -, disjoint'⟩ := List.nodup_append.1 nodupRest
    have left := l.replaced repl formed.1 ready.1 nodupL (fun a mem => apart a (by simp [mem])) images
    have images' := images.concat repl left.images
    have apart' (a : Alias) (mem : a ∈ r.declared) : a ∉ (Γ ++ l.context).map (·.1) := by
      rw [List.map_append, List.mem_append, not_or, l.map_context]
      exact ⟨apart a (by simp [mem]), fun mem' => disjoint a (l.visible_subset mem') a (by simp [mem]) rfl⟩
    have right := r.replaced repl formed.2.1 ready.2.1 nodupR apart' images'
    have otherL (a : Alias) (mem : a ∈ r.declared ++ condition.toList.flatMap Expr.declared) (c : ColumnRef)
        (sees : (Γ ++ l.context).sees c) : a ∉ (φ c).referenced := by
      rcases Context.sees_append.1 sees with sees | sees
      · exact other a (List.mem_append_right _ mem) c sees
      · exact fun found => disjoint a (left.visible_subset (left.referenced repl sees found)) a mem rfl
    have otherR (a : Alias) (mem : a ∈ condition.toList.flatMap Expr.declared) (c : ColumnRef)
        (sees : (Γ ++ l.context ++ r.context).sees c) : a ∉ (φ c).referenced := by
      rcases Context.sees_append.1 sees with sees | sees
      · exact otherL a (List.mem_append_right _ mem) c sees
      · exact fun found => disjoint' a (right.visible_subset (right.referenced repl sees found)) a mem rfl
    rw [← List.append_assoc] at formed
    simp only [Source.substitute, Source.rows, Source.context, ← List.append_assoc]
    refine joinRows_related
      (l.rows_replaced repl formed.1 ready.1 nodupL (fun a mem => apart a (by simp [mem]))
        (fun a mem => other a (by simp [mem])) images agree)
      (fun σ σ' agree' => r.rows_replaced repl formed.2.1 ready.2.1 nodupR apart'
        (fun a mem => otherL a (by simp [mem])) images' agree')
      (fun τ τ' agree' => ?_) fun σ σ' agree' => agree'.absent repl I.null (fun c sees => ?_) fun c sees => ?_
    · cases condition with
      | none => rfl
      | some e =>
        refine congrArg (fun x => I.holds (some x)) (Expr.eval_substitute repl (formed.2.2 e rfl) agree' fun a mem => ?_).symm
        exact ⟨ready.2.2 e rfl a mem, fun c sees _ => otherR a (by simpa using mem) c sees⟩
    · refine ⟨fun mem => apart' _ (r.visible_subset mem) (Context.label_of_sees sees), fun a found mem => ?_⟩
      exact otherL a (List.mem_append_left _ (right.visible_subset mem)) c sees found
    · refine ⟨Source.visible_of_sees sees, ?_⟩
      have column := Source.Ready.isColumn ready.2.1 sees
      cases image : φ c <;> rw [image] at column <;> simp [Expr.isColumn] at column
      case column r' => exact ⟨r', rfl, Source.visible_of_sees (right.images.column sees image)⟩

namespace Select.Prepared

variable {K : Select → Prop} {s : Select}

theorem agrees (h : s.Prepared f φ lit Γ K) (ρ : Env D) : Agrees I db φ Γ ρ ρ := fun c sees => by
  rw [h.outer c sees]
  rfl

/-- The stages of a select and of what is left of it cannot tell rows apart that agree. -/
theorem simulates (h : s.Prepared f φ lit Γ K) (repl : Replaces f φ) (ρ : Env D) :
    (s.stage I db ρ).Simulates (Agrees I db φ (Γ ++ s.context)) ((s.substitute f).stage I db ρ) := by
  have all (e : Expr) : Node.Simulated I db f φ lit (.expr e) := Node.simulated repl rfl
  have inner (a : Alias) (mem : a ∈ s.declaredBeside) := h.untouched repl mem
  have empty (total : s.isTotal = true) {ρ ρ' : Env D} (agree : Agrees I db φ Γ ρ ρ') :
      Agrees I db φ (Γ ++ s.columnContext) (ρ.setAll s.visible fun _ => I.null) (ρ'.setAll (s.substitute f).visible fun _ => I.null) := by
    refine agree.absent repl I.null (fun c sees => ?_) fun c sees => ?_
    · have outside (a : Alias) (mem : a ∈ s.declared) : c.label ≠ a :=
        fun eq => h.apart a mem (eq ▸ Context.label_of_sees sees)
      refine ⟨fun mem => outside _ (s.visible_subset mem) rfl, fun a found mem => ?_⟩
      rw [h.outer c sees] at found
      exact outside a (h.visible_subset repl mem) (by simpa [Expr.referenced, Expr.collect, columnRefs, eq_comm] using found)
    · obtain ⟨r, image, sees'⟩ := h.column_of_total repl total sees
      exact ⟨visible_of_sees (sees_of_columnContext sees), r, image, visible_of_sees (sees_of_columnContext sees')⟩
  obtain ⟨alike, columns⟩ := clausesAlike_substitute repl h.clauses ⟨fun c _ => all c.expr, fun _ _ => trivial, fun e _ => all e, fun e _ => all e,
    fun e _ => all e, fun k _ => all k.expr, fun e _ => all e, fun e _ => all e⟩
    (fun a mem => (inner a mem).mono fun c sees => Context.sees_append.2 (.inl sees)) inner empty
  exact alike.simulates columns (h.agrees ρ)

/-- Removing selects that only show columns keeps the rows of a select. -/
theorem rows_eq (h : s.Prepared f φ lit Γ Select.Plain) (repl : Replaces f φ) (ρ : Env D) :
    (s.substitute f).rows I db ρ = s.rows I db ρ := by
  have rows : List.Forall₂ (Agrees I db φ (Γ ++ s.context)) (sourceRows I db ρ s.source)
      (sourceRows I db ρ (s.substitute f).source) := by
    cases found : s.source with
    | none => simpa [Select.context, found, sourceRows] using h.agrees ρ
    | some src =>
      simpa [Select.context, found, sourceRows] using src.rows_replaced repl (h.clauses.source src found)
        (h.ready src found) (h.nodup_source found) (fun _ => h.apart_source found) (fun a mem c sees listed => by
          rw [h.outer c sees] at listed
          refine h.apart_source found mem ?_
          rw [show a = c.label by simpa [Expr.referenced, Expr.collect, columnRefs] using listed]
          exact Context.label_of_sees sees) h.images (h.agrees ρ)
  rw [Select.rows_eq, Select.rows_eq]
  exact ((h.simulates repl ρ).run_eq I.toComparison rows).symm

end Select.Prepared

end Relational

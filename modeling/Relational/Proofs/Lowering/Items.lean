import Relational.Proofs.Lowering.Scalars
import Relational.Proofs.Tree.Traversal

/-!
# Bodies over items

The body of a lambda is bound once for each item of a known sequence, where its parameter stands for the item, and once for all rows of a
statement, where it stands for an expression over the row. Binding does not look into either, so both give the same operators over
the same operands, but for the item and the expression (`Expr.QueryFree.mirrors`). Where the expression has the value of
the item, so have the bodies.
-/

namespace Relational

open Binding

variable {V : Expr → Expr → Prop} {P : ColumnRef → Prop} {e e' l l' r r' x x' : Expr}

/-- An expression that binding does not look into: it fits a column, and is neither a statement nor a known record. -/
structure Expr.IsItem (e : Expr) : Prop where
  fits : e.isColumnTy = true
  statement : ∀ p, e ≠ .projection p
  known : ∀ name fields t, e ≠ .constant (.record name fields) t

/-- The same operators over the same operands, apart from items in the places of others. -/
inductive Expr.Mirrors (P : ColumnRef → Prop) (V : Expr → Expr → Prop) : Expr → Expr → Prop where
  | leaf {e : Expr} (leaf : e.isLeaf = true) : Mirrors P V e e
  | column {c : ColumnRef} (inside : P c) : Mirrors P V (.column c) (.column c)
  | item {e e' : Expr} (first : e.IsItem) (second : e'.IsItem) (ty : e'.ty = e.ty) (pair : V e e') : Mirrors P V e e'
  | operator {e : Expr} {es : List Expr} (operates : e.isOperator = true) (length : e.operands.length = es.length)
    (parts : ∀ x ∈ e.operands.zip es, Mirrors P V x.1 x.2) : Mirrors P V e (e.withOperands es)
  | inValues {e e' : Expr} {vs vs' : List Expr} (value : Mirrors P V e e') (length : vs.length = vs'.length)
    (values : ∀ v ∈ vs.zip vs', Mirrors P V v.1 v.2) : Mirrors P V (.subquery (.inValues e vs)) (.subquery (.inValues e' vs'))

/-- The type of an operator depends on its operands by their types alone. -/
theorem Expr.ty_withOperands {e : Expr} {es : List Expr} (op : e.isOperator = true) (same : es.map Expr.ty = e.operands.map Expr.ty) :
    (e.withOperands es).ty = e.ty := by
  have length : es.length = e.operands.length := by simpa using congrArg List.length same
  cases e <;> simp only [isOperator, Bool.false_eq_true] at op <;> simp only [operands] at length same
  case binary op l r =>
    obtain ⟨x, y, rfl⟩ := List.length_eq_two.1 length
    simp only [List.map_cons, List.map_nil, List.cons.injEq] at same
    simp only [withOperands, ty, same.1, same.2.1]
  case unary sign x =>
    obtain ⟨y, rfl⟩ := List.length_eq_one_iff.1 length
    simp only [List.map_cons, List.map_nil, List.cons.injEq] at same
    cases sign with
    | not => rfl
    | negate => exact same.1
  case member x name =>
    obtain ⟨y, rfl⟩ := List.length_eq_one_iff.1 length
    simp only [List.map_cons, List.map_nil, List.cons.injEq] at same
    simp only [withOperands, ty, same.1]
  case call m x args =>
    cases es with
    | nil => cases length
    | cons y ys =>
      simp only [List.map_cons, List.cons.injEq] at same
      simp only [withOperands, ty, same.1]
  case conditional test yes no =>
    obtain ⟨x, y, z, rfl⟩ := List.length_eq_three.1 length
    simp only [List.map_cons, List.map_nil, List.cons.injEq] at same
    simp only [withOperands, ty, same.2.1]
  case record r ms => rfl
  case convert x t =>
    obtain ⟨y, rfl⟩ := List.length_eq_one_iff.1 length
    rfl
  case function name args t => rfl
  case group key elements =>
    obtain ⟨x, y, rfl⟩ := List.length_eq_two.1 length
    simp only [List.map_cons, List.map_nil, List.cons.injEq] at same
    simp only [withOperands, ty, same.1, same.2.1]

namespace Expr.Mirrors

/-- Operators with mirrored operands. -/
theorem ofOperands {es : List Expr} (operates : e.isOperator = true) (parts : List.Forall₂ (Mirrors P V) e.operands es) :
    e.Mirrors P V (e.withOperands es) := by
  obtain ⟨length, each⟩ := List.forall₂_iff_zip.1 parts
  exact .operator operates length fun x mem => each mem

theorem ofValues {vs vs' : List Expr} (value : e.Mirrors P V e') (values : List.Forall₂ (Mirrors P V) vs vs') :
    (Expr.subquery (.inValues e vs)).Mirrors P V (.subquery (.inValues e' vs')) := by
  obtain ⟨length, each⟩ := List.forall₂_iff_zip.1 values
  exact .inValues value length fun v mem => each mem

theorem ofParts (operates : e.isOperator = true) (parts : ∀ x ∈ e.operands, x.Mirrors P V x) : e.Mirrors P V e := by
  have same : e.mapOperands (fun x => x) = e.withOperands e.operands := by rw [mapOperands_eq, List.map_id']
  have mirrors := ofOperands operates (List.forall₂_same.2 parts)
  rwa [← same, mapOperands_self fun _ _ => rfl] at mirrors

theorem refl (scalar : e.Scalar P) : e.Mirrors P V e := by
  induction scalar with
  | leaf leaf => exact .leaf leaf
  | column inside => exact .column inside
  | operator operates _ ih => exact ofParts operates ih
  | inValues _ _ value values => exact ofValues value (List.forall₂_same.2 values)

theorem binary (op : BinaryOp) (left : l.Mirrors P V l') (right : r.Mirrors P V r') : (Expr.binary op l r).Mirrors P V (.binary op l' r') :=
  ofOperands (e := .binary op l r) rfl (.cons left (.cons right .nil))

theorem not (mirrors : e.Mirrors P V e') : e.not.Mirrors P V e'.not := ofOperands (e := e.not) rfl (.cons mirrors .nil)

theorem joined (op : BinaryOp) (b : Bool) {parts parts' : List Expr} (mirrors : List.Forall₂ (Mirrors P V) parts parts') :
    ((Expr.joined op parts).getD (.ofBool b)).Mirrors P V ((Expr.joined op parts').getD (.ofBool b)) := by
  cases mirrors with
  | nil => exact .leaf rfl
  | @cons x x' _ _ first rest =>
    rw [Expr.joined, Expr.joined, Option.getD_some, Option.getD_some]
    induction rest generalizing x x' with
    | nil => exact first
    | cons second _ ih => exact ih (binary op first second)

theorem ty (mirrors : e.Mirrors P V e') : e'.ty = e.ty := by
  induction mirrors with
  | leaf | column | inValues => rfl
  | item _ _ ty => exact ty
  | operator operates length _ ih =>
    refine ty_withOperands operates ?_
    rw [← List.forall₂_eq_eq_eq, List.forall₂_map_left_iff, List.forall₂_map_right_iff]
    exact (List.forall₂_iff_zip.2 ⟨length, fun mem => ih _ mem⟩).flip

theorem isColumnTy (mirrors : e.Mirrors P V e') : e'.isColumnTy = e.isColumnTy := by rw [Expr.isColumnTy, mirrors.ty]; rfl

/-- Where binding looks into an expression, it finds the same in both. -/
theorem operands (mirrors : e.Mirrors P V e') (operates : e.isOperator = true) (looks : ¬ e.IsItem) :
    ∃ es, e' = e.withOperands es ∧ List.Forall₂ (Mirrors P V) e.operands es := by
  cases mirrors with
  | leaf leaf => cases e <;> simp [isLeaf, isOperator] at leaf operates
  | column => cases operates
  | item first => exact absurd first looks
  | operator _ length parts => exact ⟨_, rfl, List.forall₂_iff_zip.2 ⟨length, fun mem => parts _ mem⟩⟩
  | inValues => cases operates

theorem not_projection {p : Projection} (mirrors : (Expr.projection p).Mirrors P V e') : False := by
  cases mirrors with
  | leaf leaf => cases leaf
  | item first => exact first.statement p rfl
  | operator operates => cases operates

theorem ne_projection (mirrors : e.Mirrors P V e') (p : Projection) : e' ≠ .projection p := by
  intro same
  cases mirrors with
  | leaf leaf => rw [same] at leaf; cases leaf
  | column => cases same
  | item _ second => exact second.statement p same
  | operator operates => rw [← isOperator_withOperands, same] at operates; cases operates
  | inValues => cases same

theorem isItem (mirrors : e.Mirrors P V e') (item : e.IsItem) : e'.IsItem := by
  refine ⟨mirrors.isColumnTy.trans item.fits, mirrors.ne_projection, ?_⟩
  intro name fields t same
  cases mirrors with
  | leaf | column => exact item.known name fields t same
  | item _ second => exact second.known name fields t same
  | operator operates => rw [← isOperator_withOperands, same] at operates; cases operates
  | inValues => cases same

/-- Mirrored expressions have the same value where the items have. -/
theorem eval {D : Type} {I : Interpretation D} {db : Database D} {ρ σ : Env D} {g g' : List (Env D)} (mirrors : e.Mirrors P V e')
    (columns : ∀ c, P c → ρ c.label c.name = σ c.label c.name) (items : ∀ x x', V x x' → x.eval I db ρ g = x'.eval I db σ g') :
    e.eval I db ρ g = e'.eval I db σ g' := by
  induction mirrors with
  | @leaf e leaf => cases e <;> simp only [isLeaf, Bool.false_eq_true] at leaf <;> rfl
  | column inside => exact columns _ inside
  | item _ _ _ pair => exact items _ _ pair
  | operator operates length _ ih =>
    refine (eval_withOperands I db operates ?_).symm
    rw [← List.forall₂_eq_eq_eq, List.forall₂_map_left_iff, List.forall₂_map_right_iff]
    exact (List.forall₂_iff_zip.2 ⟨length, fun mem => ih _ mem⟩).flip.imp fun _ _ same => same.symm
  | @inValues e e' vs vs' _ length _ value values =>
    have listed : vs.map (Expr.eval I db ρ g) = vs'.map (Expr.eval I db σ g') := by
      rw [← List.forall₂_eq_eq_eq, List.forall₂_map_left_iff, List.forall₂_map_right_iff]
      exact List.forall₂_iff_zip.2 ⟨length, fun mem => values _ mem⟩
    rw [Expr.eval, Expr.eval, Subquery.eval, Subquery.eval, evalAll_eq, evalAll_eq, value, listed]

end Expr.Mirrors

/-! ## Records -/

section Records

theorem Expr.IsItem.not_record {t : RecordTy} {ms : List Named} : ¬ (Expr.record t ms).IsItem := by
  rintro ⟨⟨⟩, -, -⟩

theorem Expr.Mirrors.record {t : RecordTy} {ms : List Named} (mirrors : (Expr.record t ms).Mirrors P V e') :
    ∃ ms', e' = .record t ms' ∧ List.Forall₂ (fun m m' => m'.name = m.name ∧ m.expr.Mirrors P V m'.expr) ms ms' := by
  obtain ⟨es, rfl, parts⟩ := mirrors.operands rfl IsItem.not_record
  refine ⟨_, rfl, ?_⟩
  rw [Expr.operands, List.forall₂_map_left_iff] at parts
  clear mirrors
  induction parts with
  | nil => exact .nil
  | cons first _ ih => exact .cons ⟨rfl, first⟩ ih

theorem Expr.Mirrors.retype {t t' : RecordTy} {ms ms' : List Named} (mirrors : (Expr.record t ms).Mirrors P V (.record t ms')) :
    (Expr.record t' ms).Mirrors P V (.record t' ms') := by
  obtain ⟨es, same, parts⟩ := mirrors.operands rfl IsItem.not_record
  cases same
  exact .ofOperands (e := .record t' ms) rfl parts

theorem Expr.withOperands_eq_record {t : RecordTy} {ms : List Named} {es : List Expr} (same : e.withOperands es = .record t ms) :
    ∃ ms', e = .record t ms' := by
  unfold withOperands at same
  split at same <;> cases same
  · exact ⟨_, rfl⟩
  · exact ⟨_, rfl⟩

theorem Expr.Mirrors.plain (mirrors : e.Mirrors P V e') (plain : ∀ t ms, e ≠ .record t ms) : ∀ t ms, e' ≠ .record t ms := by
  intro t ms same
  cases mirrors with
  | leaf | column => exact plain t ms same
  | item _ second => exact IsItem.not_record (same ▸ second)
  | operator =>
    obtain ⟨ms', rfl⟩ := withOperands_eq_record same
    exact plain t ms' rfl
  | inValues => cases same

theorem equality_plain (plain : (∀ t ms, l ≠ .record t ms) ∨ ∀ t ms, r ≠ .record t ms) : equality l r = .ok (.binary .eq l r) := by
  unfold equality
  split
  · next t ms t' ms' => exact (plain.elim (fun left => left t ms rfl) fun right => right t' ms' rfl).elim
  · rfl

theorem Compared.mirrors {ms ms' ns ns' : List Named} {parts parts' : List Expr}
    (compared : Compared (fun l r e => ∀ l' r' e', l.Mirrors P V l' → r.Mirrors P V r' → equality l' r' = .ok e' → e.Mirrors P V e') ms ns parts)
    (left : List.Forall₂ (fun m m' => m'.name = m.name ∧ m.expr.Mirrors P V m'.expr) ms ms')
    (right : List.Forall₂ (fun m m' => m'.name = m.name ∧ m.expr.Mirrors P V m'.expr) ns ns')
    (h : memberEqualities ms' ns' = .ok parts') : List.Forall₂ (Expr.Mirrors P V) parts parts' := by
  induction compared generalizing ms' ns' parts' with
  | nil =>
    cases left
    cases h
    exact .nil
  | cons head _ ih =>
    obtain _ | @⟨_, m', _, _, first, left⟩ := left
    obtain _ | @⟨_, n', _, _, second, right⟩ := right
    cases m'
    cases n'
    rw [memberEqualities] at h
    obtain ⟨part, equal, h⟩ := Result.bind_eq_ok.1 h
    obtain ⟨others, rest, h⟩ := Result.bind_eq_ok.1 h
    cases h
    exact .cons (head _ _ _ first.2 second.2 equal) (ih left right rest)

theorem equality_mirrors : EqualityCases fun l r e => ∀ l' r' e', l.Mirrors P V l' → r.Mirrors P V r' → equality l' r' = .ok e' →
    e.Mirrors P V e' where
  whole either l' r' e' left right h := by
    rw [equality_plain (either.imp left.plain right.plain)] at h
    cases h
    exact left.binary .eq right
  members compared l' r' e' left right h := by
    obtain ⟨ms', rfl, members⟩ := left.record
    obtain ⟨ns', rfl, others⟩ := right.record
    rw [equality] at h
    split at h
    · cases h
    · obtain ⟨parts', compared', rfl⟩ := Result.map_eq_ok.1 h
      exact .joined .and true (Compared.mirrors compared members others compared')

theorem operator_mirrors {op : BinaryOp} (left : l.Mirrors P V l') (right : r.Mirrors P V r') (h : operator op l r = .ok e)
    (h' : operator op l' r' = .ok e') : e.Mirrors P V e' := by
  by_cases equal : op = .eq
  · subst equal
    exact (equality_mirrors.yields l r).ok e h _ _ _ left right h'
  by_cases records : (∃ t ms, l = .record t ms) ∧ ∃ t ms, r = .record t ms
  · obtain ⟨⟨t, ms, rfl⟩, u, ns, rfl⟩ := records
    obtain ⟨ms', rfl, -⟩ := left.record
    obtain ⟨ns', rfl, -⟩ := right.record
    cases op
    case eq => cases equal rfl
    case ne =>
      obtain ⟨x, compared, rfl⟩ := Result.map_eq_ok.1 h
      obtain ⟨x', compared', rfl⟩ := Result.map_eq_ok.1 h'
      exact ((equality_mirrors.yields _ _).ok x compared _ _ _ left right compared').not
    all_goals
      cases h
      cases h'
      exact left.binary _ right
  · have either : (∀ t ms, l ≠ .record t ms) ∨ ∀ t ms, r ≠ .record t ms := by simpa only [not_and_or, not_exists] using records
    have bound {l r : Expr} (either : (∀ t ms, l ≠ .record t ms) ∨ ∀ t ms, r ≠ .record t ms) : operator op l r = .ok (.binary op l r) := by
      unfold operator
      split
      · cases equal rfl
      · next t ms t' ms' => exact (either.elim (fun left => left t ms rfl) fun right => right t' ms' rfl).elim
      · rfl
    rw [bound either] at h
    rw [bound (either.imp left.plain right.plain)] at h'
    cases h
    cases h'
    exact left.binary op right

end Records

/-! ## Members -/

section Members

variable {name : String}

theorem scalarMember_mirrors (mirrors : x.Mirrors P V x') (h : member.scalarMember name x = .ok e)
    (h' : member.scalarMember name x' = .ok e') : e.Mirrors P V e' := by
  unfold member.scalarMember at h h'
  simp only [mirrors.ty] at h h'
  split at h
  · next absent =>
    rw [if_pos absent] at h'
    cases h
    cases h'
    exact mirrors.binary .ne (.leaf rfl)
  · next absent =>
    rw [if_neg absent] at h'
    split at h
    · next value =>
      rw [if_pos value] at h'
      cases h
      cases h'
      exact mirrors
    · next value =>
      rw [if_neg value] at h'
      cases found : x.ty.member? name with
      | none =>
        rw [found] at h
        cases h
      | some t =>
        rw [found] at h h'
        cases h
        cases h'
        exact .ofOperands (e := .member x name) rfl (.cons mirrors .nil)

theorem member_item (item : e.IsItem) : member name e = member.scalarMember name e := by
  obtain ⟨fits, -, known⟩ := item
  unfold member
  split
  · cases fits
  · next recordName fields t => cases known recordName fields t rfl
  · next test yes no => exact if_pos fits
  · cases fits
  · rfl

/-- Whether members may be taken out of an expression of this form. -/
def Expr.hasParts : Expr → Bool
  | .record _ _ | .conditional _ _ _ | .group _ _ | .constant _ _ => true
  | _ => false

theorem member_plain (plain : e.hasParts = false) : member name e = member.scalarMember name e := by
  cases e <;> first | rfl | cases plain

theorem Expr.hasParts_withOperands (e : Expr) (es : List Expr) : (e.withOperands es).hasParts = e.hasParts := by
  unfold withOperands
  split <;> rfl

theorem member_mirrors : ∀ {x' e e' : Expr}, x.Mirrors P V x' → member name x = .ok e → member name x' = .ok e' → e.Mirrors P V e' := by
  have items {x x' e e' : Expr} (item : x.IsItem) (mirrors : x.Mirrors P V x') (h : member name x = .ok e) (h' : member name x' = .ok e') :
      e.Mirrors P V e' := by
    rw [member_item item] at h
    rw [member_item (mirrors.isItem item)] at h'
    exact scalarMember_mirrors mirrors h h'
  have leaf {x x' e e' : Expr} (single : x.isOperator = false) (mirrors : x.Mirrors P V x') (h : member name x = .ok e)
      (h' : member name x' = .ok e') : e.Mirrors P V e' := by
    have same (scalar : x.Scalar P) (h' : member name x = .ok e') : e.Mirrors P V e' := by
      rw [h] at h'
      cases h'
      exact .refl (((Expr.Scalar.closed P).member scalar).ok e h)
    cases mirrors with
    | leaf leaf => exact same (.leaf leaf) h'
    | column inside => exact same (.column inside) h'
    | item first second ty pair => exact items first (.item first second ty pair) h h'
    | operator operates => rw [operates] at single; cases single
    | inValues value length values => exact scalarMember_mirrors (.inValues value length values) h h'
  induction x using Expr.induction with
  | operator x operates ih =>
    intro x' e e' mirrors h h'
    by_cases item : x.IsItem
    · exact items item mirrors h h'
    · obtain ⟨es, rfl, parts⟩ := mirrors.operands operates item
      cases plain : x.hasParts with
      | false =>
        rw [member_plain plain] at h
        rw [member_plain ((x.hasParts_withOperands es).trans plain)] at h'
        exact scalarMember_mirrors mirrors h h'
      | true =>
        cases x <;> simp only [Expr.hasParts, Bool.false_eq_true] at plain
        case constant => cases operates
        case record r ms =>
          obtain ⟨ms', same, members⟩ := mirrors.record
          rw [same] at h'
          rw [member] at h h'
          clear ih mirrors item parts same operates plain
          induction members with
          | nil => cases h
          | @cons m m' ms ms' first _ ih =>
            rw [List.find?_cons] at h h'
            rw [first.1] at h'
            cases found : m.name == name with
            | true =>
              rw [found] at h h'
              cases h
              cases h'
              exact first.2
            | false =>
              rw [found] at h h'
              exact ih h h'
        case conditional test yes no =>
          obtain _ | ⟨tests, _ | ⟨takes, _ | ⟨refuses, ⟨⟩⟩⟩⟩ := parts
          simp only [Expr.operands, List.forall_mem_cons] at ih
          rw [Expr.withOperands] at h'
          rw [member] at h h'
          have fits : ¬ yes.isColumnTy = true := fun fits => item ⟨fits, by rintro _ ⟨⟩, by rintro _ _ _ ⟨⟩⟩
          rw [if_neg fits] at h
          rw [if_neg (takes.isColumnTy ▸ fits)] at h'
          obtain ⟨yes₁, taken, h⟩ := Result.bind_eq_ok.1 h
          obtain ⟨no₁, refused, h⟩ := Result.bind_eq_ok.1 h
          obtain ⟨yes₂, taken', h'⟩ := Result.bind_eq_ok.1 h'
          obtain ⟨no₂, refused', h'⟩ := Result.bind_eq_ok.1 h'
          cases h
          cases h'
          exact .ofOperands (e := .conditional test yes₁ no₁) rfl
            (.cons tests (.cons (ih.2.1 takes taken taken') (.cons (ih.2.2.1 refuses refused refused') .nil)))
        case group key elements =>
          obtain _ | ⟨keys, _ | ⟨rests, ⟨⟩⟩⟩ := parts
          rw [Expr.withOperands] at h' mirrors
          rw [member] at h h'
          split at h
          · next named =>
            rw [if_pos named] at h'
            cases h
            cases h'
            exact keys
          · next named =>
            rw [if_neg named] at h'
            exact scalarMember_mirrors mirrors h h'
  | _ => exact leaf rfl

end Members

/-! ## Calls -/

theorem memoryItem_scalar (element : Ty) (v : Value) : (memoryItem element v).Scalar P := by
  rw [memoryItem_eq]
  split <;> exact .leaf rfl

theorem containedInMemory_mirrors (mirrors : x.Mirrors P V x') (values : List Value) (element : Ty) :
    (containedInMemory x values element).Mirrors P V (containedInMemory x' values element) := by
  have items : ∀ v ∈ values.map (memoryItem element), v.Mirrors P V v :=
    List.forall_mem_map.2 fun v _ => .refl (P := P) (memoryItem_scalar element v)
  unfold containedInMemory
  split
  · exact .leaf rfl
  · split
    · exact .ofValues mirrors (List.forall₂_same.2 items)
    · refine .joined .or false ?_
      rw [List.forall₂_map_left_iff, List.forall₂_map_right_iff]
      exact List.forall₂_same.2 fun v mem => mirrors.binary .eq (items v mem)

theorem Ty.isSequence_of_isColumn {t : Ty} (fits : t.isColumn = true) : t.isSequence = false := by
  rw [isSequence]
  fun_induction nonNull t with
  | case1 base ih => exact ih fits
  | case2 t plain => cases t <;> first | rfl | cases fits

/-- Only a known list is a sequence here, and it is the same one. -/
theorem sequenceOf_mirrors (mirrors : x.Mirrors P V x') (sequential : x.ty.isSequence = true) {s s' : Sequence} (h : sequenceOf x = .ok s)
    (h' : sequenceOf x' = .ok s') : s = s' ∧ ∃ values element, s = .memory values element := by
  have closed {x : Expr} (mirrors : x.Mirrors P V x') (operates : x.isOperator = true) (looks : ¬ x.IsItem) : sequenceOf x ≠ .ok s := by
    intro h
    unfold sequenceOf at h
    split at h <;> cases h
    · cases operates
    · obtain ⟨es, -, parts⟩ := mirrors.operands operates looks
      obtain _ | ⟨-, _ | ⟨elements, ⟨⟩⟩⟩ := parts
      exact elements.not_projection
    · cases operates
  by_cases item : x.IsItem
  · rw [Ty.isSequence_of_isColumn item.fits] at sequential
    cases sequential
  · cases mirrors with
    | @leaf x leaf =>
      rw [h] at h'
      cases h'
      refine ⟨rfl, ?_⟩
      unfold sequenceOf at h
      split at h <;> cases h
      · cases leaf
      · cases leaf
      · exact ⟨_, _, rfl⟩
    | column => cases h
    | item first => exact absurd first item
    | operator operates length parts => exact absurd h (closed (.operator operates length parts) operates item)
    | inValues => cases h

theorem call_mirrors {m : Method} {args args' : List Expr} {a a' b b' : Alias} (target : x.Mirrors P V x')
    (arguments : List.Forall₂ (Expr.Mirrors P V) args args') (h : call m x args a = .ok (e, a')) (h' : call m x' args' b = .ok (e', b')) :
    e.Mirrors P V e' := by
  have known {c c' : Bool} (same : c' = c)
      (h : (if c then pure (.call m x args) else fail (.unsupportedExpression (.member x.ty.name m.name)) : Binding Expr) a = .ok (e, a'))
      (h' : (if c' then pure (.call m x' args') else fail (.unsupportedExpression (.member x'.ty.name m.name)) : Binding Expr) b = .ok (e', b')) :
      e.Mirrors P V e' := by
    subst same
    split at h
    · rw [if_pos ‹_›] at h'
      obtain ⟨rfl, rfl⟩ := pure_eq_ok.1 h
      obtain ⟨rfl, rfl⟩ := pure_eq_ok.1 h'
      exact .ofOperands (e := .call m x args) rfl (.cons target arguments)
    · cases fail_eq_ok.1 h
  unfold call at h h'
  simp only [← arguments.length_eq] at h'
  split at h
  · cases fail_eq_ok.1 h
  · split at h
    · cases fail_eq_ok.1 h
    · next form count =>
      rw [if_neg form, if_neg count] at h'
      have applies (m : Method) : methodApplies m x'.ty = methodApplies m x.ty := by rw [target.ty]
      cases arguments with
      | nil => cases m <;> exact known (applies _) h h'
      | @cons y y' args args' first rest =>
        cases m
        case contains =>
          dsimp only at h h'
          split at h
          · exact target.not_projection.elim
          split at h'
          · cases target.ne_projection _ rfl
          rw [target.ty, Bool.or_false] at h'
          rw [Bool.or_false] at h
          cases sequential : x.ty.isSequence with
          | false =>
            rw [sequential] at h h'
            exact known (applies _) h (target.ty.symm ▸ h')
          | true =>
            rw [sequential] at h h'
            obtain ⟨s, a₁, taken, h⟩ := bind_eq_ok.1 h
            obtain ⟨s', b₁, taken', h'⟩ := bind_eq_ok.1 h'
            obtain ⟨found, rfl⟩ := ofResult_eq_ok.1 taken
            obtain ⟨found', rfl⟩ := ofResult_eq_ok.1 taken'
            obtain ⟨rfl, values, element, rfl⟩ := sequenceOf_mirrors target sequential found found'
            obtain ⟨rfl, rfl⟩ := pure_eq_ok.1 h
            obtain ⟨rfl, rfl⟩ := pure_eq_ok.1 h'
            exact containedInMemory_mirrors first values element
        case equals =>
          dsimp only at h h'
          split at h
          · next fits =>
            rw [if_pos ((applies _).trans fits)] at h'
            obtain ⟨compared, rfl⟩ := ofResult_eq_ok.1 h
            obtain ⟨compared', rfl⟩ := ofResult_eq_ok.1 h'
            exact (equality_mirrors.yields _ _).ok _ compared _ _ _ target first compared'
          · cases fail_eq_ok.1 h
        all_goals exact known (applies _) h h'

/-! ## Bodies -/

section Bodies

variable {catalog : Catalog} {scope scope' : Scope}

/-- Where it is bound in both scopes, an expression gives mirrored ones. -/
def Expr.BindsMirrored (P : ColumnRef → Prop) (V : Expr → Expr → Prop) (catalog : Catalog) (scope scope' : Scope) (x : Expr) : Prop :=
  ∀ {a a' b b' : Alias} {e e' : Expr}, x.bind catalog scope a = .ok (e, a') → x.bind catalog scope' b = .ok (e', b') → e.Mirrors P V e'

theorem bindAll_mirrors {es : List Expr} (each : ∀ x ∈ es, x.BindsMirrored P V catalog scope scope') {a a' b b' : Alias}
    {xs xs' : List Expr} (h : bindAll catalog scope es a = .ok (xs, a')) (h' : bindAll catalog scope' es b = .ok (xs', b')) :
    List.Forall₂ (Expr.Mirrors P V) xs xs' := by
  have bound := bindAll_eq_ok h
  have bound' := bindAll_eq_ok h'
  clear h h'
  induction bound generalizing xs' with
  | nil =>
    cases bound'
    exact .nil
  | cons head _ ih =>
    cases bound' with
    | cons head' tail' =>
      rw [List.forall_mem_cons] at each
      obtain ⟨_, _, first⟩ := head
      obtain ⟨_, _, first'⟩ := head'
      exact .cons (each.1 first first') (ih each.2 tail')

theorem Expr.bindsMirrored_operator {x : Expr} (operates : x.isOperator = true) (plain : ∀ key elements, x ≠ .group key elements)
    (ih : ∀ y ∈ x.operands, y.BindsMirrored P V catalog scope scope') : x.BindsMirrored P V catalog scope scope' := by
  intro a a' b b' e e' h h'
  rw [bind_assembles operates plain] at h h'
  obtain ⟨es, a₁, bound, made⟩ := bind_eq_ok.1 h
  obtain ⟨es', b₁, bound', made'⟩ := bind_eq_ok.1 h'
  have all := bindAll_mirrors ih bound bound'
  have length : es.length = x.operands.length := (bindAll_eq_ok bound).length_eq.symm
  have rebuilt : (x.withOperands es).Mirrors P V (x.withOperands es') := by
    rw [← operands_withOperands operates length] at all
    have mirrors := Mirrors.ofOperands ((x.isOperator_withOperands es).trans operates) all
    rwa [withOperands_withOperands operates length (all.length_eq.symm.trans (by rw [operands_withOperands operates length, length]))] at mirrors
  cases x <;> simp only [isOperator, Bool.false_eq_true] at operates
  case binary op l r =>
    obtain ⟨l, r, rfl⟩ := List.length_eq_two.1 length
    obtain - | ⟨left, - | ⟨right, - | -⟩⟩ := all
    exact operator_mirrors left right (ofResult_eq_ok.1 made).1 (ofResult_eq_ok.1 made').1
  case member y name =>
    obtain ⟨y, rfl⟩ := List.length_eq_one_iff.1 length
    obtain - | ⟨operand, - | -⟩ := all
    exact member_mirrors operand (ofResult_eq_ok.1 made).1 (ofResult_eq_ok.1 made').1
  case call m y args =>
    cases all with
    | nil => cases length
    | cons target arguments => exact call_mirrors target arguments made made'
  case record r ms =>
    obtain ⟨rfl, -⟩ := pure_eq_ok.1 made
    obtain ⟨rfl, -⟩ := pure_eq_ok.1 made'
    have rebuilt : (Expr.record r (withExprs ms es)).Mirrors P V (.record r (withExprs ms es')) := rebuilt
    obtain ⟨_, same, members⟩ := rebuilt.record
    cases same
    have fields : (withExprs ms es').map (fun m => (m.name, m.expr.ty)) = (withExprs ms es).map fun m => (m.name, m.expr.ty) :=
      map_eq_of_forall₂ members fun _ _ same => by rw [same.1, same.2.ty]
    rw [fields]
    exact rebuilt.retype
  case group key elements => cases plain key elements rfl
  all_goals
    obtain ⟨rfl, -⟩ := pure_eq_ok.1 made
    obtain ⟨rfl, -⟩ := pure_eq_ok.1 made'
    exact rebuilt

theorem lookup_mirrors (scopes : List.Forall₂ (fun b b' => b'.1 = b.1 ∧ b.2.Mirrors P V b'.2) scope scope') (name : String) :
    Option.Rel (Expr.Mirrors P V) (scope.lookup name) (scope'.lookup name) := by
  induction scopes with
  | nil => exact .none
  | @cons b b' _ _ first _ ih =>
    obtain ⟨_, x⟩ := b
    obtain ⟨known, x'⟩ := b'
    obtain ⟨rfl, mirrors⟩ := first
    rw [List.lookup_cons, List.lookup_cons]
    cases name == known with
    | true => exact .some mirrors
    | false => exact ih

/-- A body without queries, bound in two scopes whose parameters stand for mirrored expressions. -/
theorem Expr.QueryFree.mirrors {body : Expr} (free : body.QueryFree)
    (scopes : List.Forall₂ (fun b b' => b'.1 = b.1 ∧ b.2.Mirrors P V b'.2) scope scope') : body.BindsMirrored P V catalog scope scope' := by
  induction free with
  | operator operates plain _ ih => exact bindsMirrored_operator operates plain ih
  | @leaf x leaf =>
    intro a a' b b' e e' h h'
    cases x <;> simp only [isLeaf, Bool.false_eq_true] at leaf <;> rw [bind.eq_def] at h h'
    case param name =>
      have found := lookup_mirrors scopes name
      dsimp only at h h'
      generalize scope.lookup name = x at found h
      generalize scope'.lookup name = x' at found h'
      cases found with
      | none => cases fail_eq_ok.1 h
      | some mirrors =>
        obtain ⟨rfl, -⟩ := pure_eq_ok.1 h
        obtain ⟨rfl, -⟩ := pure_eq_ok.1 h'
        exact mirrors
    all_goals
      obtain ⟨rfl, -⟩ := pure_eq_ok.1 h
      obtain ⟨rfl, -⟩ := pure_eq_ok.1 h'
      exact .leaf rfl

end Bodies

end Relational

import Mathlib.Data.List.Forall2
import Mathlib.Tactic.Common
import Relational.Proofs.Sql.Reading
import Relational.Sql.Tree

/-!
# Phrases

What a reader has on its stack after some tokens depends on the tokens alone: the operators that
wait for their right end, and the last operand (`Phrase`). Tokens read as a phrase if that holds on
every stack on which an operand can begin (`Reads`). Phrases are put together operator by operator:
an operator keeps its operands apart if no operator that its left operand shows at the right end is
looser than it, and every operator that its right operand shows at the left end is tighter.
-/

namespace Relational.Sql

namespace Reader

@[simp] theorem run_nil (r : Reader) : r.run [] = some r := rfl

@[simp] theorem run_cons (r : Reader) (t : Token) (ts : List Token) :
    r.run (t :: ts) = (r.step t).bind (run · ts) := rfl

theorem run_append (r : Reader) (ts us : List Token) :
    r.run (ts ++ us) = (r.run ts).bind (run · us) := by
  simp only [run, List.foldlM_append]
  rfl

end Reader

open Reader

/-! ## Phrases -/

/-- What a text leaves on the stack: the operators that wait, the innermost first, and the last operand. -/
structure Phrase where
  pending : List Frame
  last : Term
  /-- The level of the loosest operator that the text shows to what stands before it. -/
  leading : Nat
  startsNot : Bool
  operators : ∀ f ∈ pending, f.level?.isSome = true

namespace Phrase

/-- The term of the text alone. -/
def term (p : Phrase) : Term := (reduce 0 p.pending p.last).2

/-- The level of the loosest operator that the text shows to what stands behind it. -/
def trailing (p : Phrase) : Nat := (p.pending.map fun f => f.level?.getD tightest).foldr min tightest

/-- A text that shows no operator. -/
def atom (t : Term) : Phrase := ⟨[], t, tightest, false, by simp⟩

def binary (l : Phrase) (op : BinaryOp) (r : Phrase) : Phrase where
  pending := r.pending ++ [.binary l.term op]
  last := r.last
  leading := min (level op) l.leading
  startsNot := l.startsNot
  operators := by
    intro f mem
    rcases List.mem_append.1 mem with mem | mem
    · exact r.operators f mem
    · rw [List.mem_singleton.1 mem]
      rfl

def unary (op : UnaryOp) (x : Phrase) : Phrase where
  pending := x.pending ++ [.unary op]
  last := x.last
  leading := tightest
  startsNot := op == .not
  operators := by
    intro f mem
    rcases List.mem_append.1 mem with mem | mem
    · exact x.operators f mem
    · rw [List.mem_singleton.1 mem]
      rfl

def within (x : Phrase) (items : List Term) : Phrase :=
  ⟨[], .within x.term items, min withinLevel x.leading, x.startsNot, by simp⟩

def matching (l r : Phrase) : Phrase where
  pending := r.pending ++ [.matching l.term]
  last := r.last
  leading := min withinLevel l.leading
  startsNot := l.startsNot
  operators := by
    intro f mem
    rcases List.mem_append.1 mem with mem | mem
    · exact r.operators f mem
    · rw [List.mem_singleton.1 mem]
      rfl

theorem reduce_operators {n : Nat} {gs : List Frame} (ops : ∀ f ∈ gs, f.level?.isSome = true)
    (tight : ∀ f ∈ gs, n ≤ f.level?.getD tightest) (fs : List Frame) (t : Term) :
    reduce n (gs ++ fs) t = reduce n fs (reduce 0 gs t).2 := by
  induction gs generalizing t with
  | nil => simp [reduce]
  | cons g gs ih =>
    have rest := ih (fun f mem => ops f (List.mem_cons_of_mem _ mem)) fun f mem => tight f (List.mem_cons_of_mem _ mem)
    have op := ops g List.mem_cons_self
    have least := tight g List.mem_cons_self
    cases g <;> simp only [Frame.level?, Option.isSome_none, Bool.false_eq_true] at op <;>
      simp only [Frame.level?, Option.getD_some] at least <;>
      simp only [List.cons_append, reduce, least, Nat.zero_le, if_true, rest]

theorem le_foldr_min {n : Nat} (top : Nat) (ns : List Nat) : n ≤ ns.foldr min top ↔ n ≤ top ∧ ∀ k ∈ ns, n ≤ k := by
  induction ns with
  | nil => simp
  | cons k ns ih => simp only [List.foldr_cons, Nat.le_min, ih, List.forall_mem_cons]; tauto

theorem reduce_pending (p : Phrase) {n : Nat} (tight : n ≤ p.trailing) (fs : List Frame) :
    reduce n (p.pending ++ fs) p.last = reduce n fs p.term := by
  rw [trailing, le_foldr_min] at tight
  exact reduce_operators p.operators (fun f mem => tight.2 _ (List.mem_map_of_mem mem)) fs p.last

theorem term_atom (t : Term) : (atom t).term = t := rfl

theorem reduce_pending_all (p : Phrase) : reduce 0 p.pending p.last = ([], p.term) := by
  have all := p.reduce_pending (Nat.zero_le _) []
  rw [List.append_nil] at all
  exact all

theorem term_binary (l : Phrase) (op : BinaryOp) (r : Phrase) : (binary l op r).term = .binary op l.term r.term := by
  have all := r.reduce_pending (Nat.zero_le _) [.binary l.term op]
  simp only [term, binary] at all ⊢
  rw [all]
  simp [reduce]

theorem term_unary (op : UnaryOp) (x : Phrase) : (unary op x).term = .unary op x.term := by
  have all := x.reduce_pending (Nat.zero_le _) [.unary op]
  simp only [term, unary] at all ⊢
  rw [all]
  simp [reduce]

theorem term_matching (l r : Phrase) : (matching l r).term = .matching l.term r.term := by
  have all := r.reduce_pending (Nat.zero_le _) [.matching l.term]
  simp only [term, matching] at all ⊢
  rw [all]
  simp [reduce]

theorem term_within (x : Phrase) (items : List Term) : (within x items).term = .within x.term items := rfl

theorem foldr_min_concat (top k : Nat) (ns : List Nat) : (ns ++ [k]).foldr min top = min k (ns.foldr min top) := by
  induction ns with
  | nil => rfl
  | cons n ns ih => rw [List.cons_append, List.foldr_cons, ih, List.foldr_cons, Nat.min_left_comm]

theorem trailing_unary (op : UnaryOp) (x : Phrase) : (unary op x).trailing = min (prefixLevel op) x.trailing := by
  rw [trailing, unary, List.map_append]
  exact foldr_min_concat _ _ _

end Phrase

/-- A stack on which a phrase can begin: the operator on top is looser than what the phrase shows to
its left. -/
structure Opens (fs : List Frame) (p : Phrase) : Prop where
  looser : ∀ f ∈ fs.head?, ∀ k ∈ f.level?, k < p.leading
  takesOperand : ∀ f ∈ fs.head?, f.takesOperand = true
  separate : p.startsNot = true → ∀ f ∈ fs.head?, ∀ l, f ≠ .binary l .eq

namespace Opens

variable {fs : List Frame} {p : Phrase}

/-- An operator does not finish what is looser. -/
theorem reduce_eq (opens : Opens fs p) {n : Nat} (le : p.leading ≤ n) (t : Term) :
    reduce n fs t = (fs, t) := by
  cases fs with
  | nil => rfl
  | cons f fs =>
    have looser := opens.looser f rfl
    cases f with
    | binary l op => exact if_neg (Nat.not_le.2 (Nat.lt_of_lt_of_le (looser _ rfl) le))
    | unary op => exact if_neg (Nat.not_le.2 (Nat.lt_of_lt_of_le (looser _ rfl) le))
    | matching l => exact if_neg (Nat.not_le.2 (Nat.lt_of_lt_of_le (looser _ rfl) le))
    | _ => rfl

theorem of_bracket {f : Frame} (noLevel : f.level? = none) (takesOperand : f.takesOperand = true)
    (fs : List Frame) (p : Phrase) : Opens (f :: fs) p := by
  refine ⟨?_, ?_, ?_⟩
  · rintro g ⟨⟩ k known
    rw [noLevel] at known
    cases known
  · rintro g ⟨⟩
    exact takesOperand
  · rintro _ g ⟨⟩ l rfl
    cases noLevel

/-- An operator lets a tighter phrase begin; `NOT` behind `IS` belongs to it. -/
theorem of_operator {f : Frame} {k : Nat} (known : f.level? = some k) (tighter : k < p.leading)
    (separate : p.startsNot = true → ∀ l, f ≠ .binary l .eq) (fs : List Frame) :
    Opens (f :: fs) p := by
  refine ⟨?_, ?_, ?_⟩
  · rintro g ⟨⟩ j level
    rw [known] at level
    cases level
    exact tighter
  · rintro g ⟨⟩
    cases f <;> first | rfl | cases known
  · rintro starts g ⟨⟩
    exact separate starts

/-- What stands first in a phrase can begin where the phrase can. -/
theorem first (opens : Opens fs p) {q : Phrase} (le : p.leading ≤ q.leading)
    (same : q.startsNot = p.startsNot) : Opens fs q :=
  ⟨fun f mem k known => Nat.lt_of_lt_of_le (opens.looser f mem k known) le, opens.takesOperand,
    fun starts => opens.separate (same ▸ starts)⟩

end Opens

/-- Tokens that read as a phrase wherever an operand can begin. -/
def Reads (ts : List Token) (p : Phrase) : Prop :=
  ∀ fs, Opens fs p → run ⟨fs, none⟩ ts = some ⟨p.pending ++ fs, some p.last⟩

/-- The tokens alone are read as the term of their phrase. -/
theorem Reads.finish {ts : List Token} {p : Phrase} (reads : Reads ts p) :
    (run ⟨[], none⟩ ts).bind Reader.finish = some p.term := by
  rw [reads [] ⟨by simp, by simp, by simp⟩, List.append_nil]
  simp [Reader.finish, p.reduce_pending_all]

theorem step_of_takesOperand {fs : List Frame} (open' : ∀ f ∈ fs.head?, f.takesOperand = true)
    (t : Token) : step ⟨fs, none⟩ t = stepBefore fs t := by
  cases fs with
  | nil => rfl
  | cons f fs =>
    cases f with
    | statement ts depth => cases open' _ rfl
    | _ => rfl

/-! ## Operators -/

/-- An operator behind an operand. -/
theorem run_opTokens (fs : List Frame) (t : Term) (op : BinaryOp) (us : List Token) :
    run ⟨fs, some t⟩ (opTokens op ++ us) = run (infixed fs t op) us := by
  cases op <;> rfl

section Operators

variable {l r : List Token} {p q : Phrase}

theorem Reads.binary (left : Reads l p) (right : Reads r q) {op : BinaryOp}
    (apart : level op ≤ p.trailing) (apart' : level op < q.leading)
    (separate : op = .eq → q.startsNot = false) :
    Reads (l ++ (opTokens op ++ r)) (p.binary op q) := by
  intro fs opens
  have first : Opens fs p := opens.first (Nat.min_le_right _ _) rfl
  have second : Opens (.binary p.term op :: fs) q := by
    refine .of_operator rfl apart' ?_ fs
    rintro starts l ⟨⟩
    rw [separate rfl] at starts
    cases starts
  rw [run_append, left fs first, Option.bind_some, run_opTokens, infixed, p.reduce_pending apart,
    opens.reduce_eq (Nat.min_le_left _ _), right _ second, Phrase.binary, List.append_assoc,
    List.singleton_append]

/-- `NOT` is an operator of its own, except right behind `IS`. -/
theorem stepBefore_not {fs : List Frame} (separate : ∀ f ∈ fs.head?, ∀ l, f ≠ .binary l .eq) :
    stepBefore fs (.word "NOT") = some ⟨.unary .not :: fs, none⟩ := by
  cases fs with
  | nil => rfl
  | cons f fs =>
    cases f with
    | binary l op =>
      cases op with
      | eq => exact absurd rfl (separate _ rfl l)
      | _ => rfl
    | _ => rfl

/-- The token of an operator before its operand. -/
def prefixToken : UnaryOp → Token
  | .not => .word "NOT"
  | .negate => .operator .sub

theorem Reads.unary (operand : Reads l p) {op : UnaryOp} (apart : prefixLevel op < p.leading) :
    Reads (prefixToken op :: l) (.unary op p) := by
  intro fs opens
  have pushed : step ⟨fs, none⟩ (prefixToken op) = some ⟨.unary op :: fs, none⟩ := by
    rw [step_of_takesOperand opens.takesOperand]
    cases op with
    | not => exact stepBefore_not (opens.separate rfl)
    | negate => rfl
  have inner : Opens (.unary op :: fs) p := .of_operator rfl apart (by simp) fs
  rw [run_cons, pushed, Option.bind_some, operand _ inner, Phrase.unary, List.append_assoc,
    List.singleton_append]

theorem Reads.matching (left : Reads l p) (right : Reads r q) (apart : withinLevel ≤ p.trailing)
    (apart' : withinLevel < q.leading) : Reads (l ++ .word "GLOB" :: r) (p.matching q) := by
  intro fs opens
  have first : Opens fs p := opens.first (Nat.min_le_right _ _) rfl
  have second : Opens (.matching p.term :: fs) q := .of_operator rfl apart' (by simp) fs
  have pushed : step ⟨p.pending ++ fs, some p.last⟩ (.word "GLOB") =
      some ⟨.matching p.term :: fs, none⟩ := by
    change some (Reader.mk (.matching (reduce withinLevel (p.pending ++ fs) p.last).2 ::
      (reduce withinLevel (p.pending ++ fs) p.last).1) none) = _
    rw [p.reduce_pending apart, opens.reduce_eq (Nat.min_le_left _ _)]
  rw [run_append, left fs first, Option.bind_some, run_cons, pushed, Option.bind_some,
    right _ second, Phrase.matching, List.append_assoc, List.singleton_append]

/-! ## Brackets -/

theorem stepBefore_opening {fs : List Frame} (open' : ∀ f ∈ fs.head?, f.takesOperand = true) :
    stepBefore fs .opening = some ⟨.group :: fs, none⟩ := by
  cases fs with
  | nil => rfl
  | cons f fs =>
    cases f with
    | within x => cases open' _ rfl
    | _ => rfl

/-- A phrase behind a bracket, up to the token that ends it. -/
theorem Reads.run_end (reads : Reads l p) {f : Frame} (noLevel : f.level? = none)
    (takesOperand : f.takesOperand = true) (fs : List Frame) (t : Token) (us : List Token) :
    run ⟨f :: fs, none⟩ (l ++ t :: us) =
      (stepBehind (p.pending ++ f :: fs) p.last t).bind (run · us) := by
  rw [run_append, reads _ (.of_bracket noLevel takesOperand fs p)]
  rfl

theorem Reads.grouped (inner : Reads l p) : Reads (.opening :: (l ++ [.closing])) (.atom p.term) := by
  intro fs opens
  rw [run_cons, step_of_takesOperand opens.takesOperand, stepBefore_opening opens.takesOperand,
    Option.bind_some, inner.run_end rfl rfl, stepBehind, closed, p.reduce_pending (Nat.zero_le _)]
  rfl

/-- Tokens with a comma between any two. -/
def listed : List (List Token) → List Token
  | [] => []
  | [l] => l
  | l :: ls => l ++ .comma :: listed ls

theorem listed_cons_cons (l m : List Token) (ls : List (List Token)) :
    listed (l :: m :: ls) = l ++ .comma :: listed (m :: ls) := rfl

/-- Frames that gather what a bracketed list holds. -/
structure Gathers (frame : List Term → Frame) (whole : List Term → Term) : Prop where
  noLevel : ∀ ts, (frame ts).level? = none
  takesOperand : ∀ ts, (frame ts).takesOperand = true
  divided : ∀ ts fs t, Reader.divided (frame ts :: fs) t = some ⟨frame (ts ++ [t]) :: fs, none⟩
  closed : ∀ ts fs t, Reader.closed (frame ts :: fs) t = some ⟨fs, some (whole (ts ++ [t]))⟩
  empty : ∀ fs, step ⟨frame [] :: fs, none⟩ .closing = some ⟨fs, some (whole [])⟩

theorem gathers_call (f : String) : Gathers (.call f) (.call f) :=
  ⟨fun _ => rfl, fun _ => rfl, fun _ _ _ => rfl, fun _ _ _ => rfl, fun _ => rfl⟩

theorem gathers_items (x : Term) : Gathers (.items x) (.within x) :=
  ⟨fun _ => rfl, fun _ => rfl, fun _ _ _ => rfl, fun _ _ _ => rfl, fun _ => rfl⟩

theorem Gathers.run_listed {frame : List Term → Frame} {whole : List Term → Term}
    (gathers : Gathers frame whole) {ls : List (List Token)} {ps : List Phrase}
    (reads : List.Forall₂ Reads ls ps) (done : List Term) (fs : List Frame)
    (nonempty : ls ≠ [] ∨ done = []) :
    run ⟨frame done :: fs, none⟩ (listed ls ++ [.closing]) =
      some ⟨fs, some (whole (done ++ ps.map Phrase.term))⟩ := by
  induction reads generalizing done with
  | nil =>
    obtain rfl := nonempty.resolve_left (by simp)
    rw [listed, List.nil_append, run_cons, gathers.empty]
    rfl
  | @cons l p ls ps head tail ih =>
    have run_end (t : Token) := head.run_end (gathers.noLevel done) (gathers.takesOperand done) fs t
    cases tail with
    | nil =>
      have finished := gathers.closed done fs p.term
      unfold Reader.closed at finished
      rw [listed, run_end, stepBehind, Reader.closed, p.reduce_pending (Nat.zero_le _), finished]
      rfl
    | cons next tail =>
      have finished := gathers.divided done fs p.term
      unfold Reader.divided at finished
      rw [listed_cons_cons, List.append_assoc, List.cons_append, run_end, stepBehind,
        Reader.divided, p.reduce_pending (Nat.zero_le _), finished, Option.bind_some,
        ih _ (.inl (by simp)), List.append_assoc]
      rfl

/-- The list behind a value. -/
theorem Reads.run_in (value : Reads l p) (apart : withinLevel ≤ p.trailing) {items : List Term}
    {fs : List Frame} (opens : Opens fs (p.within items)) (us : List Token) :
    run ⟨fs, none⟩ (l ++ .word "IN" :: .opening :: us) = run ⟨.items p.term [] :: fs, none⟩ us := by
  have first : Opens fs p := opens.first (Nat.min_le_right _ _) rfl
  have pushed : step ⟨p.pending ++ fs, some p.last⟩ (.word "IN") =
      some ⟨.within p.term :: fs, none⟩ := by
    change some (Reader.mk (.within (reduce withinLevel (p.pending ++ fs) p.last).2 ::
      (reduce withinLevel (p.pending ++ fs) p.last).1) none) = _
    rw [p.reduce_pending apart, opens.reduce_eq (Nat.min_le_left _ _)]
  rw [run_append, value fs first, Option.bind_some, run_cons, pushed]
  rfl

theorem Reads.within (value : Reads l p) (apart : withinLevel ≤ p.trailing)
    {ls : List (List Token)} {ps : List Phrase} (items : List.Forall₂ Reads ls ps) :
    Reads (l ++ .word "IN" :: .opening :: (listed ls ++ [.closing]))
      (p.within (ps.map Phrase.term)) := by
  intro fs opens
  rw [value.run_in apart opens]
  exact (gathers_items p.term).run_listed items [] fs (.inr rfl)

end Operators

/-! ## Operands -/

theorem Reads.of_token {t : Term} (token : Token)
    (operand : ∀ fs : List Frame, (∀ f ∈ fs.head?, f.takesOperand = true) →
      stepBefore fs token = some ⟨fs, some t⟩) : Reads [token] (.atom t) := by
  intro fs opens
  rw [run_cons, step_of_takesOperand opens.takesOperand, operand fs opens.takesOperand]
  rfl

theorem reads_word {s : String} (free : s ∉ keywords) : Reads [.word s] (.atom (.word s)) :=
  .of_token _ fun _ _ => if_neg free

theorem stepBefore_name (s : String) {fs : List Frame}
    (open' : ∀ f ∈ fs.head?, f.takesOperand = true) :
    stepBefore fs (.name s) = some ⟨fs, some (.column none s)⟩ := by
  cases fs with
  | nil => rfl
  | cons f fs =>
    cases f with
    | member a => cases open' _ rfl
    | _ => rfl

theorem reads_name (s : String) : Reads [.name s] (.atom (.column none s)) :=
  .of_token _ fun _ open' => stepBefore_name s open'

theorem reads_qualified (a s : String) :
    Reads [.name a, .point, .name s] (.atom (.column (some a) s)) := by
  intro fs opens
  rw [run_cons, step_of_takesOperand opens.takesOperand, stepBefore_name a opens.takesOperand]
  rfl

/-- A function, up to its arguments. -/
theorem run_function {f : String} (free : f ∉ keywords) {fs : List Frame} {p : Phrase}
    (opens : Opens fs p) (us : List Token) :
    run ⟨fs, none⟩ (.word f :: .opening :: us) = run ⟨.call f [] :: fs, none⟩ us := by
  have operand : stepBefore fs (.word f) = some ⟨fs, some (.word f)⟩ := if_neg free
  rw [run_cons, step_of_takesOperand opens.takesOperand, operand]
  rfl

section Calls

variable {l l' l'' : List Token} {p q r : Phrase} {f : String}

/-- A function applied to its arguments. -/
theorem reads_call (free : f ∉ keywords) {ls : List (List Token)} {ps : List Phrase}
    (args : List.Forall₂ Reads ls ps) :
    Reads (.word f :: .opening :: (listed ls ++ [.closing]))
      (.atom (.call f (ps.map Phrase.term))) := by
  intro fs opens
  rw [run_function free opens]
  exact (gathers_call f).run_listed args [] fs (.inr rfl)

/-- A count of rows. -/
theorem reads_rows (free : f ∉ keywords) :
    Reads [.word f, .opening, .operator .mul, .closing] (.atom (.call f [.word "*"])) := by
  intro fs opens
  rw [run_function free opens]
  rfl

/-- A function applied to different values. -/
theorem reads_distinct (free : f ∉ keywords) (arg : Reads l p) :
    Reads (.word f :: .opening :: .word "DISTINCT" :: (l ++ [.closing]))
      (.atom (.call (f ++ " DISTINCT") [p.term])) := by
  intro fs opens
  rw [run_function free opens]
  change run ⟨.call (f ++ " DISTINCT") [] :: fs, none⟩ (l ++ [.closing]) = _
  rw [arg.run_end rfl rfl, stepBehind, closed, p.reduce_pending (Nat.zero_le _)]
  rfl

/-- A conversion to a type of the database. -/
theorem reads_cast (inner : Reads l p) {t : String} (free : t ∉ keywords) :
    Reads (.word "CAST" :: .opening :: (l ++ [.word "AS", .word t, .closing]))
      (.atom (.call "CAST" [p.term, .word t])) := by
  intro fs opens
  have operand (fs : List Frame) : stepBefore fs (.word t) = some ⟨fs, some (.word t)⟩ :=
    if_neg free
  rw [run_function (by decide) opens, inner.run_end rfl rfl, stepBehind, divided,
    p.reduce_pending (Nat.zero_le _)]
  change (stepBefore (.call "CAST" [p.term] :: fs) (.word t)).bind _ = _
  rw [operand]
  rfl

/-- A condition between two values. -/
theorem reads_cases (test : Reads l p) (yes : Reads l' q) (no : Reads l'' r) :
    Reads (.word "CASE" :: .word "WHEN" ::
        (l ++ .word "THEN" :: (l' ++ .word "ELSE" :: (l'' ++ [.word "END"]))))
      (.atom (.cases [p.term, q.term, r.term])) := by
  intro fs opens
  rw [run_cons, step_of_takesOperand opens.takesOperand]
  change run ⟨.cases [] :: fs, none⟩ (l ++ _) = _
  rw [test.run_end rfl rfl, stepBehind, branched, p.reduce_pending (Nat.zero_le _)]
  change run ⟨.cases [p.term] :: fs, none⟩ _ = _
  rw [yes.run_end rfl rfl, stepBehind, branched, q.reduce_pending (Nat.zero_le _)]
  change run ⟨.cases [p.term, q.term] :: fs, none⟩ _ = _
  rw [no.run_end rfl rfl, stepBehind, ended, r.reduce_pending (Nat.zero_le _)]
  rfl

/-! ## Nested statements -/

/-- How many brackets are open behind some tokens, if no bracket is closed too often. -/
def depthAfter (depth : Nat) : List Token → Option Nat
  | [] => some depth
  | .opening :: ts => depthAfter (depth + 1) ts
  | .closing :: ts => if depth = 0 then none else depthAfter (depth - 1) ts
  | _ :: ts => depthAfter depth ts

theorem run_inside {ts : List Token} {above below : Nat} (count : depthAfter above ts = some below)
    (before : List Token) (depth : Nat) (fs : List Frame) :
    run ⟨.statement before (depth + above) :: fs, none⟩ ts =
      some ⟨.statement (before ++ ts) (depth + below) :: fs, none⟩ := by
  induction ts generalizing above before with
  | nil =>
    cases count
    simp
  | cons t ts ih =>
    have moved : before ++ t :: ts = (before ++ [t]) ++ ts := by simp
    rw [moved]
    cases t with
    | opening => exact ih count _
    | closing =>
      rw [depthAfter] at count
      split at count
      · cases count
      · next open' =>
        obtain ⟨above, rfl⟩ := Nat.exists_eq_succ_of_ne_zero open'
        exact ih count _
    | _ => exact ih count _

/-- A nested statement behind its bracket. -/
theorem run_statement {ts : List Token} (balanced : depthAfter 0 ts = some 0) {f : Frame}
    (takesStatement : f.takesStatement = true) (fs : List Frame) :
    run ⟨f :: fs, none⟩ (.word "SELECT" :: (ts ++ [.closing])) =
      closed (f :: fs) (.statement (.word "SELECT" :: ts)) := by
  have pushed : step ⟨f :: fs, none⟩ (.word "SELECT") =
      some ⟨.statement [.word "SELECT"] 0 :: f :: fs, none⟩ := by
    cases f with
    | group => rfl
    | call g args =>
      cases args with
      | nil => rfl
      | cons _ _ => cases takesStatement
    | items x ts =>
      cases ts with
      | nil => rfl
      | cons _ _ => cases takesStatement
    | _ => cases takesStatement
  rw [run_cons, pushed, Option.bind_some, run_append, run_inside balanced [.word "SELECT"] 0]
  cases h : closed (f :: fs) (.statement (.word "SELECT" :: ts)) <;>
    simp [step, stepInside, h]

section Statements

variable {ts : List Token} (balanced : depthAfter 0 ts = some 0)

include balanced

theorem reads_scalar :
    Reads (.opening :: .word "SELECT" :: (ts ++ [.closing]))
      (.atom (.statement (.word "SELECT" :: ts))) := by
  intro fs opens
  rw [run_cons, step_of_takesOperand opens.takesOperand, stepBefore_opening opens.takesOperand,
    Option.bind_some, run_statement balanced rfl]
  rfl

theorem reads_exists :
    Reads (.word "EXISTS" :: .opening :: .word "SELECT" :: (ts ++ [.closing]))
      (.atom (.call "EXISTS" [.statement (.word "SELECT" :: ts)])) := by
  intro fs opens
  rw [run_function (by decide) opens, run_statement balanced rfl]
  rfl

theorem Reads.amid (value : Reads l p) (apart : withinLevel ≤ p.trailing) :
    Reads (l ++ .word "IN" :: .opening :: .word "SELECT" :: (ts ++ [.closing]))
      (p.within [.statement (.word "SELECT" :: ts)]) := by
  intro fs opens
  rw [value.run_in apart opens, run_statement balanced rfl]
  rfl

end Statements

end Calls

end Relational.Sql

import Mathlib.Data.List.Chain
import Relational.Proofs.Sql.Lexemes
import Relational.Proofs.Sql.Phrases

/-!
# Reading syntax trees

Each syntax tree stands for a term (`Tree.term`), and its tokens are read as a phrase
(`Tree.phrase`). A tree whose operands all bind tight enough for their places (`Tree.fits`) is read
back from its text (`Tree.read_text`).
-/

namespace Relational

namespace Sql

def tokens (collect : Bool) (ls : List Lexeme) : List Token := ls.flatMap (Lexeme.tokens collect)

/-! ## Terms and phrases -/

/-- What a number is read as, with its sign as an operator. -/
def signedPhrase (s : String) : Phrase :=
  match s.toList with
  | '-' :: cs => .unary .negate (.atom (.word (String.ofList cs)))
  | _ => .atom (.word s)

end Sql

open Sql

/-- What the literal of a cell is read as. -/
def Cell.phrase : Cell → Phrase
  | .null => .atom (.word "NULL")
  | .integer n => signedPhrase (Cell.literal (.integer n))
  | .real x => signedPhrase (Cell.literal (.real x))
  | .text s => .atom (.quoted s)
  | .blob bytes => .atom (.bytes (String.ofList (bytes.flatMap hexByte)))

/-- What the literal of a value is read as. -/
def Value.phrase (v : Value) (t : Ty) : Phrase :=
  match v.toCell t with
  | .ok c => c.phrase
  | .error _ => .atom (.word "")

namespace Sql

mutual

/-- The term that a tree stands for, whatever brackets are written. -/
def Tree.term (collect : Bool) : Tree → Term
  | .column source name => .column source name
  | .literal v t => (v.phrase t).term
  | .parameter v t => if collect then .placeholder else (v.phrase t).term
  | .word s => .word s
  | .quoted s => .quoted s
  | .failed _ => .word ""
  | .unary op x => .unary op (x.term collect)
  | .binary op l r => .binary op (l.term collect) (r.term collect)
  | .matching l r => .matching (l.term collect) (r.term collect)
  | .within x items => .within (x.term collect) (terms collect items)
  | .call f args => .call f (terms collect args)
  | .rows f => .call f [.word "*"]
  | .distinct f x => .call (f ++ " DISTINCT") [x.term collect]
  | .cast x type => .call "CAST" [x.term collect, .word type]
  | .cases test yes no => .cases [test.term collect, yes.term collect, no.term collect]
  | .grouped x => x.term collect
  | .scalar s => .statement (tokens collect (select s))
  | .exists s => .call "EXISTS" [.statement (tokens collect (select s))]
  | .amid x s => .within (x.term collect) [.statement (tokens collect (select s))]

def terms (collect : Bool) : List Tree → List Term
  | [] => []
  | t :: ts => t.term collect :: terms collect ts

end

/-- The phrase that a tree is read as. -/
def Tree.phrase (collect : Bool) : Tree → Phrase
  | .literal v t => v.phrase t
  | .parameter v t => if collect then .atom .placeholder else v.phrase t
  | .unary op x => .unary op (x.phrase collect)
  | .binary op l r => (l.phrase collect).binary op (r.phrase collect)
  | .matching l r => (l.phrase collect).matching (r.phrase collect)
  | .within x items => (x.phrase collect).within (terms collect items)
  | .amid x s => (x.phrase collect).within [.statement (tokens collect (select s))]
  | t => .atom (t.term collect)

theorem Tree.term_phrase (collect : Bool) (t : Tree) :
    (t.phrase collect).term = t.term collect := by
  cases t with
  | parameter v t => cases collect <;> rfl
  | unary op x => rw [phrase, Phrase.term_unary, x.term_phrase, term]
  | binary op l r => rw [phrase, Phrase.term_binary, l.term_phrase, r.term_phrase, term]
  | matching l r => rw [phrase, Phrase.term_matching, l.term_phrase, r.term_phrase, term]
  | within x items => rw [phrase, Phrase.term_within, x.term_phrase, term]
  | amid x s => rw [phrase, Phrase.term_within, x.term_phrase, term]
  | _ => rfl

/-! ## Trees that are read back -/

/-- Whether an operator between two phrases keeps them apart; `IS NOT` is one operator. -/
def fitsBetween (op : BinaryOp) (p q : Phrase) : Bool :=
  level op ≤ p.trailing && level op < q.leading && !(op == .eq && q.startsNot)

/-- The lexemes of a statement that is one term: every bracket in it is closed. -/
def isClosed (collect : Bool) (s : List Lexeme) : Bool :=
  depthAfter 0 (tokens collect s) == some 0 && decide (Lexeme.Apart collect (select s))

mutual

/-- Whether every operand of a tree, as it is written, binds tight enough for its place. -/
def Tree.fits (collect : Bool) : Tree → Bool
  | .word s => s ∉ keywords
  | .failed _ => false
  | .unary op x =>
    x.fits collect && prefixLevel op < (x.phrase collect).leading &&
      !(op == .negate && x.lexemes.head?.any (Lexeme.startsMinus collect))
  | .binary op l r =>
    l.fits collect && r.fits collect && fitsBetween op (l.phrase collect) (r.phrase collect)
  | .matching l r =>
    l.fits collect && r.fits collect && withinLevel ≤ (l.phrase collect).trailing &&
      withinLevel < (r.phrase collect).leading
  | .within x items =>
    x.fits collect && withinLevel ≤ (x.phrase collect).trailing && fitAll collect items
  | .call f args => f ∉ keywords && fitAll collect args
  | .rows f => f ∉ keywords
  | .distinct f x => f ∉ keywords && x.fits collect
  | .cast x type => type ∉ keywords && x.fits collect
  | .cases test yes no => test.fits collect && yes.fits collect && no.fits collect
  | .grouped x => x.fits collect
  | .scalar s | .exists s => isClosed collect s
  | .amid x s => x.fits collect && withinLevel ≤ (x.phrase collect).trailing && isClosed collect s
  | _ => true

def fitAll (collect : Bool) : List Tree → Bool
  | [] => true
  | t :: ts => t.fits collect && fitAll collect ts

end

/-! ## Scanning a tree -/

section Apart

open Lexeme

variable {collect : Bool} {x : Lexeme} {ls rs : List Lexeme}

theorem apart_append (left : Apart collect ls) (right : Apart collect rs)
    (ends : ∀ y ∈ rs.head?, y.endsOther = true) : Apart collect (ls ++ rs) :=
  left.append right fun x _ y mem => by simp [joins, ends y mem]

theorem apart_cons (ends : x.endsItself = true) (right : Apart collect rs) :
    Apart collect (x :: rs) :=
  right.cons fun y _ => by simp [joins, ends]

theorem apart_spaced (ts : List Token) : Apart collect (spaced ts) := by
  induction ts with
  | nil => exact .nil
  | cons t ts ih =>
    have pair : Apart collect [.blank, .token t] := apart_cons rfl (.singleton _)
    refine apart_append pair ih ?_
    cases ts with
    | nil => simp
    | cons u ts =>
      rintro y ⟨⟩
      rfl

/-- A word with a blank behind it. -/
theorem apart_word (s : String) (right : Apart collect rs) :
    Apart collect (.token (.word s) :: .blank :: rs) :=
  .cons_cons (by simp [joins, endsOther]) (apart_cons rfl right)

/-- Tokens between two expressions, with blanks around them. -/
theorem apart_between (left : Apart collect ls) (ts : List Token) (right : Apart collect rs) :
    Apart collect (ls ++ (spaced ts ++ .blank :: rs)) := by
  refine apart_append left (apart_append (apart_spaced ts) (apart_cons rfl right) ?_) ?_
  · rintro y ⟨⟩
    rfl
  · cases ts <;> (rintro y ⟨⟩; rfl)

theorem apart_bracketed (inner : Apart collect ls) : Apart collect (bracketed ls) := by
  refine apart_cons rfl (apart_append inner (.singleton _) ?_)
  rintro y ⟨⟩
  rfl

theorem apart_function (f : String) (inner : Apart collect ls) :
    Apart collect (.token (.word f) :: bracketed ls) := by
  refine (apart_bracketed inner).cons ?_
  rintro y ⟨⟩
  rfl

theorem apart_separated {parts : List (List Lexeme)} (apart : ∀ ls ∈ parts, Apart collect ls) :
    Apart collect (separated parts) := by
  induction parts with
  | nil => exact .nil
  | cons ls parts ih =>
    have rest := ih fun l mem => apart l (List.mem_cons_of_mem _ mem)
    cases parts with
    | nil => exact apart ls List.mem_cons_self
    | cons m parts =>
      refine apart_append (apart ls List.mem_cons_self) (apart_cons rfl (apart_cons rfl rest)) ?_
      rintro y ⟨⟩
      rfl

mutual

/-- The lexemes of a tree that fits do not run into each other. -/
theorem Tree.apart_lexemes {t : Tree} (fits : t.fits collect = true) :
    Apart collect t.lexemes := by
  cases t with
  | column source name =>
    cases source with
    | none => exact .singleton _
    | some source => exact apart_cons rfl (apart_cons rfl (.singleton _))
  | literal v t | parameter v t | word s | quoted s | failed e => exact .singleton _
  | unary op x =>
    simp only [Tree.fits, Bool.and_eq_true, Bool.not_eq_true'] at fits
    have inner := x.apart_lexemes fits.1.1
    cases op with
    | not => exact apart_word "NOT" inner
    | negate =>
      refine inner.cons fun y mem => ?_
      have noMinus : y.startsMinus collect = false := by
        simpa [Option.mem_def.1 mem] using fits.2
      simp [joins, noMinus]
  | binary op l r =>
    simp only [Tree.fits, Bool.and_eq_true] at fits
    exact apart_between (l.apart_lexemes fits.1.1) _ (r.apart_lexemes fits.1.2)
  | matching l r =>
    simp only [Tree.fits, Bool.and_eq_true] at fits
    exact apart_between (l.apart_lexemes fits.1.1.1) _ (r.apart_lexemes fits.1.1.2)
  | within x items =>
    simp only [Tree.fits, Bool.and_eq_true] at fits
    exact apart_between (x.apart_lexemes fits.1.1) _
      (apart_bracketed (apart_separated (apart_treeLexemes fits.2)))
  | call f args =>
    simp only [Tree.fits, Bool.and_eq_true] at fits
    exact apart_function f (apart_separated (apart_treeLexemes fits.2))
  | rows f => exact apart_function f (.singleton _)
  | distinct f x =>
    simp only [Tree.fits, Bool.and_eq_true] at fits
    exact apart_function f (apart_word "DISTINCT" (x.apart_lexemes fits.2))
  | cast x type =>
    simp only [Tree.fits, Bool.and_eq_true] at fits
    exact apart_function "CAST" (apart_append (x.apart_lexemes fits.2) (apart_spaced _) (by
      rintro y ⟨⟩
      rfl))
  | cases test yes no =>
    simp only [Tree.fits, Bool.and_eq_true] at fits
    have last : Apart collect (no.lexemes ++ spaced [.word "END"]) :=
      apart_append (no.apart_lexemes fits.2) (apart_spaced _) (by
        rintro y ⟨⟩
        rfl)
    have choice := apart_between (yes.apart_lexemes fits.1.2) [.word "ELSE"] last
    have opening : Apart collect [.token (.word "CASE")] := .singleton _
    exact apart_between opening [.word "WHEN"]
      (apart_between (test.apart_lexemes fits.1.1) [.word "THEN"] choice)
  | grouped x => exact apart_bracketed (x.apart_lexemes fits)
  | scalar s =>
    simp only [Tree.fits, isClosed, Bool.and_eq_true, decide_eq_true_eq] at fits
    exact apart_bracketed fits.2
  | «exists» s =>
    simp only [Tree.fits, isClosed, Bool.and_eq_true, decide_eq_true_eq] at fits
    exact apart_function "EXISTS" fits.2
  | amid x s =>
    simp only [Tree.fits, isClosed, Bool.and_eq_true, decide_eq_true_eq] at fits
    exact apart_between (x.apart_lexemes fits.1.1) _ (apart_bracketed fits.2.2)

theorem apart_treeLexemes {ts : List Tree} (fits : fitAll collect ts = true) :
    ∀ ls ∈ treeLexemes ts, Apart collect ls := by
  cases ts with
  | nil => simp [treeLexemes]
  | cons t ts =>
    simp only [fitAll, Bool.and_eq_true] at fits
    exact List.forall_mem_cons.2 ⟨t.apart_lexemes fits.1, apart_treeLexemes fits.2⟩

end

end Apart

/-! ## Reading a tree -/

section Reads

variable {collect : Bool}

theorem tokens_append (ls rs : List Lexeme) :
    tokens collect (ls ++ rs) = tokens collect ls ++ tokens collect rs := List.flatMap_append

theorem tokens_cons (x : Lexeme) (ls : List Lexeme) :
    tokens collect (x :: ls) = x.tokens collect ++ tokens collect ls := List.flatMap_cons

theorem tokens_spaced (ts : List Token) : tokens collect (spaced ts) = ts := by
  induction ts with
  | nil => rfl
  | cons t ts ih => exact congrArg (t :: ·) ih

theorem tokens_bracketed (ls : List Lexeme) :
    tokens collect (bracketed ls) = .opening :: (tokens collect ls ++ [.closing]) := by
  simp [bracketed, tokens, Lexeme.tokens]

theorem tokens_separated (parts : List (List Lexeme)) :
    tokens collect (separated parts) = listed (parts.map (tokens collect)) := by
  induction parts with
  | nil => rfl
  | cons ls parts ih =>
    cases parts with
    | nil => rfl
    | cons m parts =>
      rw [separated, tokens_append]
      · exact congrArg (tokens collect ls ++ .comma :: ·) ih
      · simp

theorem mem_separated {parts : List (List Lexeme)} {ls : List Lexeme} (mem : ls ∈ parts) {x : Lexeme}
    (own : x ∈ ls) : x ∈ separated parts := by
  induction parts with
  | nil => cases mem
  | cons l parts ih =>
    cases parts with
    | nil => rwa [separated, ← List.mem_singleton.1 mem]
    | cons m parts =>
      rw [separated]
      · rcases List.mem_cons.1 mem with rfl | mem
        · exact List.mem_append_left _ own
        · simp [ih mem]
      · simp

theorem terms_eq (ts : List Tree) : terms collect ts = (ts.map (Tree.phrase collect)).map Phrase.term := by
  induction ts with
  | nil => rfl
  | cons t ts ih => rw [terms, ih, List.map_cons, List.map_cons, t.term_phrase]

theorem reads_signed {s : String} (number : IsSigned s) : Reads (signed s) (signedPhrase s) := by
  rcases number with number | ⟨w, rfl, number⟩
  · obtain ⟨c, cs, chars, other, free⟩ := number.exists_cons
    have word : signedPhrase s = .atom (.word s) := by
      unfold signedPhrase
      split
      · next minus =>
        rw [chars] at minus
        exact absurd (List.cons.inj minus).1 other
      · rfl
    rw [number.signed, word]
    exact reads_word free
  · obtain ⟨c, cs, chars, other, free⟩ := number.exists_cons
    have minus : signedPhrase ("-" ++ w) = .unary .negate (.atom (.word w)) := by
      have chars : ("-" ++ w).toList = '-' :: w.toList := by simp
      simp only [signedPhrase, chars, String.ofList_toList]
    rw [signed_minus, minus]
    exact (reads_word free).unary (by decide : prefixLevel .negate < tightest)

theorem reads_literal (c : Cell) : Reads c.tokens c.phrase := by
  cases c with
  | null => exact reads_word (by decide)
  | integer n => exact reads_signed (isSigned_int n.toInt)
  | real x => exact reads_signed (isSigned_real x)
  | text s | blob bytes => exact .of_token _ fun _ _ => rfl

theorem reads_value {v : Value} {t : Ty} {c : Cell} (known : v.toCell t = .ok c) :
    Reads c.tokens (v.phrase t) := by
  unfold Value.phrase
  rw [known]
  exact reads_literal c

mutual

/-- A tree that fits is read as its phrase. -/
theorem Tree.reads {t : Tree} (fits : t.fits collect = true)
    (written : ∀ x ∈ t.lexemes, ∃ s, x.text collect = .ok s) :
    Reads (tokens collect t.lexemes) (t.phrase collect) := by
  cases t with
  | column source name =>
    cases source with
    | none => exact reads_name name
    | some source => exact reads_qualified source name
  | literal v t =>
    obtain ⟨s, text⟩ := written _ List.mem_cons_self
    obtain ⟨c, known, -⟩ := Lexeme.text_literal text
    simpa [Tree.lexemes, tokens, Lexeme.tokens, Tree.phrase, known, Except.toOption] using
      reads_value known
  | parameter v t =>
    obtain ⟨s, text⟩ := written _ List.mem_cons_self
    obtain ⟨c, known, -⟩ := Lexeme.text_parameter text
    cases collect with
    | false =>
      simpa [Tree.lexemes, tokens, Lexeme.tokens, Tree.phrase, known, Except.toOption] using
        reads_value known
    | true =>
      have placeholder : Reads [.placeholder] (.atom .placeholder) := .of_token _ fun _ _ => rfl
      simpa [Tree.lexemes, tokens, Lexeme.tokens, Tree.phrase, known, Except.toOption] using
        placeholder
  | word s => exact reads_word (by simpa [Tree.fits] using fits)
  | quoted s => exact .of_token _ fun _ _ => rfl
  | failed e => cases fits
  | unary op x =>
    simp only [Tree.fits, Bool.and_eq_true, decide_eq_true_eq] at fits
    cases op with
    | not =>
      have inner := x.reads fits.1.1 fun y mem => written y (by simp [Tree.lexemes, mem])
      exact inner.unary fits.1.2
    | negate =>
      have inner := x.reads fits.1.1 fun y mem => written y (by simp [Tree.lexemes, mem])
      exact inner.unary fits.1.2
  | binary op l r =>
    simp only [Tree.fits, fitsBetween, Bool.and_eq_true, decide_eq_true_eq] at fits
    have left := l.reads fits.1.1 fun y mem => written y (by simp [Tree.lexemes, mem])
    have right := r.reads fits.1.2 fun y mem => written y (by simp [Tree.lexemes, mem])
    rw [Tree.lexemes, tokens_append, tokens_append, tokens_spaced]
    exact left.binary right fits.2.1.1 fits.2.1.2 fun eq => by simpa [eq] using fits.2.2
  | matching l r =>
    simp only [Tree.fits, Bool.and_eq_true, decide_eq_true_eq] at fits
    have left := l.reads fits.1.1.1 fun y mem => written y (by simp [Tree.lexemes, mem])
    have right := r.reads fits.1.1.2 fun y mem => written y (by simp [Tree.lexemes, mem])
    rw [Tree.lexemes, tokens_append, tokens_append, tokens_spaced]
    exact left.matching right fits.1.2 fits.2
  | within x items =>
    simp only [Tree.fits, Bool.and_eq_true, decide_eq_true_eq] at fits
    have value := x.reads fits.1.1 fun y mem => written y (by simp [Tree.lexemes, mem])
    have list := treesRead fits.2 fun ls mem y own =>
      written y (by simp [Tree.lexemes, bracketed, mem_separated mem own])
    rw [Tree.lexemes, tokens_append, tokens_append, tokens_spaced, tokens_cons, tokens_bracketed,
      tokens_separated, Tree.phrase, terms_eq]
    exact value.within fits.1.2 list
  | call f args =>
    simp only [Tree.fits, Bool.and_eq_true, decide_eq_true_eq] at fits
    have list := treesRead fits.2 fun ls mem y own =>
      written y (by simp [Tree.lexemes, bracketed, mem_separated mem own])
    change Reads _ (.atom (.call f (terms collect args)))
    rw [Tree.lexemes, tokens_cons, tokens_bracketed, tokens_separated, terms_eq]
    exact reads_call fits.1 list
  | rows f => exact reads_rows (by simpa [Tree.fits] using fits)
  | distinct f x =>
    simp only [Tree.fits, Bool.and_eq_true, decide_eq_true_eq] at fits
    have inner := x.reads fits.2 fun y mem => written y (by simp [Tree.lexemes, bracketed, mem])
    change Reads _ (.atom (.call (f ++ " DISTINCT") [x.term collect]))
    rw [Tree.lexemes, tokens_cons, tokens_bracketed, ← x.term_phrase]
    exact reads_distinct fits.1 inner
  | cast x type =>
    simp only [Tree.fits, Bool.and_eq_true, decide_eq_true_eq] at fits
    have inner := x.reads fits.2 fun y mem => written y (by simp [Tree.lexemes, bracketed, mem])
    change Reads _ (.atom (.call "CAST" [x.term collect, .word type]))
    rw [Tree.lexemes, tokens_cons, tokens_bracketed, tokens_append, tokens_spaced, ← x.term_phrase,
      List.append_assoc]
    exact reads_cast inner fits.1
  | cases test yes no =>
    simp only [Tree.fits, Bool.and_eq_true] at fits
    have first := test.reads fits.1.1 fun y mem => written y (by simp [Tree.lexemes, mem])
    have second := yes.reads fits.1.2 fun y mem => written y (by simp [Tree.lexemes, mem])
    have third := no.reads fits.2 fun y mem => written y (by simp [Tree.lexemes, mem])
    simp only [Tree.lexemes, tokens_cons, tokens_append, tokens_spaced]
    change Reads _ (.atom (.cases [test.term collect, yes.term collect, no.term collect]))
    rw [← test.term_phrase, ← yes.term_phrase, ← no.term_phrase]
    exact reads_cases first second third
  | grouped x =>
    have inner := x.reads fits fun y mem => written y (by simp [Tree.lexemes, bracketed, mem])
    change Reads _ (.atom (x.term collect))
    rw [Tree.lexemes, tokens_bracketed, ← x.term_phrase]
    exact inner.grouped
  | scalar s =>
    simp only [Tree.fits, isClosed, Bool.and_eq_true, beq_iff_eq] at fits
    rw [Tree.lexemes, tokens_bracketed]
    exact reads_scalar fits.1
  | «exists» s =>
    simp only [Tree.fits, isClosed, Bool.and_eq_true, beq_iff_eq] at fits
    rw [Tree.lexemes, tokens_cons, tokens_bracketed]
    exact reads_exists fits.1
  | amid x s =>
    simp only [Tree.fits, isClosed, Bool.and_eq_true, beq_iff_eq, decide_eq_true_eq] at fits
    have value := x.reads fits.1.1 fun y mem => written y (by simp [Tree.lexemes, mem])
    rw [Tree.lexemes, tokens_append, tokens_append, tokens_spaced, tokens_cons, tokens_bracketed]
    exact value.amid fits.2.1 fits.1.2

theorem treesRead {ts : List Tree} (fits : fitAll collect ts = true)
    (written : ∀ ls ∈ treeLexemes ts, ∀ x ∈ ls, ∃ s, x.text collect = .ok s) :
    List.Forall₂ Reads ((treeLexemes ts).map (tokens collect)) (ts.map (Tree.phrase collect)) := by
  cases ts with
  | nil => exact .nil
  | cons t ts =>
    simp only [fitAll, Bool.and_eq_true] at fits
    have all := List.forall_mem_cons.1 written
    exact .cons (t.reads fits.1 all.1) (treesRead fits.2 all.2)

end

end Reads

end Sql

end Relational

import Mathlib.Data.List.Basic
import Mathlib.Tactic.Common
import Relational.Proofs.Sql.Reading

/-!
# Scanning

A scanner finds the tokens of a text one by one: each lemma says which token a text begins with, and
what may follow so that the token ends there (`Begins`). A text scans to its tokens if it does so
before everything that can follow an expression (`Scans`).
-/

namespace Relational.Sql

/-! ## Scanning -/

theorem quotedText?_length {cs a rest : List Char} (h : quotedText? cs = some (a, rest)) : rest.length < cs.length := by
  fun_induction quotedText? cs generalizing a with
  | case1 cs ih =>
    obtain ⟨⟨b, rest'⟩, found, same⟩ := Option.map_eq_some_iff.1 h
    cases same
    exact Nat.lt_trans (ih found) (by simp only [List.length_cons]; omega)
  | case2 cs =>
    cases h
    simp
  | case3 c cs _ _ ih =>
    obtain ⟨⟨b, rest'⟩, found, same⟩ := Option.map_eq_some_iff.1 h
    cases same
    exact Nat.lt_trans (ih found) (by simp)
  | case4 => cases h

theorem bracketed?_length {cs a rest : List Char} (h : bracketed? cs = some (a, rest)) : rest.length < cs.length := by
  unfold bracketed? at h
  have dropped := (List.dropWhile_suffix (· != ']') (l := cs)).length_le
  split at h
  · next eq =>
    cases h
    simp only [eq, List.length_cons] at dropped
    omega
  · cases h

theorem sign?_length {cs rest : List Char} {t : Token} (h : sign? cs = some (t, rest)) : rest.length < cs.length := by
  unfold sign? at h
  split at h <;> cases h
  all_goals
    simp only [List.length_cons]
    omega

/-- A token takes at least one character. -/
theorem token?_length {cs rest : List Char} {t : Token} (h : token? cs = some (t, rest)) : rest.length < cs.length := by
  cases cs with
  | nil => cases h
  | cons c cs =>
    have dropped (p : Char → Bool) := (List.dropWhile_suffix p (l := cs)).length_le
    simp only [token?] at h
    split at h
    · obtain ⟨⟨a, rest'⟩, found, same⟩ := Option.map_eq_some_iff.1 h
      cases same
      exact Nat.lt_trans (bracketed?_length found) (by simp)
    split at h
    · obtain ⟨⟨a, rest'⟩, found, same⟩ := Option.map_eq_some_iff.1 h
      cases same
      exact Nat.lt_trans (quotedText?_length found) (by simp)
    split at h
    · obtain ⟨⟨a, rest'⟩, found, same⟩ := Option.map_eq_some_iff.1 h
      cases same
      have shorter := quotedText?_length found
      simp only [List.length_tail, List.length_cons] at shorter ⊢
      omega
    split at h
    · cases h
      exact Nat.lt_succ_of_le (dropped isWordChar)
    split at h
    · cases h
      exact Nat.lt_succ_of_le (dropped isNumberChar)
    · exact sign?_length h

/-- Once there are as many steps as characters, more make no difference. -/
theorem scanSteps_eq {m n : Nat} {cs : List Char} (hm : cs.length ≤ m) (hn : cs.length ≤ n) : scanSteps m cs = scanSteps n cs := by
  induction m generalizing n cs with
  | zero =>
    cases cs with
    | nil => cases n <;> rfl
    | cons c cs => simp at hm
  | succ m ih =>
    cases cs with
    | nil => cases n <;> rfl
    | cons c cs =>
      cases n with
      | zero => simp at hn
      | succ n =>
        simp only [List.length_cons, Nat.add_le_add_iff_right] at hm hn
        simp only [scanSteps]
        split
        · exact ih hm hn
        split
        · have dropped := (List.dropWhile_suffix (· != '\n') (l := cs)).length_le
          exact ih (Nat.le_trans dropped hm) (Nat.le_trans dropped hn)
        · split
          · next found =>
            have shorter := Nat.le_of_lt_succ (token?_length found)
            rw [ih (Nat.le_trans shorter hm) (Nat.le_trans shorter hn)]
          · rfl

/-- Whether a text begins with this token. -/
structure Begins (cs : List Char) (t : Token) (rest : List Char) : Prop where
  found : token? cs = some (t, rest)
  solid : ∀ c ∈ cs.head?, isBlank c = false
  noComment : cs.head? = some '-' → cs.tail.head? ≠ some '-'

theorem scan_token {cs rest : List Char} {t : Token} (begins : Begins cs t rest) : scan cs = (scan rest).map (t :: ·) := by
  obtain ⟨found, solid, noComment⟩ := begins
  cases cs with
  | nil => cases found
  | cons c cs =>
    have shorter := Nat.le_of_lt_succ (token?_length found)
    have comment : (c == '-' && cs.head? == some '-') = false := by
      rw [Bool.and_eq_false_iff, beq_eq_false_iff_ne, beq_eq_false_iff_ne]
      by_cases minus : c = '-'
      · exact .inr (noComment (by simp [minus]))
      · exact .inl minus
    simp only [scan, List.length_cons, scanSteps, solid c rfl, comment, Bool.false_eq_true, if_false, found]
    rw [scanSteps_eq shorter (Nat.le_refl _)]

/-! ## Tokens at the front of a text -/

/-- What may follow an expression. -/
def Delimited (cs : List Char) : Prop := ∀ c ∈ cs.head?, c = ' ' ∨ c = ')' ∨ c = ','

theorem Delimited.head {p : Char → Prop} {cs : List Char} (h : Delimited cs) (blank : p ' ') (closing : p ')') (comma : p ',') :
    ∀ c ∈ cs.head?, p c := by
  intro c mem
  rcases h c mem with rfl | rfl | rfl
  · exact blank
  · exact closing
  · exact comma

theorem takeWhile_append {p : Char → Bool} {w r : List Char} (all : ∀ c ∈ w, p c = true) (stop : ∀ c ∈ r.head?, p c = false) :
    (w ++ r).takeWhile p = w ∧ (w ++ r).dropWhile p = r := by
  rw [List.takeWhile_append_of_pos all, List.dropWhile_append_of_pos all]
  cases r with
  | nil => simp
  | cons c r => simp [stop c rfl]

/-- A text that is one word. -/
def isWord (s : String) : Bool :=
  match s.toList with
  | c :: w => isLetter c && w.all isWordChar
  | [] => false

theorem isWord_iff {s : String} : isWord s = true ↔ ∃ c w, s.toList = c :: w ∧ isLetter c = true ∧ ∀ d ∈ w, isWordChar d = true := by
  unfold isWord
  split
  · next c w chars => simp [chars]
  · next chars => simp [chars]

theorem begins_word {s : String} {rest : List Char} (word : isWord s = true)
    (delimited : ∀ d ∈ rest.head?, isWordChar d = false ∧ d ≠ '\'') : Begins (s.toList ++ rest) (.word s) rest := by
  obtain ⟨c, w, chars, first, all⟩ := isWord_iff.1 word
  obtain ⟨taken, dropped⟩ := takeWhile_append all fun d mem => (delimited d mem).1
  have bracket : c ≠ '[' := by rintro rfl; cases first
  have quote : c ≠ '\'' := by rintro rfl; cases first
  have noBytes : ((w ++ rest).head? == some '\'') = false := by
    rw [beq_eq_false_iff_ne]
    intro head
    cases w with
    | nil => exact (delimited _ head).2 rfl
    | cons d w =>
      cases head
      exact absurd (all '\'' List.mem_cons_self) (by decide)
  rw [← String.ofList_toList (s := s), chars]
  constructor
  · simp only [String.toList_ofList, List.cons_append, token?, beq_eq_false_iff_ne.2 bracket, beq_eq_false_iff_ne.2 quote, noBytes, Bool.and_false,
      Bool.false_eq_true, if_false, first, if_true, taken, dropped]
  · simp only [String.toList_ofList, List.cons_append]
    rintro d ⟨⟩
    by_contra blank
    rw [Bool.not_eq_false, isBlank] at blank
    simp only [Bool.or_eq_true, beq_iff_eq] at blank
    rcases blank with ((rfl | rfl) | rfl) | rfl <;> cases first
  · simp only [String.toList_ofList, List.cons_append]
    rintro ⟨⟩
    cases first

theorem isLetter_of_isDigit {c : Char} (digit : c.isDigit = true) : isLetter c = false := by
  have bounds : (decide (48 ≤ c.val) && decide (c.val ≤ 57)) = true := digit
  change ((decide (65 ≤ c.val ∧ c.val ≤ 90) || decide (97 ≤ c.val) && decide (c.val ≤ 122)) || c == '_') = false
  simp only [Bool.and_eq_true, decide_eq_true_eq] at bounds
  have upper : ¬65 ≤ c.val := fun h => absurd (UInt32.le_trans h bounds.2) (by decide)
  have lower : ¬97 ≤ c.val := fun h => absurd (UInt32.le_trans h bounds.2) (by decide)
  have other : c ≠ '_' := by
    rintro rfl
    exact absurd bounds.2 (by decide)
  rw [decide_eq_false (mt And.left upper), decide_eq_false lower, beq_eq_false_iff_ne.2 other]
  rfl

theorem begins_number {c : Char} {w rest : List Char} (first : c.isDigit = true) (all : ∀ d ∈ w, isNumberChar d = true)
    (delimited : ∀ d ∈ rest.head?, isNumberChar d = false) :
    Begins (c :: (w ++ rest)) (.word (String.ofList (c :: w))) rest where
  found := by
    obtain ⟨taken, dropped⟩ := takeWhile_append all delimited
    have bracket : c ≠ '[' := by rintro rfl; cases first
    have quote : c ≠ '\'' := by rintro rfl; cases first
    have noBytes : c ≠ 'X' := by rintro rfl; cases first
    simp [token?, bracket, quote, noBytes, isLetter_of_isDigit first, first, taken, dropped]
  solid := by
    rintro d ⟨⟩
    by_contra blank
    rw [Bool.not_eq_false, isBlank] at blank
    simp only [Bool.or_eq_true, beq_iff_eq] at blank
    rcases blank with ((rfl | rfl) | rfl) | rfl <;> cases first
  noComment := by
    rintro ⟨⟩
    cases first

/-- A text with its quotes doubled. -/
def doubled (cs : List Char) : List Char := cs.flatMap fun c => if c = '\'' then ['\'', '\''] else [c]

theorem quotedText?_doubled (cs : List Char) {rest : List Char} (delimited : rest.head? ≠ some '\'') :
    quotedText? (doubled cs ++ '\'' :: rest) = some (cs, rest) := by
  induction cs with
  | nil =>
    cases rest with
    | nil => rfl
    | cons c rest =>
      have other : c ≠ '\'' := by simpa using delimited
      simp only [doubled, List.flatMap_nil, List.nil_append]
      rw [quotedText?]
      simpa using other
  | cons c cs ih =>
    simp only [doubled, List.flatMap_cons] at ih ⊢
    split
    · next quote =>
      subst quote
      simp [quotedText?, ih]
    · next other => simp [quotedText?, ih, other]

/-- A text that scans to these tokens before everything that may follow an expression. -/
def Scans (cs : List Char) (ts : List Token) : Prop :=
  ∀ rest, Delimited rest → scan (cs ++ rest) = (scan rest).map (ts ++ ·)

theorem Scans.of_token {cs : List Char} {t : Token}
    (begins : ∀ rest, Delimited rest → Begins (cs ++ rest) t rest) : Scans cs [t] := by
  intro rest delimited
  rw [scan_token (begins rest delimited)]
  rfl

theorem begins_minus {cs : List Char} (noComment : cs.head? ≠ some '-') :
    Begins ('-' :: cs) (.operator .sub) cs :=
  ⟨rfl, by rintro c ⟨⟩; rfl, fun _ => noComment⟩

/-- A minus sign before a text that does not begin with another. -/
theorem Scans.minus {cs : List Char} {ts : List Token} (scans : Scans cs ts) (nonempty : cs ≠ [])
    (noComment : cs.head? ≠ some '-') : Scans ('-' :: cs) (.operator .sub :: ts) := by
  intro rest delimited
  cases cs with
  | nil => exact absurd rfl nonempty
  | cons c cs =>
    rw [List.cons_append, scan_token (begins_minus (by simpa using noComment)), scans rest delimited]
    cases scan rest <;> rfl

end Relational.Sql

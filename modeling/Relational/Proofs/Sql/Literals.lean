import Relational.Proofs.Sql.Scanning
import Relational.Value.Cell

/-!
# Scanning literals

The literal of a cell is one token: a word, a quoted text or bytes. A number below zero is a minus
sign and a number (`scans_literal`).
-/

namespace Relational

namespace Sql

/-- The tokens of a number. -/
def signed (s : String) : List Token :=
  match s.toList with
  | '-' :: cs => [.operator .sub, .word (String.ofList cs)]
  | _ => [.word s]

/-- A number that is written without a sign. -/
def IsNumeral (cs : List Char) : Prop := ∃ c w, cs = c :: w ∧ c.isDigit = true ∧ ∀ d ∈ w, isNumberChar d = true

/-- A text that is one number. -/
def isNumeral (s : String) : Bool :=
  match s.toList with
  | c :: w => c.isDigit && w.all isNumberChar
  | [] => false

theorem isNumberChar_of_isDigit {c : Char} (digit : c.isDigit = true) : isNumberChar c = true := by
  simp [isNumberChar, isWordChar, digit]

theorem IsNumeral.append {cs w : List Char} (numeral : IsNumeral cs) (all : ∀ d ∈ w, isNumberChar d = true) : IsNumeral (cs ++ w) := by
  obtain ⟨c, v, rfl, first, rest⟩ := numeral
  exact ⟨c, v ++ w, rfl, first, fun d mem => (List.mem_append.1 mem).elim (rest d) (all d)⟩

theorem isNumeral_of_digits {cs : List Char} (nonempty : cs ≠ []) (all : ∀ c ∈ cs, c.isDigit = true) : IsNumeral cs := by
  cases cs with
  | nil => exact absurd rfl nonempty
  | cons c w =>
    exact ⟨c, w, rfl, all c List.mem_cons_self, fun d mem => isNumberChar_of_isDigit (all d (List.mem_cons_of_mem _ mem))⟩

theorem isNumeral_repr (n : Nat) : IsNumeral (Nat.repr n).toList := by
  rw [Nat.toList_repr]
  exact isNumeral_of_digits Nat.toDigits_ne_nil fun c mem => Nat.isDigit_of_mem_toDigits (by decide) (by decide) mem

theorem isNumberChar_repr (n : Nat) : ∀ d ∈ (Nat.repr n).toList, isNumberChar d = true := by
  rw [Nat.toList_repr]
  exact fun d mem => isNumberChar_of_isDigit (Nat.isDigit_of_mem_toDigits (by decide) (by decide) mem)

theorem isNumberChar_zeros (n : Nat) : ∀ d ∈ (Double.zeros n).toList, isNumberChar d = true := by
  intro d mem
  rw [Double.zeros, String.toList_ofList] at mem
  rw [List.eq_of_mem_replicate mem]
  rfl

theorem isNumeral_positional (digits : Nat) (exponent : Int) : IsNumeral (Double.positional false digits exponent).toList := by
  unfold Double.positional
  simp only [Bool.false_eq_true, if_false]
  split
  · simp only [String.toList_append, String.append_empty]
    exact (isNumeral_repr digits).append (isNumberChar_zeros _)
  split
  · next places =>
    have digit : ∀ c ∈ (Nat.repr digits).toList, c.isDigit = true := by
      rw [Nat.toList_repr]
      exact fun c mem => Nat.isDigit_of_mem_toDigits (by decide) (by decide) mem
    simp only [String.toList_append, String.toList_ofList, List.append_assoc]
    refine (isNumeral_of_digits ?_ fun c mem => digit c (List.mem_of_mem_take mem)).append fun d mem => ?_
    · rw [← String.length_toList] at places
      intro none
      have length := congrArg List.length none
      rw [List.length_take, List.length_nil] at length
      omega
    · rcases List.mem_append.1 mem with mem | mem
      · obtain rfl : d = '.' := by simpa using mem
        rfl
      · exact isNumberChar_of_isDigit (digit d (List.mem_of_mem_drop mem))
  · simp only [String.toList_append]
    refine IsNumeral.append (IsNumeral.append ⟨'0', ['.'], rfl, rfl, by simp [isNumberChar]⟩ (isNumberChar_zeros _)) (isNumberChar_repr digits)

theorem scans_word {s : String} (word : isWord s = true) : Scans s.toList [.word s] :=
  .of_token fun _ delimited => begins_word word (delimited.head (by decide) (by decide) (by decide))

/-- A number without a sign, or the word for what is no finite double. -/
def IsUnsigned (s : String) : Prop := IsNumeral s.toList ∨ s = "inf" ∨ s = "NaN"

/-- A number, with a sign or without. -/
def IsSigned (s : String) : Prop := IsUnsigned s ∨ ∃ w, s = "-" ++ w ∧ IsUnsigned w

section Numbers

variable {s : String}

theorem IsUnsigned.scans (number : IsUnsigned s) : Scans s.toList [.word s] := by
  rcases number with ⟨c, w, chars, first, all⟩ | rfl | rfl
  · have scans : Scans (c :: w) [.word (String.ofList (c :: w))] := .of_token fun rest delimited =>
      begins_number first all (delimited.head (by decide) (by decide) (by decide))
    rwa [← chars, String.ofList_toList] at scans
  · exact scans_word (by decide)
  · exact scans_word (by decide)

theorem IsUnsigned.exists_cons (number : IsUnsigned s) :
    ∃ c w, s.toList = c :: w ∧ c ≠ '-' ∧ s ∉ keywords := by
  rcases number with ⟨c, w, chars, first, all⟩ | rfl | rfl
  · have other : c ≠ '-' := by rintro rfl; cases first
    refine ⟨c, w, chars, other, fun mem => ?_⟩
    have words : keywords.all isWord = true := by decide
    have word := List.all_eq_true.1 words _ mem
    simp [isWord, chars, isLetter_of_isDigit first] at word
  · exact ⟨'i', ['n', 'f'], rfl, by decide, by decide⟩
  · exact ⟨'N', ['a', 'N'], rfl, by decide, by decide⟩

theorem signed_minus (w : String) : signed ("-" ++ w) = [.operator .sub, .word w] := by
  have chars : ("-" ++ w).toList = '-' :: w.toList := by simp
  simp only [signed, chars, String.ofList_toList]

theorem IsUnsigned.signed (number : IsUnsigned s) : signed s = [.word s] := by
  obtain ⟨c, w, chars, other, -⟩ := number.exists_cons
  unfold Sql.signed
  split
  · next minus =>
    rw [chars] at minus
    exact absurd (List.cons.inj minus).1 other
  · rfl

theorem IsSigned.scans (number : IsSigned s) : Scans s.toList (signed s) := by
  rcases number with number | ⟨w, rfl, number⟩
  · rw [number.signed]
    exact number.scans
  · obtain ⟨c, cs, chars, other, -⟩ := number.exists_cons
    have minus := number.scans.minus (by simp [chars]) (by simpa [chars] using other)
    rw [signed_minus]
    simpa using minus

end Numbers

theorem isSigned_int (n : Int) : IsSigned (toString n) := by
  cases n with
  | ofNat n => exact .inl (.inl (isNumeral_repr n))
  | negSucc n => exact .inr ⟨Nat.repr (n + 1), rfl, .inl (isNumeral_repr (n + 1))⟩

/-- Doubling the quotes of a text. -/
theorem replaceFrom_quote (cs : List Char) : Text.replaceFrom ['\''] ['\'', '\''] 0 cs = doubled cs := by
  induction cs with
  | nil => rfl
  | cons c cs ih =>
    rw [Text.replaceFrom, doubled, List.flatMap_cons, ← doubled]
    by_cases quote : c = '\''
    · simp [quote, ih]
    · have other : ¬('\'' = c) := fun eq => quote eq.symm
      simp [quote, other, ih]

theorem toList_replace_quote (s : String) : (Text.replace "'" "''" s).toList = doubled s.toList := by
  have nonempty : ("'" : String).isEmpty = false := by decide
  simp only [Text.replace, nonempty, Bool.false_eq_true, if_false, String.toList_ofList]
  exact replaceFrom_quote s.toList

end Sql

open Sql

/-- The tokens of the literal of a cell. -/
def Cell.tokens : Cell → List Token
  | .null => [.word "NULL"]
  | .integer n => signed (Cell.literal (.integer n))
  | .real x => signed (Cell.literal (.real x))
  | .text s => [.quoted s]
  | .blob bytes => [.bytes (String.ofList (bytes.flatMap hexByte))]

namespace Sql

/-- The text of a finite double is a numeral with a sign or without. -/
theorem numeral_double {x : Float} (finite : (Double.parts? x).isSome = true) :
    IsNumeral (Double.text x).toList ∨ ∃ w, Double.text x = "-" ++ w ∧ IsNumeral w.toList := by
  obtain ⟨parts, known⟩ := Option.isSome_iff_exists.1 finite
  simp only [Double.text, Double.FloatStyle.text, known, Double.plain,
    Double.FloatStyle.usesExponent, Bool.and_false, Bool.false_eq_true, if_false]
  split
  · exact .inr ⟨_, rfl, isNumeral_positional _ _⟩
  · exact .inl (isNumeral_positional _ _)

theorem isSigned_real (x : Float) : IsSigned (Cell.real x).literal := by
  cases known : Double.parts? x with
  | none =>
    have literal : (Cell.real x).literal = Double.text x := by simp [Cell.literal, known]
    rw [literal]
    simp only [Double.text, Double.FloatStyle.text, known]
    split
    · exact .inl (.inr (.inr rfl))
    split
    · exact .inr ⟨"inf", rfl, .inr (.inl rfl)⟩
    · exact .inl (.inr (.inl rfl))
  | some parts =>
    have numeral := numeral_double (x := x) (by rw [known]; rfl)
    simp only [Cell.literal]
    split
    · rcases numeral with numeral | ⟨w, minus, numeral⟩
      · exact .inl (.inl numeral)
      · exact .inr ⟨w, minus, .inl numeral⟩
    · have zero : ∀ d ∈ ['.', '0'], isNumberChar d = true := List.all_eq_true.1 (by decide)
      rcases numeral with numeral | ⟨w, minus, numeral⟩
      · exact .inl (.inl (by simpa using numeral.append zero))
      · refine .inr ⟨w ++ ".0", by rw [minus, String.append_assoc], .inl ?_⟩
        simpa using numeral.append zero

end Sql

end Relational

import Relational.Proofs.Json.Text
import Relational.Proofs.Sql.Literals
import Relational.Proofs.Values.Integers

/-!
# Decoding literals

A lexer for the literals of SQL: it takes the literal at the front of a text and says what it stands for. It takes back the literal of every
cell that is no double, whole and with nothing of the text behind it, if that text does not begin with a character
that can go on with a literal (`Cell.decode_literal_append`). So a text or bytes inside a statement never end early, whatever they hold.
-/

namespace Relational

namespace Sql

/-! ## The lexer -/

/-- A character inside a name: a letter, a digit, an underscore, a dollar sign, or anything beyond ASCII. -/
def isNameChar (c : Char) : Bool := c.isAlphanum || c == '_' || c == '$' || decide (128 ≤ c.toNat)

/-- A character that can go on with a literal: after a second quote a text has not ended, a point makes a fraction of an integer, and a word
or a number goes on through all characters of a name. -/
def continuesLiteral (c : Char) : Bool := c == '\'' || c == '.' || isNameChar c

/-- Bytes in pairs of hexadecimal digits up to the closing quote, and what follows it. -/
def hexBytes? : List Char → Option (List UInt8 × List Char)
  | '\'' :: cs => some ([], cs)
  | high :: low :: cs =>
    (Uuid.hexValue? high).bind fun h => (Uuid.hexValue? low).bind fun l =>
      (hexBytes? cs).map fun p => (UInt8.ofNat (16 * h + l) :: p.1, p.2)
  | _ => none

/-- A run of decimal digits, and what follows it. What goes on with a point, an exponent or another letter is no integer. -/
def numeral? (cs : List Char) : Option (Nat × List Char) :=
  if (cs.dropWhile Char.isDigit).head?.any fun c => c == '.' || isNameChar c then none
  else (Word.digitsValue? (cs.takeWhile Char.isDigit)).map fun n => (n, cs.dropWhile Char.isDigit)

/-- A run of decimal digits behind an optional sign, and what follows it. -/
def signedNumeral? : List Char → Option (Int × List Char)
  | '-' :: cs => (numeral? cs).map fun p => (-(p.1 : Int), p.2)
  | '+' :: cs => (numeral? cs).map fun p => (p.1, p.2)
  | cs => (numeral? cs).map fun p => (p.1, p.2)

/-- The literal at the front of a text, as the cell for which it stands, and what follows it. Small letters are read as large
ones, and a number that is no word of 64 bits is no integer. -/
def decode? : List Char → Option (Cell × List Char)
  | [] => none
  | c :: cs =>
    if c == '\'' then (quotedText? cs).map fun p => (.text (String.ofList p.1), p.2)
    else if (c == 'X' || c == 'x') && cs.head? == some '\'' then (hexBytes? cs.tail).map fun p => (.blob p.1, p.2)
    else if isLetter c then
      -- A word is taken whole, so a name that begins like the keyword is none.
      if (c :: cs.takeWhile isNameChar).map Char.toUpper = ['N', 'U', 'L', 'L'] then some (.null, cs.dropWhile isNameChar) else none
    else (signedNumeral? (c :: cs)).bind fun p => (Word.ofInt? p.1).map fun n => (.integer n, p.2)

/-! ## Bytes -/

theorem hexByte_eq (b : UInt8) : hexByte b = [(b.toNat / 16).digitChar.toUpper, (b.toNat % 16).digitChar.toUpper] := by
  have high : b.toNat / 16 < 16 := Nat.div_lt_of_lt_mul b.toNat_lt
  unfold hexByte
  by_cases small : b.toNat < 16
  · rw [Nat.toDigits_of_lt_base small, Nat.div_eq_of_lt small, Nat.mod_eq_of_lt small]
    rfl
  · rw [Nat.toDigits_of_base_le (by decide) (Nat.not_lt.1 small), Nat.toDigits_of_lt_base high]
    rfl

theorem hexValue?_upper {d : Nat} (digit : d < 16) : d.digitChar.toUpper ≠ '\'' ∧ Uuid.hexValue? d.digitChar.toUpper = some d :=
  (by decide : ∀ d : Fin 16, d.val.digitChar.toUpper ≠ '\'' ∧ Uuid.hexValue? d.val.digitChar.toUpper = some d.val) ⟨d, digit⟩

theorem hexBytes?_flatMap (bytes : List UInt8) (rest : List Char) : hexBytes? (bytes.flatMap hexByte ++ '\'' :: rest) = some (bytes, rest) := by
  induction bytes with
  | nil => cases rest <;> rfl
  | cons b bytes ih =>
    obtain ⟨plain, high⟩ := hexValue?_upper (Nat.div_lt_of_lt_mul b.toNat_lt : b.toNat / 16 < 16)
    have low := (hexValue?_upper (Nat.mod_lt b.toNat (by decide : 16 > 0))).2
    have read := hexBytes?.eq_2 _ (b.toNat % 16).digitChar.toUpper (bytes.flatMap hexByte ++ '\'' :: rest) plain
    rw [List.flatMap_cons, hexByte_eq, List.append_assoc]
    refine read.trans ?_
    rw [high, low, ih, Option.bind_some, Option.bind_some, Option.map_some, Nat.div_add_mod, UInt8.ofNat_toNat]

theorem decode?_blob (bytes : List UInt8) (rest : List Char) : decode? ((Cell.blob bytes).literal.toList ++ rest) = some (.blob bytes, rest) := by
  have chars : (Cell.blob bytes).literal.toList ++ rest = 'X' :: '\'' :: (bytes.flatMap hexByte ++ '\'' :: rest) := by
    simp [Cell.literal]
  rw [chars, decode?, List.tail_cons, hexBytes?_flatMap]
  rfl

/-! ## Words, texts and integers -/

/-- What begins with a digit or a minus sign is read as a number. -/
theorem decode?_number {c : Char} {cs rest : List Char} {n : Int64} (first : Json.beginsNumber c = true)
    (read : signedNumeral? (c :: cs) = some (n.toInt, rest)) : decode? (c :: cs) = some (.integer n, rest) := by
  have word : Word.ofInt? n.toInt = some n := Word.ofInt?_eq_some.2 ⟨⟨n.le_toInt, n.toInt_lt⟩, rfl⟩
  have quote : c ≠ '\'' := by rintro rfl; cases first
  have large : c ≠ 'X' := by rintro rfl; cases first
  have small : c ≠ 'x' := by rintro rfl; cases first
  have noLetter : isLetter c = false := by
    rcases Bool.or_eq_true_iff.1 first with digit | minus
    · exact isLetter_of_isDigit digit
    · rw [beq_iff_eq.1 minus]
      rfl
  simp [decode?, quote, large, small, noLetter, read, word]

variable {rest : List Char} (apart : ∀ c ∈ rest.head?, continuesLiteral c = false)
include apart

theorem decode?_null : decode? (Cell.null.literal.toList ++ rest) = some (.null, rest) := by
  have stop : ∀ c ∈ rest.head?, isNameChar c = false := fun c mem => (Bool.or_eq_false_iff.1 (apart c mem)).2
  have word : ∀ c ∈ ['U', 'L', 'L'], isNameChar c = true := List.all_eq_true.1 (by decide)
  obtain ⟨taken, dropped⟩ := takeWhile_append word stop
  change decode? ('N' :: (['U', 'L', 'L'] ++ rest)) = _
  rw [decode?, taken, dropped]
  rfl

theorem decode?_text (s : String) : decode? ((Cell.text s).literal.toList ++ rest) = some (.text s, rest) := by
  have delimited : rest.head? ≠ some '\'' := fun head => absurd (apart '\'' head) (by decide)
  have chars : (Cell.text s).literal.toList ++ rest = '\'' :: (doubled s.toList ++ '\'' :: rest) := by
    simp [Cell.literal, toList_replace_quote]
  rw [chars, decode?, quotedText?_doubled s.toList delimited]
  simp

theorem numeral?_toDigits (n : Nat) : numeral? (Nat.toDigits 10 n ++ rest) = some (n, rest) := by
  have stop : ∀ c ∈ rest.head?, (c == '.' || isNameChar c) = false := by
    intro c mem
    have other := apart c mem
    rw [continuesLiteral, Bool.or_assoc, Bool.or_eq_false_iff] at other
    exact other.2
  have noDigit : ∀ c ∈ rest.head?, c.isDigit = false := by
    intro c mem
    have other := (Bool.or_eq_false_iff.1 (stop c mem)).2
    simp only [isNameChar, Char.isAlphanum, Bool.or_eq_false_iff] at other
    exact other.1.1.1.2
  obtain ⟨taken, dropped⟩ := takeWhile_append (fun c => Json.isDigit_toDigits (n := n)) noDigit
  have integral : rest.head?.any (fun c => c == '.' || isNameChar c) = false := (Option.any_eq_false _ _).2 stop
  rw [numeral?, taken, dropped, integral, Json.digitsValue?_toDigits]
  rfl

theorem signedNumeral?_toString (n : Int) : signedNumeral? ((toString n).toList ++ rest) = some (n, rest) := by
  cases n with
  | ofNat n =>
    have chars : (toString (Int.ofNat n)).toList = Nat.toDigits 10 n := Nat.toList_repr
    have read := numeral?_toDigits apart n
    obtain ⟨c, cs, digits, digit, -⟩ := Json.toDigits_eq_cons n
    -- The first digit is no sign, so the last equation of the reader applies.
    have minus : c ≠ '-' := by rintro rfl; cases digit
    have plus : c ≠ '+' := by rintro rfl; cases digit
    rw [digits] at read
    rw [chars, digits, List.cons_append, signedNumeral?.eq_3 _ (by simpa using minus) (by simpa using plus), ← List.cons_append, read]
    rfl
  | negSucc n =>
    rw [Json.toList_toString_negSucc, List.cons_append, signedNumeral?, numeral?_toDigits apart (n + 1)]
    rfl

theorem decode?_integer (n : Int64) : decode? ((Cell.integer n).literal.toList ++ rest) = some (.integer n, rest) := by
  obtain ⟨c, cs, chars, first⟩ := Json.toList_compact_int n.toInt
  have read := signedNumeral?_toString apart n.toInt
  change (toString n.toInt).toList = c :: cs at chars
  rw [chars] at read
  rw [Cell.literal, chars]
  exact decode?_number first read

end Sql

open Sql

/-- The literal of a cell that is no double is read back as the cell, up to its last character and not beyond. This holds whatever the text
or the bytes are, and whatever follows, if its first character cannot go on with a literal. -/
theorem Cell.decode_literal_append {c : Cell} {rest : String} (discrete : ∀ x, c ≠ .real x)
    (apart : ∀ d ∈ rest.toList.head?, continuesLiteral d = false) : decode? (c.literal ++ rest).toList = some (c, rest.toList) := by
  rw [String.toList_append]
  cases c with
  | null => exact decode?_null apart
  | integer n => exact decode?_integer apart n
  | real x => exact absurd rfl (discrete x)
  | text s => exact decode?_text apart s
  | blob bytes => exact decode?_blob bytes _

/-- A text that would end its literal and go on as a condition if its quotes were not doubled, and the least integer. -/
theorem Cell.decode_literal_condition :
    (Cell.text "' OR 1 --'").literal = "''' OR 1 --'''" ∧ continuesLiteral ')' = false ∧
      decode? ((Cell.text "' OR 1 --'").literal ++ ") IS 2").toList = some (.text "' OR 1 --'", ") IS 2".toList) ∧
      decode? ((Cell.integer Int64.minValue).literal ++ ") IS 2").toList = some (.integer Int64.minValue, ") IS 2".toList) := by
  have apart : ∀ d ∈ (") IS 2" : String).toList.head?, continuesLiteral d = false := by
    rintro d ⟨⟩
    rfl
  exact ⟨rfl, rfl, decode_literal_append (by rintro x ⟨⟩) apart, decode_literal_append (by rintro x ⟨⟩) apart⟩

-- A letter, a point and a quote, which are left out, each change the literal before them.
example : decode? (Cell.null.literal ++ "S").toList = none ∧ decode? ((Cell.integer 1).literal ++ ".5").toList = none ∧
    decode? ((Cell.text "a").literal ++ "'").toList = none := ⟨rfl, rfl, rfl⟩

end Relational

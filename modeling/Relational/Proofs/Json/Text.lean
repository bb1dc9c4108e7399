import Mathlib.Tactic.Common
import Relational.Json.Parser
import Relational.Json.Printer

/-!
# Reading what has been written

The text of a document is read back as the document, if its whole numbers are words and it has no other numbers (`parse?_compact`). The
fuel of the reader covers two steps for each character.
-/

namespace Relational.Json

/-! ## Documents without fractions -/

mutual

/-- A document whose numbers are words, signed or not. -/
def IsExact : Json → Prop
  | null | bool _ | string _ => True
  | int n => -(pow2 63 : Int) ≤ n ∧ n < pow2 64
  | float _ => False
  | array items => exactItems items
  | object members => exactMembers members

def exactItems : List Json → Prop
  | [] => True
  | j :: js => j.IsExact ∧ exactItems js

def exactMembers : List (String × Json) → Prop
  | [] => True
  | (_, j) :: ms => j.IsExact ∧ exactMembers ms

end

/-- A text in which no number goes on. -/
def Stops (cs : List Char) : Prop := ∀ c ∈ cs.head?, c.isDigit = false ∧ c ≠ '.' ∧ c ≠ 'e' ∧ c ≠ 'E'

/-! ## Strings -/

/-- The four digits of a control character. -/
def controlDigits (n : Nat) : List Char := '0' :: '0' :: ((if n < 16 then "0" else "") ++ Text.hexDigits n).toList

theorem hexQuad?_append {digits : List Char} (four : digits.length = 4) (cs : List Char) :
    hexQuad? (digits ++ cs) = (hexQuad? digits).map fun p => (p.1, cs) := by
  have taken : (digits ++ cs).take 4 = digits := List.take_left' four
  have dropped : (digits ++ cs).drop 4 = cs := List.drop_left' four
  have all : digits.take 4 = digits := List.take_of_length_le (Nat.le_of_eq four)
  rw [hexQuad?, hexQuad?, taken, dropped, all]
  cases digits.mapM Uuid.hexValue? with
  | none => rfl
  | some values =>
    simp only [Option.bind_eq_bind, Option.bind_some]
    split <;> rfl

theorem hexQuad?_control {n : Nat} (control : n < 32) (cs : List Char) : hexQuad? (controlDigits n ++ cs) = some (n, cs) := by
  have all : ∀ n : Fin 32, (controlDigits n).length = 4 ∧ hexQuad? (controlDigits n) = some (n.val, []) := by decide
  rw [hexQuad?_append (all ⟨n, control⟩).1, (all ⟨n, control⟩).2]
  rfl

theorem readEscape?_control {c : Char} (control : c.toNat < 32) (cs : List Char) :
    readEscape? ('u' :: (controlDigits c.toNat ++ cs)) = some (c, cs) := by
  have low : isLowSurrogate c.toNat = false := by simp [isLowSurrogate]; omega
  have high : isHighSurrogate c.toNat = false := by simp [isHighSurrogate]; omega
  simp [readEscape?, readUnicode?, hexQuad?_control control, low, high]

/-- A character, as it is written, is read in one step. -/
theorem readString?_escaped (c : Char) (fuel : Nat) (read cs : List Char) :
    readString? (fuel + 1) read ((escaped c).toList ++ cs) = readString? fuel (c :: read) cs := by
  have escape {d : Char} {r : List Char} (known : readEscape? r = some (d, cs)) :
      readString? (fuel + 1) read ('\\' :: r) = readString? fuel (d :: read) cs := by
    simp [readString?, known]
  unfold escaped
  split
  · next eq => rw [beq_iff_eq.1 eq]; exact escape rfl
  split
  · next eq => rw [beq_iff_eq.1 eq]; exact escape rfl
  split
  · next eq => rw [beq_iff_eq.1 eq]; exact escape rfl
  split
  · next eq => rw [beq_iff_eq.1 eq]; exact escape rfl
  split
  · next eq => rw [beq_iff_eq.1 eq]; exact escape rfl
  split
  · next eq => rw [beq_iff_eq.1 eq]; exact escape rfl
  split
  · next eq => rw [beq_iff_eq.1 eq]; exact escape rfl
  split
  · next control =>
    have chars : ("\\u00" ++ (if c.toNat < 16 then "0" else "") ++ Text.hexDigits c.toNat).toList ++ cs =
        '\\' :: 'u' :: (controlDigits c.toNat ++ cs) := by
      simp [controlDigits]
    rw [chars]
    exact escape (readEscape?_control control cs)
  · next quote backslash _ _ _ _ _ control =>
    have chars : c.toString.toList = [c] := by simp
    rw [chars]
    simp [readString?, beq_iff_eq.not.1 quote, beq_iff_eq.not.1 backslash, control]

/-- What stands between the quotes of a string. -/
def escapedAll (cs : List Char) : List Char := cs.flatMap fun c => (escaped c).toList

theorem toList_quoted (s : String) : (quoted s).toList = '"' :: (escapedAll s.toList ++ ['"']) := by
  simp [quoted, escapedAll, List.flatMap_map]

theorem readString?_escapedAll {s : List Char} {fuel : Nat} (enough : s.length < fuel) (read rest : List Char) :
    readString? fuel read (escapedAll s ++ '"' :: rest) = some (String.ofList (read.reverse ++ s), rest) := by
  induction s generalizing fuel read with
  | nil =>
    obtain ⟨fuel, rfl⟩ := Nat.exists_eq_add_of_lt enough
    simp [escapedAll, readString?]
  | cons c s ih =>
    obtain ⟨fuel, rfl⟩ := Nat.exists_eq_succ_of_ne_zero (Nat.ne_of_gt (Nat.lt_of_le_of_lt (Nat.zero_le _) enough))
    rw [escapedAll, List.flatMap_cons, ← escapedAll, List.append_assoc, Nat.succ_eq_add_one, readString?_escaped,
      ih (by simpa using enough)]
    simp

theorem length_le_escapedAll (s : List Char) : s.length ≤ (escapedAll s).length := by
  have one (c : Char) : 1 ≤ (escaped c).toList.length := by
    unfold escaped
    repeat' split
    all_goals simp
  induction s with
  | nil => exact Nat.zero_le _
  | cons c s ih =>
    rw [escapedAll, List.flatMap_cons, ← escapedAll, List.length_append, List.length_cons]
    have := one c
    omega

/-! ## Numbers -/

theorem head_toDigits {n : Nat} (positive : 0 < n) : (Nat.toDigits 10 n).head? ≠ some '0' := by
  induction n using Nat.strongRecOn with
  | ind n ih =>
    by_cases small : n < 10
    · rw [Nat.toDigits_of_lt_base small]
      have digits : ∀ n : Fin 10, 0 < n.val → Nat.digitChar n.val ≠ '0' := by decide
      simpa using digits ⟨n, small⟩ positive
    · rw [Nat.toDigits_of_base_le (by decide) (Nat.not_lt.1 small)]
      have rest := ih (n / 10) (by omega) (by omega)
      cases more : Nat.toDigits 10 (n / 10) with
      | nil => exact absurd more Nat.toDigits_ne_nil
      | cons c cs =>
        rw [more] at rest
        exact rest

theorem isDigit_toDigits {n : Nat} {c : Char} (mem : c ∈ Nat.toDigits 10 n) : c.isDigit = true :=
  Nat.isDigit_of_mem_toDigits (by decide) (by decide) mem

/-- A number begins with a digit, and only zero with a zero. -/
theorem toDigits_eq_cons (n : Nat) : ∃ c cs, Nat.toDigits 10 n = c :: cs ∧ c.isDigit = true ∧ (0 < n → c ≠ '0') := by
  cases digits : Nat.toDigits 10 n with
  | nil => exact absurd digits Nat.toDigits_ne_nil
  | cons c cs =>
    refine ⟨c, cs, rfl, isDigit_toDigits (n := n) (by rw [digits]; exact List.mem_cons_self), fun positive zero => ?_⟩
    exact head_toDigits positive (by rw [digits, zero]; rfl)

theorem digitsValue?_toDigits (n : Nat) : Word.digitsValue? (Nat.toDigits 10 n) = some n := by
  have digits : (Nat.toDigits 10 n).all Char.isDigit = true := List.all_eq_true.2 fun c => isDigit_toDigits
  have nonempty : (Nat.toDigits 10 n).isEmpty = false := List.isEmpty_eq_false_iff.2 Nat.toDigits_ne_nil
  rw [Word.digitsValue?, digits, nonempty]
  exact congrArg some (Nat.ofDigitChars_toDigits (by decide) (by decide))

theorem toList_toString_negSucc (n : Nat) : (toString (Int.negSucc n)).toList = '-' :: Nat.toDigits 10 (n + 1) := by
  rw [← Nat.toList_repr]
  change ("-" ++ Nat.repr (n + 1)).toList = _
  rw [String.toList_append]
  rfl

theorem readFraction?_of_stops {cs : List Char} (stops : Stops cs) : readFraction? cs = some ([], cs) := by
  cases cs with
  | nil => rfl
  | cons c cs =>
    have point := (stops c rfl).2.1
    simp [readFraction?, point]

theorem readExponent?_of_stops {cs : List Char} (stops : Stops cs) : readExponent? cs = some (none, cs) := by
  cases cs with
  | nil => rfl
  | cons c cs =>
    obtain ⟨-, -, small, large⟩ := stops c rfl
    simp [readExponent?, small, large]

theorem readUnsigned?_toDigits (negative : Bool) (n : Nat) {rest : List Char} (stops : Stops rest) :
    readUnsigned? negative (Nat.toDigits 10 n ++ rest) = some (wholeNumber negative n, rest) := by
  have noDigit : (rest.head?.map Char.isDigit).getD false = false := by
    cases rest with
    | nil => rfl
    | cons c rest => exact (stops c rfl).1
  have whole : (if (Nat.toDigits 10 n ++ rest).head? == some '0' then ['0'] else (Nat.toDigits 10 n ++ rest).takeWhile Char.isDigit) =
      Nat.toDigits 10 n := by
    by_cases zero : n = 0
    · rw [zero]
      rfl
    · have head : (Nat.toDigits 10 n ++ rest).head? ≠ some '0' := by
        obtain ⟨c, cs, digits, -, other⟩ := toDigits_eq_cons n
        rw [digits]
        simpa using other (Nat.pos_of_ne_zero zero)
      have stop : rest.takeWhile Char.isDigit = [] := by
        cases rest with
        | nil => rfl
        | cons c rest => rw [List.takeWhile_cons, (stops c rfl).1]; rfl
      rw [beq_eq_false_iff_ne.2 head, List.takeWhile_append_of_pos fun c => isDigit_toDigits, stop, List.append_nil]
      rfl
  simp only [readUnsigned?, whole]
  simp [digitsValue?_toDigits, readFraction?_of_stops stops, readExponent?_of_stops stops, noDigit]

theorem readNumber?_toString {n : Int} (low : -(pow2 63 : Int) ≤ n) (high : n < pow2 64) {rest : List Char} (stops : Stops rest) :
    readNumber? ((toString n).toList ++ rest) = some (int n, rest) := by
  cases n with
  | ofNat n =>
    have chars : (toString (Int.ofNat n)).toList = Nat.toDigits 10 n := Nat.toList_repr
    have word : n < pow2 64 := Int.ofNat_lt.1 high
    rw [chars]
    have first : ∀ cs, Nat.toDigits 10 n ++ rest ≠ '-' :: cs := by
      intro cs eq
      obtain ⟨c, ds, digits, digit, -⟩ := toDigits_eq_cons n
      rw [digits, List.cons_append] at eq
      rw [(List.cons.inj eq).1] at digit
      cases digit
    rw [readNumber?]
    · rw [readUnsigned?_toDigits false n stops, wholeNumber]
      simp [word]
    · exact first
  | negSucc n =>
    have word : (n + 1 == 0 || decide (pow2 63 < n + 1)) = false := by
      have small : ¬pow2 63 < n + 1 := by omega
      rw [decide_eq_false small]
      rfl
    rw [toList_toString_negSucc, List.cons_append, readNumber?, readUnsigned?_toDigits true (n + 1) stops, wholeNumber, if_pos rfl, word]
    rfl

/-! ## Documents -/

theorem skipSpaces_cons {c : Char} (solid : isSpace c = false) (cs : List Char) : skipSpaces (c :: cs) = c :: cs := by
  simp [skipSpaces, solid]

/-- A character that begins a number. -/
def beginsNumber (c : Char) : Bool := c.isDigit || c == '-'

theorem readValue?_number {c : Char} (first : beginsNumber c = true) (fuel depth : Nat) (cs : List Char) :
    readValue? (fuel + 1) depth (c :: cs) = readNumber? (c :: cs) := by
  have other {d : Char} (no : beginsNumber d = false) : c ≠ d := by
    rintro rfl
    rw [no] at first
    cases first
  have solid : isSpace c = false := by
    simp [isSpace, other (d := ' ') rfl, other (d := '\t') rfl, other (d := '\n') rfl, other (d := '\r') rfl]
  rw [readValue?, skipSpaces_cons solid]
  simp [other (d := '"') rfl, other (d := '[') rfl, other (d := '\x7b') rfl, other (d := 't') rfl, other (d := 'f') rfl, other (d := 'n') rfl]

theorem readValue?_string {s : List Char} {fuel : Nat} (enough : s.length < fuel) (depth : Nat) (rest : List Char) :
    readValue? (fuel + 1) depth ('"' :: (escapedAll s ++ '"' :: rest)) = some (string (String.ofList s), rest) := by
  rw [readValue?, skipSpaces_cons rfl]
  simp [readString?_escapedAll enough]

/-- A text that can begin an item or a member. -/
def Opens (cs : List Char) : Prop := ∃ c r, cs = c :: r ∧ isSpace c = false ∧ c ≠ ']' ∧ c ≠ '\x7d'

theorem Opens.append {cs : List Char} (opens : Opens cs) (r : List Char) : Opens (cs ++ r) := by
  obtain ⟨c, t, rfl, solid⟩ := opens
  exact ⟨c, t ++ r, rfl, solid⟩

theorem readValue?_array {cs : List Char} (opens : Opens cs) (fuel depth : Nat) :
    readValue? (fuel + 1) (depth + 1) ('[' :: cs) = (readItems? fuel depth cs).map fun p => (array p.1, p.2) := by
  obtain ⟨c, r, rfl, solid, bracket, -⟩ := opens
  rw [readValue?, skipSpaces_cons rfl]
  simp [skipSpaces_cons solid, bracket]

theorem readValue?_object {cs : List Char} (opens : Opens cs) (fuel depth : Nat) :
    readValue? (fuel + 1) (depth + 1) ('\x7b' :: cs) = (readMembers? fuel depth cs).map fun p => (object p.1, p.2) := by
  obtain ⟨c, r, rfl, solid, -, brace⟩ := opens
  rw [readValue?, skipSpaces_cons rfl]
  simp [skipSpaces_cons solid, brace]

/-- The name of a member, up to its value. -/
def memberName (name : String) (cs : List Char) : List Char := '"' :: (escapedAll name.toList ++ '"' :: ':' :: cs)

section Members

variable {name : String} {fuel depth : Nat} {cs rest : List Char} {j : Json}

theorem readMembers?_last (enough : name.toList.length < fuel) (value : readValue? fuel depth cs = some (j, '\x7d' :: rest)) :
    readMembers? (fuel + 1) depth (memberName name cs) = some ([(name, j)], rest) := by
  rw [readMembers?, memberName, skipSpaces_cons rfl]
  simp [readString?_escapedAll enough, skipSpaces_cons (c := ':') rfl, value, skipSpaces_cons (c := '\x7d') rfl]

theorem readMembers?_next {r : List Char} {ms : List (String × Json)} (enough : name.toList.length < fuel)
    (value : readValue? fuel depth cs = some (j, ',' :: r)) (others : readMembers? fuel depth r = some (ms, rest)) :
    readMembers? (fuel + 1) depth (memberName name cs) = some ((name, j) :: ms, rest) := by
  rw [readMembers?, memberName, skipSpaces_cons rfl]
  simp [readString?_escapedAll enough, skipSpaces_cons (c := ':') rfl, value, skipSpaces_cons (c := ',') rfl, others]

end Members

/-- The texts of items with commas between them. -/
def compactList (items : List Json) : List Char := (",".intercalate (compactItems items)).toList

def compactFields (members : List (String × Json)) : List Char := (",".intercalate (compactMembers members)).toList

theorem toList_compact_array (items : List Json) : (array items).compact.toList = '[' :: (compactList items ++ [']']) := by
  simp [compact, compactList]

theorem toList_compact_object (members : List (String × Json)) :
    (object members).compact.toList = '\x7b' :: (compactFields members ++ ['\x7d']) := by
  simp [compact, compactFields]

theorem compactList_singleton (j : Json) : compactList [j] = j.compact.toList := by
  simp [compactList, compactItems]

theorem compactList_cons (j : Json) {js : List Json} (more : js ≠ []) :
    compactList (j :: js) = j.compact.toList ++ ',' :: compactList js := by
  cases js with
  | nil => exact absurd rfl more
  | cons k js => simp [compactList, compactItems, String.intercalate_cons_cons]

theorem compactFields_singleton (name : String) (j : Json) : compactFields [(name, j)] = memberName name j.compact.toList := by
  simp [compactFields, compactMembers, toList_quoted, memberName]

theorem compactFields_cons (name : String) (j : Json) {ms : List (String × Json)} (more : ms ≠ []) :
    compactFields ((name, j) :: ms) = memberName name (j.compact.toList ++ ',' :: compactFields ms) := by
  cases ms with
  | nil => exact absurd rfl more
  | cons m ms => simp [compactFields, compactMembers, toList_quoted, String.intercalate_cons_cons, memberName]

theorem memberName_append (name : String) (cs r : List Char) : memberName name cs ++ r = memberName name (cs ++ r) := by
  simp [memberName]

theorem length_memberName (name : String) (cs : List Char) : name.toList.length + cs.length + 3 ≤ (memberName name cs).length := by
  have length := length_le_escapedAll name.toList
  simp only [memberName, List.length_cons, List.length_append]
  omega

theorem toList_compact_int (n : Int) : ∃ c cs, (int n).compact.toList = c :: cs ∧ beginsNumber c = true := by
  cases n with
  | ofNat n =>
    obtain ⟨c, cs, digits, digit, -⟩ := toDigits_eq_cons n
    exact ⟨c, cs, Nat.toList_repr.trans digits, by simp [beginsNumber, digit]⟩
  | negSucc n => exact ⟨'-', Nat.toDigits 10 (n + 1), toList_toString_negSucc n, rfl⟩

theorem opens_compact {j : Json} (exact' : j.IsExact) : Opens j.compact.toList := by
  cases j with
  | null => exact ⟨'n', ['u', 'l', 'l'], rfl, by decide⟩
  | bool b => cases b <;> exact ⟨_, _, rfl, by decide⟩
  | int n =>
    obtain ⟨c, cs, chars, first⟩ := toList_compact_int n
    refine ⟨c, cs, chars, ?_⟩
    have other {d : Char} (no : beginsNumber d = false) : c ≠ d := by
      rintro rfl
      rw [no] at first
      cases first
    exact ⟨by simp [isSpace, other (d := ' ') rfl, other (d := '\t') rfl, other (d := '\n') rfl, other (d := '\r') rfl], other rfl, other rfl⟩
  | float x => exact exact'.elim
  | string s => exact ⟨'"', _, toList_quoted s, by decide⟩
  | array items => exact ⟨'[', _, toList_compact_array items, by decide⟩
  | object members => exact ⟨'\x7b', _, toList_compact_object members, by decide⟩

theorem opens_compactList {items : List Json} (nonempty : items ≠ []) (exact' : exactItems items) : Opens (compactList items) := by
  cases items with
  | nil => exact absurd rfl nonempty
  | cons j js =>
    by_cases last : js = []
    · rw [last, compactList_singleton]
      exact opens_compact exact'.1
    · rw [compactList_cons j last]
      exact (opens_compact exact'.1).append _

theorem opens_compactFields {members : List (String × Json)} (nonempty : members ≠ []) : Opens (compactFields members) := by
  have name (s : String) (cs : List Char) : Opens (memberName s cs) := ⟨'"', _, rfl, by decide⟩
  cases members with
  | nil => exact absurd rfl nonempty
  | cons m ms =>
    by_cases last : ms = []
    · rw [last, compactFields_singleton]
      exact name _ _
    · rw [compactFields_cons m.1 m.2 last]
      exact name _ _

theorem stops_comma (cs : List Char) : Stops (',' :: cs) := by rintro c ⟨⟩; decide

theorem stops_bracket (cs : List Char) : Stops (']' :: cs) := by rintro c ⟨⟩; decide

theorem stops_brace (cs : List Char) : Stops ('\x7d' :: cs) := by rintro c ⟨⟩; decide

mutual

theorem readValue?_compact (j : Json) (exact' : j.IsExact) {fuel depth : Nat} {rest : List Char} (enough : 2 * j.compact.toList.length ≤ fuel)
    (shallow : j.depth ≤ depth) (stops : Stops rest) : readValue? fuel depth (j.compact.toList ++ rest) = some (j, rest) := by
  obtain ⟨c, r, chars, -⟩ := opens_compact exact'
  obtain ⟨fuel, rfl⟩ : ∃ n, fuel = n + 1 := ⟨fuel - 1, by rw [chars, List.length_cons] at enough; omega⟩
  cases j with
  | null => rfl
  | bool b => cases b <;> rfl
  | int n =>
    obtain ⟨c, r, chars, first⟩ := toList_compact_int n
    rw [chars, List.cons_append, readValue?_number first, ← List.cons_append, ← chars]
    exact readNumber?_toString exact'.1 exact'.2 stops
  | float x => exact exact'.elim
  | string s =>
    rw [compact, toList_quoted] at enough ⊢
    have length := length_le_escapedAll s.toList
    simp only [List.length_cons, List.length_append, List.length_nil] at enough
    rw [List.cons_append, List.append_assoc, List.singleton_append, readValue?_string (by omega), String.ofList_toList]
  | array items =>
    obtain ⟨depth, rfl⟩ : ∃ n, depth = n + 1 := ⟨depth - 1, by rw [Json.depth] at shallow; omega⟩
    rw [toList_compact_array] at enough ⊢
    by_cases empty : items = []
    · rw [empty]
      rfl
    · simp only [List.length_cons, List.length_append, List.length_nil] at enough
      rw [List.cons_append, List.append_assoc, List.singleton_append, readValue?_array ((opens_compactList empty exact').append _),
        readItems?_compact items empty exact' (by omega) (Nat.le_of_succ_le_succ shallow)]
      rfl
  | object members =>
    obtain ⟨depth, rfl⟩ : ∃ n, depth = n + 1 := ⟨depth - 1, by rw [Json.depth] at shallow; omega⟩
    rw [toList_compact_object] at enough ⊢
    by_cases empty : members = []
    · rw [empty]
      rfl
    · simp only [List.length_cons, List.length_append, List.length_nil] at enough
      rw [List.cons_append, List.append_assoc, List.singleton_append, readValue?_object ((opens_compactFields empty).append _),
        readMembers?_compact members empty exact' (by omega) (Nat.le_of_succ_le_succ shallow)]
      rfl

theorem readItems?_compact (items : List Json) (nonempty : items ≠ []) (exact' : exactItems items) {fuel depth : Nat} {rest : List Char}
    (enough : 2 * (compactList items).length + 1 ≤ fuel) (shallow : depthItems items ≤ depth) :
    readItems? fuel depth (compactList items ++ ']' :: rest) = some (items, rest) := by
  obtain ⟨fuel, rfl⟩ : ∃ n, fuel = n + 1 := ⟨fuel - 1, by omega⟩
  cases items with
  | nil => exact absurd rfl nonempty
  | cons j js =>
    rw [depthItems] at shallow
    by_cases last : js = []
    · subst last
      rw [compactList_singleton] at enough ⊢
      rw [readItems?, readValue?_compact j exact'.1 (by omega) (by omega) (stops_bracket rest)]
      rfl
    · rw [compactList_cons j last] at enough ⊢
      simp only [List.length_cons, List.length_append] at enough
      rw [readItems?, List.append_assoc, List.cons_append, readValue?_compact j exact'.1 (by omega) (by omega) (stops_comma _)]
      simp only [Option.bind_eq_bind, Option.bind_some, skipSpaces_cons (c := ',') rfl]
      rw [readItems?_compact js last exact'.2 (by omega) (by omega)]
      rfl

theorem readMembers?_compact (members : List (String × Json)) (nonempty : members ≠ []) (exact' : exactMembers members) {fuel depth : Nat}
    {rest : List Char} (enough : 2 * (compactFields members).length + 1 ≤ fuel) (shallow : depthMembers members ≤ depth) :
    readMembers? fuel depth (compactFields members ++ '\x7d' :: rest) = some (members, rest) := by
  obtain ⟨fuel, rfl⟩ : ∃ n, fuel = n + 1 := ⟨fuel - 1, by omega⟩
  cases members with
  | nil => exact absurd rfl nonempty
  | cons m ms =>
    cases m with
    | mk name j =>
      rw [depthMembers] at shallow
      by_cases last : ms = []
      · subst last
        have length := length_memberName name j.compact.toList
        rw [compactFields_singleton] at enough ⊢
        rw [memberName_append]
        exact readMembers?_last (by omega) (readValue?_compact j exact'.1 (by omega) (by omega) (stops_brace rest))
      · have length := length_memberName name (j.compact.toList ++ ',' :: compactFields ms)
        rw [compactFields_cons name j last] at enough ⊢
        simp only [List.length_append, List.length_cons] at length
        rw [memberName_append, List.append_assoc, List.cons_append]
        exact readMembers?_next (by omega) (readValue?_compact j exact'.1 (by omega) (by omega) (stops_comma _))
          (readMembers?_compact ms last exact'.2 (by omega) (by omega))

end

/-- The text of a document is read back as the document. -/
theorem parse?_compact {j : Json} (exact' : j.IsExact) {depth : Nat} (shallow : j.depth ≤ depth) : parse? depth j.compact = some j := by
  have read : readValue? (2 * j.compact.toList.length + 2) depth (j.compact.toList ++ []) = some (j, []) :=
    readValue?_compact j exact' (by omega) shallow (by simp [Stops])
  rw [List.append_nil] at read
  simp only [parse?, read]
  rfl

end Relational.Json

import Mathlib
import Relational.Proofs.Json.Text
import Relational.Time.Layout

/-!
# Timestamps and their texts

The year, month and day of a day are a date that the calendar has, and its number is that day (`Calendar.dayNumber?_of_day`). So a timestamp
that is written to the millisecond is read back from its text (`Timestamp.parse?_text`).
-/

namespace Relational

/-! ## The calendar -/

namespace Calendar

theorem daysBefore_succ (year : Int) : daysBefore (year + 1) = daysBefore year + yearLength year := by
  have leap : isLeap year = true ↔ year % 4 = 0 ∧ (year % 100 ≠ 0 ∨ year % 400 = 0) := by simp [isLeap]
  by_cases known : isLeap year = true
  · rw [yearLength, if_pos known]
    rw [leap] at known
    simp only [daysBefore]
    omega
  · rw [yearLength, if_neg known]
    rw [leap] at known
    simp only [daysBefore]
    omega

/-- A day lies in its year. -/
theorem yearOf_spec (day : Int) : daysBefore (yearOf day) ≤ day ∧ day < daysBefore (yearOf day + 1) := by
  simp only [yearOf]
  split
  · simp only [daysBefore] at *
    omega
  · split <;> simp only [daysBefore] at * <;> omega

theorem daysBefore_mono {year year' : Int} (le : year ≤ year') : daysBefore year ≤ daysBefore year' := by
  simp only [daysBefore]
  omega

theorem sum_monthLengths (year : Int) : (monthLengths year).sum = yearLength year := by
  rw [monthLengths, yearLength]
  cases isLeap year <;> rfl

/-- A day of a year lies in one of its months: the days of the months before it and the day of the month make up the day of the year. -/
theorem splitMonths_spec {lengths : List Nat} {rest : Nat} (within : rest < lengths.sum) (month : Nat) :
    ∃ n length, lengths[n]? = some length ∧ (splitMonths lengths month rest).1 = month + n ∧ 1 ≤ (splitMonths lengths month rest).2 ∧
      (splitMonths lengths month rest).2 ≤ length ∧ (lengths.take n).sum + (splitMonths lengths month rest).2 = rest + 1 := by
  induction lengths generalizing month rest with
  | nil => cases within
  | cons length lengths ih =>
    rw [splitMonths]
    split
    · next first => exact ⟨0, length, rfl, rfl, Nat.le_add_left _ _, first, by simp⟩
    · next later =>
      rw [List.sum_cons] at within
      obtain ⟨n, next, found, place, low, high, total⟩ := ih (show rest - length < lengths.sum by omega) (month + 1)
      refine ⟨n + 1, next, found, by omega, low, high, ?_⟩
      rw [List.take_succ_cons, List.sum_cons]
      omega

/-- The year, month and day of a day are those of a date, which is that day. -/
theorem dayNumber?_of_day {day : Int} (inRange : InRange day) :
    dayNumber? (yearOf day) (monthAndDay day).1 (monthAndDay day).2 = some day := by
  obtain ⟨low, high⟩ := yearOf_spec day
  have first : firstYear ≤ yearOf day := by
    by_contra early
    have := daysBefore_mono (show yearOf day + 1 ≤ firstYear by omega)
    have := inRange.1
    omega
  have last : yearOf day ≤ lastYear := by
    by_contra late
    have := daysBefore_mono (show lastYear + 1 ≤ yearOf day by omega)
    have := inRange.2
    omega
  have within : dayOfYear day < (monthLengths (yearOf day)).sum := by
    have := daysBefore_succ (yearOf day)
    rw [sum_monthLengths, dayOfYear]
    omega
  obtain ⟨n, length, found, month, one, most, total⟩ := splitMonths_spec within 1
  rw [monthAndDay, month]
  have fits : monthLength (yearOf day) (1 + n) = length := by
    simp [monthLength, found, Nat.add_comm 1 n]
  have before : daysBeforeMonth (yearOf day) (1 + n) = ((monthLengths (yearOf day)).take n).sum := by
    rw [daysBeforeMonth, Nat.add_sub_cancel_left, List.sum_eq_foldl]
  rw [dayNumber?, fits, before, if_pos (by simp [first, last, one, most])]
  have whole : (dayOfYear day : Int) = day - daysBefore (yearOf day) := Int.toNat_of_nonneg (by omega)
  refine congrArg some ?_
  omega

theorem lt_of_dayNumber? {year : Int} {month day : Nat} {n : Int} (date : dayNumber? year month day = some n) : month < 100 ∧ day < 100 := by
  rw [dayNumber?, Option.ite_none_right_eq_some] at date
  have bounds : 1 ≤ day ∧ day ≤ monthLength year month := by
    simp only [Bool.and_eq_true, decide_eq_true_eq] at date
    exact ⟨date.1.1.2, date.1.2⟩
  have short : ∀ length ∈ monthLengths year, length ≤ 31 := by
    rw [monthLengths]
    cases isLeap year <;> decide
  have lengths : (monthLengths year).length = 12 := rfl
  rw [monthLength] at bounds
  split at bounds
  · omega
  · cases found : (monthLengths year)[month - 1]? with
    | none =>
      rw [found, Option.getD_none] at bounds
      omega
    | some length =>
      have := short length (List.mem_of_getElem? found)
      have := (List.getElem?_eq_some_iff.1 found).1
      rw [found, Option.getD_some] at bounds
      omega

end Calendar

/-! ## Numbers of a fixed width -/

namespace Timestamp

theorem length_padDigits {width n : Nat} (positive : 0 < width) (fits : n < 10 ^ width) : (Decimal.padDigits width n).length = width := by
  have short : (Nat.toDigits 10 n).length ≤ width := (Nat.length_toDigits_le_iff (by decide) positive).2 fits
  rw [Decimal.padDigits, List.length_append, List.length_replicate]
  omega

theorem isDigit_padDigits {width n : Nat} {c : Char} (mem : c ∈ Decimal.padDigits width n) : c.isDigit = true := by
  rcases List.mem_append.1 mem with zero | digit
  · rw [List.eq_of_mem_replicate zero]
    rfl
  · exact Json.isDigit_toDigits digit

/-- Zeros in front do not count. -/
theorem digitsValue?_padDigits (width n : Nat) : Word.digitsValue? (Decimal.padDigits width n) = some n := by
  have digits : (Decimal.padDigits width n).all Char.isDigit = true := List.all_eq_true.2 fun c => isDigit_padDigits
  have nonempty : (Decimal.padDigits width n).isEmpty = false :=
    List.isEmpty_eq_false_iff.2 (List.append_ne_nil_of_right_ne_nil _ Nat.toDigits_ne_nil)
  have value : Nat.ofDigitChars 10 (Decimal.padDigits width n) 0 = n := by
    rw [Decimal.padDigits, Nat.ofDigitChars_append, Nat.ofDigitChars_replicate_zero, Nat.mul_zero, Nat.ofDigitChars_toDigits (by decide) (by decide)]
  rw [Word.digitsValue?, digits, nonempty]
  exact congrArg some value

section Reading

variable {width n : Nat} (positive : 0 < width) (fits : n < 10 ^ width) (rest : List Char)
include positive fits

theorem take_padDigits : ((Decimal.padDigits width n ++ rest).takeWhile Char.isDigit).take width = Decimal.padDigits width n := by
  rw [List.takeWhile_append_of_pos fun c => isDigit_padDigits, List.take_left' (length_padDigits positive fits)]

theorem readNumber?_padDigits : readNumber? width (Decimal.padDigits width n ++ rest) = some (n, rest) := by
  rw [readNumber?, take_padDigits positive fits, digitsValue?_padDigits, length_padDigits positive fits,
    List.drop_left' (length_padDigits positive fits)]
  rfl

/-- A number begins with a digit, which is neither a blank nor a sign. -/
theorem padDigits_eq_cons : ∃ c cs, Decimal.padDigits width n = c :: cs ∧ Text.isBlank c = false ∧ c ≠ '-' ∧ c ≠ '+' := by
  cases digits : Decimal.padDigits width n with
  | nil =>
    have length := length_padDigits positive fits
    rw [digits] at length
    exact absurd length.symm (Nat.ne_of_gt positive)
  | cons c cs =>
    have digit : c.isDigit = true := isDigit_padDigits (n := n) (digits ▸ List.mem_cons_self)
    refine ⟨c, cs, rfl, ?_, ?_, ?_⟩
    · have bounds : 48 ≤ c.toNat ∧ c.toNat ≤ 57 := by simpa [Char.isDigit, UInt32.le_iff_toNat_le] using digit
      simp only [Text.isBlank, Bool.or_eq_false_iff, Bool.and_eq_false_iff, decide_eq_false_iff_not, beq_eq_false_iff_ne]
      omega
    · rintro rfl
      cases digit
    · rintro rfl
      cases digit

theorem trimStart_padDigits : Text.trimStartChars (Decimal.padDigits width n ++ rest) = Decimal.padDigits width n ++ rest := by
  obtain ⟨c, cs, digits, blank, -⟩ := padDigits_eq_cons positive fits
  rw [digits, List.cons_append, Text.trimStartChars, List.dropWhile_cons, blank]
  rfl

end Reading

theorem readField?_padDigits {n : Nat} (fits : n < 100) (rest : List Char) : readField? (Decimal.padDigits 2 n ++ rest) = some (n, rest) := by
  rw [readField?, trimStart_padDigits (by decide) fits, readNumber?_padDigits (by decide) fits]

theorem readYear?_padDigits {n : Nat} (fits : n < 10000) (rest : List Char) :
    readYear? (Decimal.padDigits 4 n ++ rest) = some ((n : Int), rest) := by
  obtain ⟨c, cs, digits, -, minus, plus⟩ := padDigits_eq_cons (by decide : 0 < 4) fits
  rw [readYear?, trimStart_padDigits (by decide) fits]
  split
  · next same =>
    rw [digits] at same
    exact absurd (List.cons.inj same).1 minus
  · next same =>
    rw [digits] at same
    exact absurd (List.cons.inj same).1 plus
  · rw [readNumber?_padDigits (by decide) fits]
    rfl

theorem nanosOf_padDigits {n : Nat} (fits : n < 1000) : nanosOf (Decimal.padDigits 3 n) = n * 1000000 := by
  have length := length_padDigits (by decide : 0 < 3) fits
  rw [nanosOf, List.take_of_length_le (by omega), digitsValue?_padDigits, length]
  rfl

/-! ## Texts -/

section Text

variable {year month day hour minute second milli : Nat} (years : year < 10000) (months : month < 100) (days : day < 100) (hours : hour < 100)
  (minutes : minute < 100) (seconds : second < 100) (millis : milli < 1000)
include years months days hours minutes seconds millis

/-- A text in the layout of stored timestamps is read as what it is made of. -/
theorem readItems?_stored :
    readItems? (dateItems ++ .blank :: timeItems ++ [.millis]) {} (Decimal.padDigits 4 year ++ '-' :: (Decimal.padDigits 2 month ++ '-' ::
      (Decimal.padDigits 2 day ++ ' ' :: (Decimal.padDigits 2 hour ++ ':' :: (Decimal.padDigits 2 minute ++ ':' ::
        (Decimal.padDigits 2 second ++ '.' :: (Decimal.padDigits 3 milli ++ []))))))) =
      some (⟨year, month, day, hour, minute, second, milli * 1000000⟩, []) := by
  have blank (cs : List Char) : Text.trimStartChars (' ' :: cs) = Text.trimStartChars cs := rfl
  simp only [dateItems, timeItems, List.cons_append, List.nil_append, readItems?, readItem?, readYear?_padDigits years, readField?_padDigits months,
    readField?_padDigits days, readField?_padDigits hours, readField?_padDigits minutes, readField?_padDigits seconds, Option.map_some, Option.bind_some,
    beq_self_eq_true, if_true, blank, trimStart_padDigits (by decide : 0 < 2) hours, take_padDigits (by decide : 0 < 3) millis,
    length_padDigits (by decide : 0 < 3) millis, nanosOf_padDigits millis, List.drop_left' (length_padDigits (by decide : 0 < 3) millis)]

end Text

/-- A timestamp to the millisecond, in a year of four digits and not in a leap second, is read back from its text. -/
theorem parse?_text {t : Timestamp} (low : 0 ≤ t.year) (high : t.year ≤ 9999) (whole : t.nano % 1000000 = 0) (leap : t.isLeapSecond = false) :
    parse? t.text = some t := by
  have date : Calendar.dayNumber? t.year t.month t.dayOfMonth = some t.day := Calendar.dayNumber?_of_day t.day_inRange
  obtain ⟨month, day⟩ := Calendar.lt_of_dayNumber? date
  have seconds := t.second_lt
  have nanos : t.nano < 1000000000 := Nat.lt_of_not_le (decide_eq_false_iff_not.1 leap)
  have year : (t.year.natAbs : Int) = t.year := Int.natAbs_of_nonneg low
  have chars : t.text.toList = Decimal.padDigits 4 t.year.natAbs ++ '-' :: (Decimal.padDigits 2 t.month ++ '-' ::
      (Decimal.padDigits 2 t.dayOfMonth ++ ' ' :: (Decimal.padDigits 2 t.hour ++ ':' :: (Decimal.padDigits 2 t.minute ++ ':' ::
        (Decimal.padDigits 2 t.secondOfMinute ++ '.' :: (Decimal.padDigits 3 (t.nano / 1000000) ++ [])))))) := by
    have unsigned : yearText t.year = padded 4 t.year.natAbs := by
      rw [yearText, if_neg (by omega), if_neg (by omega)]
      simp
    simp [text, dateText, clockText, unsigned, padded, leap, Nat.mod_eq_of_lt nanos, billion]
  have read : readLayout? (dateItems ++ .blank :: timeItems ++ [.millis]) t.text.toList = some t := by
    rw [readLayout?, chars, readItems?_stored (by omega) month day (by rw [hour]; omega) (by rw [minute]; omega) (by rw [secondOfMinute]; omega)
      (by omega)]
    have second : 3600 * t.hour + 60 * t.minute + t.secondOfMinute = t.second := by
      rw [hour, minute, secondOfMinute]
      omega
    have ordinary : t.secondOfMinute < 60 := Nat.mod_lt _ (by decide)
    have hours : t.hour < 24 := by rw [hour]; omega
    have minutes : t.minute < 60 := Nat.mod_lt _ (by decide)
    have fraction : t.nano / 1000000 * 1000000 = t.nano := Nat.div_mul_cancel (Nat.dvd_of_mod_eq_zero whole)
    simp only [year, ofClock?, date, Option.bind_eq_bind, Option.bind_some, fraction, second, decide_eq_true hours, decide_eq_true minutes,
      decide_eq_true (Nat.le_of_lt ordinary), decide_eq_true (show t.nano < billion from nanos), Bool.and_self, if_true,
      beq_eq_false_iff_ne.2 (Nat.ne_of_lt ordinary), Bool.false_eq_true, if_false]
    exact dif_pos (And.intro t.day_inRange (And.intro t.second_lt t.nano_lt))
  rw [parse?, storedLayouts, List.findSome?_cons, read]

end Timestamp

end Relational

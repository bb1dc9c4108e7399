import Relational.Proofs.Values.Timestamps
import Relational.Result.Row

/-!
# Values in the database

A value becomes a cell under the direction of its type, and a cell is read under the direction of a type. Where both are the same and its values
are stored exactly, what is read is what was stored (`Row.read_toCell`).
-/

namespace Relational

/-! ## Identifiers -/

namespace Uuid

theorem hexValue?_digitChar {d : Nat} (digit : d < 16) : hexValue? d.digitChar = some d :=
  (by decide : ∀ d : Fin 16, hexValue? d.val.digitChar = some d.val) ⟨d, digit⟩

/-- The digits of a number have the value of the number. -/
theorem mapM_toDigits (n : Nat) : ∃ values, (Nat.toDigits 16 n).mapM hexValue? = some values ∧ values.length = (Nat.toDigits 16 n).length ∧
    values.foldl (16 * · + ·) 0 = n := by
  induction n using Nat.strongRecOn with
  | ind n ih =>
    by_cases small : n < 16
    · rw [Nat.toDigits_of_lt_base small]
      refine ⟨[n], ?_, rfl, by simp⟩
      simp [hexValue?_digitChar small]
    · obtain ⟨values, found, length, total⟩ := ih (n / 16) (by omega)
      rw [Nat.toDigits_of_base_le (by decide) (Nat.not_lt.1 small)]
      refine ⟨values ++ [n % 16], ?_, ?_, ?_⟩
      · rw [List.mapM_append, found]
        simp [hexValue?_digitChar (Nat.mod_lt n (by decide : 16 > 0))]
      · simp [length]
      · rw [List.foldl_append, total]
        exact Nat.div_add_mod n 16

/-- The digits of an identifier, thirty-two of them. -/
def digits (u : Uuid) : List Char := List.replicate (32 - (Nat.toDigits 16 u.bits.toNat).length) '0' ++ Nat.toDigits 16 u.bits.toNat

theorem length_digits (u : Uuid) : u.digits.length = 32 := by
  have short : (Nat.toDigits 16 u.bits.toNat).length ≤ 32 := (Nat.length_toDigits_le_iff (by decide) (by decide)).2 u.bits.isLt
  rw [digits, List.length_append, List.length_replicate]
  omega

theorem ofDigits?_digits (u : Uuid) : ofDigits? u.digits = some u := by
  obtain ⟨values, found, length, total⟩ := mapM_toDigits u.bits.toNat
  have zeros (k : Nat) : (List.replicate k '0').mapM hexValue? = some (List.replicate k 0) ∧ (List.replicate k 0).foldl (16 * · + ·) 0 = 0 := by
    induction k with
    | zero => exact ⟨rfl, rfl⟩
    | succ k ih =>
      rw [List.replicate_succ, List.replicate_succ, List.mapM_cons, ih.1]
      exact ⟨rfl, ih.2⟩
  have read : u.digits.mapM hexValue? = some (List.replicate (32 - (Nat.toDigits 16 u.bits.toNat).length) 0 ++ values) := by
    rw [digits, List.mapM_append, (zeros _).1, found]
    rfl
  have all := u.length_digits
  rw [digits, List.length_append, List.length_replicate, ← length] at all
  rw [ofDigits?, read, Option.bind_eq_bind, Option.bind_some, List.length_append, List.length_replicate, ← length, all, List.foldl_append, (zeros _).2,
    total]
  simp

/-- Groups of digits are put together again. -/
theorem ungroup?_group {ns : List Nat} (nonempty : ns ≠ []) {cs : List Char} (length : cs.length = ns.sum) :
    ungroup? ns (group ns cs) = some cs ∧ (group ns cs).length + 1 = cs.length + ns.length := by
  induction ns generalizing cs with
  | nil => exact absurd rfl nonempty
  | cons n ns ih =>
    cases ns with
    | nil => simp_all [group, ungroup?]
    | cons m ns =>
      rw [List.sum_cons] at length
      have taken : (cs.take n).length = n := by
        rw [List.length_take]
        omega
      obtain ⟨again, size⟩ := ih (List.cons_ne_nil m ns) (show (cs.drop n).length = (m :: ns).sum by rw [List.length_drop]; omega)
      rw [group, ungroup?, List.drop_left' taken]
      · refine ⟨?_, ?_⟩
        · show (ungroup? (m :: ns) (group (m :: ns) (cs.drop n))).map ((cs.take n ++ '-' :: _).take n ++ ·) = _
          rw [again, List.take_left' taken]
          exact congrArg some (List.take_append_drop n cs)
        rw [List.length_append, List.length_cons, taken]
        rw [List.length_drop] at size
        simp only [List.length_cons] at size ⊢
        omega
      all_goals rintro ⟨⟩

theorem parse?_text (u : Uuid) : parse? u.text = some u := by
  obtain ⟨again, size⟩ := ungroup?_group (show groups ≠ [] by decide) u.length_digits
  have chars : u.text.toList = group groups u.digits := String.toList_ofList
  have length : (group groups u.digits).length = 36 := by
    rw [u.length_digits] at size
    exact Nat.succ.inj size
  rw [parse?, chars, length]
  show parseGrouped? _ = _
  rw [parseGrouped?, again, Option.bind_some, ofDigits?_digits]

end Uuid

/-! ## Cells -/

/-- Values of a type that a column holds exactly. Timestamps are stored to the millisecond, with four digits for the year, and variants by a position
that is a word or by their names. -/
def Value.IsStored (t : Ty) : Value → Prop
  | .null => t.isNullable = true
  | .bool _ => t.nonNull = .bool
  | .int _ => t.isInteger = true
  | .text _ => t.nonNull = .text
  | .char _ => t.nonNull = .char
  | .blob _ => t.nonNull = .blob
  | .timestamp s => t.nonNull = .timestamp ∧ 0 ≤ s.year ∧ s.year ≤ 9999 ∧ s.nano % 1000000 = 0 ∧ s.isLeapSecond = false
  | .duration _ => t.nonNull = .duration
  | .uuid _ => t.nonNull = .uuid
  | .enum variant => ∃ e, t.nonNull = .enum e ∧ (e.storedAsText = true ∨ variant ∈ e.variants ∧ e.variants.length ≤ pow2 63)
  | _ => False

namespace Row

variable {r : Row} {index : Nat} {c : Cell} {t : Ty}

theorem cell_eq (found : r.cells[index]? = some c) : r.cell index = .ok c := by
  rw [cell, found]

/-- A cell that is not null is read under the type without absence. -/
theorem read_present (found : r.cells[index]? = some c) (present : c ≠ .null) : r.read index t = r.readPresent index t.nonNull := by
  have isNull : r.isNull index = false := by
    rw [Row.isNull, cell_eq found]
    cases c <;> first | rfl | exact absurd rfl present
  rw [read, isNull]
  rfl

theorem word_integer {n : Int64} (found : r.cells[index]? = some (.integer n)) : r.word index = .ok n := by
  rw [word, cell_eq found]
  rfl

theorem text_text {s : String} (found : r.cells[index]? = some (.text s)) : r.text index = .ok s := by
  rw [text, cell_eq found]
  rfl

theorem blob_blob {bytes : List UInt8} (found : r.cells[index]? = some (.blob bytes)) : r.blob index = .ok bytes := by
  rw [blob, cell_eq found]
  rfl

end Row

/-- The variant at the position of a variant is the variant. -/
theorem EnumTy.variantAt_ordinal {e : EnumTy} {variant : String} (declared : variant ∈ e.variants) (few : e.variants.length ≤ pow2 63) :
    ∃ n, e.ordinal? variant = some n ∧ Value.variantAt e (Int64.ofNat n) = .ok (.enum variant) := by
  obtain ⟨n, found⟩ : ∃ n, e.ordinal? variant = some n := by
    rw [ordinal?, ← Option.isSome_iff_exists, List.findIdx?_isSome, List.any_eq_true]
    exact ⟨variant, declared, beq_self_eq_true _⟩
  obtain ⟨within, same, -⟩ := List.findIdx?_eq_some_iff_getElem.1 found
  have word : (Int64.ofNat n).toInt = n := Int64.toInt_ofNat_of_lt (Nat.lt_of_lt_of_le within few)
  refine ⟨n, found, ?_⟩
  have positive : ¬ Int64.ofNat n < 0 := by
    rw [Int64.lt_iff_toInt_lt, word]
    exact Int.not_lt.2 (Int.natCast_nonneg n)
  rw [Value.variantAt, if_neg positive, word, Int.toNat_natCast, List.getElem?_eq_getElem within, eq_of_beq same]

/-- A value that is stored under its type is read back under it. -/
theorem Row.read_toCell {t : Ty} {v : Value} (stored : v.IsStored t) :
    ∃ cell, v.toCell t = .ok cell ∧ ∀ (r : Row) (index : Nat), r.cells[index]? = some cell → r.read index t = .ok v := by
  have back {c : Cell} (cell : v.toCell t = .ok c) (present : c ≠ .null) {base : Ty} (type : t.nonNull = base)
      (read : ∀ (r : Row) (index : Nat), r.cells[index]? = some c → r.readPresent index base = .ok v) :
      ∃ cell, v.toCell t = .ok cell ∧ ∀ (r : Row) (index : Nat), r.cells[index]? = some cell → r.read index t = .ok v :=
    ⟨c, cell, fun r index found => by rw [read_present found present, type, read r index found]⟩
  cases v with
  | null =>
    refine ⟨_, rfl, fun r index found => ?_⟩
    have isNull : r.isNull index = true := by rw [Row.isNull, cell_eq found]
    rw [read, isNull, show t.isNullable = true from stored]
    rfl
  | bool b =>
    refine back rfl (by rintro ⟨⟩) stored fun r index found => ?_
    rw [readPresent, word_integer found]
    cases b <;> rfl
  | int n =>
    have integer : t.isInteger = true := stored
    have plain : (t.isFloat || t.isDecimal) = false := by
      rw [Ty.isInteger] at integer
      rw [Ty.isFloat, Ty.isDecimal]
      cases base : t.nonNull <;> rw [base] at integer <;> first | rfl | cases integer
    have cell : (Value.int n).toCell t = .ok (.integer n) := by rw [Value.toCell, plain]; rfl
    refine back cell (by rintro ⟨⟩) rfl fun r index found => ?_
    rw [Ty.isInteger] at integer
    cases base : t.nonNull <;> rw [base] at integer <;> first | cases integer; done | (rw [readPresent, word_integer found]; rfl)
  | text s =>
    refine back rfl (by rintro ⟨⟩) stored fun r index found => ?_
    rw [readPresent, text_text found]
    rfl
  | char c =>
    refine back rfl (by rintro ⟨⟩) stored fun r index found => ?_
    rw [readPresent, text_text found]
    simp
  | blob bytes =>
    refine back rfl (by rintro ⟨⟩) stored fun r index found => ?_
    rw [readPresent, blob_blob found]
    rfl
  | timestamp s =>
    obtain ⟨type, low, high, whole, leap⟩ := stored
    refine back rfl (by rintro ⟨⟩) type fun r index found => ?_
    rw [readPresent, text_text found]
    dsimp only [bind, Except.bind]
    rw [Timestamp.parse?_text low high whole leap]
    rfl
  | duration ticks =>
    refine back rfl (by rintro ⟨⟩) stored fun r index found => ?_
    rw [readPresent, word_integer found]
    rfl
  | uuid u =>
    refine back rfl (by rintro ⟨⟩) stored fun r index found => ?_
    rw [readPresent, text_text found]
    dsimp only [bind, Except.bind]
    rw [u.parse?_text]
    rfl
  | enum variant =>
    obtain ⟨e, type, stored⟩ := stored
    by_cases asText : e.storedAsText = true
    · have cell : (Value.enum variant).toCell t = .ok (.text variant) := by simp [Value.toCell, type, asText]
      refine back cell (by rintro ⟨⟩) type fun r index found => ?_
      rw [readPresent, if_pos asText, text_text found]
      rfl
    · obtain ⟨declared, few⟩ := stored.resolve_left asText
      obtain ⟨n, place, again⟩ := EnumTy.variantAt_ordinal declared few
      have cell : (Value.enum variant).toCell t = .ok (.integer (Int64.ofNat n)) := by simp [Value.toCell, type, asText, place]
      refine back cell (by rintro ⟨⟩) type fun r index found => ?_
      rw [readPresent, if_neg asText, word_integer found]
      exact again
  | _ => cases stored

theorem read_toCell_position : ∃ cell, (Value.enum "closed").toCell (.nullable (.enum ⟨"Status", ["open", "closed"], false⟩)) = .ok cell ∧
    ∀ (r : Row) (index : Nat), r.cells[index]? = some cell →
      r.read index (.nullable (.enum ⟨"Status", ["open", "closed"], false⟩)) = .ok (.enum "closed") :=
  Row.read_toCell ⟨_, rfl, .inr ⟨by decide, by decide⟩⟩

end Relational

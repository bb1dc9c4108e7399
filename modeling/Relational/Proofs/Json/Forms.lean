import Relational.Json.TreeForm
import Relational.Proofs.Json.Text

/-!
# Documents of types and values

Reading a document goes down by its depth. `Means` says that a document is read as a value with any depth to spare; a structure is read
field by field and a list item by item, so that every part only has to be known one step further down. Types are read back from their
documents, and so are values whose texts are read back (`Value.Readable`).
-/

namespace Relational

open Json

/-! ## Parts of documents -/

namespace Json

section Parts

variable {α : Type} {name : String} {c j : Json} {ms : List (String × Json)} {items : List Json}

@[simp] theorem isExact_array : (array items).IsExact ↔ ∀ j ∈ items, j.IsExact := by
  rw [IsExact]
  induction items with
  | nil => simp [exactItems]
  | cons j js ih => simp [exactItems, ih]

@[simp] theorem isExact_object : (object ms).IsExact ↔ ∀ m ∈ ms, m.2.IsExact := by
  rw [IsExact]
  induction ms with
  | nil => simp [exactMembers]
  | cons m ms ih => cases m; simp [exactMembers, ih]

@[simp] theorem isExact_string (s : String) : (string s).IsExact := trivial

@[simp] theorem isExact_bool (b : Bool) : (bool b).IsExact := trivial

@[simp] theorem isExact_tagged : (tagged name c).IsExact ↔ c.IsExact := by simp [tagged]

@[simp] theorem depth_array : (array items).depth = depthItems items + 1 := rfl

@[simp] theorem depth_object : (object ms).depth = depthMembers ms + 1 := rfl

@[simp] theorem depth_tagged : (tagged name c).depth = c.depth + 1 := by simp [tagged, depthMembers]

@[simp] theorem depthMembers_cons : depthMembers ((name, j) :: ms) = max j.depth (depthMembers ms) := rfl

@[simp] theorem depth_string (s : String) : (string s).depth = 0 := rfl

@[simp] theorem toText?_string (s : String) : (string s).toText? = some s := rfl

@[simp] theorem toBool?_bool (b : Bool) : (bool b).toBool? = some b := rfl

@[simp] theorem case?_tagged : (tagged name c).case? = some (name, some c) := rfl

/-- A structure in which every field is written, in order. -/
@[simp] theorem fields?_object {names : List String} (all : ms.map (·.1) = names) (distinct : names.Nodup) :
    fields? names (object ms) = some ⟨ms, false⟩ := by
  have once : (names.any fun name => 1 < (ms.filter (·.1 == name)).length) = false := by
    rw [List.any_eq_false]
    intro name mem
    have count : (ms.filter (·.1 == name)).length = names.count name := by
      rw [← all, List.count, List.countP_map, List.countP_eq_length_filter]
      rfl
    have le := List.nodup_iff_count.1 distinct name
    simp only [count, decide_eq_true_eq]
    omega
  rw [fields?, once]
  rfl

@[simp] theorem read?_cons {read : Json → Option α} {n : String} {positional : Bool} :
    (Fields.mk ((n, j) :: ms) positional).read? name read =
      if name = n then read j else (Fields.mk ms positional).read? name read := by
  simp only [Fields.read?, Fields.get?, List.lookup_cons]
  by_cases eq : name = n
  · simp [eq]
  · simp [eq, beq_eq_false_iff_ne.2 eq]

end Parts

/-- A document that is exact and that a reader which goes down step by step takes for a value. -/
structure Means {α : Type} (read : Nat → Json → Option α) (j : Json) (x : α) : Prop where
  words : j.IsExact
  read : ∀ {fuel}, j.depth < fuel → read fuel j = some x

theorem Means.step {α : Type} {read : Nat → Json → Option α} {j : Json} {x : α} (words : j.IsExact)
    (step : ∀ n, j.depth ≤ n → read (n + 1) j = some x) : Means read j x := by
  refine ⟨words, fun {fuel} enough => ?_⟩
  cases fuel with
  | zero => cases enough
  | succ n => exact step n (Nat.le_of_lt_succ enough)

/-- The contents of fields lie less deep than a bound. -/
def Below (n : Nat) : List (String × Json) → Prop
  | [] => True
  | (_, j) :: ms => j.depth < n ∧ Below n ms

theorem below_of_depthMembers {n : Nat} {ms : List (String × Json)} (enough : depthMembers ms < n) : Below n ms := by
  induction ms with
  | nil => trivial
  | cons m ms ih =>
    cases m
    rw [depthMembers_cons] at enough
    exact ⟨Nat.lt_of_le_of_lt (Nat.le_max_left _ _) enough, ih (Nat.lt_of_le_of_lt (Nat.le_max_right _ _) enough)⟩

/-- A structure whose fields can be read one step further down. -/
theorem Means.fields {α : Type} {read : Nat → Json → Option α} {ms : List (String × Json)} {x : α} (words : exactMembers ms)
    (step : ∀ n, Below n ms → read (n + 1) (object ms) = some x) : Means read (object ms) x :=
  .step words fun n enough => step n (below_of_depthMembers enough)

/-- A case whose content is a structure. -/
theorem Means.tagged {α : Type} {read : Nat → Json → Option α} {name : String} {ms : List (String × Json)} {x : α}
    (words : exactMembers ms) (step : ∀ n, Below n ms → read (n + 1) (tagged name (object ms)) = some x) :
    Means read (tagged name (object ms)) x := by
  refine .step (isExact_tagged.2 words) fun n enough => step n (below_of_depthMembers ?_)
  rw [depth_tagged, depth_object] at enough
  omega

theorem lt_of_depth_tagged {name : String} {j : Json} {n : Nat} (enough : (Json.tagged name j).depth < n) : j.depth < n := by
  rw [depth_tagged] at enough
  exact Nat.lt_of_succ_lt enough

/-- A case whose content is one part. -/
theorem Means.case {α β : Type} {read : Nat → Json → Option α} {inner : Nat → Json → Option β} {name : String} {j : Json} {x : α} {y : β}
    (content : Means inner j y) (step : ∀ n, inner n j = some y → read (n + 1) (Json.tagged name j) = some x) :
    Means read (Json.tagged name j) x := by
  refine .step (isExact_tagged.2 content.words) fun n enough => step n (content.read ?_)
  rwa [depth_tagged] at enough

section Returns

variable {α β γ δ ε ρ : Type} {u : Option α} {v : Option β} {w : Option γ} {x : Option δ} {y : Option ε} {a : α} {b : β} {c : γ} {d : δ} {e : ε}

theorem returns_one (f : α → ρ) (first : u = some a) : (do return f (← u)) = some (f a) := by
  subst first
  rfl

theorem returns_two (f : α → β → ρ) (first : u = some a) (second : v = some b) : (do return f (← u) (← v)) = some (f a b) := by
  subst first second
  rfl

theorem returns_three (f : α → β → γ → ρ) (first : u = some a) (second : v = some b) (third : w = some c) :
    (do return f (← u) (← v) (← w)) = some (f a b c) := by
  subst first second third
  rfl

theorem returns_four (f : α → β → γ → δ → ρ) (first : u = some a) (second : v = some b) (third : w = some c) (fourth : x = some d) :
    (do return f (← u) (← v) (← w) (← x)) = some (f a b c d) := by
  subst first second third fourth
  rfl

theorem returns_five (f : α → β → γ → δ → ε → ρ) (first : u = some a) (second : v = some b) (third : w = some c) (fourth : x = some d)
    (fifth : y = some e) : (do return f (← u) (← v) (← w) (← x) (← y)) = some (f a b c d e) := by
  subst first second third fourth fifth
  rfl

end Returns

section Lists

variable {α : Type} {read : Nat → Json → Option α} {write : α → Json} {xs : List α}

theorem isExact_map (each : ∀ x ∈ xs, Means read (write x) x) : (array (xs.map write)).IsExact := by
  rw [isExact_array, List.forall_mem_map]
  exact fun x mem => (each x mem).words

/-- A list is read item by item. -/
theorem listOf?_map {n : Nat} (each : ∀ x ∈ xs, Means read (write x) x) (enough : (array (xs.map write)).depth ≤ n) :
    listOf? (read n) (array (xs.map write)) = some xs := by
  change (xs.map write).mapM (read n) = some xs
  rw [depth_array] at enough
  induction xs with
  | nil => rfl
  | cons x xs ih =>
    rw [List.map_cons, depthItems] at enough
    rw [List.map_cons, List.mapM_cons, (each x List.mem_cons_self).read (by omega),
      ih (fun y mem => each y (List.mem_cons_of_mem _ mem)) (by omega)]
    rfl

/-- A name with what it names. -/
theorem Means.pair (name : String) {j : Json} {x : α} (h : Means read j x) :
    Means (fun n => pairOf? toText? (read n)) (array [string name, j]) (name, x) := by
  refine ⟨by simp [h.words], fun {n} enough => ?_⟩
  simp only [depth_array, depthItems] at enough
  have inner : j.depth < n := by omega
  simp [pairOf?, h.read inner]

end Lists

end Json

theorem Json.means_string (s : String) : Means (fun _ => toText?) (string s) s := ⟨trivial, fun _ => rfl⟩

theorem listOf?_strings (names : List String) : listOf? toText? (ofStrings names) = some names := by
  refine listOf?_map (n := 1) (fun s _ => means_string s) ?_
  induction names with
  | nil => decide
  | cons s names ih => simpa [depthItems, Json.depth] using ih

theorem isExact_ofStrings (names : List String) : (ofStrings names).IsExact := isExact_map fun s _ => means_string s

/-! ## Types -/

theorem Ty.fieldsToJson_eq (fields : List (String × Ty)) :
    Ty.fieldsToJson fields = fields.map fun f => array [string f.1, f.2.toJson] := by
  induction fields with
  | nil => rfl
  | cons f fields ih => cases f; rw [Ty.fieldsToJson, ih, List.map_cons]

theorem EnumTy.ofJson?_toJson (e : EnumTy) : EnumTy.ofJson? e.toJson = some e := by
  have variants := listOf?_strings e.variants
  simp [EnumTy.toJson, EnumTy.ofJson?, Fields.readOr?, Fields.get?, List.lookup_cons, variants]

mutual

theorem Ty.means (t : Ty) : Means Ty.read? t.toJson t := by
  cases t with
  | enum e =>
    refine .step (by simp [Ty.toJson, EnumTy.toJson, ofStrings]) fun n _ => ?_
    simp [Ty.toJson, Ty.read?, e.ofJson?_toJson]
  | nullable base => exact .case (Ty.means base) fun n inner => by simp [Ty.read?, inner]
  | record r => exact .case (RecordTy.means r) fun n inner => by simp [Ty.read?, inner]
  | sequence element => exact .case (Ty.means element) fun n inner => by simp [Ty.read?, inner]
  | group key element =>
    have first := Ty.means key
    have second := Ty.means element
    rw [Ty.toJson]
    refine .tagged ⟨first.words, second.words, trivial⟩ fun n enough => ?_
    simp [Ty.read?, first.read enough.1, second.read enough.2.1]
  | _ => exact .step trivial fun n _ => rfl

theorem RecordTy.means (r : RecordTy) : Means RecordTy.read? r.toJson r := by
  cases r with
  | mk name fields =>
    have ih := Ty.fields_mean fields
    rw [RecordTy.toJson, Ty.fieldsToJson_eq]
    refine .fields ⟨trivial, isExact_map ih, trivial⟩ fun n enough => ?_
    simp [RecordTy.read?, listOf?_map ih (Nat.le_of_lt enough.2.1)]

theorem Ty.fields_mean (fields : List (String × Ty)) :
    ∀ f ∈ fields, Means (fun n => pairOf? toText? (Ty.read? n)) (array [string f.1, f.2.toJson]) f := by
  cases fields with
  | nil => simp
  | cons f fields =>
    cases f with
    | mk name t =>
      have first := (Ty.means t).pair name
      have rest := Ty.fields_mean fields
      exact List.forall_mem_cons.2 ⟨first, rest⟩

end

theorem Ty.ofJson?_toJson (t : Ty) : Ty.ofJson? t.toJson = some t := t.means.read (Nat.lt_succ_self _)

theorem RecordTy.ofJson?_toJson (r : RecordTy) : RecordTy.ofJson? r.toJson = some r := r.means.read (Nat.lt_succ_self _)

/-! ## Values -/

mutual

/-- A value without doubles, of which every decimal, timestamp and identifier is read back from its text. -/
def Value.Readable : Value → Prop
  | .float _ => False
  | .decimal d => Decimal.parse? d.text = some d
  | .timestamp t => Timestamp.parseDocument? t.documentText = some t
  | .uuid u => Uuid.parse? u.text = some u
  | .record _ fields => readableFields fields
  | .list items => readableValues items
  | .group key elements => key.Readable ∧ readableValues elements
  | .null | .bool _ | .int _ | .text _ | .char _ | .blob _ | .duration _ | .enum _ => True

def readableValues : List Value → Prop
  | [] => True
  | v :: vs => v.Readable ∧ readableValues vs

def readableFields : List (String × Value) → Prop
  | [] => True
  | (_, v) :: fields => v.Readable ∧ readableFields fields

end

theorem Value.itemsToJson_eq (vs : List Value) : Value.itemsToJson vs = vs.map Value.toJson := by
  induction vs with
  | nil => rfl
  | cons v vs ih => rw [Value.itemsToJson, ih, List.map_cons]

theorem Value.fieldsToJson_eq (fields : List (String × Value)) :
    Value.fieldsToJson fields = fields.map fun f => array [string f.1, f.2.toJson] := by
  induction fields with
  | nil => rfl
  | cons f fields ih => cases f; rw [Value.fieldsToJson, ih, List.map_cons]

namespace Json

theorem word_bounds (n : Int64) : -(pow2 63 : Int) ≤ n.toInt ∧ n.toInt < (pow2 63 : Int) := ⟨n.le_toInt, n.toInt_lt⟩

@[simp] theorem toWord?_ofWord (n : Int64) : (ofWord n).toWord? = some n := by
  have bounds : (-(pow2 63 : Int) ≤ n.toInt && n.toInt ≤ (pow2 63 : Int) - 1) = true := by
    rw [decide_eq_true (word_bounds n).1, decide_eq_true (Int.le_sub_one_of_lt (word_bounds n).2)]
    rfl
  rw [ofWord, toWord?, toIntIn?, if_pos bounds]
  simp

@[simp] theorem isExact_ofWord (n : Int64) : (ofWord n).IsExact :=
  ⟨(word_bounds n).1, Int.lt_trans (word_bounds n).2 (by decide)⟩

theorem toNat?_ofNat {n high : Nat} (le : n ≤ high) : (ofNat n).toNat? high = some n := by
  have bounds : (0 ≤ (n : Int) && (n : Int) ≤ (high : Int)) = true := by simp [le]
  rw [ofNat, toNat?, toIntIn?, if_pos bounds]
  simp

theorem isExact_ofNat {n : Nat} (word : n < pow2 64) : (ofNat n).IsExact :=
  ⟨by have : (0 : Int) ≤ pow2 63 := Int.natCast_nonneg _; omega, Int.ofNat_lt.2 word⟩

theorem means_byte (b : UInt8) : Means (fun _ j => (j.toNat? 255).map Nat.toUInt8) (ofNat b.toNat) b := by
  have small := b.toNat_lt
  refine ⟨isExact_ofNat (Nat.lt_of_lt_of_le small (by decide)), fun _ => ?_⟩
  simp [toNat?_ofNat (Nat.le_of_lt_succ small)]

theorem toBytes?_ofBytes (bytes : List UInt8) : (ofBytes bytes).toBytes? = some bytes := by
  refine listOf?_map (n := 1) (fun b _ => means_byte b) ?_
  induction bytes with
  | nil => decide
  | cons b bytes ih => simpa [depthItems, Json.depth, ofNat] using ih

@[simp] theorem isExact_ofBytes (bytes : List UInt8) : (ofBytes bytes).IsExact := isExact_map fun b _ => means_byte b

end Json

mutual

theorem Value.means (v : Value) (readable : v.Readable) : Means Value.read? v.toJson v := by
  cases v with
  | float x => exact readable.elim
  | null => exact .step trivial fun n _ => rfl
  | bool b => exact .step (by simp [Value.toJson]) fun n _ => by simp [Value.toJson, Value.read?]
  | int k => exact .step (by simp [Value.toJson]) fun n _ => by simp [Value.toJson, Value.read?]
  | duration k => exact .step (by simp [Value.toJson]) fun n _ => by simp [Value.toJson, Value.read?]
  | decimal d =>
    have text : Decimal.parse? d.text = some d := readable
    exact .step (by simp [Value.toJson]) fun n _ => by simp [Value.toJson, Value.read?, Decimal.ofJson?, text]
  | text s => exact .step (by simp [Value.toJson]) fun n _ => by simp [Value.toJson, Value.read?]
  | enum s => exact .step (by simp [Value.toJson]) fun n _ => by simp [Value.toJson, Value.read?]
  | char c => exact .step (by simp [Value.toJson]) fun n _ => by simp [Value.toJson, Value.read?, toChar?]
  | blob bytes => exact .step (by simp [Value.toJson]) fun n _ => by simp [Value.toJson, Value.read?, toBytes?_ofBytes]
  | timestamp t =>
    have text : Timestamp.parseDocument? t.documentText = some t := readable
    exact .step (by simp [Value.toJson]) fun n _ => by simp [Value.toJson, Value.read?, text]
  | uuid u =>
    have text : Uuid.parse? u.text = some u := readable
    exact .step (by simp [Value.toJson]) fun n _ => by simp [Value.toJson, Value.read?, text]
  | record name fields =>
    have ih := Value.fields_mean fields readable
    rw [Value.toJson, Value.fieldsToJson_eq]
    refine .tagged ⟨trivial, isExact_map ih, trivial⟩ fun n enough => ?_
    simp [Value.read?, listOf?_map ih (Nat.le_of_lt enough.2.1)]
  | list items =>
    have ih := Value.items_mean items readable
    rw [Value.toJson, Value.itemsToJson_eq]
    refine .step (isExact_tagged.2 (isExact_map ih)) fun n enough => ?_
    rw [depth_tagged] at enough
    simp [Value.read?, listOf?_map ih (Nat.le_of_succ_le enough)]
  | group key elements =>
    have first := Value.means key readable.1
    have ih := Value.items_mean elements readable.2
    rw [Value.toJson, Value.itemsToJson_eq]
    refine .tagged ⟨first.words, isExact_map ih, trivial⟩ fun n enough => ?_
    simp [Value.read?, first.read enough.1, listOf?_map ih (Nat.le_of_lt enough.2.1)]

theorem Value.items_mean (vs : List Value) (readable : readableValues vs) : ∀ v ∈ vs, Means Value.read? v.toJson v := by
  cases vs with
  | nil => simp
  | cons v vs => exact List.forall_mem_cons.2 ⟨Value.means v readable.1, Value.items_mean vs readable.2⟩

theorem Value.fields_mean (fields : List (String × Value)) (readable : readableFields fields) :
    ∀ f ∈ fields, Means (fun n => pairOf? Json.toText? (Value.read? n)) (array [string f.1, f.2.toJson]) f := by
  cases fields with
  | nil => simp
  | cons f fields =>
    cases f with
    | mk name v => exact List.forall_mem_cons.2 ⟨(Value.means v readable.1).pair name, Value.fields_mean fields readable.2⟩

end

theorem Value.ofJson?_toJson {v : Value} (readable : v.Readable) : Value.ofJson? v.toJson = some v :=
  (v.means readable).read (Nat.lt_succ_self _)

end Relational

import Relational.Text.CaseTable

/-!
# Upper case and lower case

A letter may become several characters (`ß` becomes `SS`), so the maps go from texts to texts. The one
rule that looks around is the sigma's: at the end of a word, after a cased letter and before none,
its lower-case form is the final one.
-/

namespace Relational.Text

/-- Whether a code point lies in every other one of stretches of these lengths, the first one left out. -/
def inStretches : List Nat → Nat → Bool
  | out :: within :: lengths, n =>
    out ≤ n && (n < out + within || inStretches lengths (n - (out + within)))
  | _, _ => false

def CaseRun.covers (r : CaseRun) (n : Nat) : Bool :=
  r.first ≤ n && n ≤ r.last && (n - r.first) % r.step == 0

/-- The form of one character under a table of sequences and a table of runs. -/
def caseForm (sequences : List (Nat × List Nat)) (runs : List CaseRun) (c : Char) : List Char :=
  match sequences.find? (·.1 == c.toNat) with
  | some (_, form) => form.map Char.ofNat
  | none =>
    match runs.find? (·.covers c.toNat) with
    | some r => [Char.ofNat (c.toNat + r.shift).toNat]
    | none => [c]

def upperForm (c : Char) : List Char := caseForm upperSequences upperRuns c

def lowerForm (c : Char) : List Char := caseForm lowerSequences lowerRuns c

def toUpper (s : String) : String := String.ofList (s.toList.flatMap upperForm)

/-- The first character that does not merely decorate a word is a cased letter. -/
def meetsCased (cs : List Char) : Bool :=
  match cs.dropWhile fun c => inStretches caseIgnorableStretches c.toNat with
  | c :: _ => inStretches casedStretches c.toNat
  | [] => false

/-- Lower case of the rest of a text, given what stands before it in reverse. -/
def lowerAfter (before : List Char) : List Char → List Char
  | [] => []
  | c :: cs =>
    let form :=
      if c == 'Σ' then if meetsCased before && !meetsCased cs then ['ς'] else ['σ'] else lowerForm c
    form ++ lowerAfter (c :: before) cs

def toLower (s : String) : String := String.ofList (lowerAfter [] s.toList)

end Relational.Text

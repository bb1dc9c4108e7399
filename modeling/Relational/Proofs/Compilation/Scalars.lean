import Relational.Proofs.Merging.AbsorptionRows
import Relational.Tree.Evaluate

/-!
# Scalars as they are evaluated

The interpretation in which operators are those of `Expr.evaluate`. An operator that fails gives an absent value. Records are
equal if their members are, and sorted by their members. How other values are sorted, and what is no
scalar at all, is left open.
-/

namespace Relational

/-- The value of a computation; a failure is absent. -/
def Value.ofResult : Result Value → Value
  | .ok v => v
  | .error _ => .null

mutual

/-- Null-safe equality that goes into records. -/
def Value.equalMembers : Value → Value → Bool
  | .record _ fs, .record _ fs' => equalFields fs fs'
  | a, b => a.nullSafeEq b

def equalFields : List (String × Value) → List (String × Value) → Bool
  | [], [] => true
  | (_, a) :: fs, (_, b) :: fs' => a.equalMembers b && equalFields fs fs'
  | _, _ => false

end

/-- A number of rows. -/
def Value.count? : Value → Option Nat
  | .int n => some n.toInt.toNat
  | _ => none

open Classical in
/-- The interpretation of scalars by evaluation, on top of one for everything else. -/
noncomputable def Interpretation.evaluating (base : Interpretation Value) : Interpretation Value where
  equal a b := decide (a = b)
  le := base.le
  null := .null
  isTrue := Value.isTrue
  ofBool := .bool
  constant v _ := v
  param := base.param
  query := base.query
  binary op a b :=
    match op with
    | .eq => .bool (a.equalMembers b)
    | .ne => .bool (!a.equalMembers b)
    | op => .ofResult (Value.binary op a b)
  unary op v := .ofResult (Value.unary op v)
  member v name := .ofResult (v.member name)
  call m v vs := .ofResult (Value.invoke m v vs)
  conditional test yes no := if test.isTrue then yes else no
  record r fields := .record r.name fields
  convert v t := .ofResult (Value.convert t v)
  function := base.function
  group := base.group
  aggregate := base.aggregate
  isIn := base.isIn
  collect := base.collect
  limit := Value.count?
  offset v := v.count?.getD 0

/-- An interpretation with other values for parameters. -/
def Interpretation.withParam {D : Type} (I : Interpretation D) (param : String → D) : Interpretation D := { I with param }

/-- Lists of values in order: the first value decides, the next ones where it ties. -/
def lexicographic {D : Type} (le : D → D → Bool) : List D → List D → Bool
  | a :: as, b :: bs => le a b && (!le b a || lexicographic le as bs)
  | _, _ => true

/-- The order of values, in which records with the same members are in the order of those. -/
structure SortsRecords (le : Value → Value → Bool) : Prop where
  order : IsOrder le
  members : ∀ name fs fs', fs.map Prod.fst = fs'.map Prod.fst →
    le (.record name fs) (.record name fs') = lexicographic le (fs.map Prod.snd) (fs'.map Prod.snd)

variable {base : Interpretation Value}

theorem evaluating_identifies : base.evaluating.Identifies := fun _ _ h => by simpa [Interpretation.evaluating] using h

theorem evaluating_lawful (order : IsOrder base.le) {lit : Value → Ty → Prop}
    (literals : ∀ v v' t, lit v t → lit v' t → v.same v' = true → v' = v) : base.evaluating.Lawful lit where
  order := order
  and _ _ := rfl
  literals := literals

end Relational

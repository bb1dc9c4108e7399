import Relational.Value.Basic

/-!
# Comparing values

Numbers of different kinds compare by value: through decimals if one side is a decimal, else through
doubles. Values of unrelated kinds do not compare. Two values are the same if they have the same
shape and equal parts; a double that is not a number is not even the same as itself.
-/

namespace Relational.Value

def compareFloats (x y : Float) : Option Ordering :=
  if x < y then some .lt else if x == y then some .eq else if y < x then some .gt else none

def compareBytes : List UInt8 → List UInt8 → Ordering
  | [], [] => .eq
  | [], _ :: _ => .lt
  | _ :: _, [] => .gt
  | a :: as, b :: bs => (Ord.compare a b).then (compareBytes as bs)

def compareDecimals (a b : Value) : Option Ordering :=
  match a.toDecimal?, b.toDecimal? with
  | some x, some y => some (x.compare y)
  | _, _ => none

/-- The order of two values that can be compared. -/
def compare? (a b : Value) : Option Ordering :=
  match a, b with
  | int x, int y => some (Ord.compare x.toInt y.toInt)
  | decimal _, _ => compareDecimals a b
  | _, decimal _ => compareDecimals a b
  | int x, float y => compareFloats (Double.ofInt x.toInt) y
  | float x, int y => compareFloats x (Double.ofInt y.toInt)
  | float x, float y => compareFloats x y
  | bool x, bool y => some (Ord.compare x y)
  | text x, text y => some (Ord.compare x y)
  | char x, char y => some (Ord.compare x y)
  | text x, char y => some (Ord.compare x y.toString)
  | char x, text y => some (Ord.compare x.toString y)
  | timestamp x, timestamp y => some (x.compare y)
  | duration x, duration y => some (Ord.compare x.toInt y.toInt)
  | uuid x, uuid y => some (x.compare y)
  | enum x, enum y => some (Ord.compare x y)
  | blob x, blob y => some (compareBytes x y)
  | _, _ => none

mutual

/-- Whether two values are the same. -/
def same : Value → Value → Bool
  | null, null => true
  | bool x, bool y => x == y
  | int x, int y => x == y
  | float x, float y => x == y
  | decimal x, decimal y => x.compare y == .eq
  | text x, text y => x == y
  | char x, char y => x == y
  | blob x, blob y => x == y
  | timestamp x, timestamp y => x == y
  | duration x, duration y => x == y
  | uuid x, uuid y => x == y
  | enum x, enum y => x == y
  | record n fs, record n' fs' => n == n' && sameFields fs fs'
  | list xs, list ys => sameItems xs ys
  | group k xs, group k' ys => k.same k' && sameItems xs ys
  | _, _ => false

def sameItems : List Value → List Value → Bool
  | [], [] => true
  | x :: xs, y :: ys => x.same y && sameItems xs ys
  | _, _ => false

def sameFields : List (String × Value) → List (String × Value) → Bool
  | [], [] => true
  | (n, x) :: xs, (n', y) :: ys => n == n' && x.same y && sameFields xs ys
  | _, _ => false

end

/-- Equality in which absence equals absence and nothing else. -/
def nullSafeEq (a b : Value) : Bool :=
  match a, b with
  | null, null => true
  | null, _ => false
  | _, null => false
  | a, b => a.compare? b == some .eq || a.same b

end Relational.Value

import Relational.Text.Quoted

/-!
# Universally unique identifiers

A number of 128 bits, written as hexadecimal digits in five groups. On input the hyphens may be missing,
and the hyphenated form may stand in braces or behind a scheme; letters are read in any case.
-/

namespace Relational

structure Uuid where
  bits : BitVec 128
deriving DecidableEq

namespace Uuid

def nil : Uuid := ⟨0⟩

def compare (a b : Uuid) : Ordering := Ord.compare a.bits.toNat b.bits.toNat

def hexValue? (c : Char) : Option Nat :=
  if c.isDigit then some (c.toNat - 48)
  else if 'a' ≤ c && c ≤ 'f' then some (c.toNat - 87)
  else if 'A' ≤ c && c ≤ 'F' then some (c.toNat - 55)
  else none

/-- Thirty-two hexadecimal digits. -/
def ofDigits? (cs : List Char) : Option Uuid := do
  let digits ← cs.mapM hexValue?
  if digits.length == 32 then some ⟨BitVec.ofNat 128 (digits.foldl (16 * · + ·) 0)⟩ else none

/-- The lengths of the groups of digits. -/
def groups : List Nat := [8, 4, 4, 4, 12]

/-- The digits of groups of the given lengths with a hyphen between any two. -/
def ungroup? : List Nat → List Char → Option (List Char)
  | [], cs => if cs.isEmpty then some [] else none
  | [n], cs => if cs.length == n then some cs else none
  | n :: ns, cs =>
    match cs.drop n with
    | '-' :: rest => (ungroup? ns rest).map (cs.take n ++ ·)
    | _ => none

def parseGrouped? (cs : List Char) : Option Uuid := (ungroup? groups cs).bind ofDigits?

def scheme : List Char := "urn:uuid:".toList

def parse? (s : String) : Option Uuid :=
  let cs := s.toList
  if cs.length == 32 then ofDigits? cs
  else if cs.length == 36 then parseGrouped? cs
  else if cs.length == 38 && cs.head? == some '\x7b' && cs.getLast? == some '\x7d' then
    parseGrouped? (cs.drop 1).dropLast
  else if cs.length == 45 && scheme.isPrefixOf cs then parseGrouped? (cs.drop 9)
  else none

/-- Digits put into groups. -/
def group : List Nat → List Char → List Char
  | [], cs => cs
  | [_], cs => cs
  | n :: ns, cs => cs.take n ++ '-' :: group ns (cs.drop n)

/-- The hyphenated form in lower case. -/
def text (u : Uuid) : String :=
  let digits := Nat.toDigits 16 u.bits.toNat
  String.ofList (group groups (List.replicate (32 - digits.length) '0' ++ digits))

end Uuid

end Relational

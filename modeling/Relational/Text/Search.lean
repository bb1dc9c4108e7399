/-!
# Finding and replacing text

Positions count characters. The empty text is found at the front of every text, and replacing it
puts the new text at every boundary: before the first character, between any two, after the last.
-/

namespace Relational.Text

/-- The number of characters before the first occurrence of `needle`. -/
def indexOf? (needle : List Char) : List Char → Option Nat
  | [] => if needle.isEmpty then some 0 else none
  | c :: cs => if needle.isPrefixOf (c :: cs) then some 0 else (indexOf? needle cs).map (· + 1)

def contains (needle text : String) : Bool := (indexOf? needle.toList text.toList).isSome

def startsWith (needle text : String) : Bool := needle.toList.isPrefixOf text.toList

def endsWith (needle text : String) : Bool := needle.toList.isSuffixOf text.toList

/-- Occurrences of a non-empty `needle` replaced from the left, after the first `skip` characters,
which belong to an occurrence already replaced. -/
def replaceFrom (needle new : List Char) : Nat → List Char → List Char
  | _, [] => []
  | skip + 1, _ :: cs => replaceFrom needle new skip cs
  | 0, c :: cs =>
    if needle.isPrefixOf (c :: cs) then new ++ replaceFrom needle new (needle.length - 1) cs
    else c :: replaceFrom needle new 0 cs

def replace (needle new text : String) : String :=
  if needle.isEmpty then
    String.ofList (new.toList ++ text.toList.flatMap fun c => c :: new.toList)
  else String.ofList (replaceFrom needle.toList new.toList 0 text.toList)

end Relational.Text

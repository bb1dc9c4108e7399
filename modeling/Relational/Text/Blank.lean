/-!
# Blank characters

White space is a property of the character, not of the alphabet in use: the controls from tab to
carriage return, the blank, the next-line control, and every space and line or paragraph separator.
Trimming takes a run of such characters off one end of a text or off both.
-/

namespace Relational.Text

/-- The white-space characters. -/
def isBlank (c : Char) : Bool :=
  let n := c.toNat
  (9 ≤ n && n ≤ 13) || n == 0x20 || n == 0x85 || n == 0xA0 || n == 0x1680 ||
    (0x2000 ≤ n && n ≤ 0x200A) || n == 0x2028 || n == 0x2029 || n == 0x202F || n == 0x205F || n == 0x3000

/-- Blanks off the front. -/
def trimStartChars (cs : List Char) : List Char := cs.dropWhile isBlank

/-- Blanks off the end. -/
def trimEndChars (cs : List Char) : List Char := (cs.reverse.dropWhile isBlank).reverse

def trimStart (s : String) : String := String.ofList (trimStartChars s.toList)

def trimEnd (s : String) : String := String.ofList (trimEndChars s.toList)

/-- Blanks off both ends. -/
def trim (s : String) : String := String.ofList (trimEndChars (trimStartChars s.toList))

end Relational.Text

import Relational.Text.InvisibleTable
import Relational.Text.Case

/-!
# Quoted text

The written form of a text or a character inside a description of a value: the quote in use, the
backslash and the four named controls are escaped by a backslash, and a character without a shape of
its own is written by its number.
-/

namespace Relational.Text

/-- A number in lower-case hexadecimal, without leading zeros. -/
def hexDigits (n : Nat) : String := String.ofList (Nat.toDigits 16 n)

/-- One character between `quote`s. -/
def quotedChar (quote : Char) (c : Char) : String :=
  if c == quote || c == '\\' then String.ofList ['\\', c]
  else if c == '\n' then "\\n"
  else if c == '\r' then "\\r"
  else if c == '\t' then "\\t"
  else if c.toNat == 0 then "\\0"
  else if inStretches invisibleStretches c.toNat then "\\u\x7b" ++ hexDigits c.toNat ++ "\x7d"
  else c.toString

/-- A text between double quotes. -/
def quoted (s : String) : String :=
  "\"" ++ String.join (s.toList.map (quotedChar '"')) ++ "\""

/-- A character between single quotes. -/
def quotedSingle (c : Char) : String := "'" ++ quotedChar '\'' c ++ "'"

end Relational.Text

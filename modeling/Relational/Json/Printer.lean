import Relational.Number.Shortest
import Relational.Text.Quoted
import Relational.Json.Basic

/-!
# Writing JSON

Compact or over several lines, with two blanks for each level. A double that is not finite has no
number, so it is written as null.
-/

namespace Relational.Json

/-- A character inside a string. -/
def escaped (c : Char) : String :=
  if c == '"' then "\\\""
  else if c == '\\' then "\\\\"
  else if c == '\n' then "\\n"
  else if c == '\r' then "\\r"
  else if c == '\t' then "\\t"
  else if c == '\x08' then "\\b"
  else if c == '\x0c' then "\\f"
  else if c.toNat < 32 then "\\u00" ++ (if c.toNat < 16 then "0" else "") ++ Text.hexDigits c.toNat
  else c.toString

def quoted (s : String) : String := "\"" ++ String.join (s.toList.map escaped) ++ "\""

def numberText (x : Float) : String :=
  if (Double.parts? x).isNone then "null" else Double.inDocument.text x

mutual

/-- The document on one line without blanks. -/
def compact : Json → String
  | null => "null"
  | bool b => if b then "true" else "false"
  | int n => toString n
  | float x => numberText x
  | string s => quoted s
  | array items => "[" ++ ",".intercalate (compactItems items) ++ "]"
  | object members => "\x7b" ++ ",".intercalate (compactMembers members) ++ "\x7d"

def compactItems : List Json → List String
  | [] => []
  | j :: js => j.compact :: compactItems js

def compactMembers : List (String × Json) → List String
  | [] => []
  | (name, j) :: ms => (quoted name ++ ":" ++ j.compact) :: compactMembers ms

end

def indent (level : Nat) : String := String.ofList (List.replicate (2 * level) ' ')

/-- Parts on lines of their own between two brackets. -/
def block (opening closing : String) (level : Nat) (parts : List String) : String :=
  let line := "\n" ++ indent (level + 1)
  if parts.isEmpty then opening ++ closing
  else opening ++ line ++ (("," ++ line).intercalate parts) ++ "\n" ++ indent level ++ closing

mutual

/-- The document over several lines. -/
def pretty (level : Nat) : Json → String
  | array items => block "[" "]" level (prettyItems (level + 1) items)
  | object members => block "\x7b" "\x7d" level (prettyMembers (level + 1) members)
  | j => j.compact

def prettyItems (level : Nat) : List Json → List String
  | [] => []
  | j :: js => j.pretty level :: prettyItems level js

def prettyMembers (level : Nat) : List (String × Json) → List String
  | [] => []
  | (name, j) :: ms => (quoted name ++ ": " ++ j.pretty level) :: prettyMembers level ms

end

end Relational.Json

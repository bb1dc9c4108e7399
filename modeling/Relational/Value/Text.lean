import Relational.Text.Quoted
import Relational.Number.Shortest
import Relational.Number.Decimal.Text
import Relational.Time.Layout
import Relational.Value.Basic

/-!
# The text of values

`describe` shows the kind of a value and its parts, for messages. `plainText` is what concatenation
and conversion to text give: the bare content, and the description of a value that has none.
-/

namespace Relational.Value

def bracketed (parts : List String) : String := "[" ++ ", ".intercalate parts ++ "]"

mutual

def describe : Value → String
  | null => "Null"
  | bool b => "Bool(" ++ (if b then "true" else "false") ++ ")"
  | int n => "Int(" ++ toString n.toInt ++ ")"
  | float x => "Float(" ++ Double.descriptive.text x ++ ")"
  | decimal d => "Decimal(" ++ d.text ++ ")"
  | text s => "Text(" ++ Text.quoted s ++ ")"
  | char c => "Char(" ++ Text.quotedSingle c ++ ")"
  | blob bytes => "Blob(" ++ bracketed (bytes.map fun b => Nat.repr b.toNat) ++ ")"
  | timestamp t => "DateTime(" ++ t.documentText ++ ")"
  | duration ticks => "Duration(" ++ toString ticks.toInt ++ ")"
  | uuid u => "Uuid(" ++ u.text ++ ")"
  | enum variant => "Enum(" ++ Text.quoted variant ++ ")"
  | record name fields =>
    "Record(Record \x7b name: " ++ Text.quoted name ++ ", fields: " ++ bracketed (describeFields fields)
      ++ " \x7d)"
  | list items => "List(" ++ bracketed (describeItems items) ++ ")"
  | group key elements =>
    "Group \x7b key: " ++ key.describe ++ ", elements: " ++ bracketed (describeItems elements) ++ " \x7d"

def describeItems : List Value → List String
  | [] => []
  | v :: vs => v.describe :: describeItems vs

def describeFields : List (String × Value) → List String
  | [] => []
  | (name, v) :: fields => ("(" ++ Text.quoted name ++ ", " ++ v.describe ++ ")") :: describeFields fields

end

/-- The content of a value as text. -/
def plainText : Value → String
  | null => ""
  | text s => s
  | char c => c.toString
  | bool b => if b then "true" else "false"
  | int n => toString n.toInt
  | float x => Double.text x
  | decimal d => d.text
  | timestamp t => t.text
  | duration ticks => toString ticks.toInt
  | uuid u => u.text
  | enum variant => variant
  | v => v.describe

end Relational.Value

import Relational.Number.Double
import Relational.Uuid
import Relational.Json.Basic

/-!
# Reading JSON

The text of a document, strictly: nothing but blanks around the value, no comma too many, no raw control
character in a string, no half of a surrogate pair. A whole number that exceeds a word of 64 bits,
signed or not, becomes a double, and a number that exceeds the doubles is refused. Nesting is limited
by the caller.
-/

namespace Relational.Json

def isSpace (c : Char) : Bool := c == ' ' || c == '\t' || c == '\n' || c == '\r'

def skipSpaces (cs : List Char) : List Char := cs.dropWhile isSpace

/-- The value of four hexadecimal digits. -/
def hexQuad? (cs : List Char) : Option (Nat × List Char) := do
  let digits ← (cs.take 4).mapM Uuid.hexValue?
  if digits.length == 4 then some (digits.foldl (16 * · + ·) 0, cs.drop 4) else none

def isHighSurrogate (n : Nat) : Bool := 0xD800 ≤ n && n < 0xDC00

def isLowSurrogate (n : Nat) : Bool := 0xDC00 ≤ n && n < 0xE000

/-- A character by its number, or by the two surrogates of a pair. -/
def readUnicode? (cs : List Char) : Option (Char × List Char) := do
  let (n, cs) ← hexQuad? cs
  if isLowSurrogate n then none
  else if isHighSurrogate n then
    match cs with
    | '\\' :: 'u' :: cs => do
      let (m, cs) ← hexQuad? cs
      if isLowSurrogate m then some (Char.ofNat (0x10000 + (n - 0xD800) * 0x400 + (m - 0xDC00)), cs)
      else none
    | _ => none
  else some (Char.ofNat n, cs)

/-- What stands behind a backslash. -/
def readEscape? (cs : List Char) : Option (Char × List Char) :=
  match cs with
  | [] => none
  | c :: cs =>
    if c == '"' || c == '\\' || c == '/' then some (c, cs)
    else if c == 'b' then some ('\x08', cs)
    else if c == 'f' then some ('\x0c', cs)
    else if c == 'n' then some ('\n', cs)
    else if c == 'r' then some ('\r', cs)
    else if c == 't' then some ('\t', cs)
    else if c == 'u' then readUnicode? cs
    else none

/-- The rest of a string behind its opening quote; what has been read stands in reverse. -/
def readString? : (fuel : Nat) → (read : List Char) → List Char → Option (String × List Char)
  | 0, _, _ => none
  | _, _, [] => none
  | fuel + 1, read, c :: cs =>
    if c == '"' then some (String.ofList read.reverse, cs)
    else if c == '\\' then do
      let (d, cs) ← readEscape? cs
      readString? fuel (d :: read) cs
    else if c.toNat < 32 then none
    else readString? fuel (c :: read) cs

/-- A whole number of a document: a word, signed or not, else a double; a negative zero is a double. -/
def wholeNumber (negative : Bool) (n : Nat) : Json :=
  if negative then
    if n == 0 || pow2 63 < n then float (-Double.ofNat n) else int (-n)
  else if n < pow2 64 then int n else float (Double.ofNat n)

/-- The digits behind a point, and the rest. -/
def readFraction? (cs : List Char) : Option (List Char × List Char) :=
  match cs with
  | '.' :: cs =>
    let digits := cs.takeWhile Char.isDigit
    if digits.isEmpty then none else some (digits, cs.drop digits.length)
  | cs => some ([], cs)

/-- The exponent, if there is one, and the rest. -/
def readExponent? (cs : List Char) : Option (Option Int × List Char) :=
  match cs with
  | [] => some (none, [])
  | c :: rest =>
    if c == 'e' || c == 'E' then
      let (negative, rest) :=
        match rest with
        | '-' :: rest => (true, rest)
        | '+' :: rest => (false, rest)
        | rest => (false, rest)
      let digits := rest.takeWhile Char.isDigit
      (Word.digitsValue? digits).map fun n =>
        (some (if negative then -(n : Int) else n), rest.drop digits.length)
    else some (none, c :: rest)

/-- A number without its sign. A leading zero stands alone. -/
def readUnsigned? (negative : Bool) (cs : List Char) : Option (Json × List Char) := do
  let whole := if cs.head? == some '0' then ['0'] else cs.takeWhile Char.isDigit
  let n ← Word.digitsValue? whole
  let (fraction, rest) ← readFraction? (cs.drop whole.length)
  let (exponent, rest) ← readExponent? rest
  if (rest.head?.map Char.isDigit).getD false then none
  else if fraction.isEmpty && exponent.isNone then some (wholeNumber negative n, rest)
  else do
    let digits ← Word.digitsValue? (whole ++ fraction)
    let x := Double.ofDecimal digits (exponent.getD 0 - fraction.length)
    if (Double.parts? x).isNone then none else some (float (if negative then -x else x), rest)

def readNumber? (cs : List Char) : Option (Json × List Char) :=
  match cs with
  | '-' :: cs => readUnsigned? true cs
  | cs => readUnsigned? false cs

/-- A fixed word. -/
def readWord? (word : String) (j : Json) (cs : List Char) : Option (Json × List Char) :=
  if word.toList.isPrefixOf cs then some (j, cs.drop word.length) else none

mutual

/-- A value, with at most `depth` arrays and objects inside one another. -/
def readValue? : (fuel depth : Nat) → List Char → Option (Json × List Char)
  | 0, _, _ => none
  | fuel + 1, depth, cs =>
    match skipSpaces cs with
    | [] => none
    | '"' :: cs => (readString? fuel [] cs).map fun (s, cs) => (string s, cs)
    | '[' :: cs =>
      match depth with
      | 0 => none
      | depth + 1 =>
        match skipSpaces cs with
        | ']' :: cs => some (array [], cs)
        | cs => (readItems? fuel depth cs).map fun (items, cs) => (array items, cs)
    | '\x7b' :: cs =>
      match depth with
      | 0 => none
      | depth + 1 =>
        match skipSpaces cs with
        | '\x7d' :: cs => some (object [], cs)
        | cs => (readMembers? fuel depth cs).map fun (members, cs) => (object members, cs)
    | 't' :: cs => readWord? "rue" (bool true) cs
    | 'f' :: cs => readWord? "alse" (bool false) cs
    | 'n' :: cs => readWord? "ull" null cs
    | cs => readNumber? cs

/-- The items of an array up to its closing bracket. -/
def readItems? : (fuel depth : Nat) → List Char → Option (List Json × List Char)
  | 0, _, _ => none
  | fuel + 1, depth, cs => do
    let (item, cs) ← readValue? fuel depth cs
    match skipSpaces cs with
    | ']' :: cs => some ([item], cs)
    | ',' :: cs => do
      let (items, cs) ← readItems? fuel depth cs
      some (item :: items, cs)
    | _ => none

/-- The members of an object up to its closing brace. -/
def readMembers? : (fuel depth : Nat) → List Char → Option (List (String × Json) × List Char)
  | 0, _, _ => none
  | fuel + 1, depth, cs =>
    match skipSpaces cs with
    | '"' :: cs => do
      let (name, cs) ← readString? fuel [] cs
      match skipSpaces cs with
      | ':' :: cs => do
        let (value, cs) ← readValue? fuel depth cs
        match skipSpaces cs with
        | '\x7d' :: cs => some ([(name, value)], cs)
        | ',' :: cs => do
          let (members, cs) ← readMembers? fuel depth cs
          some ((name, value) :: members, cs)
        | _ => none
      | _ => none
    | _ => none

end

/-- The document of a text, with at most `depth` arrays and objects inside one another. -/
def parse? (depth : Nat) (text : String) : Option Json :=
  let cs := text.toList
  match readValue? (2 * cs.length + 2) depth cs with
  | some (j, rest) => if (skipSpaces rest).isEmpty then some j else none
  | none => none

end Relational.Json

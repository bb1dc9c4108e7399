import Relational.Json.Parser
import Relational.Number.Word
import Relational.Toml.Table

/-!
# Reading configuration documents

A document is a sequence of lines: headers of tables, keys with values, and comments. Values are strings, integers,
floats, booleans, arrays, which may go over several lines, and tables in braces, which may not. Every
reader returns what it leaves.
-/

namespace Relational.Toml

def isBlank (c : Char) : Bool := c == ' ' || c == '\t'

def skipBlanks (cs : List Char) : List Char := cs.dropWhile isBlank

/-- Whether a character may stand for itself in a string or a comment. -/
def isPlain (c : Char) : Bool := c == '\t' || (0x20 ≤ c.toNat && c.toNat != 0x7f)

/-- Blanks, ends of lines and comments left out. -/
def skipSpace (inComment : Bool) : List Char → List Char
  | [] => []
  | c :: cs =>
    if c == '\n' || (c == '\r' && cs.head? == some '\n') then skipSpace false cs
    else if inComment then if isPlain c then skipSpace true cs else c :: cs
    else if c == '#' then skipSpace true cs
    else if isBlank c then skipSpace false cs
    else c :: cs

/-- Whether nothing but a comment follows on the line. -/
def atLineEnd (cs : List Char) : Bool :=
  match skipBlanks cs with
  | [] => true
  | '\r' :: '\n' :: _ => true
  | c :: _ => c == '\n' || c == '#'

/-- A character by the number that a run of hexadecimal digits gives. -/
def readScalar? (digits : Nat) (cs : List Char) : Option (Char × List Char) := do
  let ds ← (cs.take digits).mapM Uuid.hexValue?
  let n := ds.foldl (16 * · + ·) 0
  if ds.length == digits && (n < 0xD800 || (0xE000 ≤ n && n < 0x110000)) then
    some (Char.ofNat n, cs.drop digits)
  else none

/-- What stands behind a backslash. -/
def readEscape? : List Char → Option (Char × List Char)
  | [] => none
  | c :: cs =>
    if c == '"' || c == '\\' then some (c, cs)
    else if c == 'b' then some ('\x08', cs)
    else if c == 't' then some ('\t', cs)
    else if c == 'n' then some ('\n', cs)
    else if c == 'f' then some ('\x0c', cs)
    else if c == 'r' then some ('\r', cs)
    else if c == 'u' then readScalar? 4 cs
    else if c == 'U' then readScalar? 8 cs
    else none

/-- The rest of a string behind its quote; what has been read stands in reverse. -/
def readString? : (fuel : Nat) → (read : List Char) → List Char → Option (String × List Char)
  | 0, _, _ => none
  | _, _, [] => none
  | fuel + 1, read, c :: cs =>
    if c == '"' then some (String.ofList read.reverse, cs)
    else if c == '\\' then do
      let (c, cs) ← readEscape? cs
      readString? fuel (c :: read) cs
    else if isPlain c then readString? fuel (c :: read) cs
    else none

/-- The rest of a string between single quotes, in which nothing is escaped. -/
def readLiteral? (cs : List Char) : Option (String × List Char) :=
  let text := cs.takeWhile fun c => c != '\'' && isPlain c
  match cs.drop text.length with
  | '\'' :: rest => some (String.ofList text, rest)
  | _ => none

def isBare (c : Char) : Bool := c.isAlphanum || c == '_' || c == '-'

/-- One name of a key. -/
def readName? (cs : List Char) : Option (String × List Char) :=
  match cs with
  | '"' :: cs => readString? (cs.length + 1) [] cs
  | '\'' :: cs => readLiteral? cs
  | cs =>
    let name := cs.takeWhile isBare
    if name.isEmpty then none else some (String.ofList name, cs.drop name.length)

/-- A key: names with points between them. What follows is not a blank. -/
def readKey? : (fuel : Nat) → List Char → Option (List String × List Char)
  | 0, _ => none
  | fuel + 1, cs => do
    let (name, cs) ← readName? cs
    match skipBlanks cs with
    | '.' :: cs => do
      let (names, cs) ← readKey? fuel (skipBlanks cs)
      some (name :: names, cs)
    | cs => some ([name], cs)

/-- Digits with single underscores between them. -/
def digits? : List Char → Option (List Char)
  | [] => none
  | [c] => if c.isDigit then some [c] else none
  | c :: '_' :: cs => if c.isDigit then (digits? cs).map (c :: ·) else none
  | c :: cs => if c.isDigit then (digits? cs).map (c :: ·) else none

/-- The digits of a whole number, which has no zero in front. -/
def wholeDigits? (cs : List Char) : Option (List Char) := do
  let ds ← digits? cs
  if ds.head? == some '0' && 1 < ds.length then none else some ds

/-- A sign and what follows it. -/
def splitSign (cs : List Char) : List Char × List Char :=
  match cs with
  | '-' :: cs => (['-'], cs)
  | '+' :: cs => ([], cs)
  | cs => ([], cs)

def readInteger? (cs : List Char) : Option Json := do
  let (sign, rest) := splitSign cs
  let n ← Word.parseInt? (sign ++ (← wholeDigits? rest))
  return .int (← Word.ofInt? n).toInt

/-- The part behind a mark, if the mark is there. -/
def partBehind? (isMark : Char → Bool) (cs : List Char) : List Char × Option (List Char) :=
  let before := cs.takeWhile (!isMark ·)
  (before, (cs.drop before.length).tail?)

def readFloat? (cs : List Char) : Option Json := do
  let (sign, rest) := splitSign cs
  if rest == "inf".toList || rest == "nan".toList then return .float (← Double.parse? (sign ++ rest))
  let (number, exponent) := partBehind? (fun c => c == 'e' || c == 'E') rest
  let (whole, fraction) := partBehind? (· == '.') number
  if exponent.isNone && fraction.isNone then none
  let whole ← wholeDigits? whole
  let fraction ← fraction.elim (some []) fun f => (digits? f).map ('.' :: ·)
  let exponent ← exponent.elim (some []) fun e =>
    let (sign, ds) := splitSign e
    (digits? ds).map fun ds => 'e' :: sign ++ ds
  return .float (← Double.parse? (sign ++ whole ++ fraction ++ exponent))

/-- A value that is one word. -/
def readWord? (word : List Char) : Option Json :=
  if word == "true".toList then some (.bool true)
  else if word == "false".toList then some (.bool false)
  else (readInteger? word).or (readFloat? word)

def isWordChar (c : Char) : Bool := isBare c || c == '+' || c == '.'

mutual

def readValue? : (fuel : Nat) → List Char → Option (Json × List Char)
  | 0, _ => none
  | fuel + 1, cs =>
    match cs with
    | [] => none
    | c :: rest =>
      if c == '"' then (readString? (rest.length + 1) [] rest).map fun (s, cs) => (.string s, cs)
      else if c == '\'' then (readLiteral? rest).map fun (s, cs) => (.string s, cs)
      else if c == '[' then do
        let (items, cs) ← readItems? fuel rest
        some (.array items, cs)
      else if c == '\x7b' then do
        let (ms, cs) ← readPairs? fuel [] (skipBlanks rest)
        some (.object (membersToJson ms), cs)
      else
        let word := cs.takeWhile isWordChar
        (readWord? word).map fun j => (j, cs.drop word.length)

/-- The items of an array; a comma may stand behind the last one. -/
def readItems? : (fuel : Nat) → List Char → Option (List Json × List Char)
  | 0, _ => none
  | fuel + 1, cs =>
    match skipSpace false cs with
    | ']' :: cs => some ([], cs)
    | cs => do
      let (j, cs) ← readValue? fuel cs
      match skipSpace false cs with
      | ',' :: cs => do
        let (items, cs) ← readItems? fuel cs
        some (j :: items, cs)
      | ']' :: cs => some ([j], cs)
      | _ => none

/-- The members of a table in braces. -/
def readPairs? : (fuel : Nat) → Members → List Char → Option (Members × List Char)
  | 0, _, _ => none
  | fuel + 1, ms, cs =>
    if cs.head? == some '\x7d' && ms.isEmpty then some (ms, cs.tail)
    else do
      let (key, cs) ← readKey? (cs.length + 1) cs
      match cs with
      | '=' :: cs => do
        let (j, cs) ← readValue? fuel (skipBlanks cs)
        let ms ← assign j key ms
        match skipBlanks cs with
        | ',' :: cs => readPairs? fuel ms (skipBlanks cs)
        | c :: cs => if c == '\x7d' then some (ms, cs) else none
        | [] => none
      | _ => none

end

/-- The lines of a document; `current` is the table to which keys belong. -/
def readLines? : (fuel : Nat) → (current : List String) → Members → List Char → Option Members
  | 0, _, _, _ => none
  | fuel + 1, current, ms, cs =>
    match skipSpace false cs with
    | [] => some ms
    | '[' :: '[' :: cs => do
      let (path, cs) ← readKey? (cs.length + 1) (skipBlanks cs)
      match cs with
      | ']' :: ']' :: cs => if atLineEnd cs then readLines? fuel path (← appendTable path ms) cs else none
      | _ => none
    | '[' :: cs => do
      let (path, cs) ← readKey? (cs.length + 1) (skipBlanks cs)
      match cs with
      | ']' :: cs => if atLineEnd cs then readLines? fuel path (← declareTable path ms) cs else none
      | _ => none
    | cs => do
      let (key, cs) ← readKey? (cs.length + 1) cs
      match cs with
      | '=' :: cs => do
        let (j, cs) ← readValue? (cs.length + 1) (skipBlanks cs)
        if atLineEnd cs then readLines? fuel current (← within (assign j key) current ms) cs else none
      | _ => none

/-- The content of a document. -/
def parse? (text : String) : Option Json :=
  let cs := text.toList
  (readLines? (cs.length + 1) [] [] cs).map fun ms => .object (membersToJson ms)

end Relational.Toml

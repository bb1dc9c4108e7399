import Relational.Sql.Lexeme

/-!
# Reading the text of an expression

The way back from text: a scanner that cuts text into tokens, and a reader that puts the tokens
together by the binding strength of the operators. The reader keeps what it has not finished on a
stack. An operator that comes in finishes everything on top that binds at least as tight, so
operators of one strength group to the left. The tokens of a nested statement are not put together:
it is one term, up to the bracket that closes it.
-/

namespace Relational.Sql

/-! ## Tokens -/

def isBlank (c : Char) : Bool := c == ' ' || c == '\n' || c == '\t' || c == '\r'

def isLetter (c : Char) : Bool := c.isAlpha || c == '_'

def isWordChar (c : Char) : Bool := isLetter c || c.isDigit

def isNumberChar (c : Char) : Bool := isWordChar c || c == '.'

/-- What stands before a closing quote, and what follows it. A doubled quote is one quote of the
text. -/
def quotedText? : List Char → Option (List Char × List Char)
  | '\'' :: '\'' :: cs => (quotedText? cs).map fun p => ('\'' :: p.1, p.2)
  | '\'' :: cs => some ([], cs)
  | c :: cs => (quotedText? cs).map fun p => (c :: p.1, p.2)
  | [] => none

/-- What stands before a closing bracket, and what follows it. -/
def bracketed? (cs : List Char) : Option (List Char × List Char) :=
  match cs.dropWhile (· != ']') with
  | _ :: rest => some (cs.takeWhile (· != ']'), rest)
  | [] => none

/-- A sign, with the longer one of two that begin alike. -/
def sign? : List Char → Option (Token × List Char)
  | '?' :: cs => some (.placeholder, cs)
  | '(' :: cs => some (.opening, cs)
  | ')' :: cs => some (.closing, cs)
  | ',' :: cs => some (.comma, cs)
  | '.' :: cs => some (.point, cs)
  | '+' :: cs => some (.operator .add, cs)
  | '-' :: cs => some (.operator .sub, cs)
  | '*' :: cs => some (.operator .mul, cs)
  | '/' :: cs => some (.operator .div, cs)
  | '%' :: cs => some (.operator .rem, cs)
  | '&' :: cs => some (.operator .bitAnd, cs)
  | '|' :: '|' :: cs => some (.operator .concat, cs)
  | '|' :: cs => some (.operator .bitOr, cs)
  | '<' :: '=' :: cs => some (.operator .le, cs)
  | '<' :: cs => some (.operator .lt, cs)
  | '>' :: '=' :: cs => some (.operator .ge, cs)
  | '>' :: cs => some (.operator .gt, cs)
  | _ => none

/-- The token at the front of a text, and what follows it. -/
def token? : List Char → Option (Token × List Char)
  | [] => none
  | c :: cs =>
    if c == '[' then (bracketed? cs).map fun p => (.name (String.ofList p.1), p.2)
    else if c == '\'' then (quotedText? cs).map fun p => (.quoted (String.ofList p.1), p.2)
    else if c == 'X' && cs.head? == some '\'' then
      (quotedText? cs.tail).map fun p => (.bytes (String.ofList p.1), p.2)
    else if isLetter c then
      some (.word (String.ofList (c :: cs.takeWhile isWordChar)), cs.dropWhile isWordChar)
    else if c.isDigit then
      some (.word (String.ofList (c :: cs.takeWhile isNumberChar)), cs.dropWhile isNumberChar)
    else sign? (c :: cs)

/-- The tokens of a text. Two minus signs begin a comment, which ends with the line. -/
def scanSteps : (steps : Nat) → List Char → Option (List Token)
  | _, [] => some []
  | 0, _ :: _ => none
  | steps + 1, c :: cs =>
    if isBlank c then scanSteps steps cs
    else if c == '-' && cs.head? == some '-' then scanSteps steps (cs.dropWhile (· != '\n'))
    else
      match token? (c :: cs) with
      | some (t, rest) => (scanSteps steps rest).map (t :: ·)
      | none => none

/-- Every step takes a character, so there are no more steps than characters. -/
def scan (cs : List Char) : Option (List Token) := scanSteps cs.length cs

/-! ## Terms -/

/-- An expression as its text says it. -/
inductive Term where
  | column (source : Option String) (name : String)
  | placeholder
  | word (s : String)
  | quoted (s : String)
  | bytes (s : String)
  | unary (op : UnaryOp) (operand : Term)
  | binary (op : BinaryOp) (left right : Term)
  /-- Whether a text has a pattern. -/
  | matching (value pattern : Term)
  /-- Whether a value is in a list. -/
  | within (value : Term) (items : List Term)
  | call (function : String) (args : List Term)
  /-- A condition, and what it decides between. -/
  | cases (parts : List Term)
  /-- A nested statement. -/
  | statement (tokens : List Token)

/-- How tight an operator between its operands binds: one of the loosest has level 1. `COALESCE` is
no operator. -/
def level : BinaryOp → Nat
  | .or => 1
  | .and => 2
  | .eq | .ne => 4
  | .lt | .le | .gt | .ge => 5
  | .bitAnd | .bitOr => 6
  | .add | .sub => 7
  | .mul | .div | .rem => 8
  | .concat => 9
  | .coalesce => 0

/-- How tight an operator before its operand binds: `NOT` between `AND` and `IS`, a minus sign
tightest. -/
def prefixLevel : UnaryOp → Nat
  | .not => 3
  | .negate => 10

/-- The level of `IN` and `GLOB`, which is that of `IS`. -/
def withinLevel : Nat := 4

/-- Tighter than any operator. -/
def tightest : Nat := 11

/-- Something that waits for its next operand. -/
inductive Frame where
  | binary (left : Term) (op : BinaryOp)
  | unary (op : UnaryOp)
  | matching (value : Term)
  /-- An opening bracket. -/
  | group
  | call (function : String) (args : List Term)
  /-- `IN`, before its list. -/
  | within (value : Term)
  | items (value : Term) (items : List Term)
  | cases (parts : List Term)
  /-- The source of a column, before the name. -/
  | member (source : String)
  /-- A nested statement, with the number of brackets that are open in it. -/
  | statement (tokens : List Token) (depth : Nat)

namespace Frame

/-- The level of an operator that waits. -/
def level? : Frame → Option Nat
  | .binary _ op => some (level op)
  | .unary op => some (prefixLevel op)
  | .matching _ => some withinLevel
  | _ => none

/-- Whether any operand can come next. -/
def takesOperand : Frame → Bool
  | .within _ | .member _ | .statement _ _ => false
  | _ => true

/-- Whether a nested statement can come next. -/
def takesStatement : Frame → Bool
  | .group | .call _ [] | .items _ [] => true
  | _ => false

end Frame

structure Reader where
  stack : List Frame
  /-- The operand that has been read last, if none is waited for. -/
  operand : Option Term

/-- Finishes the operators on top that bind at least as tight as a level. -/
def reduce (least : Nat) : List Frame → Term → List Frame × Term
  | .binary l op :: fs, t =>
    if least ≤ level op then reduce least fs (.binary op l t) else (.binary l op :: fs, t)
  | .unary op :: fs, t =>
    if least ≤ prefixLevel op then reduce least fs (.unary op t) else (.unary op :: fs, t)
  | .matching l :: fs, t =>
    if least ≤ withinLevel then reduce least fs (.matching l t) else (.matching l :: fs, t)
  | fs, t => (fs, t)

/-- Words that are no operands. -/
def keywords : List String :=
  ["NOT", "AND", "OR", "IS", "IN", "AS", "GLOB", "CASE", "WHEN", "THEN", "ELSE", "END", "DISTINCT", "SELECT"]

namespace Reader

/-- An operand and the operator behind it. -/
def infixed (fs : List Frame) (t : Term) (op : BinaryOp) : Reader :=
  let r := reduce (level op) fs t
  ⟨.binary r.2 op :: r.1, none⟩

/-- The end of an argument or an item; `AS` divides the arguments of `CAST`. -/
def divided (fs : List Frame) (t : Term) : Option Reader :=
  match reduce 0 fs t with
  | (.call f args :: fs, t) => some ⟨.call f (args ++ [t]) :: fs, none⟩
  | (.items x items :: fs, t) => some ⟨.items x (items ++ [t]) :: fs, none⟩
  | _ => none

def closed (fs : List Frame) (t : Term) : Option Reader :=
  match reduce 0 fs t with
  | (.group :: fs, t) => some ⟨fs, some t⟩
  | (.call f args :: fs, t) => some ⟨fs, some (.call f (args ++ [t]))⟩
  | (.items x items :: fs, t) => some ⟨fs, some (.within x (items ++ [t]))⟩
  | _ => none

/-- The end of a condition or of what is taken if it holds. -/
def branched (fs : List Frame) (t : Term) : Option Reader :=
  match reduce 0 fs t with
  | (.cases parts :: fs, t) => some ⟨.cases (parts ++ [t]) :: fs, none⟩
  | _ => none

def ended (fs : List Frame) (t : Term) : Option Reader :=
  match reduce 0 fs t with
  | (.cases parts :: fs, t) => some ⟨fs, some (.cases (parts ++ [t]))⟩
  | _ => none

/-- A keyword where an operand is waited for. `NOT` right behind `IS` belongs to it, and `DISTINCT`
belongs to the function whose arguments it opens. -/
def stepKeyword (fs : List Frame) (word : String) : Option Reader :=
  match word, fs with
  | "NOT", .binary l .eq :: fs => some ⟨.binary l .ne :: fs, none⟩
  | "NOT", fs => some ⟨.unary .not :: fs, none⟩
  | "CASE", fs => some ⟨.cases [] :: fs, none⟩
  | "WHEN", .cases [] :: fs => some ⟨.cases [] :: fs, none⟩
  | "DISTINCT", .call f [] :: fs => some ⟨.call (f ++ " DISTINCT") [] :: fs, none⟩
  | "SELECT", f :: fs =>
    if f.takesStatement then some ⟨.statement [.word "SELECT"] 0 :: f :: fs, none⟩ else none
  | _, _ => none

/-- A token where an operand is waited for. -/
def stepBefore (fs : List Frame) : Token → Option Reader
  | .word s => if s ∈ keywords then stepKeyword fs s else some ⟨fs, some (.word s)⟩
  | .operator .sub => some ⟨.unary .negate :: fs, none⟩
  | .operator .mul =>
    match fs with
    | .call f [] :: fs => some ⟨.call f [] :: fs, some (.word "*")⟩
    | _ => none
  | .name s =>
    match fs with
    | .member a :: fs => some ⟨fs, some (.column (some a) s)⟩
    | fs => some ⟨fs, some (.column none s)⟩
  | .quoted s => some ⟨fs, some (.quoted s)⟩
  | .bytes s => some ⟨fs, some (.bytes s)⟩
  | .placeholder => some ⟨fs, some .placeholder⟩
  | .opening =>
    match fs with
    | .within x :: fs => some ⟨.items x [] :: fs, none⟩
    | fs => some ⟨.group :: fs, none⟩
  | .closing =>
    match fs with
    | .call f [] :: fs => some ⟨fs, some (.call f [])⟩
    | .items x [] :: fs => some ⟨fs, some (.within x [])⟩
    | _ => none
  | _ => none

/-- A token behind an operand. -/
def stepBehind (fs : List Frame) (t : Term) : Token → Option Reader
  | .word "AND" => some (infixed fs t .and)
  | .word "OR" => some (infixed fs t .or)
  | .word "IS" => some (infixed fs t .eq)
  | .word "IN" =>
    let r := reduce withinLevel fs t
    some ⟨.within r.2 :: r.1, none⟩
  | .word "GLOB" =>
    let r := reduce withinLevel fs t
    some ⟨.matching r.2 :: r.1, none⟩
  | .word "AS" => divided fs t
  | .word "THEN" | .word "ELSE" => branched fs t
  | .word "END" => ended fs t
  | .operator op => some (infixed fs t op)
  | .comma => divided fs t
  | .closing => closed fs t
  | .opening =>
    match t with
    | .word f => some ⟨.call f [] :: fs, none⟩
    | _ => none
  | .point =>
    match t with
    | .column none a => some ⟨.member a :: fs, none⟩
    | _ => none
  | _ => none

/-- A token inside a nested statement. -/
def stepInside (tokens : List Token) (depth : Nat) (fs : List Frame) : Token → Option Reader
  | .opening => some ⟨.statement (tokens ++ [.opening]) (depth + 1) :: fs, none⟩
  | .closing =>
    match depth with
    | 0 => closed fs (.statement tokens)
    | depth + 1 => some ⟨.statement (tokens ++ [.closing]) depth :: fs, none⟩
  | t => some ⟨.statement (tokens ++ [t]) depth :: fs, none⟩

def step (r : Reader) (token : Token) : Option Reader :=
  match r.operand, r.stack with
  | some t, fs => stepBehind fs t token
  | none, .statement tokens depth :: fs => stepInside tokens depth fs token
  | none, fs => stepBefore fs token

/-- Goes on reading. -/
def run (r : Reader) (tokens : List Token) : Option Reader := tokens.foldlM step r

/-- The term when there is nothing left to read. -/
def finish (r : Reader) : Option Term :=
  match r.operand with
  | none => none
  | some t =>
    match reduce 0 r.stack t with
    | ([], t) => some t
    | _ => none

end Reader

/-- The term that a text says. -/
def read (text : String) : Option Term :=
  (scan text.toList).bind fun tokens => (Reader.run ⟨[], none⟩ tokens).bind Reader.finish

end Relational.Sql

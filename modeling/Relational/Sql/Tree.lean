import Relational.Sql.Lexeme

/-!
# Syntax trees

A syntax tree is an expression as it is written, with its brackets. The lexemes of a nested
statement are one leaf of it.
-/

namespace Relational.Sql

inductive Tree where
  | column (source : Option String) (name : String)
  | literal (v : Value) (t : Ty)
  | parameter (v : Value) (t : Ty)
  /-- A word without a meaning of its own, or a number. -/
  | word (s : String)
  | quoted (s : String)
  | failed (e : Error)
  | unary (op : UnaryOp) (x : Tree)
  | binary (op : BinaryOp) (l r : Tree)
  | matching (l r : Tree)
  | within (x : Tree) (items : List Tree)
  | call (f : String) (args : List Tree)
  /-- A function of whole rows. -/
  | rows (f : String)
  /-- A function of the different values of an expression. -/
  | distinct (f : String) (x : Tree)
  | cast (x : Tree) (type : String)
  | cases (test yes no : Tree)
  | grouped (x : Tree)
  | scalar (statement : List Lexeme)
  | exists (statement : List Lexeme)
  | amid (x : Tree) (statement : List Lexeme)

/-- Tokens with a blank before each. -/
def spaced (ts : List Token) : List Lexeme := ts.flatMap fun t => [.blank, .token t]

def bracketed (ls : List Lexeme) : List Lexeme := .token .opening :: (ls ++ [.token .closing])

def select (ls : List Lexeme) : List Lexeme := .token (.word "SELECT") :: .blank :: ls

/-- Lexemes with a comma between any two. -/
def separated : List (List Lexeme) → List Lexeme
  | [] => []
  | [l] => l
  | l :: ls => l ++ .token .comma :: .blank :: separated ls

/-- The tokens of an operator between its operands. -/
def opTokens : BinaryOp → List Token
  | .and => [.word "AND"]
  | .or => [.word "OR"]
  | .eq => [.word "IS"]
  | .ne => [.word "IS", .word "NOT"]
  | op => [.operator op]

mutual

def Tree.lexemes : Tree → List Lexeme
  | .column none name => [.token (.name name)]
  | .column (some source) name => [.token (.name source), .token .point, .token (.name name)]
  | .literal v t => [.literal v t]
  | .parameter v t => [.parameter v t]
  | .word s => [.token (.word s)]
  | .quoted s => [.token (.quoted s)]
  | .failed e => [.failed e]
  | .unary .not x => .token (.word "NOT") :: .blank :: x.lexemes
  | .unary .negate x => .token (.operator .sub) :: x.lexemes
  | .binary op l r => l.lexemes ++ (spaced (opTokens op) ++ .blank :: r.lexemes)
  | .matching l r => l.lexemes ++ (spaced [.word "GLOB"] ++ .blank :: r.lexemes)
  | .within x items =>
    x.lexemes ++ (spaced [.word "IN"] ++ .blank :: bracketed (separated (treeLexemes items)))
  | .call f args => .token (.word f) :: bracketed (separated (treeLexemes args))
  | .rows f => .token (.word f) :: bracketed [.token (.operator .mul)]
  | .distinct f x =>
    .token (.word f) :: bracketed (.token (.word "DISTINCT") :: .blank :: x.lexemes)
  | .cast x type =>
    .token (.word "CAST") :: bracketed (x.lexemes ++ spaced [.word "AS", .word type])
  | .cases test yes no =>
    .token (.word "CASE") :: (spaced [.word "WHEN"] ++ .blank :: (test.lexemes ++
      (spaced [.word "THEN"] ++ .blank :: (yes.lexemes ++
        (spaced [.word "ELSE"] ++ .blank :: (no.lexemes ++ spaced [.word "END"]))))))
  | .grouped x => bracketed x.lexemes
  | .scalar s => bracketed (select s)
  | .exists s => .token (.word "EXISTS") :: bracketed (select s)
  | .amid x s => x.lexemes ++ (spaced [.word "IN"] ++ .blank :: bracketed (select s))

def treeLexemes : List Tree → List (List Lexeme)
  | [] => []
  | t :: ts => t.lexemes :: treeLexemes ts

end

def Tree.enclosed (parens : Bool) (t : Tree) : Tree := if parens then .grouped t else t

end Relational.Sql

import Relational.Value.Cell

/-!
# Lexemes

A statement is written lexeme by lexeme: tokens, blanks, and values that become cells. A parameter
is a placeholder where parameters are collected, and its literal where they are not, so one
rendering gives both forms of a statement.
-/

namespace Relational

namespace Sql

inductive Token where
  /-- A name in brackets. -/
  | name (s : String)
  /-- A keyword, the name of a function or a number. -/
  | word (s : String)
  | quoted (s : String)
  /-- Bytes in hexadecimal digits. -/
  | bytes (s : String)
  | placeholder
  | operator (op : BinaryOp)
  | opening
  | closing
  | comma
  | point
deriving DecidableEq

def Token.spelling : Token → String
  | .name s => "[" ++ s ++ "]"
  | .word s => s
  | .quoted s => "'" ++ s ++ "'"
  | .bytes s => "X'" ++ s ++ "'"
  | .placeholder => "?"
  | .operator op => op.symbol
  | .opening => "("
  | .closing => ")"
  | .comma => ","
  | .point => "."

inductive Lexeme where
  | blank
  | token (t : Token)
  /-- A value that is written out. -/
  | literal (v : Value) (t : Ty)
  /-- A value that is a placeholder where parameters are collected. -/
  | parameter (v : Value) (t : Ty)
  /-- A text that nothing is known of. -/
  | raw (sql : String)
  /-- What cannot be written. -/
  | failed (e : Error)

namespace Lexeme

/-- What a lexeme is written as. -/
def text (collect : Bool) : Lexeme → Result String
  | blank => .ok " "
  | token t => .ok t.spelling
  | literal v t => (v.toCell t).map Cell.literal
  | parameter v t => (v.toCell t).map fun c => if collect then "?" else c.literal
  | raw sql => .ok sql
  | failed e => .error e

/-- The cell of a parameter. -/
def cell? : Lexeme → Option Cell
  | parameter v t => (v.toCell t).toOption
  | _ => none

/-- A value that is written out wherever it stands. -/
def literally : Lexeme → Lexeme
  | parameter v t => literal v t
  | x => x

/-- Lexemes one after the other, up to one that cannot be written. -/
def textAll (collect : Bool) : List Lexeme → Result String
  | [] => .ok ""
  | x :: xs => do return (← x.text collect) ++ (← textAll collect xs)

end Lexeme

end Sql

open Sql

/-- A text of which both forms are known. -/
structure Rendering where
  lexemes : List Lexeme

namespace Rendering

/-- The text, with placeholders where parameters are collected. -/
def finish (r : Rendering) (collect : Bool) : Result String := Lexeme.textAll collect r.lexemes

/-- The statement with placeholders. -/
def placeholderText (r : Rendering) : Result String := r.finish true

/-- The statement with literals. -/
def literalText (r : Rendering) : Result String := r.finish false

/-- The parameters in the order of their placeholders. -/
def parameters (r : Rendering) : List Cell := r.lexemes.filterMap Lexeme.cell?

end Rendering

end Relational

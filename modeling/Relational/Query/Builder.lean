import Relational.Tree.Typing

/-!
# Building queries and expressions

The constructors of queries take their source first, so that combinators are written one behind the other. Here is what
takes more than a constructor.
-/

namespace Relational

/-- A function of one parameter, given by what it does with a reference to it. -/
def Lambda.of (param : String) (body : Expr → Expr) : Lambda := ⟨[param], body (.param param)⟩

/-- A function of two parameters. -/
def Lambda.ofTwo (first second : String) (body : Expr → Expr → Expr) : Lambda :=
  ⟨[first, second], body (.param first) (.param second)⟩

namespace Expr

/-- The absence of a value of a type. -/
def absent (t : Ty) : Expr := constant .null t.orNull

/-- A value of the surrounding program, under its name. -/
def captured (name : String) (v : Value) : Expr := .variable name v v.naturalTy

/-- A record whose type is read off its members. -/
def newRecord (name : String) (members : List Named) : Expr :=
  record ⟨name, members.map fun m => (m.name, m.expr.ty)⟩ members

/-- Null-safe equality. -/
def equals (a b : Expr) : Expr := binary .eq a b

/-- Part of a text, to its end or of a given length. -/
def substring (target start : Expr) (length : Option Expr) : Expr :=
  call .substring target (start :: length.toList)

def length (target : Expr) : Expr := member target "Length"

def hasValue (target : Expr) : Expr := member target "HasValue"

end Expr

namespace Query

/-- The elements whose field has a value. -/
def whereField (q : Query) (param field : String) (v : Expr) : Query :=
  q.filter (.of param fun row => (row.member field).equals v)

/-- Pairs of elements that agree in a field. -/
def joinOn (q other : Query) (field : String) : Query :=
  q.join other (.of "a" (·.member field)) (.of "b" (·.member field))
    (.ofTwo "a" "b" fun a b => .newRecord "Pair" [⟨"A", a⟩, ⟨"B", b⟩])

end Query

end Relational

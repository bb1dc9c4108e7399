import Mathlib.Data.List.Forall2
import Relational.Compile
import Relational.Proofs.Compilation.Folding
import Relational.Proofs.Json.Text
import Relational.Proofs.Sql.Grouping

/-!
# What the terms of ORDER BY and GROUP BY denote

In two clauses a text can denote something else than the expression it was written for. A term that
is a number is the position of a column, and in ORDER BY a name without a qualifier that a column has
been given with AS is that column. What a term denotes is computed from its text (`Select.groupTerm`,
`Select.orderTerm`). It can be told from the tree which terms are numbers (`Expr.integer?`) and names
(`Expr.name?`), and so which terms denote what they were written for.
-/

namespace Relational

open Sql

/-! ## Terms that are one number or one name -/

namespace Sql

/-- The integer that a term is. -/
def Term.integer? : Term → Option Int
  | .word s => (Word.digitsValue? s.toList).map Int.ofNat
  | .unary .negate t => t.integer?.map (- ·)
  | _ => none

end Sql

/-- The integer that is stored for a value. -/
def Value.integer? (v : Value) (t : Ty) : Option Int :=
  match v.toCell t with
  | .ok (.integer n) => some n.toInt
  | _ => none

/-- Whether a member is written as the value it belongs to: a duration is stored in ticks. -/
def Expr.isTicks (x : Expr) (member : String) : Bool := decide (x.ty.nonNull = .duration) && member == "Ticks"

/-- The integer that an expression is written as. -/
def Expr.integer? (collect : Bool) : Expr → Option Int
  | .constant v t | .variable _ v t => v.integer? t
  | .hostParameter v t => if collect then none else v.integer? t
  | .unary .negate x => (x.integer? collect).map (- ·)
  | .member x m => if x.isTicks m then x.integer? collect else none
  | _ => none

namespace Sql

end Sql

/-- Texts with a comma between any two. -/
def commas : List String → String
  | [] => ""
  | [t] => t
  | t :: u :: ts => t ++ ", " ++ commas (u :: ts)

/-- The text of a clause that lists terms, if there are any. -/
def listing (keyword : String) (terms : List String) : String :=
  if terms.isEmpty then "" else keyword ++ commas terms

namespace Sql

variable {collect : Bool} {ls rs : List Lexeme} {s : String}

end Sql

/-- The term of a key, and its direction. -/
def OrderKey.directed (k : OrderKey) (term : String) : String :=
  if k.descending then term ++ " DESC" else term

section

variable {collect qualify : Bool} {texts : List String}

end

/-- The expressions by which a select groups and orders. -/
def Select.keys (s : Select) : List Expr := s.groupBy ++ s.orderBy.map (·.expr)

section

variable {s : Select} {e : Expr} {collect qualify : Bool} {text : String}

end

/-- How a query is written: as a statement with placeholders, or as the body of a view. -/
inductive Query.WrittenAs (catalog : Catalog) (q : Query) : Select → Bool → String → Prop
  | statement {options : CompileOptions} {c : CompiledStatement}
    (translated : q.toStatement catalog options = .ok c) : WrittenAs catalog q c.projection.select true c.sql
  | view {p : Projection} {sql : String} (compiled : q.fold.bindAndShape catalog {} = .ok p)
    (translated : q.viewText catalog = .ok sql) : WrittenAs catalog q p.select false sql

theorem Query.WrittenAs.finish {catalog : Catalog} {q : Query} {s : Select} {collect : Bool} {sql : String}
    (written : q.WrittenAs catalog s collect sql) : s.statement.finish collect = .ok sql := by
  cases written with
  | statement translated =>
    obtain ⟨p, -, rest⟩ := Result.bind_eq_ok.1 translated
    obtain ⟨sql, text, ⟨⟩⟩ := Result.bind_eq_ok.1 rest
    exact text
  | @view p sql compiled translated =>
    rw [Query.viewText, compiled] at translated
    obtain ⟨p', ⟨⟩, rest⟩ := Result.bind_eq_ok.1 translated
    split at rest
    · cases rest
    · exact rest

end Relational

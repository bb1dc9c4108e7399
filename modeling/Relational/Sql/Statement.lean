import Relational.Sql.Tree
import Relational.Tree.Collect
import Relational.Tree.Typing

/-!
# Statements

The text of a select in the dialect of SQLite. Parentheses follow the binding strength of the
operators, and a binary operator that is written as a call needs none. Aliases are written only if a
statement reads more than one source. Limits are always literals.
-/

namespace Relational

namespace Sql

def ticksPerDay : String := toString Timestamp.ticksPerDay

/-- Whether an operator on operands of these types is written as a call. -/
def isCall (op : BinaryOp) (left right : Ty) : Bool :=
  op = .coalesce ||
    (left.isTimestamp && (right.isTimestamp || right.nonNull = .duration) && (op = .add || op = .sub))

/-- Adding a text concatenates. -/
def effectiveOp (op : BinaryOp) (left right : Ty) : BinaryOp :=
  if op = .add && (left.isText || right.isText) then .concat else op

/-- The operator of an expression that is written with an operator between its operands. -/
def infixOp? : Expr → Option (BinaryOp × Ty × Ty)
  | .binary op left right =>
    if isCall op left.ty right.ty then none else some (op, left.ty, right.ty)
  | _ => none

/-- An expression as an operand that binds tightest. -/
def grouped (e : Expr) (t : Tree) : Tree := t.enclosed (infixOp? e).isSome

/-- Whether an operand is written in parentheses. Concatenation binds tighter than all arithmetic,
so it is always set apart, except as the left side of another one. -/
def parenthesizes (parent : BinaryOp) (isRight : Bool) (e : Expr) : Bool :=
  match infixOp? e with
  | none => false
  | some (op, left, right) =>
    let concat := effectiveOp op left right = .concat || parent = .concat
    let tighter := parent.precedence < op.precedence && !concat
    let chains := op = parent && parent.isAssociative && !isRight
    !(tighter || chains)

/-- A timestamp to which something is added. -/
def shifted (t amount : Tree) : Tree := .call "STRFTIME" [.quoted "%Y-%m-%d %H:%M:%f", t, amount]

/-- A duration as a number of days to add. -/
def days (op : BinaryOp) (ticks : Tree) : Tree :=
  let days := .grouped (.binary .div (.cast ticks "REAL") (.word ticksPerDay))
  .binary .concat (if op = .sub then .unary .negate days else days) (.quoted " days")

/-- The time between two timestamps, in ticks. -/
def difference (l r : Tree) : Tree :=
  .cast (.binary .mul (.grouped (.binary .sub (.call "JULIANDAY" [l]) (.call "JULIANDAY" [r])))
    (.word ticksPerDay)) "INTEGER"

/-- A binary operator. -/
def binary (op : BinaryOp) (left right : Expr) (l r : Tree) : Tree :=
  let lt := left.ty
  let rt := right.ty
  if op = .coalesce then .call "COALESCE" [l, r]
  else if (op = .add || op = .sub) && lt.isTimestamp && rt.nonNull = .duration then
    shifted l (days op r)
  else if op = .sub && lt.isTimestamp && rt.isTimestamp then difference l r
  else
    let symbol := effectiveOp op lt rt
    .binary symbol (l.enclosed (parenthesizes symbol false left))
      (r.enclosed (parenthesizes symbol true right))

/-- The part of a timestamp that a format letter gives. -/
def timestampParts : List (String × String) :=
  [("Year", "%Y"), ("Month", "%m"), ("Day", "%d"), ("Hour", "%H"), ("Minute", "%M"),
    ("Second", "%S"), ("DayOfWeek", "%w"), ("DayOfYear", "%j")]

def timestampMember? (member : String) (t : Tree) : Option Tree :=
  match member with
  | "Millisecond" =>
    some (.grouped (.binary .rem (.cast (.binary .mul (.call "STRFTIME" [.quoted "%f", t])
      (.word "1000")) "INTEGER") (.word "1000")))
  | "Date" => some (.call "STRFTIME" [.quoted "%Y-%m-%d 00:00:00.000", t])
  | "TimeOfDay" => some (difference t (.call "DATE" [t]))
  | _ =>
    (timestampParts.lookup member).map fun part =>
      .cast (.call "STRFTIME" [.quoted part, t]) "INTEGER"

/-- Units of a duration that count within the next larger one: ticks of a unit, and units of the
next. -/
def durationParts : List (String × Int × Nat) :=
  [("Hours", Timestamp.ticksPerHour, 24), ("Minutes", Timestamp.ticksPerMinute, 60),
    ("Seconds", Timestamp.ticksPerSecond, 60), ("Milliseconds", Timestamp.ticksPerMillisecond, 1000)]

/-- Units in which a whole duration is given. -/
def durationTotals : List (String × Int) :=
  [("TotalDays", Timestamp.ticksPerDay), ("TotalHours", Timestamp.ticksPerHour),
    ("TotalMinutes", Timestamp.ticksPerMinute), ("TotalSeconds", Timestamp.ticksPerSecond),
    ("TotalMilliseconds", Timestamp.ticksPerMillisecond)]

def durationMember? (member : String) (e : Expr) (t : Tree) : Option Tree :=
  let whole (unit : String) : Tree := .grouped (.binary .div (grouped e t) (.word unit))
  if member == "Ticks" then some t
  else if member == "Days" then some (whole ticksPerDay)
  else
    match durationParts.lookup member, durationTotals.lookup member with
    | some (unit, next), _ =>
      some (.grouped (.binary .rem (whole (toString unit)) (.word (Nat.repr next))))
    | none, some unit => some (.grouped (.binary .div (.cast t "REAL") (.word (toString unit))))
    | none, none => none

def member (target : Expr) (member : String) (t : Tree) : Tree :=
  let found : Option Tree :=
    match target.ty.nonNull with
    | .text => if member == "Length" then some (.call "LENGTH" [t]) else none
    | .timestamp => timestampMember? member t
    | .duration => durationMember? member target t
    | _ => none
  found.getD (.failed (.unsupportedExpression (.member target.ty.name member)))

/-- A pattern that may have anything before it and behind it. -/
def glob (target pattern : Tree) (before behind : Bool) : Tree :=
  let pattern := if before then .binary .concat (.quoted "*") pattern else pattern
  .grouped (.matching target (if behind then .binary .concat pattern (.quoted "*") else pattern))

/-- A number of units added to a timestamp. -/
def dateAdd (target amount : Tree) (unit : String) : Tree :=
  shifted target (.binary .concat amount (.quoted (" " ++ unit)))

/-- A method of a target with its arguments. Where the first argument comes first, its absence is
noted before anything is written. -/
def invoke (m : Method) (target : Expr) (args : List Expr) (t : Tree) (ts : List Tree) : Tree :=
  let missing := .failed (.shape (.missingArgument m 0))
  let first := ts.head?.getD missing
  let firstGrouped := ((args.zip ts).head?.map fun (e, r) => grouped e r).getD missing
  let needed (x : Tree) : Tree := if ts.isEmpty then missing else x
  match m with
  | .contains => needed (glob (grouped target t) firstGrouped true true)
  | .startsWith => needed (glob (grouped target t) firstGrouped false true)
  | .endsWith => needed (glob (grouped target t) firstGrouped true false)
  | .equals => .grouped (.binary .eq t firstGrouped)
  | .toUpper => .call "UPPER" [t]
  | .toLower => .call "LOWER" [t]
  | .trim => .call "TRIM" [t]
  | .trimStart => .call "LTRIM" [t]
  | .trimEnd => .call "RTRIM" [t]
  | .substring => .call "SUBSTR" (t :: .binary .add firstGrouped (.word "1") :: ts[1]?.toList)
  | .replace => .call "REPLACE" (t :: ts)
  | .indexOf => .grouped (.binary .sub (.call "INSTR" [t, first]) (.word "1"))
  | .isNullOrEmpty =>
    .grouped (.binary .or (.binary .eq (grouped target t) (.word "NULL"))
      (.binary .eq (grouped target t) (.quoted "")))
  | .addYears => needed (dateAdd t firstGrouped "years")
  | .addMonths => needed (dateAdd t firstGrouped "months")
  | .addDays => needed (dateAdd t firstGrouped "days")
  | .addHours => needed (dateAdd t firstGrouped "hours")
  | .addMinutes => needed (dateAdd t firstGrouped "minutes")
  | .addSeconds => needed (dateAdd t firstGrouped "seconds")
  | .addMilliseconds =>
    needed (dateAdd t (.grouped (.binary .div (.cast first "REAL") (.word "1000"))) "seconds")
  | .abs => .call "ABS" [t]
  | .round => .call "ROUND" (t :: ts)
  | .toText => .cast t "TEXT"
  | .other name => .failed (.unsupportedExpression (.member target.ty.name name))

def suffix (name : String) : List Lexeme := spaced [.word "AS", .name name]

def joinTokens : JoinKind → List Token
  | .cross => [.word "CROSS", .word "JOIN"]
  | .inner => [.word "INNER", .word "JOIN"]
  | .outer => [.word "LEFT", .word "OUTER", .word "JOIN"]

def isJoin : Source → Bool
  | .join _ _ _ _ => true
  | _ => false

/-- Lexemes behind a keyword, if there are any. -/
def clause (keyword : List Token) : Option (List Lexeme) → List Lexeme
  | none => []
  | some ls => spaced keyword ++ .blank :: ls

/-- The condition of a join; an outer join always has one. -/
def condition (kind : JoinKind) : Option (List Lexeme) → List Lexeme
  | some ls => clause [.word "ON"] (some ls)
  | none => if kind = .outer then spaced [.word "ON", .word "1"] else []

/-- A list behind a keyword, if it is not empty. -/
def listClause (keyword : List Token) (parts : List (List Lexeme)) : List Lexeme :=
  clause keyword (if parts.isEmpty then none else some (separated parts))

/-- Limit and offset. An offset alone needs a limit that does not limit. -/
def window (limit offset : Option (List Lexeme)) : List Lexeme :=
  let skip := clause [.word "OFFSET"] (offset.map (List.map Lexeme.literally))
  match limit, offset with
  | some ls, _ => clause [.word "LIMIT"] (some (ls.map Lexeme.literally)) ++ skip
  | none, some _ => clause [.word "LIMIT"] (some [.token (.operator .sub), .token (.word "1")]) ++ skip
  | none, none => []

end Sql

/-- Whether a column of a select has to be named: it is no column of that name. -/
def Named.isRenamed (c : Named) : Bool :=
  match c.expr with
  | .column r => r.name != c.name
  | _ => true

open Sql

mutual

/-- An expression as it is written. -/
def Expr.tree (qualify : Bool) : Expr → Tree
  | .column c => .column (if qualify then some c.label.text else none) c.name
  | .constant v t | .variable _ v t => .literal v t
  | .hostParameter v t => .parameter v t
  | .binary op l r => Sql.binary op l r (l.tree qualify) (r.tree qualify)
  | .unary op x => .unary op (Sql.grouped x (x.tree qualify))
  | .member x m => Sql.member x m (x.tree qualify)
  | .call m x args => Sql.invoke m x args (x.tree qualify) (exprTrees qualify args)
  | .conditional test yes no => .cases (test.tree qualify) (yes.tree qualify) (no.tree qualify)
  | .convert x t => .cast (x.tree qualify) t.storageName
  | .aggregate kind x distinct _ => argumentTree qualify kind.sqlName distinct x
  | .subquery s => s.tree qualify
  | .function f args _ => .call f (exprTrees qualify args)
  | .param _ => .failed (.shape (.notSql .parameter))
  | .query _ => .failed (.shape (.notSql .query))
  | .record _ _ => .failed (.shape (.notSql .record))
  | .projection _ => .failed (.shape (.notSql .projection))
  | .group _ _ => .failed (.shape (.notSql .group))

def exprTrees (qualify : Bool) : List Expr → List Tree
  | [] => []
  | e :: es => e.tree qualify :: exprTrees qualify es

def optionLexemes (qualify : Bool) : Option Expr → Option (List Lexeme)
  | none => none
  | some e => some (e.tree qualify).lexemes

/-- An aggregate of its argument; without one all rows count. -/
def argumentTree (qualify : Bool) (f : String) (distinct : Bool) : Option Expr → Tree
  | none => .rows f
  | some e => if distinct then .distinct f (e.tree qualify) else .call f [e.tree qualify]

def columnLexemes (qualify : Bool) : List Named → List (List Lexeme)
  | [] => []
  | ⟨name, e⟩ :: cs =>
    ((e.tree qualify).lexemes ++ if (Named.mk name e).isRenamed then suffix name else []) ::
      columnLexemes qualify cs

def keyLexemes (qualify : Bool) : List OrderKey → List (List Lexeme)
  | [] => []
  | ⟨e, descending⟩ :: ks =>
    ((e.tree qualify).lexemes ++ if descending then spaced [.word "DESC"] else []) ::
      keyLexemes qualify ks

def Subquery.tree (qualify : Bool) : Subquery → Tree
  | .scalar s _ => .scalar (s.lexemes qualify)
  | .exists s => .exists (s.lexemes qualify)
  | .inSelect e s => .amid (Sql.grouped e (e.tree qualify)) (s.lexemes qualify)
  | .inValues e vs => .within (Sql.grouped e (e.tree qualify)) (exprTrees qualify vs)

def Source.lexemes (qualify : Bool) : Source → List Lexeme
  | .table _ a _ table => .token (.name table) :: if qualify then suffix a.text else []
  | .raw a sql => bracketed [.raw sql] ++ suffix a.text
  | .select s => bracketed (select (s.lexemes qualify)) ++ suffix s.label.text
  | .join kind l r on =>
    let right := r.lexemes qualify
    l.lexemes qualify ++ (spaced (joinTokens kind) ++ .blank ::
      ((if isJoin r then bracketed right else right) ++ condition kind (optionLexemes qualify on)))

def sourceLexemes (qualify : Bool) : Option Source → Option (List Lexeme)
  | none => none
  | some s => some (s.lexemes qualify)

/-- A select as it is written, behind its first word. -/
def Select.lexemes (qualify : Bool) : Select → List Lexeme
  | ⟨_, columns, source, filter, groupBy, having, orderBy, offset, limit, distinct⟩ =>
    (if distinct then [.token (.word "DISTINCT"), .blank] else []) ++
      ((if columns.isEmpty then [.token (.word "NULL")] else separated (columnLexemes qualify columns)) ++
      (clause [.word "FROM"] (sourceLexemes qualify source) ++
      (clause [.word "WHERE"] (optionLexemes qualify filter) ++
      (listClause [.word "GROUP", .word "BY"] (treeLexemes (exprTrees qualify groupBy)) ++
      (clause [.word "HAVING"] (optionLexemes qualify having) ++
      (listClause [.word "ORDER", .word "BY"] (keyLexemes qualify orderBy) ++
      window (optionLexemes qualify limit) (optionLexemes qualify offset)))))))

end

def Expr.render (qualify : Bool) (e : Expr) : Rendering := ⟨(e.tree qualify).lexemes⟩

def Select.render (qualify : Bool) (s : Select) : Rendering := ⟨select (s.lexemes qualify)⟩

/-- Whether a statement reads more than one source, so that aliases have to be written. -/
def Select.needsAliases (s : Select) : Bool := 1 < (s.collect aliasedSources).length

/-- The statement of a select. -/
def Select.statement (s : Select) : Rendering := s.render s.needsAliases

end Relational

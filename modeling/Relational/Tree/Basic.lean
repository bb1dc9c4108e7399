import Relational.Alias
import Relational.Operator
import Relational.Value.Basic

/-!
# Expressions, selects and queries

One family of trees covers what is asked and what it is compiled to. A query is a source under
combinators, whose arguments are lambdas over expressions. A select is a statement over sources. A
projection is a select together with the expression that makes one value of one row, and so the
bound form of a query. Expressions hold all of the others: a query before binding, and columns,
aggregates, subqueries and projections after it.
-/

namespace Relational

/-- Whether an entity is stored as a table or defined as a view. -/
inductive SourceKind where
  | table
  | view
deriving DecidableEq

/-- `outer` keeps the rows of the left side that have no partner. -/
inductive JoinKind where
  | cross
  | inner
  | outer
deriving DecidableEq

/-- How the rows of a projection become one value. -/
inductive Aggregator where
  /-- There is exactly one row. -/
  | scalar
  | first (orDefault : Bool)
  /-- There may not be a second row. -/
  | single (orDefault : Bool)
deriving DecidableEq

/-- A column of the source or the select with this alias. -/
structure ColumnRef where
  label : Alias
  name : String
  ty : Ty
deriving DecidableEq

mutual

inductive Expr where
  /-- A parameter of an enclosing lambda. -/
  | param (name : String)
  /-- A captured variable. -/
  | variable (name : String) (value : Value) (ty : Ty)
  | constant (value : Value) (ty : Ty)
  | binary (op : BinaryOp) (left right : Expr)
  | unary (op : UnaryOp) (operand : Expr)
  | member (target : Expr) (name : String)
  | call (method : Method) (target : Expr) (args : List Expr)
  | conditional (test yes no : Expr)
  | record (ty : RecordTy) (members : List Named)
  | convert (operand : Expr) (ty : Ty)
  /-- A nested query that is not bound yet. -/
  | query (q : Query)
  | column (c : ColumnRef)
  /-- A value that a statement takes as a parameter. -/
  | hostParameter (value : Value) (ty : Ty)
  | aggregate (kind : AggregateKind) (argument : Option Expr) (distinct : Bool) (ty : Ty)
  | subquery (s : Subquery)
  /-- A function of the database, by name. -/
  | function (name : String) (args : List Expr) (ty : Ty)
  /-- A sequence that is fetched for each row by a statement of its own. -/
  | projection (p : Projection)
  /-- A key with the sequence of its elements. -/
  | group (key elements : Expr)

/-- A member of a record or a column of a select. -/
structure Named where
  name : String
  expr : Expr

structure OrderKey where
  expr : Expr
  descending : Bool

inductive Subquery where
  /-- The one column of the one row. -/
  | scalar (select : Select) (ty : Ty)
  | exists (select : Select)
  | inSelect (expr : Expr) (select : Select)
  | inValues (expr : Expr) (values : List Expr)

inductive Source where
  | table (kind : SourceKind) (label : Alias) (entity name : String)
  /-- A statement as text. -/
  | raw (label : Alias) (sql : String)
  | select (s : Select)
  | join (kind : JoinKind) (left right : Source) (condition : Option Expr)

structure Select where
  label : Alias
  columns : List Named
  source : Option Source
  filter : Option Expr
  groupBy : List Expr
  having : Option Expr
  orderBy : List OrderKey
  offset : Option Expr
  limit : Option Expr
  distinct : Bool

structure Projection where
  select : Select
  projector : Expr
  aggregator : Option Aggregator

structure Lambda where
  params : List String
  body : Expr

inductive Query where
  | table (entity : String)
  | view (entity : String)
  /-- A statement as text whose rows are those of an entity. -/
  | raw (entity sql : String)
  /-- A sequence in memory. -/
  | memory (values : List Value) (element : Ty)
  /-- An expression that is a sequence. -/
  | of (expr : Expr)
  | filter (source : Query) (predicate : Lambda)
  | project (source : Query) (selector : Lambda)
  | selectMany (source : Query) (collection : Lambda) (result : Option Lambda)
  | join (outer inner : Query) (outerKey innerKey result : Lambda)
  | groupJoin (outer inner : Query) (outerKey innerKey result : Lambda)
  | orderBy (source : Query) (key : Lambda) (descending : Bool)
  | thenBy (source : Query) (key : Lambda) (descending : Bool)
  | groupBy (source : Query) (key : Lambda) (element result : Option Lambda)
  | distinct (source : Query)
  | skip (source : Query) (count : Expr)
  | take (source : Query) (count : Expr)
  | cast (source : Query) (ty : Ty)
  | defaultIfEmpty (source : Query)
  /-- The selector of a count is a predicate, that of the others their argument. -/
  | aggregate (source : Query) (kind : AggregateKind) (selector : Option Lambda)
  | elementAt (source : Query) (index : Expr) (orDefault : Bool)
  | first (source : Query) (predicate : Option Lambda) (orDefault : Bool)
  | single (source : Query) (predicate : Option Lambda) (orDefault : Bool)
  | any (source : Query) (predicate : Option Lambda)
  | all (source : Query) (predicate : Lambda)
  | contains (source : Query) (value : Expr)
  | reverse (source : Query)
  | last (source : Query) (predicate : Option Lambda) (orDefault : Bool)
  | union (left right : Query)
  | concat (left right : Query)
  | window (source : Query) (function : String)

end

instance : Inhabited Expr := ⟨.param ""⟩

namespace Expr

/-- A constant of the natural type of its value. -/
def ofValue (v : Value) : Expr := constant v v.naturalTy

def ofBool (b : Bool) : Expr := constant (.bool b) .bool

def not (operand : Expr) : Expr := unary .not operand

/-- The expressions joined by an operator from the left; none if there are none. -/
def joined (op : BinaryOp) : List Expr → Option Expr
  | [] => none
  | e :: es => some (es.foldl (binary op) e)

def conjunction (parts : List Expr) : Option Expr := joined .and parts

def disjunction (parts : List Expr) : Option Expr := joined .or parts

/-- The parts of a conjunction. -/
def conjuncts : Expr → List Expr
  | binary .and left right => left.conjuncts ++ right.conjuncts
  | e => [e]

def column? : Expr → Option ColumnRef
  | column c => some c
  | _ => none

def isColumn : Expr → Bool
  | column _ => true
  | _ => false

def isLiteral : Expr → Bool
  | constant _ _ | hostParameter _ _ => true
  | _ => false

end Expr

/-- The same column of the same source, whatever the types say. -/
def ColumnRef.isSame (a b : ColumnRef) : Bool := a.label == b.label && a.name == b.name

namespace Subquery

def ty : Subquery → Ty
  | scalar _ t => t
  | _ => .bool

def select? : Subquery → Option Select
  | scalar s _ | «exists» s | inSelect _ s => some s
  | inValues _ _ => none

end Subquery

namespace Source

/-- The alias that a source declares; a join declares none of its own. -/
def label? : Source → Option Alias
  | table _ a _ _ => some a
  | raw a _ => some a
  | select s => some s.label
  | join _ _ _ _ => none

/-- The aliases that are visible beside a source: those of both sides of a join, and none from inside a
select. -/
def visible : Source → List Alias
  | table _ a _ _ => [a]
  | raw a _ => [a]
  | select s => [s.label]
  | join _ left right _ => left.visible ++ right.visible

def select? : Source → Option Select
  | select s => some s
  | _ => none

end Source

/-- `base`, or else the first of `base1`, `base2`, … that is not among the names. One more try than there are
names finds one. -/
def freshName (taken : List String) (base : String) : String :=
  let candidates := base :: (List.range (taken.length + 1)).map fun n => base ++ Nat.repr (n + 1)
  (candidates.find? (!taken.contains ·)).getD base

namespace Select

/-- A select of columns from a source, with no other clause. -/
def plain (label : Alias) (columns : List Named) (source : Source) : Select where
  label := label
  columns := columns
  source := some source
  filter := none
  groupBy := []
  having := none
  orderBy := []
  offset := none
  limit := none
  distinct := false

/-- A select of expressions that need no source. -/
def bare (label : Alias) (columns : List Named) : Select :=
  { plain label columns (.raw label "") with source := none }

def columnNames (s : Select) : List String := s.columns.map (·.name)

/-- The first column of this name. -/
def column? (s : Select) (name : String) : Option Named := s.columns.find? (·.name == name)

/-- A column name that the select does not use. -/
def freshName (s : Select) (base : String) : String := Relational.freshName s.columnNames base

end Select

namespace Query

/-- The name of a combinator in messages. -/
def name : Query → String
  | table _ => "Table"
  | view _ => "View"
  | raw _ _ => "Raw"
  | memory _ _ => "Local"
  | of _ => "Of"
  | filter _ _ => "Where"
  | project _ _ => "Select"
  | selectMany _ _ _ => "SelectMany"
  | join _ _ _ _ _ => "Join"
  | groupJoin _ _ _ _ _ => "GroupJoin"
  | orderBy _ _ descending => if descending then "OrderByDescending" else "OrderBy"
  | thenBy _ _ descending => if descending then "ThenByDescending" else "ThenBy"
  | groupBy _ _ _ _ => "GroupBy"
  | distinct _ => "Distinct"
  | skip _ _ => "Skip"
  | take _ _ => "Take"
  | cast _ _ => "Cast"
  | defaultIfEmpty _ => "DefaultIfEmpty"
  | aggregate _ kind _ => kind.name
  | elementAt _ _ orDefault => if orDefault then "ElementAtOrDefault" else "ElementAt"
  | first _ _ orDefault => if orDefault then "FirstOrDefault" else "First"
  | single _ _ orDefault => if orDefault then "SingleOrDefault" else "Single"
  | any _ _ => "Any"
  | all _ _ => "All"
  | contains _ _ => "Contains"
  | reverse _ => "Reverse"
  | last _ _ _ => "Last"
  | union _ _ => "Union"
  | concat _ _ => "Concat"
  | window _ _ => "Window"

/-- Whether a query gives one value instead of a sequence. -/
def isTerminal : Query → Bool
  | aggregate _ _ _ | elementAt _ _ _ | first _ _ _ | single _ _ _ | any _ _ | all _ _
  | contains _ _ | last _ _ _ => true
  | _ => false

end Query

end Relational

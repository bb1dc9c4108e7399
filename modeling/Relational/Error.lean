import Relational.Alias
import Relational.Operator
import Relational.Value.Text

/-!
# Errors

An error is its cause: what was asked for, with the values, types and names that show it. The wording is in
`Error.message` and the functions it calls, and nowhere else.
-/

namespace Relational

/-- The nodes that only a database or a binding can give a meaning to. -/
inductive NodeKind where
  | parameter
  | query
  | column
  | aggregate
  | subquery
  | function
  | projection
  | group
  | record
deriving DecidableEq

/-- Why an expression has no value outside the database. -/
inductive EvaluationFault where
  | needsDatabase (node : NodeKind)
  | undefinedOperator (op : BinaryOp) (left right : Value)
  | overflow (op : BinaryOp)
  | divisionByZero
  | incomparable (left right : Value)
  | timestampRange
  | durationRange
  | negationOverflow
  | cannotNegate (v : Value)
  | absent
  | integerArgument (m : Method)
  | textArgument (m : Method)
  | numberArgument (m : Method)
  | timestampTarget (m : Method)
  | absOverflow
  | undefinedMethod (m : Method) (target : Value)

/-- Why a value or a cell does not become a value of another type. -/
inductive ConversionFault where
  | notVariant (variant : String) (e : EnumTy)
  | notColumn (t : Ty)
  | notTimestamp (text : String)
  | notDecimalText (text : String)
  | notUuid (text : String)
  | doesNotFit (d : Decimal) (t : Ty)
  | notDecimal (v : Value)
  | notOrdinal (n : Int64) (e : EnumTy)
  | cellKind (index : Nat) (column wanted : String)

/-- Why a query, a projection or an expression is not of the form that is needed. -/
inductive ShapeFault where
  | terminalRows
  | computedProjector
  | notOneCell (t : Ty)
  | notSql (node : NodeKind)
  | missingArgument (m : Method) (index : Nat)
  | memorySequence
  | singleValue (combinator : String)
  | sequenceValue (combinator : String)
  | thenByAlone (found : String)
  | collectionForm
  | collectionTy (t : Ty)
  | containsColumns
  | aggregateArgument (kind : AggregateKind) (t : Ty)
  | parameterCount (takes supplied : Nat)
  | unboundParameter (name : String)
  | notSequence (t : Ty)
  | differentMembers
  | viewColumns

/-- Why a column does not refer to anything. -/
inductive AliasFault where
  | declaredTwice (a : Alias)
  | notInScope (a : Alias) (column : String)
  | outsideSelect (a : Alias) (column : String) (row : Alias)
  | noColumn (row : Alias) (column : String)

/-- What goes wrong between a statement and its rows. -/
inductive DatabaseFault where
  | notOnRow
  | columnRange (index : Nat)
  | reported (text : String)

inductive ConfigFault where
  | declaredTwice (entity : String)
  | malformed (text : String)

/-- A member or a method that has no meaning for its target. -/
inductive UnsupportedMember where
  | method (name : String)
  | member (target name : String)
  | arguments (target name : String) (count : Nat)

inductive Error where
  | unsupportedOperation (combinator : String)
  | unsupportedExpression (m : UnsupportedMember)
  | shape (fault : ShapeFault)
  | aliasResolution (fault : AliasFault)
  | noElement
  | multipleElements
  | unknownEntity (entity : String)
  | evaluation (fault : EvaluationFault)
  | conversion (fault : ConversionFault)
  | database (fault : DatabaseFault)
  | config (fault : ConfigFault)
  | io (text : String)
  | json (text : String)

abbrev Result := Except Error

/-- The node as the subject of a sentence about evaluation. -/
def NodeKind.evaluated : NodeKind → String
  | parameter => "a lambda parameter"
  | query => "a nested query"
  | column => "a column reference"
  | aggregate => "an aggregate"
  | subquery => "a subquery"
  | function => "a dialect function"
  | projection => "a projection"
  | group => "a group"
  | record => "the expression"

/-- The node as the subject of a sentence about SQL. -/
def NodeKind.rendered : NodeKind → String
  | parameter => "an unbound parameter"
  | query => "an unbound query"
  | record => "a record construction"
  | projection => "a nested projection"
  | group => "a group"
  | _ => "an expression"

def EvaluationFault.message : EvaluationFault → String
  | needsDatabase node => node.evaluated ++ " cannot be evaluated outside the database"
  | undefinedOperator op left right =>
    "'" ++ op.symbol ++ "' is not defined for " ++ left.describe ++ " and " ++ right.describe
  | overflow op => "arithmetic overflow in '" ++ op.symbol ++ "'"
  | divisionByZero => "division by zero"
  | incomparable left right => left.describe ++ " and " ++ right.describe ++ " are not comparable"
  | timestampRange => "timestamp out of range"
  | durationRange => "duration out of range"
  | negationOverflow => "arithmetic overflow in negation"
  | cannotNegate v => "cannot negate " ++ v.describe
  | absent => "nullable object must have a value"
  | integerArgument m => m.name ++ " expects an integer argument"
  | textArgument m => m.name ++ " expects a text argument"
  | numberArgument m => m.name ++ " expects a number"
  | timestampTarget m => m.name ++ " expects a timestamp"
  | absOverflow => "arithmetic overflow in Abs"
  | undefinedMethod m target => m.name ++ " of " ++ target.describe

def ConversionFault.message : ConversionFault → String
  | notVariant variant e => "'" ++ variant ++ "' is not a variant of " ++ e.name
  | notColumn t => t.name ++ " is not representable as a column"
  | notTimestamp text => "'" ++ text ++ "' is not a timestamp"
  | notDecimalText text => "'" ++ text ++ "' is not a decimal"
  | notUuid text => "'" ++ text ++ "': not a uuid"
  | doesNotFit d t => d.text ++ " does not fit " ++ t.name
  | notDecimal v => v.describe ++ " is not a decimal"
  | notOrdinal n e => toString n.toInt ++ " is not an ordinal of " ++ e.name
  | cellKind index column wanted =>
    "column " ++ Nat.repr index ++ " (" ++ column ++ ") is not " ++ wanted

def ShapeFault.message : ShapeFault → String
  | terminalRows => "a terminal query yields one value; use fetch"
  | computedProjector => "projector computes in SQL what must be a column of its select"
  | notOneCell t => t.name ++ " cannot be read from a single column"
  | notSql node => node.rendered ++ " cannot be rendered as SQL"
  | missingArgument m index => m.name ++ " is missing argument " ++ Nat.repr index
  | memorySequence => "an in-memory sequence can only be consumed by Any, All or Contains"
  | singleValue combinator => "'" ++ combinator ++ "' produces a single value where a sequence is required"
  | sequenceValue combinator => "'" ++ combinator ++ "' is a sequence where a single value is required"
  | thenByAlone found => "ThenBy must follow OrderBy, found '" ++ found ++ "'"
  | collectionForm => "SelectMany collection is not a sequence"
  | collectionTy t => "SelectMany collection of type " ++ t.name ++ " is not a sequence"
  | containsColumns => "Contains requires a sequence of single column values"
  | aggregateArgument kind t => kind.name ++ " needs a single column argument, found " ++ t.name
  | parameterCount takes supplied =>
    "lambda takes " ++ Nat.repr takes ++ " parameters, " ++ Nat.repr supplied ++ " supplied"
  | unboundParameter name => "parameter '" ++ name ++ "' is not in scope"
  | notSequence t => "expression of type " ++ t.name ++ " is not a sequence"
  | differentMembers => "compared records have different members"
  | viewColumns => "a view must project plain columns of its query"

def AliasFault.message : AliasFault → String
  | declaredTwice a => "alias " ++ a.text ++ " is declared more than once"
  | notInScope a column => "column " ++ a.text ++ "." ++ column ++ " refers to an alias not in scope"
  | outsideSelect a column row =>
    "projector reads " ++ a.text ++ "." ++ column ++ " outside its select " ++ row.text
  | noColumn row column => "select " ++ row.text ++ " has no column " ++ column

def DatabaseFault.message : DatabaseFault → String
  | notOnRow => "cursor is not positioned on a row"
  | columnRange index => "column index " ++ Nat.repr index ++ " out of range"
  | reported text => text

def ConfigFault.message : ConfigFault → String
  | declaredTwice entity => "entity '" ++ entity ++ "' is declared twice"
  | malformed text => text

def UnsupportedMember.message : UnsupportedMember → String
  | method name => name
  | member target name => target ++ "." ++ name
  | arguments target name count => target ++ "." ++ name ++ " with " ++ Nat.repr count ++ " arguments"

def Error.message : Error → String
  | unsupportedOperation combinator => "Unsupported operation: '" ++ combinator ++ "'"
  | unsupportedExpression m => "Unsupported expression: '" ++ m.message ++ "'"
  | shape fault => "Shape error: " ++ fault.message
  | aliasResolution fault => "Alias resolution error: " ++ fault.message
  | noElement => "Sequence contains no elements"
  | multipleElements => "Sequence contains more than one element"
  | unknownEntity entity => "Unknown entity: '" ++ entity ++ "'"
  | evaluation fault => "Evaluation error: " ++ fault.message
  | conversion fault => "Conversion error: " ++ fault.message
  | database fault => "Database error: " ++ fault.message
  | config fault => "Configuration error: " ++ fault.message
  | io text => "IO error: " ++ text
  | json text => "JSON error: " ++ text

end Relational

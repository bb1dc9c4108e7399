import Relational.Query.Parameters
import Relational.Result.Row
import Relational.Sql.Statement
import Relational.Tree.Collect
import Relational.Value.Invoke
import Relational.Value.Member

/-!
# Reading values out of rows

A projector becomes a reader: columns of its select are read from the row, and what stands above them is computed from
there. A nested projection takes the columns of the row that it depends on as constants, and is executed
for every row. Readers are made before the first row is read, so a projector that cannot be
read is refused whether there are rows or not.
-/

namespace Relational

inductive Reader where
  | column (index : Nat) (ty : Ty)
  | value (v : Value)
  | record (name : String) (fields : List (String × Reader))
  | group (key elements : Reader)
  /-- A nested projection, with the columns of the row that it depends on and their places. -/
  | nested (outer : List (ColumnRef × Nat)) (p : Projection)
  | binary (op : BinaryOp) (left right : Reader)
  | unary (op : UnaryOp) (operand : Reader)
  | member (target : Reader) (name : String)
  | call (m : Method) (target : Reader) (args : List Reader)
  | conditional (test yes no : Reader)
  | convert (operand : Reader) (ty : Ty)

/-- The place of the last column of a name. -/
def columnIndex? (columns : List Named) (name : String) : Option Nat :=
  (columns.reverse.findIdx? (·.name == name)).map (columns.length - 1 - ·)

/-- The place of a column in the rows of a select. -/
def ColumnRef.index (row : Alias) (columns : List Named) (c : ColumnRef) : Result Nat :=
  if c.label ≠ row then .error (.aliasResolution (.outsideSelect c.label c.name row))
  else
    match columnIndex? columns c.name with
    | some index => .ok index
    | none => .error (.aliasResolution (.noColumn row c.name))

/-- References without those that repeat an earlier one. -/
def distinctRefs (refs : List ColumnRef) : List ColumnRef :=
  refs.foldl (fun found c => if found.any (·.isSame c) then found else found ++ [c]) []

/-- The columns of a row that a projection refers to. -/
def Projection.outerColumns (row : Alias) (p : Projection) : List ColumnRef :=
  distinctRefs ((p.collect columnRefs).filter (·.label = row))

mutual

/-- The reader of an expression over the rows of a select with this alias and these columns. -/
def Expr.reader (row : Alias) (columns : List Named) : Expr → Result Reader
  | .column c => do return .column (← c.index row columns) c.ty
  | .constant v _ | .variable _ v _ | .hostParameter v _ => .ok (.value v)
  | .record r ms => do return .record r.name (← readerNamed row columns ms)
  | .group key elements => do return .group (← key.reader row columns) (← elements.reader row columns)
  | .projection p => do
    return .nested (← (p.outerColumns row).mapM fun c => do return (c, ← c.index row columns)) p
  | .binary op l r => do return .binary op (← l.reader row columns) (← r.reader row columns)
  | .unary op x => do return .unary op (← x.reader row columns)
  | .member x name => do return .member (← x.reader row columns) name
  | .call m x args => do return .call m (← x.reader row columns) (← readerAll row columns args)
  | .conditional a b c => do
    return .conditional (← a.reader row columns) (← b.reader row columns) (← c.reader row columns)
  | .convert x t => do return .convert (← x.reader row columns) t
  | .param _ | .query _ | .aggregate _ _ _ _ | .subquery _ | .function _ _ _ =>
    .error (.shape .computedProjector)

def readerAll (row : Alias) (columns : List Named) : List Expr → Result (List Reader)
  | [] => .ok []
  | e :: es => do return (← e.reader row columns) :: (← readerAll row columns es)

def readerNamed (row : Alias) (columns : List Named) : List Named → Result (List (String × Reader))
  | [] => .ok []
  | ⟨name, e⟩ :: ms => do return (name, ← e.reader row columns) :: (← readerNamed row columns ms)

end

/-- Computations that run statements. The state is that of the database. -/
abbrev Execution (σ : Type) := ExceptT Error (StateM σ)

/-- The nested projection with the values of a row in the place of its columns. -/
def Projection.withRow (p : Projection) (values : List (ColumnRef × Value)) : Projection :=
  let constants : ColumnMap := (values.map fun (c, v) => ((c.label, c.name), .constant v c.ty)).reverse
  (p.replaceColumns constants).parameterize

/-- The elements of a group: those of a list, or the one value. -/
def elementsOf : Value → List Value
  | .list items => items
  | v => [v]

variable {σ : Type}

mutual

/-- The value that a reader finds in a row; `run` executes nested projections. The arguments of a call come
before its target. -/
def Reader.read (run : Projection → Execution σ Value) (row : Row) : Reader → Execution σ Value
  | .column index t => row.read index t
  | .value v => pure v
  | .record name fields => do return .record name (← readFields run row fields)
  | .group key elements => do
    let key ← key.read run row
    return .group key (elementsOf (← elements.read run row))
  | .nested outer p => do
    let values ← outer.mapM fun (c, index) => do return (c, ← row.read index c.ty)
    run (p.withRow values)
  | .binary op l r => do
    let l ← l.read run row
    let r ← r.read run row
    Value.binary op l r
  | .unary op x => do Value.unary op (← x.read run row)
  | .member x name => do (← x.read run row).member name
  | .call m x args => do
    let args ← readArguments run row args
    Value.invoke m (← x.read run row) args
  | .conditional a b c => do
    if (← a.read run row).isTrue then b.read run row else c.read run row
  | .convert x t => do Value.convert t (← x.read run row)

def readArguments (run : Projection → Execution σ Value) (row : Row) : List Reader → Execution σ (List Value)
  | [] => pure []
  | r :: rs => do
    let v ← r.read run row
    return v :: (← readArguments run row rs)

def readFields (run : Projection → Execution σ Value) (row : Row) :
    List (String × Reader) → Execution σ (List (String × Value))
  | [] => pure []
  | (name, r) :: rs => do
    let v ← r.read run row
    return (name, v) :: (← readFields run row rs)

end

end Relational

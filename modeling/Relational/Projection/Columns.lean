import Relational.Tree.Same
import Relational.Tree.Traverse
import Relational.Tree.Typing

/-!
# Splitting an expression into columns

The expression that makes a value of a row is split in two: what a select can compute becomes its columns, and what
is left is computed from those columns when the rows are read. The largest parts that fit a column are
taken. Of the parts of one node, those that have to be split give their columns first; the parts that
become columns as a whole follow, in their order.
-/

namespace Relational

/-- Whether an expression has to be computed by the database. -/
def Expr.mustBeColumn : Expr → Bool
  | .column _ | .aggregate _ _ _ _ | .subquery _ => true
  | _ => false

/-- Whether an expression can be a column as far as it decides itself. -/
def Expr.mayBeColumn (e : Expr) : Bool :=
  match e with
  | .param _ | .query _ | .record _ _ | .projection _ | .group _ _ => false
  | .call m _ _ => m.hasSqlForm && e.isColumnTy
  | e => e.mustBeColumn || e.isColumnTy

mutual

/-- Whether an expression becomes one column as a whole: all its parts do. -/
def Expr.isWhole (e : Expr) : Bool :=
  e.mustBeColumn || (e.mayBeColumn &&
    match e with
    | .binary _ l r => l.isWhole && r.isWhole
    | .unary _ x | .member x _ | .convert x _ => x.isWhole
    | .call _ x args => x.isWhole && allWhole args
    | .conditional a b c => a.isWhole && b.isWhole && c.isWhole
    | .function _ args _ => allWhole args
    | _ => true)

def allWhole : List Expr → Bool
  | [] => true
  | e :: es => e.isWhole && allWhole es

end

/-- The columns made so far, and the number of the next one without a name of its own. -/
structure ColumnList where
  columns : List Named
  next : Nat

/-- The select that gets the columns, and the sources that it reads. -/
structure ColumnTarget where
  label : Alias
  sources : List Alias

/-- Whether two expressions can share a column. -/
def Expr.sharesColumn (a b : Expr) : Bool :=
  match a, b with
  | .column x, .column y => x.isSame y
  | a, b => a.same b

/-- The first number from `n` on whose name is not taken. -/
def freshNumber (taken : List String) : (tries n : Nat) → Nat
  | 0, n => n
  | tries + 1, n => if taken.contains ("c" ++ Nat.repr n) then freshNumber taken tries (n + 1) else n

/-- A name for a column: that of the column it refers to, or a number. -/
def ColumnList.name (l : ColumnList) (e : Expr) : String × Nat :=
  let taken := l.columns.map (·.name)
  match e with
  | .column c => (freshName taken c.name, l.next)
  | _ =>
    let n := freshNumber taken (taken.length + 1) l.next
    ("c" ++ Nat.repr n, n + 1)

/-- A column for an expression: one that there is already, or a new one. A reference to a source of an
enclosing select stays as it is. -/
def makeColumn (target : ColumnTarget) (e : Expr) : StateM ColumnList Expr := fun l =>
  let outer :=
    match e with
    | .column c => !target.sources.contains c.label
    | _ => false
  if outer then (e, l)
  else
    match l.columns.find? (·.expr.sharesColumn e) with
    | some c => (.column ⟨target.label, c.name, e.ty⟩, l)
    | none =>
      let (name, next) := l.name e
      (.column ⟨target.label, name, e.ty⟩, ⟨l.columns ++ [⟨name, e⟩], next⟩)

/-- A whole part becomes a column; a part that was split stays as it has become. -/
def settle (target : ColumnTarget) (e split : Expr) : StateM ColumnList Expr :=
  if e.isWhole then makeColumn target e else pure split

def settleAll (target : ColumnTarget) : List Expr → List Expr → StateM ColumnList (List Expr)
  | e :: es, s :: ss => do return (← settle target e s) :: (← settleAll target es ss)
  | _, _ => pure []

def settleNamed (target : ColumnTarget) : List Named → List Named → StateM ColumnList (List Named)
  | ⟨name, e⟩ :: ms, ⟨_, s⟩ :: ss => do return ⟨name, ← settle target e s⟩ :: (← settleNamed target ms ss)
  | _, _ => pure []

/-- Inside a nested projection, references to the sources of the select become columns of it. -/
def liftOuter (target : ColumnTarget) : Expr → Option (StateM ColumnList Expr)
  | .column c => some (makeColumn target (.column c))
  | _ => none

mutual

/-- The parts of an expression that is not whole, split; its whole parts are left for `settle`. -/
def Expr.split (target : ColumnTarget) (e : Expr) : StateM ColumnList Expr :=
  if e.isWhole then pure e
  else
    match e with
    | .binary op l r => do
      let l' ← l.split target
      let r' ← r.split target
      return .binary op (← settle target l l') (← settle target r r')
    | .unary op x => do return .unary op (← settle target x (← x.split target))
    | .member x name => do return .member (← settle target x (← x.split target)) name
    | .call m x args => do
      let x' ← x.split target
      let args' ← splitAll target args
      return .call m (← settle target x x') (← settleAll target args args')
    | .conditional a b c => do
      let a' ← a.split target
      let b' ← b.split target
      let c' ← c.split target
      return .conditional (← settle target a a') (← settle target b b') (← settle target c c')
    | .record r ms => do
      let ms' ← splitNamed target ms
      return .record r (← settleNamed target ms ms')
    | .convert x t => do return .convert (← settle target x (← x.split target)) t
    | .function name args t => do
      let args' ← splitAll target args
      return .function name (← settleAll target args args') t
    | .projection p => do return .projection (← p.traverse (liftOuter target))
    | .group key elements => do
      let key' ← key.split target
      let elements' ← elements.split target
      return .group (← settle target key key') (← settle target elements elements')
    | e => pure e

def splitAll (target : ColumnTarget) : List Expr → StateM ColumnList (List Expr)
  | [] => pure []
  | e :: es => do return (← e.split target) :: (← splitAll target es)

def splitNamed (target : ColumnTarget) : List Named → StateM ColumnList (List Named)
  | [] => pure []
  | ⟨name, e⟩ :: ms => do return ⟨name, ← e.split target⟩ :: (← splitNamed target ms)

end

/-- What is left of an expression, and the columns taken from it. -/
structure ProjectedColumns where
  projector : Expr
  columns : List Named

/-- The columns of an expression for a select of this alias over these sources. -/
def Expr.projectColumns (e : Expr) (label : Alias) (sources : List Alias) : ProjectedColumns :=
  let target : ColumnTarget := ⟨label, sources⟩
  let run : StateM ColumnList Expr := do settle target e (← e.split target)
  let (projector, l) := run ⟨[], 0⟩
  ⟨projector, l.columns⟩

end Relational

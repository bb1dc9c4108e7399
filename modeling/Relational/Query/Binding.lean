import Relational.Projection.Columns
import Relational.Query.Parameters
import Relational.Schema
import Relational.Tree.Collect

/-!
# Binding

A query becomes a projection. Every combinator binds its source first, puts the source's projector in the place of the
parameters of its lambdas, and wraps the source's select in a new one, whose columns are split off
the new projector. Aliases are given out in order, so that a query always gives the same tree.
-/

namespace Relational

/-- Binding gives out aliases and may fail. -/
abbrev Binding := StateT Alias Result

/-- What the parameters in scope stand for, the innermost first. -/
abbrev Scope := List (String × Expr)

/-- A bound sequence: rows of a select, or values that are known already. -/
inductive Sequence where
  | memory (values : List Value) (element : Ty)
  | rows (p : Projection)

namespace Binding

def fail {α : Type} (e : Error) : Binding α := fun _ => .error e

def ofResult {α : Type} (r : Result α) : Binding α := fun a => r.map fun x => (x, a)

def freshAlias : Binding Alias := fun a => .ok (a, a.next)

/-- The name of the only column of a select that computes one value. -/
def valueColumn : String := "c0"

def unsupported {α : Type} (combinator : String) : Binding α := fail (.unsupportedOperation combinator)

/-- The rows of a sequence. -/
def asRows : Sequence → Binding Projection
  | .rows p => pure p
  | .memory _ _ => fail (.shape .memorySequence)

/-- The stored columns of an entity as a record. -/
def entity (catalog : Catalog) (entity : String) (source : TableSchema → Alias → Source) :
    Binding Projection := do
  let schema ← ofResult (catalog.get entity)
  let table ← freshAlias
  let label ← freshAlias
  let columns := schema.stored.map fun c => ⟨c.name, .column ⟨table, c.name, c.columnTy⟩⟩
  let members := schema.stored.map fun c => ⟨c.name, .column ⟨label, c.name, c.columnTy⟩⟩
  return ⟨.plain label columns (source schema table), .record ⟨entity, schema.recordTy.fields⟩ members, none⟩

/-- A select over another one, with the columns of a projector. -/
def wrap (inner : Select) (projector : Expr) (finish : Select → Select) : Binding Projection := do
  let label ← freshAlias
  let split := projector.projectColumns label [inner.label]
  return ⟨finish (.plain label split.columns (.select inner)), split.projector, none⟩

/-- The rows of a projection that satisfy a condition. -/
def filtered (p : Projection) (condition : Expr) : Binding Projection :=
  wrap p.select p.projector fun s => { s with filter := some condition }

/-- The rows of a projection that satisfy a condition, if there is one. -/
def filteredBy (p : Projection) : Option Expr → Binding Projection
  | none => pure p
  | some condition => filtered p condition

/-- A projection over the rows of a join. -/
def joined (p : Projection) (kind : JoinKind) (right : Source) (condition : Option Expr) (body : Expr) :
    Binding Projection := do
  let label ← freshAlias
  let split := body.projectColumns label (p.select.label :: right.visible)
  return ⟨.plain label split.columns (.join kind (.select p.select) right condition), split.projector, none⟩

/-- A key that is a record orders by its members. -/
def orderKeys (descending : Bool) : Expr → List OrderKey
  | .record _ ms => ms.map fun m => ⟨m.expr, descending⟩
  | e => [⟨e, descending⟩]

def ordered (p : Projection) (keys : List OrderKey) : Binding Projection :=
  wrap p.select p.projector fun s => { s with orderBy := keys }

mutual

/-- Null-safe equality; records are equal member by member. -/
def equality : Expr → Expr → Result Expr
  | .record _ ms, .record _ ms' =>
    if ms.length ≠ ms'.length then .error (.shape .differentMembers)
    else (memberEqualities ms ms').map fun parts => (Expr.conjunction parts).getD (.ofBool true)
  | l, r => .ok (.binary .eq l r)
termination_by structural t => t

def memberEqualities : List Named → List Named → Result (List Expr)
  | ⟨_, e⟩ :: ms, ⟨_, e'⟩ :: ms' => do
    let part ← equality e e'
    return part :: (← memberEqualities ms ms')
  | _, _ => .ok []
termination_by structural t => t

end

/-- A member of a bound expression. Members of constructed and of known records are taken out of them. -/
def member (name : String) : Expr → Result Expr
  | .record r ms =>
    match ms.find? (·.name == name) with
    | some m => .ok m.expr
    | none => .error (.unsupportedExpression (.member r.name name))
  | .constant (.record recordName fields) t =>
    match Value.lookup? fields name with
    | some v => .ok (.constant v ((t.member? name).getD v.naturalTy))
    | none => .error (.unsupportedExpression (.member recordName name))
  | .conditional test yes no => do
    if yes.isColumnTy then scalarMember (.conditional test yes no)
    else
      let yes ← member name yes
      return .conditional test yes (← member name no)
  | .group key elements => if name == "Key" then .ok key else scalarMember (.group key elements)
  | e => scalarMember e
where
  /-- A member of a value that is no record. -/
  scalarMember (e : Expr) : Result Expr :=
    let t := e.ty
    if t.isNullable && name == "HasValue" then .ok (.binary .ne e (.constant .null t))
    else if t.isNullable && name == "Value" then .ok e
    else
      match t.member? name with
      | some _ => .ok (.member e name)
      | none => .error (.unsupportedExpression (.member t.name name))

/-- Whether a method is known for targets of a type. -/
def methodApplies (m : Method) (target : Ty) : Bool :=
  target.nonNull = .unknown ||
    match m with
    | .contains | .startsWith | .endsWith | .toUpper | .toLower | .trim | .trimStart | .trimEnd
    | .substring | .replace | .indexOf | .isNullOrEmpty => target.isText
    | .addYears | .addMonths | .addDays | .addHours | .addMinutes | .addSeconds | .addMilliseconds =>
      target.isTimestamp
    | .abs | .round => target.isNumeric
    | .equals | .toText => target.isColumn
    | .other _ => false

/-- The sequence that a bound expression is. -/
def sequenceOf : Expr → Result Sequence
  | .projection p => .ok (.rows p)
  | .group _ (.projection p) => .ok (.rows p)
  | .group _ elements => .error (.shape (.notSequence elements.ty))
  | .constant (.list values) t =>
    .ok (.memory values ((t.element?.or (values.head?.map Value.naturalTy)).getD .unknown))
  | e => .error (.shape (.notSequence e.ty))

/-- An element of a known sequence, a parameter if it fits a column. -/
def memoryItem (element : Ty) (v : Value) : Expr := (Expr.constant v element).parameterize

/-- Whether a value is among known values. A list cannot be used where an absent one may be among them. -/
def containedInMemory (value : Expr) (values : List Value) (element : Ty) : Expr :=
  let items := values.map (memoryItem element)
  if values.isEmpty then .ofBool false
  else if element.isColumn && !element.isNullable then .subquery (.inValues value items)
  else (Expr.disjunction (items.map (.binary .eq value))).getD (.ofBool false)

/-- Whether a value is an element of a sequence. -/
def contained (value : Expr) : Sequence → Binding Expr
  | .memory values element => pure (containedInMemory value values element)
  | .rows p => do
    let inner ← wrap p.select p.projector id
    if inner.select.columns.length ≠ 1 || !inner.projector.isColumnTy then fail (.shape .containsColumns)
    else return .subquery (.inSelect value inner.select)

/-- A method of a bound target with bound arguments. On a sequence, `Contains` asks for an element. -/
def call (m : Method) (target : Expr) (args : List Expr) : Binding Expr :=
  let t := target.ty
  let isProjection := match target with | .projection _ => true | _ => false
  let unknown := fail (.unsupportedExpression (.member t.name m.name))
  if !m.hasSqlForm then unknown
  else if args.length < m.arity.1 || m.arity.2 < args.length then
    fail (.unsupportedExpression (.arguments t.name m.name args.length))
  else
    match m, args with
    | .contains, value :: _ =>
      if t.isSequence || isProjection then do contained value (← ofResult (sequenceOf target))
      else if methodApplies m t then pure (.call m target args)
      else unknown
    | .equals, other :: _ => if methodApplies m t then ofResult (equality target other) else unknown
    | m, args => if methodApplies m t then pure (.call m target args) else unknown

/-- The bound operator: equality goes into records. -/
def operator (op : BinaryOp) (left right : Expr) : Result Expr :=
  match op, left, right with
  | .eq, l, r => equality l r
  | .ne, .record t ms, .record t' ms' => (equality (.record t ms) (.record t' ms')).map Expr.not
  | op, l, r => .ok (.binary op l r)

/-- The argument of an aggregate, which has to fit a column. Only a count can go without. -/
def aggregateArgument (kind : AggregateKind) (selected : Option Expr) (p : Projection) :
    Binding (Option Expr) :=
  if kind = .count && selected.isNone then pure none
  else
    let argument := selected.getD p.projector
    if argument.isColumnTy then pure (some argument)
    else fail (.shape (.aggregateArgument kind argument.ty))

/-- An aggregate over the rows of a projection: a statement of its own at the root, a subquery elsewhere. -/
def aggregated (root : Bool) (kind : AggregateKind) (p : Projection) (argument : Option Expr)
    (distinct : Bool) : Binding Expr := do
  let t := kind.resultTy (argument.map Expr.ty)
  let label ← freshAlias
  let select := Select.plain label [⟨valueColumn, .aggregate kind argument distinct t⟩] (.select p.select)
  return if root then .projection ⟨select, .column ⟨label, valueColumn, t⟩, some .scalar⟩
    else .subquery (.scalar select t)

/-- One element of a projection. Inside another query it is a subquery if it is a single column. -/
def element (root : Bool) (p : Projection) (offset : Option Expr) (aggregator : Aggregator) :
    Binding Expr := do
  let count : Int64 :=
    match aggregator with
    | .single _ => if root then 2 else 1
    | _ => 1
  let inner ← wrap p.select p.projector fun s =>
    { s with limit := some (.ofValue (.int count)), offset := offset }
  let isScalar := !root && inner.select.columns.length == 1 && inner.projector.isColumn &&
    inner.projector.isColumnTy
  return if isScalar then .subquery (.scalar inner.select inner.projector.ty)
    else .projection { inner with aggregator := some aggregator }

/-- The rows that the elements of a collection come from. -/
def collectionRows : Expr → Binding Projection
  | .projection p => pure p
  | .group _ (.projection p) => pure p
  | .group _ _ => fail (.shape .collectionForm)
  | e => fail (.shape (.collectionTy e.ty))

/-- What a collection contributes to a join: its source, the kind and the condition of the join, and its
projector. A collection that refers to the outer row can only filter, and its filter becomes the condition. -/
def collectionJoin (p inner : Projection) (outer : Bool) :
    Binding (Source × JoinKind × Option Expr × Expr) :=
  let refersOutside (columns : List ColumnRef) : Bool := columns.any (·.label == p.select.label)
  let s := inner.select
  if !refersOutside (s.collect columnRefs) then
    pure (.select s, if outer then .outer else .cross, none, inner.projector)
  else
    let filtersOnly := s.groupBy.isEmpty && s.having.isNone && s.orderBy.isEmpty && s.limit.isNone &&
      s.offset.isNone && !s.distinct
    match s.source with
    | some right =>
      if filtersOnly && !refersOutside (right.collect columnRefs) then
        pure (right, if outer then .outer else .inner, s.filter,
          inner.projector.replaceColumns (ColumnMap.ofSelect s))
      else unsupported "SelectMany"
    | none => unsupported "SelectMany"

/-- The expressions of the columns of a key. -/
def keyColumns (key : Expr) (label : Alias) : List Expr :=
  (key.projectColumns label [label]).columns.map (·.expr)

end Binding

open Binding

mutual

def Query.bindSource (catalog : Catalog) (scope : Scope) : Query → Binding Sequence
  | .table entity => do
    return .rows (← Binding.entity catalog entity fun s a => .table s.kind a entity s.storedName)
  | .view entity => do
    return .rows (← Binding.entity catalog entity fun s a => .table .view a entity s.storedName)
  | .raw entity sql => do return .rows (← Binding.entity catalog entity fun _ a => .raw a sql)
  | .memory values element => pure (.memory values element)
  | .of e => do Binding.ofResult (sequenceOf (← e.bind catalog scope))
  | .filter q predicate => do
    let p ← asRows (← q.bindSource catalog scope)
    return .rows (← filtered p (← predicate.bind catalog scope [p.projector]))
  | .project q selector => do
    let p ← asRows (← q.bindSource catalog scope)
    let body ← selector.bind catalog scope [p.projector]
    return .rows (← wrap p.select body id)
  | .selectMany q collection result => do
    let p ← asRows (← q.bindSource catalog scope)
    let (bound, outer) ← collection.bindCollection catalog scope [p.projector]
    let inner ← collectionRows bound
    let (right, kind, condition, projector) ← collectionJoin p inner outer
    let body ← bindLambda? catalog scope [p.projector, projector] result
    return .rows (← joined p kind right condition (body.getD projector))
  | .join outer inner outerKey innerKey result => do
    let o ← asRows (← outer.bindSource catalog scope)
    let i ← asRows (← inner.bindSource catalog scope)
    let ok ← outerKey.bind catalog scope [o.projector]
    let ik ← innerKey.bind catalog scope [i.projector]
    let condition ← Binding.ofResult (equality ok ik)
    let body ← result.bind catalog scope [o.projector, i.projector]
    return .rows (← joined o .inner (.select i.select) (some condition) body)
  | .groupJoin outer inner outerKey innerKey result => do
    let o ← asRows (← outer.bindSource catalog scope)
    let ok ← outerKey.bind catalog scope [o.projector]
    let i ← asRows (← inner.bindSource catalog scope)
    let ik ← innerKey.bind catalog scope [i.projector]
    let elements ← filtered i (← Binding.ofResult (equality ik ok))
    let body ← result.bind catalog scope [o.projector, .projection elements]
    return .rows (← wrap o.select body id)
  | .orderBy q key descending => do
    let p ← asRows (← q.bindSource catalog scope)
    return .rows (← ordered p (orderKeys descending (← key.bind catalog scope [p.projector])))
  | .thenBy q key descending => do
    let (p, keys) ← q.bindOrdered catalog scope
    return .rows (← ordered p (keys ++ orderKeys descending (← key.bind catalog scope [p.projector])))
  | .groupBy q key element result => do
    let p ← asRows (← q.bindSource catalog scope)
    let groupKey ← key.bind catalog scope [p.projector]
    let groups := keyColumns groupKey p.select.label
    let basis ← asRows (← q.bindSource catalog scope)
    let basisKey ← key.bind catalog scope [basis.projector]
    let correlation := Expr.conjunction
      (((keyColumns basisKey basis.select.label).zip groups).map fun (i, o) => .binary .eq i o)
    let selected ← bindLambda? catalog scope [basis.projector] element
    let elements ← wrap basis.select (selected.getD basis.projector) fun s => { s with filter := correlation }
    let body ← bindLambda? catalog scope [groupKey, .projection elements] result
    return .rows (← wrap p.select (body.getD (.group groupKey (.projection elements)))
      fun s => { s with groupBy := groups })
  | .distinct q => do
    let p ← asRows (← q.bindSource catalog scope)
    return .rows (← wrap p.select p.projector fun s => { s with distinct := true })
  | .skip q count => do
    let p ← asRows (← q.bindSource catalog scope)
    let n ← count.bind catalog scope
    return .rows (← wrap p.select p.projector fun s => { s with offset := some n })
  | .take q count => do
    let p ← asRows (← q.bindSource catalog scope)
    let n ← count.bind catalog scope
    return .rows (← wrap p.select p.projector fun s => { s with limit := some n })
  | .cast q t => do
    let p ← asRows (← q.bindSource catalog scope)
    let from' := p.projector.ty
    return .rows (if from' = t || !from'.isColumn || !t.isColumn then p
      else { p with projector := .convert p.projector t })
  | .defaultIfEmpty _ => unsupported "DefaultIfEmpty"
  | .reverse _ => unsupported "Reverse"
  | .union _ _ => unsupported "Union"
  | .concat _ _ => unsupported "Concat"
  | .window _ _ => unsupported "Window"
  | q => Binding.fail (.shape (.singleValue q.name))

/-- A source under an ordering, and the keys of the ordering so far. -/
def Query.bindOrdered (catalog : Catalog) (scope : Scope) : Query → Binding (Projection × List OrderKey)
  | .orderBy q key descending => do
    let p ← asRows (← q.bindSource catalog scope)
    return (p, orderKeys descending (← key.bind catalog scope [p.projector]))
  | .thenBy q key descending => do
    let (p, keys) ← q.bindOrdered catalog scope
    return (p, keys ++ orderKeys descending (← key.bind catalog scope [p.projector]))
  | q => Binding.fail (.shape (.thenByAlone q.name))

/-- A combinator that gives one value: a projection at the root, an expression elsewhere. -/
def Query.bindTerminal (catalog : Catalog) (scope : Scope) (root : Bool) : Query → Binding Expr
  | .aggregate q kind selector => do
    if kind = .count && selector.isSome then
      let p ← asRows (← q.bindSource catalog scope)
      let p ← filteredBy p (← bindLambda? catalog scope [p.projector] selector)
      aggregated root kind p none false
    else
      let distinct ← q.bindDistinct catalog scope
      let early ← match distinct with
        | none => pure none
        | some p => do
          let argument := (← bindLambda? catalog scope [p.projector] selector).getD p.projector
          pure (if argument.isColumnTy then some (p, argument) else none)
      match early with
      | some (p, argument) => aggregated root kind p (some argument) true
      | none =>
        let p ← asRows (← q.bindSource catalog scope)
        let argument ← aggregateArgument kind (← bindLambda? catalog scope [p.projector] selector) p
        aggregated root kind p argument false
  | .elementAt q index orDefault => do
    let n ← index.bind catalog scope
    let p ← asRows (← q.bindSource catalog scope)
    Binding.element root p (some n) (.first orDefault)
  | .first q predicate orDefault => do
    let p ← asRows (← q.bindSource catalog scope)
    let p ← filteredBy p (← bindLambda? catalog scope [p.projector] predicate)
    Binding.element root p none (.first orDefault)
  | .single q predicate orDefault => do
    let p ← asRows (← q.bindSource catalog scope)
    let p ← filteredBy p (← bindLambda? catalog scope [p.projector] predicate)
    Binding.element root p none (.single orDefault)
  | .any q none => do
    match ← q.bindSource catalog scope with
    | .memory values _ => return .ofBool (!values.isEmpty)
    | .rows p => return .subquery (.exists p.select)
  | .any q (some predicate) => do
    match ← q.bindSource catalog scope with
    | .memory values element =>
      let parts ← values.mapM fun v => predicate.bind catalog scope [memoryItem element v]
      return (Expr.disjunction parts).getD (.ofBool false)
    | .rows p =>
      let p ← filtered p (← predicate.bind catalog scope [p.projector])
      return .subquery (.exists p.select)
  | .all q predicate => do
    match ← q.bindSource catalog scope with
    | .memory values element =>
      let parts ← values.mapM fun v => predicate.bind catalog scope [memoryItem element v]
      return (Expr.conjunction parts).getD (.ofBool true)
    | .rows p =>
      let p ← filtered p (.not (← predicate.bind catalog scope [p.projector]))
      return .not (.subquery (.exists p.select))
  | .contains q value => do
    let v ← value.bind catalog scope
    contained v (← q.bindSource catalog scope)
  | .last _ _ _ => unsupported "Last"
  | q => Binding.fail (.shape (.sequenceValue q.name))

/-- The rows whose distinct ones a query gives, if it is such a query. -/
def Query.bindDistinct (catalog : Catalog) (scope : Scope) : Query → Binding (Option Projection)
  | .distinct q => do return some (← asRows (← q.bindSource catalog scope))
  | _ => pure none

/-- The body of a lambda with its parameters standing for the arguments. -/
def Lambda.bind (catalog : Catalog) (scope : Scope) (args : List Expr) : Lambda → Binding Expr
  | ⟨params, body⟩ =>
    if params.length ≠ args.length then Binding.fail (.shape (.parameterCount params.length args.length))
    else body.bind catalog ((params.zip args).reverse ++ scope)

def bindLambda? (catalog : Catalog) (scope : Scope) (args : List Expr) :
    Option Lambda → Binding (Option Expr)
  | none => pure none
  | some l => do return some (← l.bind catalog scope args)

/-- The collection of each element; `true` if an empty one counts as one absent element. -/
def Lambda.bindCollection (catalog : Catalog) (scope : Scope) (args : List Expr) :
    Lambda → Binding (Expr × Bool)
  | ⟨params, body⟩ =>
    let inner := (params.zip args).reverse ++ scope
    if params.length ≠ args.length then Binding.fail (.shape (.parameterCount params.length args.length))
    else
      match body with
      | .query (.defaultIfEmpty q) => do
        if q.isTerminal then return (← q.bindTerminal catalog inner false, true)
        else return (.projection (← asRows (← q.bindSource catalog inner)), true)
      | e => do return (← e.bind catalog inner, false)

def Expr.bind (catalog : Catalog) (scope : Scope) : Expr → Binding Expr
  | .param name =>
    match scope.lookup name with
    | some e => pure e
    | none => Binding.fail (.shape (.unboundParameter name))
  | .variable _ v t => pure (.constant v t)
  | .binary op l r => do
    let l ← l.bind catalog scope
    let r ← r.bind catalog scope
    Binding.ofResult (operator op l r)
  | .unary op x => do return .unary op (← x.bind catalog scope)
  | .member x name => do Binding.ofResult (Binding.member name (← x.bind catalog scope))
  | .call m x args => do
    let x ← x.bind catalog scope
    Binding.call m x (← bindAll catalog scope args)
  | .conditional a b c => do
    return .conditional (← a.bind catalog scope) (← b.bind catalog scope) (← c.bind catalog scope)
  | .record r ms => do
    let ms ← bindNamed catalog scope ms
    return .record ⟨r.name, ms.map fun m => (m.name, m.expr.ty)⟩ ms
  | .convert x t => do return .convert (← x.bind catalog scope) t
  | .function name args t => do return .function name (← bindAll catalog scope args) t
  | .query q => do
    if q.isTerminal then q.bindTerminal catalog scope false
    else return .projection (← asRows (← q.bindSource catalog scope))
  | e => pure e

def bindAll (catalog : Catalog) (scope : Scope) : List Expr → Binding (List Expr)
  | [] => pure []
  | e :: es => do
    let e ← e.bind catalog scope
    return e :: (← bindAll catalog scope es)

def bindNamed (catalog : Catalog) (scope : Scope) : List Named → Binding (List Named)
  | [] => pure []
  | ⟨name, e⟩ :: ms => do
    let e ← e.bind catalog scope
    return ⟨name, e⟩ :: (← bindNamed catalog scope ms)

end

/-- The projection of a query, and the aliases left. A query that gives one value is a statement of one
row. -/
def Query.bind (catalog : Catalog) (q : Query) : Binding Projection :=
  if q.isTerminal then do
    match ← q.bindTerminal catalog [] true with
    | .projection p => return p
    | e =>
      let label ← freshAlias
      return ⟨.bare label [⟨valueColumn, e⟩], .column ⟨label, valueColumn, e.ty⟩, some .scalar⟩
  else do asRows (← q.bindSource catalog [])

end Relational

import Relational.Json.Parser
import Relational.Json.TyForm
import Relational.Json.ValueForm
import Relational.Tree.Basic

/-!
# The document form of expressions, selects and queries

Every node is a case with its content, and every field of a structure is written, absent ones as null.
Reading goes down by the depth of the document.
-/

namespace Relational

/-- The binary operators by name. -/
def BinaryOp.forms : List (String × BinaryOp) :=
  [("add", .add), ("sub", .sub), ("mul", .mul), ("div", .div), ("rem", .rem), ("eq", .eq), ("ne", .ne),
    ("lt", .lt), ("le", .le), ("gt", .gt), ("ge", .ge), ("and", .and), ("or", .or),
    ("coalesce", .coalesce), ("bit_and", .bitAnd), ("bit_or", .bitOr), ("concat", .concat)]

def UnaryOp.forms : List (String × UnaryOp) := [("not", .not), ("negate", .negate)]

def Method.forms : List (String × Method) :=
  [("contains", .contains), ("starts_with", .startsWith), ("ends_with", .endsWith), ("equals", .equals),
    ("to_upper", .toUpper), ("to_lower", .toLower), ("trim", .trim), ("trim_start", .trimStart),
    ("trim_end", .trimEnd), ("substring", .substring), ("replace", .replace), ("index_of", .indexOf),
    ("is_null_or_empty", .isNullOrEmpty), ("add_years", .addYears), ("add_months", .addMonths),
    ("add_days", .addDays), ("add_hours", .addHours), ("add_minutes", .addMinutes),
    ("add_seconds", .addSeconds), ("add_milliseconds", .addMilliseconds), ("abs", .abs),
    ("round", .round), ("to_text", .toText)]

def AggregateKind.forms : List (String × AggregateKind) :=
  [("count", .count), ("min", .min), ("max", .max), ("sum", .sum), ("average", .average)]

def JoinKind.forms : List (String × JoinKind) := [("cross", .cross), ("inner", .inner), ("outer", .outer)]

def SourceKind.forms : List (String × SourceKind) := [("table", .table), ("view", .view)]

namespace Json

/-- A case without content out of a list of names. -/
def named? {α : Type} (forms : List (String × α)) (j : Json) : Option α :=
  j.bareCase?.bind fun name => forms.lookup name

/-- The name of a case without content. -/
def nameOf {α : Type} [DecidableEq α] (forms : List (String × α)) (a : α) : Json :=
  string (((forms.find? (·.2 == a)).map (·.1)).getD "")

end Json

open Json

def Method.toJson (m : Method) : Json :=
  match m with
  | .other name => tagged "other" (string name)
  | m => nameOf Method.forms m

def Method.ofJson? (j : Json) : Option Method :=
  match j.case? with
  | some ("other", some c) => c.toText?.map .other
  | _ => named? Method.forms j

def Alias.toJson (a : Alias) : Json := ofNat a.id

def Alias.ofJson? (j : Json) : Option Alias := (j.toNat? 4294967295).map Alias.mk

def ColumnRef.toJson (c : ColumnRef) : Json :=
  object [("alias", c.label.toJson), ("name", string c.name), ("ty", c.ty.toJson)]

def ColumnRef.ofJson? (j : Json) : Option ColumnRef := do
  let f ← j.fields? ["alias", "name", "ty"]
  return ⟨← f.read? "alias" Alias.ofJson?, ← f.read? "name" toText?, ← f.read? "ty" Ty.ofJson?⟩

def Aggregator.toJson : Aggregator → Json
  | scalar => string "scalar"
  | first orDefault => tagged "first" (object [("or_default", bool orDefault)])
  | single orDefault => tagged "single" (object [("or_default", bool orDefault)])

def Aggregator.ofJson? (j : Json) : Option Aggregator :=
  let orDefault? (c : Json) : Option Bool := do (← c.fields? ["or_default"]).read? "or_default" toBool?
  match j.case? with
  | some ("first", some c) => (orDefault? c).map first
  | some ("single", some c) => (orDefault? c).map single
  | _ => if j.bareCase? = some "scalar" then some scalar else none

mutual

def Expr.toJson : Expr → Json
  | .param name => tagged "param" (string name)
  | .variable name v t =>
    tagged "variable" (object [("name", string name), ("value", v.toJson), ("ty", t.toJson)])
  | .constant v t => tagged "constant" (object [("value", v.toJson), ("ty", t.toJson)])
  | .binary op l r =>
    tagged "binary" (object [("op", nameOf BinaryOp.forms op), ("left", l.toJson), ("right", r.toJson)])
  | .unary op e => tagged "unary" (object [("op", nameOf UnaryOp.forms op), ("operand", e.toJson)])
  | .member e name => tagged "member" (object [("target", e.toJson), ("name", string name)])
  | .call m e args =>
    tagged "call" (object [("method", m.toJson), ("target", e.toJson), ("args", array (exprsToJson args))])
  | .conditional test yes no =>
    tagged "conditional" (object [("test", test.toJson), ("then", yes.toJson), ("otherwise", no.toJson)])
  | .record r ms => tagged "new" (object [("ty", r.toJson), ("members", array (membersToJson ms))])
  | .convert e t => tagged "convert" (object [("operand", e.toJson), ("ty", t.toJson)])
  | .query q => tagged "query" q.toJson
  | .column c => tagged "column" c.toJson
  | .hostParameter v t => tagged "host_parameter" (object [("value", v.toJson), ("ty", t.toJson)])
  | .aggregate kind e distinct t =>
    tagged "aggregate" (object [("kind", nameOf AggregateKind.forms kind), ("argument", exprToJson? e),
      ("distinct", bool distinct), ("ty", t.toJson)])
  | .subquery s => tagged "subquery" s.toJson
  | .function name args t =>
    tagged "function" (object [("name", string name), ("args", array (exprsToJson args)), ("ty", t.toJson)])
  | .projection p => tagged "projection" p.toJson
  | .group key elements =>
    tagged "group" (object [("key", key.toJson), ("elements", elements.toJson)])

def exprsToJson : List Expr → List Json
  | [] => []
  | e :: es => e.toJson :: exprsToJson es

def exprToJson? : Option Expr → Json
  | none => null
  | some e => e.toJson

/-- Members of a record are pairs. -/
def membersToJson : List Named → List Json
  | [] => []
  | ⟨name, e⟩ :: ms => array [string name, e.toJson] :: membersToJson ms

/-- Columns of a select are structures. -/
def columnsToJson : List Named → List Json
  | [] => []
  | ⟨name, e⟩ :: cs => object [("name", string name), ("expr", e.toJson)] :: columnsToJson cs

def orderToJson : List OrderKey → List Json
  | [] => []
  | ⟨e, descending⟩ :: ks => object [("expr", e.toJson), ("descending", bool descending)] :: orderToJson ks

def Subquery.toJson : Subquery → Json
  | .scalar s t => tagged "scalar" (object [("select", s.toJson), ("ty", t.toJson)])
  | .exists s => tagged "exists" (object [("select", s.toJson)])
  | .inSelect e s => tagged "in" (object [("expr", e.toJson), ("source", tagged "select" s.toJson)])
  | .inValues e vs =>
    tagged "in" (object [("expr", e.toJson), ("source", tagged "values" (array (exprsToJson vs)))])

def Source.toJson : Source → Json
  | .table kind a entity name =>
    tagged (match kind with | .table => "table" | .view => "view")
      (object [("alias", a.toJson), ("entity", string entity), ("name", string name)])
  | .raw a sql => tagged "raw" (object [("alias", a.toJson), ("sql", string sql)])
  | .select s => tagged "select" s.toJson
  | .join kind l r condition =>
    tagged "join" (object [("kind", nameOf JoinKind.forms kind), ("left", l.toJson), ("right", r.toJson),
      ("condition", exprToJson? condition)])

def sourceToJson? : Option Source → Json
  | none => null
  | some s => s.toJson

def Select.toJson : Select → Json
  | ⟨a, columns, source, filter, groupBy, having, orderBy, offset, limit, distinct⟩ =>
    object [("alias", a.toJson), ("columns", array (columnsToJson columns)), ("from", sourceToJson? source),
      ("where_clause", exprToJson? filter), ("group_by", array (exprsToJson groupBy)),
      ("having", exprToJson? having), ("order_by", array (orderToJson orderBy)),
      ("offset", exprToJson? offset), ("limit", exprToJson? limit), ("distinct", bool distinct)]

def Projection.toJson : Projection → Json
  | ⟨s, e, a⟩ =>
    object [("select", s.toJson), ("projector", e.toJson), ("aggregator", ofOption Aggregator.toJson a)]

def Lambda.toJson : Lambda → Json
  | ⟨params, body⟩ => object [("params", ofStrings params), ("body", body.toJson)]

def lambdaToJson? : Option Lambda → Json
  | none => null
  | some l => l.toJson

def Query.toJson : Query → Json
  | .table entity => tagged "table" (string entity)
  | .view entity => tagged "view" (string entity)
  | .raw entity sql => tagged "raw" (object [("entity", string entity), ("sql", string sql)])
  | .memory values t =>
    tagged "local" (object [("values", array (Value.itemsToJson values)), ("element", t.toJson)])
  | .of e => tagged "of" e.toJson
  | .filter q l => tagged "filter" (object [("source", q.toJson), ("predicate", l.toJson)])
  | .project q l => tagged "project" (object [("source", q.toJson), ("selector", l.toJson)])
  | .selectMany q l r =>
    tagged "select_many" (object [("source", q.toJson), ("collection", l.toJson), ("result", lambdaToJson? r)])
  | .join o i ok ik r =>
    tagged "join" (object [("outer", o.toJson), ("inner", i.toJson), ("outer_key", ok.toJson),
      ("inner_key", ik.toJson), ("result", r.toJson)])
  | .groupJoin o i ok ik r =>
    tagged "group_join" (object [("outer", o.toJson), ("inner", i.toJson), ("outer_key", ok.toJson),
      ("inner_key", ik.toJson), ("result", r.toJson)])
  | .orderBy q l d =>
    tagged "order_by" (object [("source", q.toJson), ("key", l.toJson), ("descending", bool d)])
  | .thenBy q l d =>
    tagged "then_by" (object [("source", q.toJson), ("key", l.toJson), ("descending", bool d)])
  | .groupBy q key e r =>
    tagged "group_by" (object [("source", q.toJson), ("key", key.toJson), ("element", lambdaToJson? e),
      ("result", lambdaToJson? r)])
  | .distinct q => tagged "distinct" (object [("source", q.toJson)])
  | .skip q e => tagged "skip" (object [("source", q.toJson), ("count", e.toJson)])
  | .take q e => tagged "take" (object [("source", q.toJson), ("count", e.toJson)])
  | .cast q t => tagged "cast" (object [("source", q.toJson), ("ty", t.toJson)])
  | .defaultIfEmpty q => tagged "default_if_empty" (object [("source", q.toJson)])
  | .aggregate q kind l =>
    tagged "aggregate" (object [("source", q.toJson), ("kind", nameOf AggregateKind.forms kind),
      ("selector", lambdaToJson? l)])
  | .elementAt q e d =>
    tagged "element_at" (object [("source", q.toJson), ("index", e.toJson), ("or_default", bool d)])
  | .first q l d =>
    tagged "first" (object [("source", q.toJson), ("predicate", lambdaToJson? l), ("or_default", bool d)])
  | .single q l d =>
    tagged "single" (object [("source", q.toJson), ("predicate", lambdaToJson? l), ("or_default", bool d)])
  | .any q l => tagged "any" (object [("source", q.toJson), ("predicate", lambdaToJson? l)])
  | .all q l => tagged "all" (object [("source", q.toJson), ("predicate", l.toJson)])
  | .contains q e => tagged "contains" (object [("source", q.toJson), ("value", e.toJson)])
  | .reverse q => tagged "reverse" (object [("source", q.toJson)])
  | .last q l d =>
    tagged "last" (object [("source", q.toJson), ("predicate", lambdaToJson? l), ("or_default", bool d)])
  | .union l r => tagged "union" (object [("left", l.toJson), ("right", r.toJson)])
  | .concat l r => tagged "concat" (object [("left", l.toJson), ("right", r.toJson)])
  | .window q function =>
    tagged "window" (object [("source", q.toJson), ("function", string function)])

end

mutual

def Expr.read? : (fuel : Nat) → Json → Option Expr
  | 0, _ => none
  | fuel + 1, j => do
    let expr? := Expr.read? fuel
    let (name, content) ← j.case?
    let c ← content
    match name with
    | "param" => c.toText?.map .param
    | "variable" =>
      let f ← c.fields? ["name", "value", "ty"]
      return .variable (← f.read? "name" toText?) (← f.read? "value" Value.ofJson?) (← f.read? "ty" Ty.ofJson?)
    | "constant" =>
      let f ← c.fields? ["value", "ty"]
      return .constant (← f.read? "value" Value.ofJson?) (← f.read? "ty" Ty.ofJson?)
    | "binary" =>
      let f ← c.fields? ["op", "left", "right"]
      return .binary (← f.read? "op" (named? BinaryOp.forms)) (← f.read? "left" expr?)
        (← f.read? "right" expr?)
    | "unary" =>
      let f ← c.fields? ["op", "operand"]
      return .unary (← f.read? "op" (named? UnaryOp.forms)) (← f.read? "operand" expr?)
    | "member" =>
      let f ← c.fields? ["target", "name"]
      return .member (← f.read? "target" expr?) (← f.read? "name" toText?)
    | "call" =>
      let f ← c.fields? ["method", "target", "args"]
      return .call (← f.read? "method" Method.ofJson?) (← f.read? "target" expr?)
        (← f.read? "args" (listOf? expr?))
    | "conditional" =>
      let f ← c.fields? ["test", "then", "otherwise"]
      return .conditional (← f.read? "test" expr?) (← f.read? "then" expr?) (← f.read? "otherwise" expr?)
    | "new" =>
      let f ← c.fields? ["ty", "members"]
      let members ← f.read? "members" (listOf? (pairOf? toText? expr?))
      return .record (← f.read? "ty" RecordTy.ofJson?) (members.map fun (name, e) => ⟨name, e⟩)
    | "convert" =>
      let f ← c.fields? ["operand", "ty"]
      return .convert (← f.read? "operand" expr?) (← f.read? "ty" Ty.ofJson?)
    | "query" => (Query.read? fuel c).map .query
    | "column" => (ColumnRef.ofJson? c).map .column
    | "host_parameter" =>
      let f ← c.fields? ["value", "ty"]
      return .hostParameter (← f.read? "value" Value.ofJson?) (← f.read? "ty" Ty.ofJson?)
    | "aggregate" =>
      let f ← c.fields? ["kind", "argument", "distinct", "ty"]
      return .aggregate (← f.read? "kind" (named? AggregateKind.forms)) (← f.readOption? "argument" expr?)
        (← f.read? "distinct" toBool?) (← f.read? "ty" Ty.ofJson?)
    | "subquery" => (Subquery.read? fuel c).map .subquery
    | "function" =>
      let f ← c.fields? ["name", "args", "ty"]
      return .function (← f.read? "name" toText?) (← f.read? "args" (listOf? expr?))
        (← f.read? "ty" Ty.ofJson?)
    | "projection" => (Projection.read? fuel c).map .projection
    | "group" =>
      let f ← c.fields? ["key", "elements"]
      return .group (← f.read? "key" expr?) (← f.read? "elements" expr?)
    | _ => none

def Subquery.read? : (fuel : Nat) → Json → Option Subquery
  | 0, _ => none
  | fuel + 1, j => do
    let (name, content) ← j.case?
    let c ← content
    match name with
    | "scalar" =>
      let f ← c.fields? ["select", "ty"]
      return .scalar (← f.read? "select" (Select.read? fuel)) (← f.read? "ty" Ty.ofJson?)
    | "exists" =>
      let f ← c.fields? ["select"]
      return .exists (← f.read? "select" (Select.read? fuel))
    | "in" =>
      let f ← c.fields? ["expr", "source"]
      let e ← f.read? "expr" (Expr.read? fuel)
      let (kind, content) ← f.read? "source" case?
      let s ← content
      match kind with
      | "select" => return .inSelect e (← Select.read? fuel s)
      | "values" => return .inValues e (← listOf? (Expr.read? fuel) s)
      | _ => none
    | _ => none

def Source.read? : (fuel : Nat) → Json → Option Source
  | 0, _ => none
  | fuel + 1, j => do
    let (name, content) ← j.case?
    let c ← content
    match name with
    | "table" | "view" =>
      let f ← c.fields? ["alias", "entity", "name"]
      return .table (if name == "table" then .table else .view) (← f.read? "alias" Alias.ofJson?)
        (← f.read? "entity" toText?) (← f.read? "name" toText?)
    | "raw" =>
      let f ← c.fields? ["alias", "sql"]
      return .raw (← f.read? "alias" Alias.ofJson?) (← f.read? "sql" toText?)
    | "select" => (Select.read? fuel c).map .select
    | "join" =>
      let f ← c.fields? ["kind", "left", "right", "condition"]
      return .join (← f.read? "kind" (named? JoinKind.forms)) (← f.read? "left" (Source.read? fuel))
        (← f.read? "right" (Source.read? fuel)) (← f.readOption? "condition" (Expr.read? fuel))
    | _ => none

def Select.read? : (fuel : Nat) → Json → Option Select
  | 0, _ => none
  | fuel + 1, j => do
    let expr? := Expr.read? fuel
    let column? (j : Json) : Option Named := do
      let f ← j.fields? ["name", "expr"]
      return ⟨← f.read? "name" toText?, ← f.read? "expr" expr?⟩
    let key? (j : Json) : Option OrderKey := do
      let f ← j.fields? ["expr", "descending"]
      return ⟨← f.read? "expr" expr?, ← f.read? "descending" toBool?⟩
    let f ← j.fields? ["alias", "columns", "from", "where_clause", "group_by", "having", "order_by", "offset",
      "limit", "distinct"]
    return ⟨← f.read? "alias" Alias.ofJson?, ← f.read? "columns" (listOf? column?),
      ← f.readOption? "from" (Source.read? fuel), ← f.readOption? "where_clause" expr?,
      ← f.read? "group_by" (listOf? expr?), ← f.readOption? "having" expr?,
      ← f.read? "order_by" (listOf? key?), ← f.readOption? "offset" expr?, ← f.readOption? "limit" expr?,
      ← f.read? "distinct" toBool?⟩

def Projection.read? : (fuel : Nat) → Json → Option Projection
  | 0, _ => none
  | fuel + 1, j => do
    let f ← j.fields? ["select", "projector", "aggregator"]
    return ⟨← f.read? "select" (Select.read? fuel), ← f.read? "projector" (Expr.read? fuel),
      ← f.readOption? "aggregator" Aggregator.ofJson?⟩

def Lambda.read? : (fuel : Nat) → Json → Option Lambda
  | 0, _ => none
  | fuel + 1, j => do
    let f ← j.fields? ["params", "body"]
    return ⟨← f.read? "params" (listOf? toText?), ← f.read? "body" (Expr.read? fuel)⟩

def Query.read? : (fuel : Nat) → Json → Option Query
  | 0, _ => none
  | fuel + 1, j => do
    let (name, content) ← j.case?
    let c ← content
    let expr? := Expr.read? fuel
    let lambda? := Lambda.read? fuel
    let source? (f : Fields) : Option Query := f.read? "source" (Query.read? fuel)
    match name with
    | "table" => c.toText?.map .table
    | "view" => c.toText?.map .view
    | "raw" =>
      let f ← c.fields? ["entity", "sql"]
      return .raw (← f.read? "entity" toText?) (← f.read? "sql" toText?)
    | "local" =>
      let f ← c.fields? ["values", "element"]
      return .memory (← f.read? "values" (listOf? Value.ofJson?)) (← f.read? "element" Ty.ofJson?)
    | "of" => (expr? c).map .of
    | "filter" =>
      let f ← c.fields? ["source", "predicate"]
      return .filter (← source? f) (← f.read? "predicate" lambda?)
    | "project" =>
      let f ← c.fields? ["source", "selector"]
      return .project (← source? f) (← f.read? "selector" lambda?)
    | "select_many" =>
      let f ← c.fields? ["source", "collection", "result"]
      return .selectMany (← source? f) (← f.read? "collection" lambda?) (← f.readOption? "result" lambda?)
    | "join" | "group_join" =>
      let f ← c.fields? ["outer", "inner", "outer_key", "inner_key", "result"]
      let outer ← f.read? "outer" (Query.read? fuel)
      let inner ← f.read? "inner" (Query.read? fuel)
      let outerKey ← f.read? "outer_key" lambda?
      let innerKey ← f.read? "inner_key" lambda?
      let result ← f.read? "result" lambda?
      return if name == "join" then .join outer inner outerKey innerKey result
        else .groupJoin outer inner outerKey innerKey result
    | "order_by" =>
      let f ← c.fields? ["source", "key", "descending"]
      return .orderBy (← source? f) (← f.read? "key" lambda?) (← f.read? "descending" toBool?)
    | "then_by" =>
      let f ← c.fields? ["source", "key", "descending"]
      return .thenBy (← source? f) (← f.read? "key" lambda?) (← f.read? "descending" toBool?)
    | "group_by" =>
      let f ← c.fields? ["source", "key", "element", "result"]
      return .groupBy (← source? f) (← f.read? "key" lambda?) (← f.readOption? "element" lambda?)
        (← f.readOption? "result" lambda?)
    | "distinct" => (c.fields? ["source"]).bind fun f => (source? f).map .distinct
    | "skip" =>
      let f ← c.fields? ["source", "count"]
      return .skip (← source? f) (← f.read? "count" expr?)
    | "take" =>
      let f ← c.fields? ["source", "count"]
      return .take (← source? f) (← f.read? "count" expr?)
    | "cast" =>
      let f ← c.fields? ["source", "ty"]
      return .cast (← source? f) (← f.read? "ty" Ty.ofJson?)
    | "default_if_empty" => (c.fields? ["source"]).bind fun f => (source? f).map .defaultIfEmpty
    | "aggregate" =>
      let f ← c.fields? ["source", "kind", "selector"]
      return .aggregate (← source? f) (← f.read? "kind" (named? AggregateKind.forms))
        (← f.readOption? "selector" lambda?)
    | "element_at" =>
      let f ← c.fields? ["source", "index", "or_default"]
      return .elementAt (← source? f) (← f.read? "index" expr?) (← f.read? "or_default" toBool?)
    | "first" =>
      let f ← c.fields? ["source", "predicate", "or_default"]
      return .first (← source? f) (← f.readOption? "predicate" lambda?) (← f.read? "or_default" toBool?)
    | "single" =>
      let f ← c.fields? ["source", "predicate", "or_default"]
      return .single (← source? f) (← f.readOption? "predicate" lambda?) (← f.read? "or_default" toBool?)
    | "any" =>
      let f ← c.fields? ["source", "predicate"]
      return .any (← source? f) (← f.readOption? "predicate" lambda?)
    | "all" =>
      let f ← c.fields? ["source", "predicate"]
      return .all (← source? f) (← f.read? "predicate" lambda?)
    | "contains" =>
      let f ← c.fields? ["source", "value"]
      return .contains (← source? f) (← f.read? "value" expr?)
    | "reverse" => (c.fields? ["source"]).bind fun f => (source? f).map .reverse
    | "last" =>
      let f ← c.fields? ["source", "predicate", "or_default"]
      return .last (← source? f) (← f.readOption? "predicate" lambda?) (← f.read? "or_default" toBool?)
    | "union" =>
      let f ← c.fields? ["left", "right"]
      return .union (← f.read? "left" (Query.read? fuel)) (← f.read? "right" (Query.read? fuel))
    | "concat" =>
      let f ← c.fields? ["left", "right"]
      return .concat (← f.read? "left" (Query.read? fuel)) (← f.read? "right" (Query.read? fuel))
    | "window" =>
      let f ← c.fields? ["source", "function"]
      return .window (← source? f) (← f.read? "function" toText?)
    | _ => none

end

def Expr.ofJson? (j : Json) : Option Expr := Expr.read? (j.depth + 1) j

def Select.ofJson? (j : Json) : Option Select := Select.read? (j.depth + 1) j

def Projection.ofJson? (j : Json) : Option Projection := Projection.read? (j.depth + 1) j

def Lambda.ofJson? (j : Json) : Option Lambda := Lambda.read? (j.depth + 1) j

def Query.ofJson? (j : Json) : Option Query := Query.read? (j.depth + 1) j

/-- The deepest nesting of a query's text. -/
def Query.nestingLimit : Nat := 127

/-- A query from its text. -/
def Query.parse (text : String) : Result Query :=
  match Json.parse? Query.nestingLimit text with
  | none => .error (.json "malformed document")
  | some j =>
    match Query.ofJson? j with
    | some q => .ok q
    | none => .error (.json "the document is not a query")

end Relational

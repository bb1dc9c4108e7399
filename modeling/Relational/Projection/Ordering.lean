import Relational.Tree.Collect
import Relational.Tree.Same
import Relational.Tree.Typing

/-!
# Orderings

A database does not keep the ordering of a select that another one reads. So orderings move outward: each select hands its
own, in front of those of its sources, to the select that reads it, in terms of its columns. They
come to rest in the outermost select of a statement, and in every select whose limit depends on them.
A grouping or a removal of repetitions ends an ordering.
-/

namespace Relational

/-- Keys without those that repeat the column of an earlier one. -/
def dropRepeated (seen : List (Alias × String)) : List OrderKey → List OrderKey
  | [] => []
  | k :: ks =>
    match k.expr with
    | .column c =>
      if seen.contains (c.label, c.name) then dropRepeated seen ks
      else k :: dropRepeated ((c.label, c.name) :: seen) ks
    | _ => k :: dropRepeated seen ks

/-- Keys in front of others. -/
def prependKeys (keys : List OrderKey) (gathered : Option (List OrderKey)) : List OrderKey :=
  dropRepeated [] (keys ++ gathered.getD [])

/-- Keys in terms of the columns of a select, with the columns that have to be added for them. Keys on
columns from outside are dropped. -/
def rebindKeys (label : Alias) (declared : List Alias) : List Named → List OrderKey → List OrderKey × List Named
  | columns, [] => ([], columns)
  | columns, ⟨e, descending⟩ :: ks =>
    let outside :=
      match e with
      | .column c => !declared.contains c.label
      | _ => false
    if outside then rebindKeys label declared columns ks
    else
      let isSame (c : Named) : Bool :=
        c.expr.same e ||
          match e, c.expr with
          | .column a, .column b => a.isSame b
          | _, _ => false
      let (name, columns) :=
        match columns.find? isSame with
        | some c => (c.name, columns)
        | none =>
          let base :=
            match e with
            | .column c => c.name
            | _ => "c" ++ Nat.repr columns.length
          let name := freshName (columns.map (·.name)) base
          (name, columns ++ [⟨name, e⟩])
      let (rest, columns) := rebindKeys label declared columns ks
      (⟨.column ⟨label, name, e.ty⟩, descending⟩ :: rest, columns)

/-- A select whose parts have been treated, with the orderings that its sources hand on: the select with its
ordering, and what it hands on itself. The column list of a subquery is its result and does not
grow. -/
def Select.placeOrdering (outermost isSubquery : Bool) (s : Select) (fromSource : Option (List OrderKey)) :
    Select × Option (List OrderKey) :=
  let keepsOrder := outermost || s.limit.isSome || s.offset.isSome
  let receives := keepsOrder && s.groupBy.isEmpty && !s.distinct && !s.hasAggregates
  let gathered := if s.orderBy.isEmpty then fromSource else some (prependKeys s.orderBy fromSource)
  let orderBy :=
    if receives then gathered.getD [] else if keepsOrder then s.orderBy else []
  let handsOn := !outermost && !isSubquery && s.groupBy.isEmpty && !s.distinct
  match gathered with
  | some keys =>
    if handsOn then
      let declared := collectSource declaredAliases s.source
      let (keys, columns) := rebindKeys s.label declared s.columns keys
      ({ s with orderBy := orderBy, columns := columns }, some (prependKeys keys none))
    else ({ s with orderBy := orderBy }, none)
  | none => ({ s with orderBy := orderBy }, none)

/-- What two sides of a join hand on together. -/
def joinKeys (left right : Option (List OrderKey)) : Option (List OrderKey) :=
  match left with
  | some keys => some (prependKeys keys right)
  | none => right

mutual

/-- The expression with its statements' orderings placed; `outermost` holds in a projector. -/
def Expr.order (outermost : Bool) : Expr → Expr
  | .param name => .param name
  | .variable name v t => .variable name v t
  | .constant v t => .constant v t
  | .hostParameter v t => .hostParameter v t
  | .query q => .query q
  | .column c => .column c
  | .binary op l r => .binary op (l.order outermost) (r.order outermost)
  | .unary op x => .unary op (x.order outermost)
  | .member x name => .member (x.order outermost) name
  | .call m x args => .call m (x.order outermost) (orderAll outermost args)
  | .conditional a b c => .conditional (a.order outermost) (b.order outermost) (c.order outermost)
  | .record r ms => .record r (orderNamed outermost ms)
  | .convert x t => .convert (x.order outermost) t
  | .aggregate kind x distinct t => .aggregate kind (orderOption outermost x) distinct t
  | .subquery s => .subquery (s.order outermost)
  | .function name args t => .function name (orderAll outermost args) t
  | .projection p => .projection p.order
  | .group key elements => .group (key.order outermost) (elements.order outermost)

def orderAll (outermost : Bool) : List Expr → List Expr
  | [] => []
  | e :: es => e.order outermost :: orderAll outermost es

def orderOption (outermost : Bool) : Option Expr → Option Expr
  | none => none
  | some e => some (e.order outermost)

def orderNamed (outermost : Bool) : List Named → List Named
  | [] => []
  | ⟨name, e⟩ :: ms => ⟨name, e.order outermost⟩ :: orderNamed outermost ms

def orderOrderKeys (outermost : Bool) : List OrderKey → List OrderKey
  | [] => []
  | ⟨e, descending⟩ :: ks => ⟨e.order outermost, descending⟩ :: orderOrderKeys outermost ks

def Subquery.order (outermost : Bool) : Subquery → Subquery
  | .scalar s t => .scalar (s.order outermost true).1 t
  | .exists s => .exists (s.order outermost true).1
  | .inSelect e s => .inSelect (e.order outermost) (s.order outermost true).1
  | .inValues e vs => .inValues (e.order outermost) (orderAll outermost vs)

def Source.order : Source → Source × Option (List OrderKey)
  | .table kind a entity name => (.table kind a entity name, none)
  | .raw a sql => (.raw a sql, none)
  | .select s =>
    let (s, keys) := s.order false false
    (.select s, keys)
  | .join kind l r condition =>
    let (l, left) := l.order
    let (r, right) := r.order
    (.join kind l r (orderOption false condition), joinKeys left right)

def orderSource : Option Source → Option Source × Option (List OrderKey)
  | none => (none, none)
  | some s =>
    let (s, keys) := s.order
    (some s, keys)

def Select.order (outermost isSubquery : Bool) : Select → Select × Option (List OrderKey)
  | ⟨a, columns, source, filter, groupBy, having, orderBy, offset, limit, distinct⟩ =>
    let (source, keys) := orderSource source
    Select.placeOrdering outermost isSubquery
      ⟨a, orderNamed false columns, source, orderOption false filter, orderAll false groupBy,
        orderOption false having, orderOrderKeys false orderBy, orderOption false offset,
        orderOption false limit, distinct⟩ keys

def Projection.order : Projection → Projection
  | ⟨s, e, a⟩ => ⟨(s.order true false).1, e.order true, a⟩

end

end Relational

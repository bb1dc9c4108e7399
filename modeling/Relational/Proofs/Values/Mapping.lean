import Relational.Proofs.Tree.Parts
import Relational.Tree.Typing

/-!
# Other values in the same tree

A change of values (`ValueChange`) goes through a tree and touches the literals, the parameters of statements and the sequences in
memory. Limits and offsets keep their values, and so do the counts of a query that they come from: these are written as
literals, whatever else becomes a parameter.
-/

namespace Relational

/-- Other values for those in a tree. -/
structure ValueChange where
  /-- For a constant or a captured variable of a type. -/
  literal : Value → Ty → Value
  /-- For a parameter of a statement. -/
  parameter : Value → Ty → Value
  /-- For the elements of a sequence in memory. -/
  sequence : List Value → Ty → List Value

mutual

def Expr.mapValues (m : ValueChange) : Expr → Expr
  | .param name => .param name
  | .variable name v t => .variable name (m.literal v t) t
  | .constant v t => .constant (m.literal v t) t
  | .binary op l r => .binary op (l.mapValues m) (r.mapValues m)
  | .unary op x => .unary op (x.mapValues m)
  | .member x name => .member (x.mapValues m) name
  | .call method x args => .call method (x.mapValues m) (mapValuesAll m args)
  | .conditional test yes no => .conditional (test.mapValues m) (yes.mapValues m) (no.mapValues m)
  | .record r ms => .record r (mapValuesNamed m ms)
  | .convert x t => .convert (x.mapValues m) t
  | .query q => .query (q.mapValues m)
  | .column c => .column c
  | .hostParameter v t => .hostParameter (m.parameter v t) t
  | .aggregate kind x distinct t => .aggregate kind (mapValuesOption m x) distinct t
  | .subquery s => .subquery (s.mapValues m)
  | .function name args t => .function name (mapValuesAll m args) t
  | .projection p => .projection (p.mapValues m)
  | .group key elements => .group (key.mapValues m) (elements.mapValues m)

def mapValuesAll (m : ValueChange) : List Expr → List Expr
  | [] => []
  | e :: es => e.mapValues m :: mapValuesAll m es

def mapValuesOption (m : ValueChange) : Option Expr → Option Expr
  | none => none
  | some e => some (e.mapValues m)

def mapValuesNamed (m : ValueChange) : List Named → List Named
  | [] => []
  | ⟨name, e⟩ :: ms => ⟨name, e.mapValues m⟩ :: mapValuesNamed m ms

def mapValuesKeys (m : ValueChange) : List OrderKey → List OrderKey
  | [] => []
  | ⟨e, descending⟩ :: ks => ⟨e.mapValues m, descending⟩ :: mapValuesKeys m ks

def Subquery.mapValues (m : ValueChange) : Subquery → Subquery
  | .scalar s t => .scalar (s.mapValues m) t
  | .exists s => .exists (s.mapValues m)
  | .inSelect e s => .inSelect (e.mapValues m) (s.mapValues m)
  | .inValues e vs => .inValues (e.mapValues m) (mapValuesAll m vs)

def Source.mapValues (m : ValueChange) : Source → Source
  | .table kind a entity name => .table kind a entity name
  | .raw a sql => .raw a sql
  | .select s => .select (s.mapValues m)
  | .join kind l r condition => .join kind (l.mapValues m) (r.mapValues m) (mapValuesOption m condition)

def mapValuesSource (m : ValueChange) : Option Source → Option Source
  | none => none
  | some s => some (s.mapValues m)

def Select.mapValues (m : ValueChange) : Select → Select
  | ⟨a, columns, source, filter, groupBy, having, orderBy, offset, limit, distinct⟩ =>
    ⟨a, mapValuesNamed m columns, mapValuesSource m source, mapValuesOption m filter, mapValuesAll m groupBy,
      mapValuesOption m having, mapValuesKeys m orderBy, offset, limit, distinct⟩

def Projection.mapValues (m : ValueChange) : Projection → Projection
  | ⟨s, e, a⟩ => ⟨s.mapValues m, e.mapValues m, a⟩

def Lambda.mapValues (m : ValueChange) : Lambda → Lambda
  | ⟨params, body⟩ => ⟨params, body.mapValues m⟩

def mapValuesLambda (m : ValueChange) : Option Lambda → Option Lambda
  | none => none
  | some l => some (l.mapValues m)

def Query.mapValues (m : ValueChange) : Query → Query
  | .table entity => .table entity
  | .view entity => .view entity
  | .raw entity sql => .raw entity sql
  | .memory values t => .memory (m.sequence values t) t
  | .of e => .of (e.mapValues m)
  | .filter q l => .filter (q.mapValues m) (l.mapValues m)
  | .project q l => .project (q.mapValues m) (l.mapValues m)
  | .selectMany q l r => .selectMany (q.mapValues m) (l.mapValues m) (mapValuesLambda m r)
  | .join o i ok ik r => .join (o.mapValues m) (i.mapValues m) (ok.mapValues m) (ik.mapValues m) (r.mapValues m)
  | .groupJoin o i ok ik r =>
    .groupJoin (o.mapValues m) (i.mapValues m) (ok.mapValues m) (ik.mapValues m) (r.mapValues m)
  | .orderBy q l d => .orderBy (q.mapValues m) (l.mapValues m) d
  | .thenBy q l d => .thenBy (q.mapValues m) (l.mapValues m) d
  | .groupBy q key e r => .groupBy (q.mapValues m) (key.mapValues m) (mapValuesLambda m e) (mapValuesLambda m r)
  | .distinct q => .distinct (q.mapValues m)
  | .skip q e => .skip (q.mapValues m) e
  | .take q e => .take (q.mapValues m) e
  | .cast q t => .cast (q.mapValues m) t
  | .defaultIfEmpty q => .defaultIfEmpty (q.mapValues m)
  | .aggregate q kind l => .aggregate (q.mapValues m) kind (mapValuesLambda m l)
  | .elementAt q e d => .elementAt (q.mapValues m) e d
  | .first q l d => .first (q.mapValues m) (mapValuesLambda m l) d
  | .single q l d => .single (q.mapValues m) (mapValuesLambda m l) d
  | .any q l => .any (q.mapValues m) (mapValuesLambda m l)
  | .all q l => .all (q.mapValues m) (l.mapValues m)
  | .contains q e => .contains (q.mapValues m) (e.mapValues m)
  | .reverse q => .reverse (q.mapValues m)
  | .last q l d => .last (q.mapValues m) (mapValuesLambda m l) d
  | .union l r => .union (l.mapValues m) (r.mapValues m)
  | .concat l r => .concat (l.mapValues m) (r.mapValues m)
  | .window q function => .window (q.mapValues m) function

end

section Parts

variable (m : ValueChange)

@[simp] theorem mapValuesAll_eq (es : List Expr) : mapValuesAll m es = es.map (Expr.mapValues m) := by
  induction es with
  | nil => rfl
  | cons e es ih => rw [mapValuesAll, ih, List.map_cons]

@[simp] theorem mapValuesOption_eq (o : Option Expr) : mapValuesOption m o = o.map (Expr.mapValues m) := by
  cases o <;> rfl

@[simp] theorem mapValuesNamed_eq (ms : List Named) : mapValuesNamed m ms = ms.map (Named.mapExpr (Expr.mapValues m)) := by
  induction ms with
  | nil => rfl
  | cons c ms ih => cases c; rw [mapValuesNamed, ih, List.map_cons]; rfl

@[simp] theorem mapValuesKeys_eq (ks : List OrderKey) : mapValuesKeys m ks = ks.map (OrderKey.mapExpr (Expr.mapValues m)) := by
  induction ks with
  | nil => rfl
  | cons k ks ih => cases k; rw [mapValuesKeys, ih, List.map_cons]; rfl

@[simp] theorem mapValuesSource_eq (o : Option Source) : mapValuesSource m o = o.map (Source.mapValues m) := by
  cases o <;> rfl

theorem Expr.mapValues_operator {e : Expr} (op : e.isOperator = true) : e.mapValues m = e.mapOperands (Expr.mapValues m) := by
  cases e <;> simp [isOperator] at op <;> simp [mapValues, mapOperands]

theorem Select.mapValues_eq (s : Select) : s.mapValues m =
    { s.mapParts (Expr.mapValues m) (Source.mapValues m) with offset := s.offset, limit := s.limit } := by
  cases s
  simp [Select.mapValues, mapParts]

end Parts

/-- The change that changes nothing. -/
def ValueChange.none : ValueChange := ⟨fun v _ => v, fun v _ => v, fun values _ => values⟩

/-! ## What does not depend on values -/

theorem Subquery.ty_mapValues (m : ValueChange) (s : Subquery) : (s.mapValues m).ty = s.ty := by cases s <;> rfl

theorem ty_mapValues (m : ValueChange) : TreeCases (fun e => (e.mapValues m).ty = e.ty) (fun _ => True) (fun _ => True) (fun _ => True)
    (fun p => (p.mapValues m).ty = p.ty) := by
  constructor
  constructor
  case operator =>
    intro e op ih
    rw [e.mapValues_operator m op]
    cases e <;> simp only [Expr.isOperator, Bool.false_eq_true] at op <;>
      simp only [Expr.operands, List.mem_cons, List.not_mem_nil, or_false, forall_eq_or_imp, forall_eq] at ih <;>
      simp only [Expr.mapOperands, Expr.ty, ih]
    case unary sign x =>
      cases sign with
      | not => rfl
      | negate => exact ih
  case subquery => exact fun s _ => s.ty_mapValues m
  case projection => exact fun p ih => ih
  case whole => exact fun s e a _ ih => by cases a <;> simp only [Projection.mapValues, Projection.ty, ih]
  all_goals intros; trivial

@[simp] theorem Expr.ty_mapValues (m : ValueChange) (e : Expr) : (e.mapValues m).ty = e.ty := (Relational.ty_mapValues m).expr e

end Relational

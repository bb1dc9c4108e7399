import Relational.Proofs.Tree.Parts

/-!
# Columns that are needed

What an expression needs is what it reads once everything is gone from it that nothing reads. A reference inside of a nested statement may be
one that nothing reads itself: it counts only if it stands in a clause that decides about rows, or in a column of a select
that is needed in turn.
-/

namespace Relational

mutual

/-- Whether an expression needs a column of a source. -/
def Expr.Needs (e : Expr) (a : Alias) (name : String) : Prop :=
  match e with
  | .param _ | .variable _ _ _ | .constant _ _ | .hostParameter _ _ | .query _ => False
  | .column c => c.label = a ∧ c.name = name
  | .binary _ l r => l.Needs a name ∨ r.Needs a name
  | .unary _ x | .member x _ | .convert x _ => x.Needs a name
  | .call _ x args => x.Needs a name ∨ needsAll args a name
  | .conditional test yes no => test.Needs a name ∨ yes.Needs a name ∨ no.Needs a name
  | .record _ ms => needsColumns (fun _ => True) ms a name
  | .function _ args _ => needsAll args a name
  | .group key elements => key.Needs a name ∨ elements.Needs a name
  | .aggregate _ x _ _ => needsOption x a name
  | .subquery s => s.Needs a name
  | .projection p => p.Needs a name

def needsAll (es : List Expr) (a : Alias) (name : String) : Prop :=
  match es with
  | [] => False
  | e :: es => e.Needs a name ∨ needsAll es a name

def needsOption (o : Option Expr) (a : Alias) (name : String) : Prop :=
  match o with
  | none => False
  | some e => e.Needs a name

/-- Columns of which only some are needed themselves. -/
def needsColumns (shown : String → Prop) (ms : List Named) (a : Alias) (name : String) : Prop :=
  match ms with
  | [] => False
  | ⟨column, e⟩ :: ms => (shown column ∧ e.Needs a name) ∨ needsColumns shown ms a name

def needsKeys (ks : List OrderKey) (a : Alias) (name : String) : Prop :=
  match ks with
  | [] => False
  | ⟨e, _⟩ :: ks => e.Needs a name ∨ needsKeys ks a name

/-- The value of a subquery is its first column; whether there are rows depends on no column. -/
def Subquery.Needs (s : Subquery) (a : Alias) (name : String) : Prop :=
  match s with
  | .scalar s _ => s.Needs (fun column => ∃ c ∈ s.columns.head?, c.name = column) a name
  | .exists s => s.Needs (fun _ => False) a name
  | .inSelect e s => e.Needs a name ∨ s.Needs (fun column => ∃ c ∈ s.columns.head?, c.name = column) a name
  | .inValues e vs => e.Needs a name ∨ needsAll vs a name

/-- A source of which these columns are needed. -/
def Source.Needs (shown : Alias → String → Prop) (src : Source) (a : Alias) (name : String) : Prop :=
  match src with
  | .table _ _ _ _ | .raw _ _ => False
  | .select s => s.Needs (shown s.label) a name
  | .join _ l r condition =>
    needsOption condition a name ∨ r.Needs (fun b column => shown b column ∨ needsOption condition b column) a name ∨
      l.Needs (fun b column => shown b column ∨ needsOption condition b column) a name

def needsSource (shown : Alias → String → Prop) (o : Option Source) (a : Alias) (name : String) : Prop :=
  match o with
  | none => False
  | some src => src.Needs shown a name

/-- A select of which these columns are needed, or all if repetitions are left out. -/
def Select.Needs (shown : String → Prop) (s : Select) (a : Alias) (name : String) : Prop :=
  match s with
  | ⟨_, columns, source, filter, groupBy, having, orderBy, offset, limit, distinct⟩ =>
    let clauses (b : Alias) (column : String) : Prop :=
      needsColumns (fun c => distinct = true ∨ shown c) columns b column ∨ needsOption limit b column ∨
        needsOption offset b column ∨ needsAll groupBy b column ∨ needsOption having b column ∨ needsKeys orderBy b column ∨
          needsOption filter b column
    clauses a name ∨ needsSource clauses source a name

def Projection.Needs (p : Projection) (a : Alias) (name : String) : Prop :=
  match p with
  | ⟨s, e, _⟩ => e.Needs a name ∨ s.Needs (e.Needs s.label) a name

end

section Parts

variable {a : Alias} {name : String}

theorem needsAll_iff {es : List Expr} : needsAll es a name ↔ ∃ e ∈ es, e.Needs a name := by
  induction es with
  | nil => simp [needsAll]
  | cons e es ih => simp [needsAll, ih]

theorem needsOption_iff {o : Option Expr} : needsOption o a name ↔ ∃ e ∈ o, e.Needs a name := by
  cases o <;> simp [needsOption]

theorem needsColumns_iff {shown : String → Prop} {ms : List Named} :
    needsColumns shown ms a name ↔ ∃ m ∈ ms, shown m.name ∧ m.expr.Needs a name := by
  induction ms with
  | nil => simp [needsColumns]
  | cons m ms ih => cases m; simp [needsColumns, ih]

theorem needsKeys_iff {ks : List OrderKey} : needsKeys ks a name ↔ ∃ k ∈ ks, k.expr.Needs a name := by
  induction ks with
  | nil => simp [needsKeys]
  | cons k ks ih => cases k; simp [needsKeys, ih]

theorem Expr.needs_operator {e : Expr} (op : e.isOperator = true) : e.Needs a name ↔ ∃ x ∈ e.operands, x.Needs a name := by
  cases e <;> simp [isOperator] at op <;> simp [Needs, operands, needsAll_iff, needsColumns_iff]

/-- What the clauses of a select need, its source apart. -/
def Select.NeedsBeside (shown : String → Prop) (s : Select) (a : Alias) (name : String) : Prop :=
  needsColumns (fun column => s.distinct = true ∨ shown column) s.columns a name ∨ needsOption s.limit a name ∨
    needsOption s.offset a name ∨ needsAll s.groupBy a name ∨ needsOption s.having a name ∨ needsKeys s.orderBy a name ∨
      needsOption s.filter a name

theorem Select.needs_iff {shown : String → Prop} {s : Select} : s.Needs shown a name ↔
    s.NeedsBeside shown a name ∨ ∃ src ∈ s.source, src.Needs (s.NeedsBeside shown) a name := by
  cases s with
  | mk label columns source filter groupBy having orderBy offset limit distinct =>
    cases source with
    | none => simp [Needs, needsSource, NeedsBeside]
    | some src =>
      simp only [Option.mem_some_iff, exists_eq_left']
      exact Iff.rfl

end Parts

end Relational

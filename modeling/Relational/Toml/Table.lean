import Relational.Json.Basic

/-!
# Tables of a configuration document

A document is a tree of tables that its lines fill one by one. A header declares a table once, tables on the way to it
are implied, and a dotted key makes tables of its own kind. A header in double brackets adds a table
to an array, and what follows belongs to the last one. Everything can be given only once.
-/

namespace Relational.Toml

/-- How a table came about. -/
inductive Origin where
  | implied
  | declared
  | dotted
deriving DecidableEq

inductive Node where
  | value (j : Json)
  | table (origin : Origin) (members : List (String × Node))
  | tables (before : List (List (String × Node))) (last : List (String × Node))

abbrev Members := List (String × Node)

/-- Changes the member of a name, or adds one at the end. -/
def change (name : String) (f : Option Node → Option Node) : Members → Option Members
  | [] => do return [(name, ← f none)]
  | (n, node) :: ms =>
    if n = name then do return (n, ← f (some node)) :: ms else do return (n, node) :: (← change name f ms)

/-- Changes the members of the table at a node; of an array of tables the last one. -/
def descend (f : Members → Option Members) : Option Node → Option Node
  | none => (f []).map (.table .implied)
  | some (.table origin ms) => (f ms).map (.table origin)
  | some (.tables before last) => (f last).map (.tables before)
  | some (.value _) => none

/-- Changes the members of the table at a path. -/
def within (f : Members → Option Members) : List String → Members → Option Members
  | [], ms => f ms
  | name :: path, ms => change name (descend (within f path)) ms

/-- A table is declared once, and not where there is something else. -/
def declareNode : Option Node → Option Node
  | none => some (.table .declared [])
  | some (.table .implied ms) => some (.table .declared ms)
  | some _ => none

/-- One more table of an array. -/
def appendNode : Option Node → Option Node
  | none => some (.tables [] [])
  | some (.tables before last) => some (.tables (before ++ [last]) [])
  | some _ => none

/-- Changes what the last name of a path stands for. -/
def atEnd (f : Option Node → Option Node) (path : List String) (ms : Members) : Option Members :=
  match path.getLast? with
  | some name => within (change name f) path.dropLast ms
  | none => none

def declareTable (path : List String) (ms : Members) : Option Members := atEnd declareNode path ms

def appendTable (path : List String) (ms : Members) : Option Members := atEnd appendNode path ms

/-- Gives a value to a key. The tables that a dotted key makes are open to dotted keys only. -/
def assign (j : Json) : List String → Members → Option Members
  | [], _ => none
  | [name], ms => change name (fun node => if node.isNone then some (.value j) else none) ms
  | name :: path, ms =>
    change name (fun
      | none => (assign j path []).map (.table .dotted)
      | some (.table .dotted inner) => (assign j path inner).map (.table .dotted)
      | some _ => none) ms

mutual

def Node.toJson : Node → Json
  | .value j => j
  | .table _ ms => .object (membersToJson ms)
  | .tables before last => .array (tablesToJson before ++ [.object (membersToJson last)])

def membersToJson : List (String × Node) → List (String × Json)
  | [] => []
  | (name, node) :: ms => (name, node.toJson) :: membersToJson ms

def tablesToJson : List (List (String × Node)) → List Json
  | [] => []
  | ms :: rest => .object (membersToJson ms) :: tablesToJson rest

end

end Relational.Toml

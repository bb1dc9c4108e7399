import Relational.Config
import Relational.Json.Printer
import Relational.Json.TreeForm

/-!
# The command line

`translate` shows the statement of a query or the body of a view, and `tables` lists the entities of the configuration. `run`
needs a database. Commands are answered from the texts of the files that they name.
-/

namespace Relational

inductive OutputFormat where
  | table
  | json

inductive Task where
  /-- The query is a file, or `-` for the standard input. -/
  | translate (query : String) (view : Bool)
  | run (query : String)
  | tables

structure Invocation where
  task : Task
  config : Option String
  databaseUrl : Option String
  format : OutputFormat

/-- What has been read of a command line. -/
structure Arguments where
  words : List String := []
  view : Bool := false
  verbose : Bool := false
  config : Option String := none
  databaseUrl : Option String := none
  format : Option OutputFormat := none

def OutputFormat.ofName? : String → Option OutputFormat
  | "table" => some .table
  | "json" => some .json
  | _ => none

namespace Arguments

/-- An option with a value, which can be given once. -/
def set? (a : Arguments) (name value : String) : Option Arguments :=
  if name = "--config" || name = "-c" then
    if a.config.isSome then none else some { a with config := some value }
  else if name = "--database-url" then
    if a.databaseUrl.isSome then none else some { a with databaseUrl := some value }
  else if name = "--format" || name = "-f" then
    if a.format.isSome then none else (OutputFormat.ofName? value).map fun f => { a with format := some f }
  else none

/-- An option without a value. -/
def flag? (a : Arguments) (name : String) : Option Arguments :=
  if name = "--view" then if a.view then none else some { a with view := true }
  else if name = "--verbose" || name = "-v" then if a.verbose then none else some { a with verbose := true }
  else none

/-- An option with its value in one argument, as in `--name=value`, `-nvalue` or `-n=value`. -/
def joined? (a : Arguments) (argument : String) : Option Arguments :=
  match argument.toList with
  | '-' :: '-' :: cs =>
    let name := cs.takeWhile (· != '=')
    match cs.drop name.length with
    | _ :: value => a.set? (String.ofList ('-' :: '-' :: name)) (String.ofList value)
    | [] => none
  | '-' :: c :: value =>
    let value := if value.head? == some '=' then value.tail else value
    a.set? (String.ofList ['-', c]) (String.ofList value)
  | _ => none

/-- Whether an argument is an option that takes the next argument as its value. -/
def takesValue (argument : String) : Bool :=
  ["--config", "-c", "--database-url", "--format", "-f"].contains argument

def read? (a : Arguments) : List String → Option Arguments
  | [] => some a
  | argument :: rest =>
    if takesValue argument then
      match rest with
      | value :: rest => do read? (← a.set? argument value) rest
      | [] => none
    else if argument = "-" || !argument.startsWith "-" then
      read? { a with words := a.words ++ [argument] } rest
    else
      match a.flag? argument with
      | some a => read? a rest
      | none => do read? (← a.joined? argument) rest

end Arguments

/-- The meaning of a command line. -/
def Invocation.parse? (arguments : List String) : Option Invocation := do
  let a ← Arguments.read? {} arguments
  let task ←
    match a.words with
    | ["translate", query] => some (Task.translate query a.view)
    | ["run", query] => if a.view then none else some (Task.run query)
    | ["tables"] => if a.view then none else some Task.tables
    | _ => none
  return ⟨task, a.config, a.databaseUrl, a.format.getD .table⟩

/-- The file with the query, unless it comes from the standard input. -/
def Task.file? : Task → Option String
  | .translate query _ | .run query => if query = "-" then none else some query
  | .tables => none

/-- The files that a command reads. -/
def Invocation.files (i : Invocation) : List String := i.config.toList ++ i.task.file?.toList

/-- Whether a command reads the standard input. -/
def Invocation.readsInput (i : Invocation) : Bool :=
  match i.task with
  | .translate query _ | .run query => query = "-"
  | .tables => false

/-- Why a command fails. -/
inductive CommandFault where
  | library (e : Error)
  | configuration (path : String) (e : Error)
  | missingFile (path : String)
  | noDatabaseUrl
  | notConnected (url : String)

def missingText : String := "No such file or directory (os error 2)"

def CommandFault.message : CommandFault → String
  | library e => e.message
  | configuration path e => "reading " ++ path ++ ": " ++ e.message
  | missingFile path => "reading " ++ path ++ ": " ++ missingText
  | noDatabaseUrl =>
    "no database URL; use --database-url, RELQ_DATABASE_URL or database_url in relq.toml"
  | notConnected url => "connecting to " ++ url ++ ": no database is available"

abbrev Answer := Except CommandFault

/-- The texts that a command has at hand. -/
structure Texts where
  files : List (String × String)
  input : String

def ofLibrary {α : Type} : Result α → Answer α
  | .ok a => .ok a
  | .error e => .error (.library e)

/-- The configuration of a command; without a file it is the one that says nothing. -/
def Invocation.loadConfig (i : Invocation) (texts : Texts) : Answer Config :=
  match i.config with
  | none => .ok {}
  | some path =>
    match texts.files.lookup path with
    | none => .error (.configuration path (.io missingText))
    | some text =>
      match Config.parse text with
      | .ok c => .ok c
      | .error e => .error (.configuration path (.config (.malformed (path ++ ": " ++ e.message))))

def readQuery (query : String) (texts : Texts) : Answer Query :=
  if query = "-" then ofLibrary (Query.parse texts.input)
  else
    match texts.files.lookup query with
    | none => .error (.missingFile query)
    | some text => ofLibrary (Query.parse text)

/-- Lines, each with its end. -/
def unlines (lines : List String) : String := String.join (lines.map (· ++ "\n"))

/-- A text filled with blanks to a width. -/
def padTo (width : Nat) (s : String) : String := s ++ String.ofList (List.replicate (width - s.length) ' ')

def ColumnSchema.line (c : ColumnSchema) : String :=
  "  " ++ padTo 20 c.name ++ " " ++ c.columnTy.name ++ if c.ignored then " (ignored)" else ""

def TableSchema.lines (s : TableSchema) : List String :=
  (s.entity ++ " → " ++ s.storedName) :: s.columns.map ColumnSchema.line

def Config.listing (c : Config) : String :=
  if c.tables.isEmpty then unlines ["(no tables configured)"] else unlines (c.tables.flatMap TableSchema.lines)

def Aggregator.description : Aggregator → String
  | .scalar => "Scalar"
  | .first orDefault => "First \x7b or_default: " ++ toString orDefault ++ " \x7d"
  | .single orDefault => "Single \x7b or_default: " ++ toString orDefault ++ " \x7d"

/-- A statement as a document. -/
def CompiledStatement.document (t : CompiledStatement) : Json :=
  .object [("aggregator", .ofOption (fun a => .string a.description) t.projection.aggregator),
    ("params", .ofStrings (t.parameters.map Cell.literal)), ("sql", .string t.sql)]

/-- The parameters by number. -/
def parameterLines (parameters : List Cell) : List String :=
  parameters.mapIdx fun n c => "  ?" ++ Nat.repr (n + 1) ++ " = " ++ c.literal

/-- A statement for a reader: with its parameters, and with literals in their place if that differs. -/
def CompiledStatement.lines (t : CompiledStatement) : List String :=
  let parameters :=
    if t.parameters.isEmpty then [] else "" :: "Parameters:" :: parameterLines t.parameters
  let literal :=
    match t.projection.select.statement.literalText with
    | .ok text => if text = t.sql then [] else ["", "Inlined:", text]
    | .error _ => []
  "Generated SQL:" :: t.sql :: parameters ++ literal

def showView (format : OutputFormat) (sql : String) : String :=
  match format with
  | .json => unlines [(Json.object [("sql", .string sql)]).compact]
  | .table => unlines [sql]

def showStatement (format : OutputFormat) (t : CompiledStatement) : String :=
  match format with
  | .json => unlines [t.document.pretty 0]
  | .table => unlines t.lines

/-- What a command prints. -/
def Invocation.answer (i : Invocation) (texts : Texts) : Answer String := do
  let config ← i.loadConfig texts
  match i.task with
  | .tables => return config.listing
  | .translate query view => do
    let catalog ← ofLibrary config.catalog
    let q ← readQuery query texts
    if view then return showView i.format (← ofLibrary (q.viewText catalog))
    else return showStatement i.format (← ofLibrary (q.toStatement catalog config.options))
  | .run query => do
    match i.databaseUrl.or config.databaseUrl with
    | none => throw .noDatabaseUrl
    | some url => do
      let _ ← readQuery query texts
      throw (.notConnected url)

/-- How a command ends. -/
structure Outcome where
  exit : Nat
  output : String
  errors : String

def Invocation.outcome (i : Invocation) (texts : Texts) : Outcome :=
  match i.answer texts with
  | .ok output => ⟨0, output, ""⟩
  | .error e => ⟨1, "", "Error: " ++ e.message ++ "\n"⟩

/-- The outcome of a command line that has no meaning. -/
def Outcome.misused : Outcome :=
  ⟨2, "", unlines ["usage: relq [--config FILE] [--database-url URL] [--format table|json] COMMAND",
    "commands: translate [--view] QUERY, run QUERY, tables"]⟩

end Relational

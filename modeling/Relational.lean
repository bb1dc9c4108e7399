import Relational.Alias
import Relational.Command
import Relational.Compile
import Relational.Config
import Relational.Error
import Relational.Json.Basic
import Relational.Json.Fields
import Relational.Json.Parser
import Relational.Json.Printer
import Relational.Json.SchemaForm
import Relational.Json.TreeForm
import Relational.Json.TyForm
import Relational.Json.ValueForm
import Relational.Main
import Relational.Number.Decimal.Arithmetic
import Relational.Number.Decimal.Basic
import Relational.Number.Decimal.Float
import Relational.Number.Decimal.Text
import Relational.Number.Double
import Relational.Number.Power
import Relational.Number.Shortest
import Relational.Number.Word
import Relational.Operator
import Relational.Projection.Columns
import Relational.Projection.Grouping
import Relational.Projection.Merging
import Relational.Projection.Ordering
import Relational.Projection.Pruning
import Relational.Projection.Scope
import Relational.Query.Binding
import Relational.Query.Builder
import Relational.Query.Folding
import Relational.Query.Parameters
import Relational.Result.Reader
import Relational.Result.Row
import Relational.Schema
import Relational.Session
import Relational.Sql.Lexeme
import Relational.Sql.Tree
import Relational.Sql.Statement
import Relational.Text.Blank
import Relational.Text.Case
import Relational.Text.CaseTable
import Relational.Text.InvisibleTable
import Relational.Text.Quoted
import Relational.Text.Search
import Relational.Time.Calendar
import Relational.Time.Layout
import Relational.Time.Timestamp
import Relational.Toml.Reader
import Relational.Toml.Table
import Relational.Tree.Basic
import Relational.Tree.Collect
import Relational.Tree.Evaluate
import Relational.Tree.PostOrder
import Relational.Tree.Same
import Relational.Tree.Substitution
import Relational.Tree.Traverse
import Relational.Tree.Typing
import Relational.Ty
import Relational.Uuid
import Relational.Value.Arithmetic
import Relational.Value.Basic
import Relational.Value.Cell
import Relational.Value.Convert
import Relational.Value.Invoke
import Relational.Value.Member
import Relational.Value.Order
import Relational.Value.Text
import Relational.Proofs.Rows.Sorting
import Relational.Proofs.Rows.Stage
import Relational.Proofs.Rows.Meaning
import Relational.Proofs.Tree.Induction
import Relational.Proofs.Tree.Parts
import Relational.Proofs.Rows.Formed
import Relational.Proofs.Rows.Replacement
import Relational.Proofs.Rows.Simulation
import Relational.Proofs.Rows.Preservation
import Relational.Proofs.Merging.Removal
import Relational.Proofs.Rows.Plain
import Relational.Proofs.Merging.RemovalRows
import Relational.Proofs.Merging.Absorption
import Relational.Proofs.Merging.AbsorptionRows
import Relational.Proofs.Merging.Simplification
import Relational.Proofs.Binding.Lifting
import Relational.Proofs.Binding.Restoring
import Relational.Proofs.Binding.Division
import Relational.Proofs.Binding.Memory
import Relational.Proofs.Binding.Renaming
import Relational.Proofs.Ordering.Shape
import Relational.Proofs.Compilation.Correctness
import Relational.Proofs.Pruning.Exactness
import Relational.Proofs.Pruning.Values
import Relational.Proofs.Scoping.Checking
import Relational.Proofs.Scoping.Faults
import Relational.Proofs.Scoping.Literals
import Relational.Proofs.Execution.Closed
import Relational.Proofs.Sql.Placeholders
import Relational.Proofs.Sql.BinaryTrees
import Relational.Proofs.Sql.Decoding
import Relational.Proofs.Json.Trees
import Relational.Proofs.Lowering.Listing
import Relational.Proofs.Execution.Cardinality
import Relational.Proofs.Lowering.Distinct
import Relational.Proofs.Sql.KeyTerms
import Relational.Proofs.Tree.Nodes
import Relational.Proofs.Tree.References
import Relational.Proofs.Folding.NormalForm
import Relational.Proofs.Folding.Truth
import Relational.Proofs.Folding.Binding
import Relational.Proofs.Execution.Rows
import Relational.Proofs.Values.Comparison
import Relational.Proofs.Values.Integers
import Relational.Proofs.Values.Storage
import Relational.Proofs.Merging.Termination
import Relational.Proofs.Values.Mapping

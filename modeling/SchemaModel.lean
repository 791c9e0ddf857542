import SchemaModel.Json.Value
import SchemaModel.Json.Fault
import SchemaModel.Json.Cursor
import SchemaModel.Json.Read
import SchemaModel.Json.Write
import SchemaModel.Decimal.Binary
import SchemaModel.Decimal.Shortest
import SchemaModel.Decimal.Notation
import SchemaModel.Text.Utf8
import SchemaModel.Text.Blank
import SchemaModel.Text.Percent
import SchemaModel.Error
import SchemaModel.Pointer
import SchemaModel.Text.Upper
import SchemaModel.Text.Escape
import SchemaModel.Model.Type
import SchemaModel.Model.Tag
import SchemaModel.Naming
import SchemaModel.Keyword
import SchemaModel.OrderTable
import SchemaModel.Annotator
import SchemaModel.Document
import SchemaModel.Settings.Basic
import SchemaModel.Settings.Reader
import SchemaModel.Model.Class
import SchemaModel.Store.Basic
import SchemaModel.Registry
import SchemaModel.Compile.Session
import SchemaModel.Compile.Lower
import SchemaModel.Compile.Constraint
import SchemaModel.Compile.Member
import SchemaModel.Compile.Class
import SchemaModel.CommandLine.Similarity
import SchemaModel.CommandLine.Interface
import SchemaModel.CommandLine.Arguments
import SchemaModel.CommandLine.Glob
import SchemaModel.CommandLine.Host
import SchemaModel.CommandLine.Workspace
import SchemaModel.CommandLine.Expand
import SchemaModel.CommandLine.Run
import SchemaModel.Main
import SchemaModel.Proofs.Utf8
import SchemaModel.Proofs.PathSpelling
import SchemaModel.Proofs.PercentRuns
import SchemaModel.Proofs.PresentationOrder
import SchemaModel.Proofs.Steps
import SchemaModel.Proofs.Store
import SchemaModel.Proofs.Lowering
import SchemaModel.Proofs.Registry
import SchemaModel.Proofs.Discovery
import SchemaModel.Proofs.Subtree
import SchemaModel.Proofs.Bounds
import SchemaModel.Proofs.Capacity
import SchemaModel.Proofs.Termination
import SchemaModel.Proofs.TagKinds
import SchemaModel.Proofs.Knobs
import SchemaModel.Proofs.Members
import SchemaModel.Proofs.AccessorTags
import SchemaModel.Proofs.RefChains
import SchemaModel.Proofs.Dispatch
import SchemaModel.Proofs.Bindings
import SchemaModel.Proofs.RegistryCalls
import SchemaModel.Proofs.Identifiers
import SchemaModel.Proofs.AccessorNames
import SchemaModel.Proofs.StoreIdentity
import SchemaModel.Proofs.DocumentNames
import SchemaModel.Proofs.ClassGraph
import SchemaModel.Proofs.ClassSteps
import SchemaModel.Proofs.ClassRanks
import SchemaModel.Proofs.LoopTurns
import SchemaModel.Proofs.Divergence

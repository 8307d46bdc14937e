import DocumentApi.Error
import DocumentApi.Hooks.Dispatch
import DocumentApi.Hooks.Table
import DocumentApi.Json.Reader
import DocumentApi.Json.Writer
import DocumentApi.Model.Declaration
import DocumentApi.Model.Definition
import DocumentApi.Model.Operator
import DocumentApi.Model.Registry
import DocumentApi.Model.Settings
import DocumentApi.Naming.Case
import DocumentApi.Naming.Inflection
import DocumentApi.Naming.Operations
import DocumentApi.Naming.Rule
import DocumentApi.Number.Double
import DocumentApi.Number.Reading
import DocumentApi.Number.Shortest
import DocumentApi.ObjectId
import DocumentApi.Operations.Cascade
import DocumentApi.Operations.Crud
import DocumentApi.Operations.Embedded
import DocumentApi.Operations.Input
import DocumentApi.Operations.Prepare
import DocumentApi.Proofs.Steps
import DocumentApi.Proofs.Tables
import DocumentApi.Proofs.Types.Nesting
import DocumentApi.Schema.Answer
import DocumentApi.Schema.Argument
import DocumentApi.Schema.Basic
import DocumentApi.Schema.Check
import DocumentApi.Schema.Reach
import DocumentApi.Service.Basic
import DocumentApi.Service.Operation
import DocumentApi.Service.Request
import DocumentApi.State
import DocumentApi.Step
import DocumentApi.Store.Column
import DocumentApi.Store.Condition
import DocumentApi.Store.Documents
import DocumentApi.Store.Entry
import DocumentApi.Store.Page
import DocumentApi.Store.Query
import DocumentApi.Store.Request
import DocumentApi.Store.Sort
import DocumentApi.Table
import DocumentApi.Text.Case
import DocumentApi.Text.CaseTable
import DocumentApi.Text.Hex
import DocumentApi.Text.Identifier
import DocumentApi.Text.IdentifierTable
import DocumentApi.Text.Like
import DocumentApi.Text.PrintableTable
import DocumentApi.Text.Quoted
import DocumentApi.Types.Output
import DocumentApi.Types.Shape
import DocumentApi.Types.Synthesis
import DocumentApi.Value.Basic
import DocumentApi.Value.Equality
import DocumentApi.Value.Plain
import DocumentApi.Value.Text
import DocumentApi.Value.Views
import DocumentApi.Value.Weight
import DocumentApi.Proofs.Types.Cache
import DocumentApi.Proofs.Types.Building
import DocumentApi.Proofs.Number.Exact
import DocumentApi.Proofs.Store.Columns
import DocumentApi.Proofs.Store.Queries
import DocumentApi.Proofs.Number.Ceiling
import DocumentApi.Proofs.Store.Pages
import DocumentApi.Proofs.Model.Reachable
import DocumentApi.Proofs.Operations.Preparing
import DocumentApi.Proofs.Operations.Storing
import DocumentApi.Proofs.Operations.Trees
import DocumentApi.Proofs.Operations.Creation
import DocumentApi.Proofs.Types.Outputs
import DocumentApi.Proofs.Types.Values
import DocumentApi.Proofs.Operations.Returning
import DocumentApi.Proofs.Operations.Keeping
import DocumentApi.Proofs.Operations.RoundTrip
import DocumentApi.Proofs.Types.Steady
import DocumentApi.Proofs.Operations.Paging
import DocumentApi.Proofs.Store.Ledger
import DocumentApi.Proofs.Store.Rows
import DocumentApi.Proofs.Operations.Closure
import DocumentApi.Proofs.Operations.Confined
import DocumentApi.Proofs.Operations.Fullness
import DocumentApi.Proofs.Operations.Completeness
import DocumentApi.Proofs.Service.Offers
import DocumentApi.Proofs.Service.ReadOnly
import DocumentApi.Proofs.Store.Orderings
import DocumentApi.Proofs.Operations.Hooked
import DocumentApi.Proofs.Operations.Arrays
import DocumentApi.Proofs.Operations.NestedIds
import DocumentApi.Proofs.Operations.ArrayEdits
import DocumentApi.Proofs.Operations.ElementIds
import DocumentApi.Proofs.Types.Standing
import DocumentApi.Proofs.Service.Surface
import DocumentApi.Proofs.Types.Growth
import DocumentApi.Proofs.Types.History
import DocumentApi.Proofs.Types.Rendering
import DocumentApi.Proofs.Store.Redaction
import DocumentApi.Proofs.Operations.Unseen
import DocumentApi.Proofs.Types.Enums
import DocumentApi.Proofs.Operations.Invocations
import DocumentApi.Proofs.Grants
import DocumentApi.Proofs.Store.Planning
import DocumentApi.Proofs.Operations.Granting
import DocumentApi.Proofs.Operations.Refusals
import DocumentApi.Proofs.Operations.ArrayRefusals
import DocumentApi.Proofs.Types.Supplying
import DocumentApi.Proofs.Operations.Supplying
import DocumentApi.Proofs.Model.Extending
import DocumentApi.Proofs.Model.Completing
import DocumentApi.Proofs.Operations.Payloads
import DocumentApi.Proofs.Types.Joining
import DocumentApi.Proofs.Types.Resuming
import DocumentApi.Proofs.Service.Rebuilding
import DocumentApi.Proofs.Text.Lowering
import DocumentApi.Proofs.Text.Patterns
import DocumentApi.Proofs.Store.Sorting
import DocumentApi.Proofs.Store.Searching
import DocumentApi.Proofs.Naming.Casing
import DocumentApi.Proofs.Naming.Inflecting
import DocumentApi.Proofs.Service.ArrayNames
import DocumentApi.Proofs.Text.Folding
import DocumentApi.Proofs.Store.Containing
import DocumentApi.Proofs.Operations.SubDocuments
import DocumentApi.Proofs.Operations.Identifying
import DocumentApi.Proofs.Operations.Updating
import DocumentApi.Proofs.Operations.TextSearch
import DocumentApi.Proofs.Text.Hexadecimal
import DocumentApi.Proofs.ObjectIds
import DocumentApi.Proofs.Naming.Plurals
import DocumentApi.Proofs.Value.Equality
import DocumentApi.Proofs.Store.Sets
import DocumentApi.Proofs.Value.Plain
import DocumentApi.Proofs.Naming.Spellings

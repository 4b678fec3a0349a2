import GraphExec.Action
import GraphExec.Arguments.Bag
import GraphExec.Arguments.Coercion
import GraphExec.Arguments.Shared
import GraphExec.Decimal.Shortest
import GraphExec.Document.Literal
import GraphExec.Document.Reader
import GraphExec.Document.Syntax
import GraphExec.Draft.Basic
import GraphExec.Draft.Json
import GraphExec.Environment
import GraphExec.Error
import GraphExec.Execution
import GraphExec.Fields
import GraphExec.Json.Basic
import GraphExec.Json.Number
import GraphExec.Json.Reader
import GraphExec.Lazy
import GraphExec.Loader
import GraphExec.Proofs.Arguments
import GraphExec.Proofs.Authorization
import GraphExec.Proofs.Batches
import GraphExec.Proofs.Beginning
import GraphExec.Proofs.Conformance
import GraphExec.Proofs.Defaults
import GraphExec.Proofs.Directives
import GraphExec.Proofs.Document.Apart
import GraphExec.Proofs.Document.Offsets
import GraphExec.Proofs.Draft.Alike
import GraphExec.Proofs.Draft.Content
import GraphExec.Proofs.Draft.Edits
import GraphExec.Proofs.Draft.Effects
import GraphExec.Proofs.Draft.Fallen
import GraphExec.Proofs.Draft.Fixed
import GraphExec.Proofs.Draft.Followed
import GraphExec.Proofs.Draft.Growth
import GraphExec.Proofs.Draft.Lawful
import GraphExec.Proofs.Draft.Null
import GraphExec.Proofs.Draft.Nulled
import GraphExec.Proofs.Draft.Omitted
import GraphExec.Proofs.Draft.Orders
import GraphExec.Proofs.Draft.Plan
import GraphExec.Proofs.Draft.Reading
import GraphExec.Proofs.Draft.Rising
import GraphExec.Proofs.Draft.Shows
import GraphExec.Proofs.Draft.Tidy
import GraphExec.Proofs.Draft.Tree
import GraphExec.Proofs.Draft.Walk
import GraphExec.Proofs.Draft.Written
import GraphExec.Proofs.Endings
import GraphExec.Proofs.Engine
import GraphExec.Proofs.ErrorLists
import GraphExec.Proofs.Errors
import GraphExec.Proofs.Evaluation
import GraphExec.Proofs.Execution
import GraphExec.Proofs.Failures
import GraphExec.Proofs.Fields
import GraphExec.Proofs.Input.Alike
import GraphExec.Proofs.Input.Arguments
import GraphExec.Proofs.Input.Cases
import GraphExec.Proofs.Input.Filled
import GraphExec.Proofs.Input.Fixed
import GraphExec.Proofs.Input.Inhabits
import GraphExec.Proofs.Input.Returns
import GraphExec.Proofs.Inputs
import GraphExec.Proofs.Invariants
import GraphExec.Proofs.Laziness
import GraphExec.Proofs.Loading.Book
import GraphExec.Proofs.Loading.Exchange
import GraphExec.Proofs.Loading.Fair
import GraphExec.Proofs.Loading.Feeds
import GraphExec.Proofs.Loading.Ledger
import GraphExec.Proofs.Loading.Line
import GraphExec.Proofs.Loading.Patience
import GraphExec.Proofs.Loading.Polls
import GraphExec.Proofs.Loading.Refetch
import GraphExec.Proofs.Loading.Served
import GraphExec.Proofs.Loading.Sources
import GraphExec.Proofs.Loading.Tally
import GraphExec.Proofs.Loading.Traffic
import GraphExec.Proofs.Lookahead
import GraphExec.Proofs.Lookahead.Foresight
import GraphExec.Proofs.Lookahead.Inclusion
import GraphExec.Proofs.Lookahead.Walks
import GraphExec.Proofs.Multiplexing
import GraphExec.Proofs.Mutations
import GraphExec.Proofs.Pure.Answers
import GraphExec.Proofs.Pure.Arguments
import GraphExec.Proofs.Pure.Bags
import GraphExec.Proofs.Pure.Builders
import GraphExec.Proofs.Pure.Courses
import GraphExec.Proofs.Pure.Evaluation
import GraphExec.Proofs.Pure.Loads
import GraphExec.Proofs.Pure.Mirrors
import GraphExec.Proofs.Pure.Owed
import GraphExec.Proofs.Pure.Programs
import GraphExec.Proofs.Pure.Recursion
import GraphExec.Proofs.Pure.Requests
import GraphExec.Proofs.Pure.Restarting
import GraphExec.Proofs.Pure.Schedules
import GraphExec.Proofs.Pure.Schema
import GraphExec.Proofs.Pure.Sound
import GraphExec.Proofs.Pure.Stages
import GraphExec.Proofs.Pure.Steps
import GraphExec.Proofs.Pure.Transitions
import GraphExec.Proofs.Pure.Transits
import GraphExec.Proofs.Run.Attended
import GraphExec.Proofs.Run.Awaiting
import GraphExec.Proofs.Run.Bags
import GraphExec.Proofs.Run.Buckets
import GraphExec.Proofs.Run.Calls
import GraphExec.Proofs.Run.Chronicle
import GraphExec.Proofs.Run.Clearance
import GraphExec.Proofs.Run.Comes
import GraphExec.Proofs.Run.Conforms
import GraphExec.Proofs.Run.Consultations
import GraphExec.Proofs.Run.Course
import GraphExec.Proofs.Run.Deeds
import GraphExec.Proofs.Run.Descent
import GraphExec.Proofs.Run.Effects
import GraphExec.Proofs.Run.Events
import GraphExec.Proofs.Run.Falls
import GraphExec.Proofs.Run.Fatal
import GraphExec.Proofs.Run.Flattening
import GraphExec.Proofs.Run.Flush
import GraphExec.Proofs.Run.Forced
import GraphExec.Proofs.Run.Forcing
import GraphExec.Proofs.Run.Frame
import GraphExec.Proofs.Run.Futures
import GraphExec.Proofs.Run.Grouping
import GraphExec.Proofs.Run.Inquiries
import GraphExec.Proofs.Run.Loads
import GraphExec.Proofs.Run.Lockstep
import GraphExec.Proofs.Run.Log
import GraphExec.Proofs.Run.Order
import GraphExec.Proofs.Run.Origins
import GraphExec.Proofs.Run.Outcome
import GraphExec.Proofs.Run.Parts
import GraphExec.Proofs.Run.Passes
import GraphExec.Proofs.Run.Refusals
import GraphExec.Proofs.Run.Reports
import GraphExec.Proofs.Run.Restarts
import GraphExec.Proofs.Run.Scope
import GraphExec.Proofs.Run.Secured
import GraphExec.Proofs.Run.Serial
import GraphExec.Proofs.Run.Shares
import GraphExec.Proofs.Run.Sound
import GraphExec.Proofs.Run.Spans
import GraphExec.Proofs.Run.Stories
import GraphExec.Proofs.Run.Transitions
import GraphExec.Proofs.Run.Ways
import GraphExec.Proofs.Run.Weave
import GraphExec.Proofs.Run.Written
import GraphExec.Proofs.Schema.Coherence
import GraphExec.Proofs.Schema.Loaded
import GraphExec.Proofs.Schema.Possible
import GraphExec.Proofs.Schema.Verdict
import GraphExec.Proofs.Selections
import GraphExec.Proofs.Sharing
import GraphExec.Proofs.Substitution
import GraphExec.Proofs.Success
import GraphExec.Proofs.Termination.Burdens
import GraphExec.Proofs.Termination.Chains
import GraphExec.Proofs.Termination.Depth
import GraphExec.Proofs.Termination.Duties
import GraphExec.Proofs.Termination.Fetches
import GraphExec.Proofs.Termination.Polls
import GraphExec.Proofs.Termination.Regular
import GraphExec.Proofs.Termination.Rounds
import GraphExec.Proofs.Termination.Stages
import GraphExec.Proofs.Tracing
import GraphExec.Proofs.TypeSyntax
import GraphExec.Proofs.Variables
import GraphExec.Request
import GraphExec.Resolved
import GraphExec.Response
import GraphExec.Run.Completion
import GraphExec.Run.Directive
import GraphExec.Run.Field
import GraphExec.Run.Item
import GraphExec.Run.Object
import GraphExec.Run.Schedule
import GraphExec.Run.State
import GraphExec.Schema.Basic
import GraphExec.Schema.Builder
import GraphExec.Schema.Scalar
import GraphExec.Script.Declaration
import GraphExec.Script.Evaluation
import GraphExec.Script.Expr
import GraphExec.Script.Outcome
import GraphExec.Script.Scenario
import GraphExec.Selection.Grouping
import GraphExec.Selection.Lookahead
import GraphExec.Text.Blank
import GraphExec.Text.Hidden
import GraphExec.Text.Shown
import GraphExec.TypeRef
import GraphExec.Value

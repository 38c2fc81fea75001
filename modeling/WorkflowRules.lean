import WorkflowRules.Collection.Keyed
import WorkflowRules.Collection.NameSet
import WorkflowRules.Collection.SortBy
import WorkflowRules.Condition.Codec
import WorkflowRules.Condition.Evaluate
import WorkflowRules.Condition.Path
import WorkflowRules.Condition.Tree
import WorkflowRules.Config
import WorkflowRules.Engine.Action
import WorkflowRules.Engine.Cascade
import WorkflowRules.Engine.Describe
import WorkflowRules.Engine.Handler
import WorkflowRules.Engine.Lifecycle
import WorkflowRules.Engine.Management
import WorkflowRules.Engine.State
import WorkflowRules.Engine.Transition
import WorkflowRules.Error
import WorkflowRules.Event.Basic
import WorkflowRules.Event.Identifier
import WorkflowRules.Http.Api
import WorkflowRules.Http.ContentType
import WorkflowRules.Http.Target
import WorkflowRules.Json.Basic
import WorkflowRules.Json.Print
import WorkflowRules.Json.Problem
import WorkflowRules.Json.Reader
import WorkflowRules.Json.Record
import WorkflowRules.Json.Scan
import WorkflowRules.Json.Token
import WorkflowRules.Metadata
import WorkflowRules.Number.Binary64
import WorkflowRules.Number.Rounding
import WorkflowRules.Number.Shortest
import WorkflowRules.Operation
import WorkflowRules.Proofs.Cascade.Adequacy
import WorkflowRules.Proofs.Cascade.Bulkhead
import WorkflowRules.Proofs.Cascade.Causes
import WorkflowRules.Proofs.Cascade.CycleGuard
import WorkflowRules.Proofs.Cascade.Depth
import WorkflowRules.Proofs.Cascade.Fallbacks
import WorkflowRules.Proofs.Cascade.Invocations
import WorkflowRules.Proofs.Cascade.Limit
import WorkflowRules.Proofs.Cascade.Parts
import WorkflowRules.Proofs.Cascade.Published
import WorkflowRules.Proofs.Cascade.Records
import WorkflowRules.Proofs.Cascade.Request
import WorkflowRules.Proofs.Cascade.Sample
import WorkflowRules.Proofs.Cascade.Semantics
import WorkflowRules.Proofs.Cascade.Senders
import WorkflowRules.Proofs.Cascade.Stream
import WorkflowRules.Proofs.Cascade.Termination
import WorkflowRules.Proofs.Cascade.Trails
import WorkflowRules.Proofs.Cascade.Tree
import WorkflowRules.Proofs.Cascade.Triggers
import WorkflowRules.Proofs.Condition.Codec
import WorkflowRules.Proofs.Condition.Duality
import WorkflowRules.Proofs.Condition.Equality
import WorkflowRules.Proofs.Condition.Fallbacks
import WorkflowRules.Proofs.Condition.Path
import WorkflowRules.Proofs.Encoding
import WorkflowRules.Proofs.Engine.Administration
import WorkflowRules.Proofs.Engine.AllOrNothing
import WorkflowRules.Proofs.Engine.Announced
import WorkflowRules.Proofs.Engine.Checked
import WorkflowRules.Proofs.Engine.Closed
import WorkflowRules.Proofs.Engine.Commands
import WorkflowRules.Proofs.Engine.Confined
import WorkflowRules.Proofs.Engine.EventNames
import WorkflowRules.Proofs.Engine.Evolution
import WorkflowRules.Proofs.Engine.Forecast
import WorkflowRules.Proofs.Engine.Found
import WorkflowRules.Proofs.Engine.History
import WorkflowRules.Proofs.Engine.InStep
import WorkflowRules.Proofs.Engine.Lapses
import WorkflowRules.Proofs.Engine.Lawful
import WorkflowRules.Proofs.Engine.Listening
import WorkflowRules.Proofs.Engine.Management
import WorkflowRules.Proofs.Engine.Observed
import WorkflowRules.Proofs.Engine.OwnNames
import WorkflowRules.Proofs.Engine.Races
import WorkflowRules.Proofs.Engine.Readable
import WorkflowRules.Proofs.Engine.Rebuilt
import WorkflowRules.Proofs.Engine.Reordered
import WorkflowRules.Proofs.Engine.Reserved
import WorkflowRules.Proofs.Engine.Respected
import WorkflowRules.Proofs.Engine.Restart
import WorkflowRules.Proofs.Engine.Settled
import WorkflowRules.Proofs.Engine.Tables
import WorkflowRules.Proofs.Engine.Untouched
import WorkflowRules.Proofs.Except
import WorkflowRules.Proofs.Http.Requests
import WorkflowRules.Proofs.Json.Equality
import WorkflowRules.Proofs.Json.Fits
import WorkflowRules.Proofs.Json.Ordered
import WorkflowRules.Proofs.Json.Printed
import WorkflowRules.Proofs.Json.Readers
import WorkflowRules.Proofs.Json.Records
import WorkflowRules.Proofs.Json.Tokens
import WorkflowRules.Proofs.Metadata
import WorkflowRules.Proofs.Metadata.Unknown
import WorkflowRules.Proofs.Number.Nearest
import WorkflowRules.Proofs.Operation
import WorkflowRules.Proofs.Rule.Codec
import WorkflowRules.Proofs.Rule.Index
import WorkflowRules.Proofs.Rule.Order
import WorkflowRules.Proofs.Rule.Table
import WorkflowRules.Proofs.Rule.WellFormed
import WorkflowRules.Proofs.Store.Account
import WorkflowRules.Proofs.Store.Atomicity
import WorkflowRules.Proofs.Store.Calls
import WorkflowRules.Proofs.Store.Cells
import WorkflowRules.Proofs.Store.Commit
import WorkflowRules.Proofs.Store.Flights
import WorkflowRules.Proofs.Store.Housing
import WorkflowRules.Proofs.Store.Interchange
import WorkflowRules.Proofs.Store.Mirror
import WorkflowRules.Proofs.Store.Readable
import WorkflowRules.Proofs.Store.Retention
import WorkflowRules.Proofs.Store.Rows
import WorkflowRules.Proofs.Store.Tables
import WorkflowRules.Proofs.Store.Tidy
import WorkflowRules.Proofs.Store.Written
import WorkflowRules.Proofs.Text.Digits
import WorkflowRules.Proofs.Time.Calendar
import WorkflowRules.Proofs.Time.RoundTrip
import WorkflowRules.Proofs.Workflow.Ambiguity
import WorkflowRules.Proofs.Workflow.Codec
import WorkflowRules.Proofs.Workflow.Reachability
import WorkflowRules.Proofs.Workflow.Strict
import WorkflowRules.Proofs.Workflow.Unreachable
import WorkflowRules.Rule.Basic
import WorkflowRules.Rule.Check
import WorkflowRules.Rule.Record
import WorkflowRules.Rule.Table
import WorkflowRules.Store
import WorkflowRules.Store.Address
import WorkflowRules.Store.Basic
import WorkflowRules.Store.Cell
import WorkflowRules.Store.Database
import WorkflowRules.Store.Directory
import WorkflowRules.Store.Memory
import WorkflowRules.Text.Digits
import WorkflowRules.Text.Escape
import WorkflowRules.Text.Invisible
import WorkflowRules.Text.Percent
import WorkflowRules.Text.Split
import WorkflowRules.Text.Utf8
import WorkflowRules.Text.WhiteSpace
import WorkflowRules.Time.Calendar
import WorkflowRules.Time.Rfc3339
import WorkflowRules.Time.Timestamp
import WorkflowRules.Workflow.Check
import WorkflowRules.Workflow.Definition
import WorkflowRules.Workflow.Instance
import WorkflowRules.Workflow.Reachability

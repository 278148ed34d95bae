import StreamPipeline.Binary64
import StreamPipeline.Concurrent.Activity
import StreamPipeline.Concurrent.Call
import StreamPipeline.Concurrent.LockTable
import StreamPipeline.Concurrent.Part
import StreamPipeline.Configuration
import StreamPipeline.Coordinate
import StreamPipeline.Definition.Basic
import StreamPipeline.Definition.Draft
import StreamPipeline.Definition.Stage
import StreamPipeline.Definition.Typing
import StreamPipeline.Deploy.Basic
import StreamPipeline.Deploy.Direct
import StreamPipeline.Deploy.Launcher
import StreamPipeline.Digest
import StreamPipeline.Duration
import StreamPipeline.Event
import StreamPipeline.Failure
import StreamPipeline.Format.Definition
import StreamPipeline.Format.Release
import StreamPipeline.Format.Service
import StreamPipeline.Format.Status
import StreamPipeline.Json.Decode
import StreamPipeline.Json.Printer
import StreamPipeline.Json.Reader
import StreamPipeline.Json.Value
import StreamPipeline.Partition
import StreamPipeline.Poller
import StreamPipeline.Proofs.Aggregation
import StreamPipeline.Proofs.Built
import StreamPipeline.Proofs.Concurrent.Alone
import StreamPipeline.Proofs.Concurrent.Interleaving
import StreamPipeline.Proofs.Concurrent.Locked
import StreamPipeline.Proofs.Concurrent.Progress
import StreamPipeline.Proofs.Concurrent.Serialized
import StreamPipeline.Proofs.Concurrent.Spared
import StreamPipeline.Proofs.Concurrent.Timed
import StreamPipeline.Proofs.Consumers
import StreamPipeline.Proofs.Definition
import StreamPipeline.Proofs.Deploy.Accounted
import StreamPipeline.Proofs.Deploy.Complete
import StreamPipeline.Proofs.Deploy.Direct
import StreamPipeline.Proofs.Deploy.Launches
import StreamPipeline.Proofs.Digest
import StreamPipeline.Proofs.Draft
import StreamPipeline.Proofs.Format.Definition
import StreamPipeline.Proofs.Json.Decode
import StreamPipeline.Proofs.Json.Written
import StreamPipeline.Proofs.Labels
import StreamPipeline.Proofs.Outcome
import StreamPipeline.Proofs.Partition
import StreamPipeline.Proofs.Pointwise
import StreamPipeline.Proofs.Polling.Complete
import StreamPipeline.Proofs.Polling.Schedule
import StreamPipeline.Proofs.Polling.Timed
import StreamPipeline.Proofs.Properties
import StreamPipeline.Proofs.Release.Advancing
import StreamPipeline.Proofs.Release.Command
import StreamPipeline.Proofs.Release.Computed
import StreamPipeline.Proofs.Release.Documents
import StreamPipeline.Proofs.Release.Excerpt
import StreamPipeline.Proofs.Release.History
import StreamPipeline.Proofs.Release.Incremental
import StreamPipeline.Proofs.Release.Independent
import StreamPipeline.Proofs.Release.Lifecycle
import StreamPipeline.Proofs.Release.Lineage
import StreamPipeline.Proofs.Release.Live
import StreamPipeline.Proofs.Release.Manifests
import StreamPipeline.Proofs.Release.Moves
import StreamPipeline.Proofs.Release.Override
import StreamPipeline.Proofs.Release.Package
import StreamPipeline.Proofs.Release.Pinned
import StreamPipeline.Proofs.Release.Reconciled
import StreamPipeline.Proofs.Release.Repackaged
import StreamPipeline.Proofs.Release.Repartitioned
import StreamPipeline.Proofs.Release.Repeated
import StreamPipeline.Proofs.Release.Reports
import StreamPipeline.Proofs.Release.Restricted
import StreamPipeline.Proofs.Release.Rollback
import StreamPipeline.Proofs.Release.Stable
import StreamPipeline.Proofs.Release.Stored
import StreamPipeline.Proofs.Release.Updated
import StreamPipeline.Proofs.Release.Uploads
import StreamPipeline.Proofs.Release.Versions
import StreamPipeline.Proofs.Request
import StreamPipeline.Proofs.Roles
import StreamPipeline.Proofs.SemVer
import StreamPipeline.Proofs.Service.Atomic
import StreamPipeline.Proofs.Service.Concurrent
import StreamPipeline.Proofs.Service.Deployment
import StreamPipeline.Proofs.Service.Events
import StreamPipeline.Proofs.Service.Idle
import StreamPipeline.Proofs.Service.Independent
import StreamPipeline.Proofs.Service.Manifests
import StreamPipeline.Proofs.Service.Operation
import StreamPipeline.Proofs.Service.Orphans
import StreamPipeline.Proofs.Service.Owned
import StreamPipeline.Proofs.Service.Reconciled
import StreamPipeline.Proofs.Service.Run
import StreamPipeline.Proofs.Service.Spared
import StreamPipeline.Proofs.Service.Staged
import StreamPipeline.Proofs.Simulation.Content
import StreamPipeline.Proofs.Simulation.Excerpt
import StreamPipeline.Proofs.Simultaneous
import StreamPipeline.Proofs.State
import StreamPipeline.Proofs.StringMap
import StreamPipeline.Proofs.Targeted
import StreamPipeline.Proofs.Wiring
import StreamPipeline.Proofs.Yaml.Cells
import StreamPipeline.Proofs.Yaml.Decode
import StreamPipeline.Proofs.Yaml.Documents
import StreamPipeline.Proofs.Yaml.Lexer
import StreamPipeline.Proofs.Yaml.Literal
import StreamPipeline.Proofs.Yaml.Node
import StreamPipeline.Proofs.Yaml.Plain
import StreamPipeline.Proofs.Yaml.Quoted
import StreamPipeline.Proofs.Yaml.Tree
import StreamPipeline.Proofs.Yaml.Words
import StreamPipeline.Proofs.Yaml.Written
import StreamPipeline.Properties
import StreamPipeline.Registry
import StreamPipeline.Release.Basic
import StreamPipeline.Release.Ledger
import StreamPipeline.Release.Lifecycle
import StreamPipeline.Release.Manager
import StreamPipeline.Release.Manifest
import StreamPipeline.Release.Override
import StreamPipeline.Release.Package
import StreamPipeline.Release.Spec
import StreamPipeline.Request
import StreamPipeline.Role
import StreamPipeline.Samples
import StreamPipeline.SemVer
import StreamPipeline.Service
import StreamPipeline.Simulation.CallLog
import StreamPipeline.Simulation.Disturbance
import StreamPipeline.Simulation.Script
import StreamPipeline.Simulation.World
import StreamPipeline.State
import StreamPipeline.Status
import StreamPipeline.Store
import StreamPipeline.StringMap
import StreamPipeline.Text.Blank
import StreamPipeline.Text.Decimal
import StreamPipeline.Text.Printable
import StreamPipeline.Text.Quoted
import StreamPipeline.Timestamp
import StreamPipeline.Yaml.Cell
import StreamPipeline.Yaml.Char
import StreamPipeline.Yaml.Decode
import StreamPipeline.Yaml.Implicit
import StreamPipeline.Yaml.Node
import StreamPipeline.Yaml.Printer
import StreamPipeline.Yaml.Scalar
import StreamPipeline.Yaml.Style
import StreamPipeline.Yaml.Token
import StreamPipeline.Yaml.Tokens
import StreamPipeline.Yaml.Tree
import StreamPipeline.Proofs.Concurrent.Pruned
import StreamPipeline.Proofs.Release.Repinned

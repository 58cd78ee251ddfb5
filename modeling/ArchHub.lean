import ArchHub.Accounts.Companies
import ArchHub.Accounts.Conservation
import ArchHub.Accounts.Credits
import ArchHub.Accounts.Deliveries
import ArchHub.Accounts.Hosted
import ArchHub.Accounts.Redelivery
import ArchHub.Accounts.Seats
import ArchHub.Accounts.SignIn
import ArchHub.Accounts.TestAccounts
import ArchHub.Accounts.Turns
import ArchHub.Accounts.Webhook
import ArchHub.Cells.Accumulator
import ArchHub.Cells.Archive
import ArchHub.Cells.Balance
import ArchHub.Cells.Commitments
import ArchHub.Cells.Content
import ArchHub.Cells.Deliberation
import ArchHub.Cells.Edits
import ArchHub.Cells.Fingerprint
import ArchHub.Cells.Head
import ArchHub.Cells.History
import ArchHub.Cells.Incoming
import ArchHub.Cells.Layout
import ArchHub.Cells.Match
import ArchHub.Cells.Migration
import ArchHub.Cells.OneValue
import ArchHub.Cells.Projection
import ArchHub.Cells.Protocol
import ArchHub.Cells.Relation
import ArchHub.Cells.Reuse
import ArchHub.Cells.Rewrite
import ArchHub.Cells.Store
import ArchHub.Cells.Transition
import ArchHub.Cells.ValueGraph
import ArchHub.Cells.ValueRead
import ArchHub.Cloud.Cursor
import ArchHub.Cloud.Isolation
import ArchHub.Cloud.Market
import ArchHub.Cloud.Merge
import ArchHub.Cloud.Rejected
import ArchHub.Cloud.Rest
import ArchHub.Cloud.Routes
import ArchHub.Cloud.Scan
import ArchHub.Cloud.Sync
import ArchHub.Cloud.Table
import ArchHub.Compiler.Arity
import ArchHub.Compiler.Calls
import ArchHub.Compiler.Conduct
import ArchHub.Compiler.Leaving
import ArchHub.Compiler.Provenance
import ArchHub.Compiler.Tightened
import ArchHub.Compiler.Value
import ArchHub.Conversation.Calls
import ArchHub.Conversation.Counting
import ArchHub.Conversation.Effects
import ArchHub.Conversation.Identity
import ArchHub.Conversation.Indexes
import ArchHub.Conversation.Page
import ArchHub.Conversation.Paging
import ArchHub.Conversation.Retention
import ArchHub.Conversation.Runs
import ArchHub.Conversation.Store
import ArchHub.Conversation.Survival
import ArchHub.Conversation.Walk
import ArchHub.Flow.Builder
import ArchHub.Flow.Import
import ArchHub.Hooks.Approval
import ArchHub.Hooks.Decide
import ArchHub.Hooks.Event
import ArchHub.Hooks.Once
import ArchHub.Hooks.Trifecta
import ArchHub.Lease.Agreement
import ArchHub.Lease.Effects
import ArchHub.Lease.Listing
import ArchHub.Lease.Lockstep
import ArchHub.Lease.Presence
import ArchHub.Lease.Promises
import ArchHub.Lease.Record
import ArchHub.Lease.Retirement
import ArchHub.Lib.Bounded
import ArchHub.Lib.Check
import ArchHub.Lib.Concurrent
import ArchHub.Lib.Cut
import ArchHub.Lib.Dict
import ArchHub.Lib.Exec
import ArchHub.Lib.Folder
import ArchHub.Lib.Framing
import ArchHub.Lib.Graph
import ArchHub.Lib.Histories
import ArchHub.Lib.Json
import ArchHub.Lib.LastWriter
import ArchHub.Lib.Linked
import ArchHub.Lib.Naming
import ArchHub.Lib.Newest
import ArchHub.Lib.Paging
import ArchHub.Lib.Paths
import ArchHub.Lib.Pattern
import ArchHub.Lib.Rely
import ArchHub.Lib.Requests
import ArchHub.Lib.Rows
import ArchHub.Lib.Search
import ArchHub.Lib.Tally
import ArchHub.Lib.Transition
import ArchHub.Lib.Trim
import ArchHub.Lib.Undo
import ArchHub.Lib.Versions
import ArchHub.Lib.Weight
import ArchHub.Mcp.Binding
import ArchHub.Mcp.Bound
import ArchHub.Mcp.Displaced
import ArchHub.Mcp.Families
import ArchHub.Mcp.Filings
import ArchHub.Mcp.Flow
import ArchHub.Mcp.Frame
import ArchHub.Mcp.Lanes
import ArchHub.Mcp.Orderly
import ArchHub.Mcp.Replay
import ArchHub.Mcp.Service
import ArchHub.Mcp.Tables
import ArchHub.Params.Coerce
import ArchHub.Params.Dataset
import ArchHub.Python.Value
import ArchHub.Relay.Claims
import ArchHub.Relay.Effects
import ArchHub.Relay.Queue
import ArchHub.Stem.Each
import ArchHub.Stem.Grammar
import ArchHub.Stem.Rule
import ArchHub.Stem.Shape
import ArchHub.Stem.Switch
import ArchHub.Stem.Value
import ArchHub.Table.Apply
import ArchHub.Table.Frame
import ArchHub.Table.Gates
import ArchHub.Table.History
import ArchHub.Table.LawsEffect
import ArchHub.Table.Node
import ArchHub.Table.Ordered
import ArchHub.Table.Pull
import ArchHub.Table.Relation
import ArchHub.Table.Reverts
import ArchHub.Table.Snapshot
import ArchHub.Table.Store
import ArchHub.Table.Tokens
import ArchHub.Table.Validity
import ArchHub.Tasks.Calls
import ArchHub.Tasks.Capacity
import ArchHub.Tasks.Lease
import ArchHub.Tasks.Revision
import ArchHub.Tasks.Steps
import ArchHub.Tasks.Table
import ArchHub.Update.Boots
import ArchHub.Update.Cleanup
import ArchHub.Update.Entries
import ArchHub.Update.Recovery
import ArchHub.Update.Release
import ArchHub.Update.Safety
import ArchHub.Update.Stage
import ArchHub.Update.Tidy
import ArchHub.Witness.Protocol
import ArchHub.Witness.Recovery
import ArchHub.Witness.Rollback
import ArchHub.Work.Document
import ArchHub.Work.Matching
import ArchHub.Work.Merging
import ArchHub.Work.Project
import ArchHub.Work.Projected
import ArchHub.Work.Redact
import ArchHub.Work.Reimport
import ArchHub.Work.Undoing
import ArchHub.Work.Validity
import ArchHub.Workshop.Expiry
import ArchHub.Workshop.Room

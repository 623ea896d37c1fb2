import NexusFlow.Lib.Fold
import NexusFlow.Lib.Tarjan
import NexusFlow.Lib.TarjanRun
import NexusFlow.Lib.Worklist
import NexusFlow.Lib.BoundedWalk
import NexusFlow.Lib.KeyMap
import NexusFlow.Lib.Trace
import NexusFlow.Lib.NumberedLog
import NexusFlow.Foundation.Change
import NexusFlow.Foundation.View
import NexusFlow.Foundation.Rename
import NexusFlow.Foundation.Text
import NexusFlow.Foundation.Op
import NexusFlow.Foundation.Store
import NexusFlow.Foundation.Ingest
import NexusFlow.Foundation.Clock
import NexusFlow.Foundation.Watermark
import NexusFlow.Foundation.Image
import NexusFlow.Core.Model
import NexusFlow.Core.TaskReducer
import NexusFlow.Core.TaskFold
import NexusFlow.Core.Store
import NexusFlow.Core.ArrivalOrder
import NexusFlow.Core.Rebuild
import NexusFlow.Core.Converge
import NexusFlow.Core.SharedFile
import NexusFlow.Core.Remap
import NexusFlow.Core.RemapOps
import NexusFlow.Core.RemapFold
import NexusFlow.Core.RemapRace
import NexusFlow.Core.Graph
import NexusFlow.Core.Derive
import NexusFlow.Core.LanesAgree
import NexusFlow.Core.TagTables
import NexusFlow.Core.ObservedRemove
import NexusFlow.Core.ParentMigration
import NexusFlow.Run.Contracts
import NexusFlow.Run.Flow
import NexusFlow.Run.State
import NexusFlow.Run.Effects
import NexusFlow.Run.Guard
import NexusFlow.Run.Input
import NexusFlow.Run.Evolve
import NexusFlow.Run.Decide
import NexusFlow.Run.Keys
import NexusFlow.Run.Records
import NexusFlow.Run.Coherent
import NexusFlow.Run.Accepts
import NexusFlow.Run.Sessions
import NexusFlow.Run.Stops
import NexusFlow.Run.Firings
import NexusFlow.Run.Routes
import NexusFlow.Run.Transitions
import NexusFlow.Run.Steps
import NexusFlow.Run.Places
import NexusFlow.Run.Moves
import NexusFlow.Run.Journey
import NexusFlow.Run.Invariant
import NexusFlow.Run.Runs
import NexusFlow.Run.Finish
import NexusFlow.Run.Owed
import NexusFlow.Run.Changes
import NexusFlow.Run.Ladders
import NexusFlow.Run.Signals
import NexusFlow.Run.Front
import NexusFlow.Run.Watches
import NexusFlow.Run.Questions
import NexusFlow.Run.Claimed
import NexusFlow.Run.Reports
import NexusFlow.Run.Ending
import NexusFlow.Host.Log
import NexusFlow.Host.Store
import NexusFlow.Host.Calls
import NexusFlow.Host.TimerIndex
import NexusFlow.Host.Hosts
import NexusFlow.Host.Claims
import NexusFlow.Host.Released
import NexusFlow.Host.Lease
import NexusFlow.Host.LogKeys
import NexusFlow.Host.Inputs
import NexusFlow.Server.OpStore
import NexusFlow.Server.Rounds
import NexusFlow.Server.DynamoDb
import NexusFlow.Server.Relays
import NexusFlow.Server.Appenders
import NexusFlow.Server.Ordering
import NexusFlow.Lib.Program
import NexusFlow.Sync.Engine
import NexusFlow.Core.Alone
import NexusFlow.Core.Sheet
import NexusFlow.Facade.Effects
import NexusFlow.Server.Registry
import NexusFlow.Facade.Assignments
import NexusFlow.Facade.ClosedAt
import NexusFlow.Facade.Hierarchy
import NexusFlow.Chat.Commission
import NexusFlow.Chat.Consolidation
import NexusFlow.Chat.HandOver
import NexusFlow.Chat.Withdrawal
import NexusFlow.Core.NextCache
import NexusFlow.Facade.PagedRuns
import NexusFlow.Facade.PresentParent
import NexusFlow.Hosted.Layout
import NexusFlow.Hosted.Table
import NexusFlow.Lib.Json
import NexusFlow.Lib.Shape
import NexusFlow.Run.Shift
import NexusFlow.Run.ShiftedRuns
import NexusFlow.Run.Unknown
import NexusFlow.Run.Wire
import NexusFlow.Chat.LeaseInstants
import NexusFlow.Chat.Threads
import NexusFlow.Core.Codecs
import NexusFlow.Core.LanesPartition
import NexusFlow.Core.Merging
import NexusFlow.Core.Rewrite
import NexusFlow.Core.Touched
import NexusFlow.Facade.Cascades
import NexusFlow.Facade.ClaimUp
import NexusFlow.Facade.Dates
import NexusFlow.Foundation.Canonical
import NexusFlow.Hosted.Board
import NexusFlow.Hosted.Fold
import NexusFlow.Hosted.IndexAttributes
import NexusFlow.Hosted.Refusals
import NexusFlow.Memory.MemoryRow
import NexusFlow.Sync.Pushes
import NexusFlow.Sync.Wire
import NexusFlow.Chat.Promotions

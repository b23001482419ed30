import MiniAgent.Lib.Call
import MiniAgent.Turn.Fidelity
import MiniAgent.Jobs.Conservation
import MiniAgent.Jobs.Queueing
import MiniAgent.Jobs.Scopes
import MiniAgent.Queue.Delivery
import MiniAgent.Queue.Lockstep
import MiniAgent.Events.Order
import MiniAgent.Store.Nodes
import MiniAgent.Lib.Matching
import MiniAgent.Store.Effects
import MiniAgent.Store.Running
import MiniAgent.Lib.Climb
import MiniAgent.Store.Forest
import MiniAgent.Lib.Optimistic
import MiniAgent.Store.Reports
import MiniAgent.Store.Interleaving
import MiniAgent.Store.Anchors
import MiniAgent.Turn.Likewise
import MiniAgent.Turn.Sent
import MiniAgent.Events.ActiveTurn
import MiniAgent.Todo.Operations
import MiniAgent.Todo.Values
import MiniAgent.Todo.Store
import MiniAgent.Todo.Refinement
import MiniAgent.Todo.Contract
import MiniAgent.Todo.Equivalence
import MiniAgent.Turn.Atomicity
import MiniAgent.Provider.Message
import MiniAgent.Provider.Wire
import MiniAgent.Provider.Pairing
import MiniAgent.Lib.Fragments
import MiniAgent.Provider.Messages
import MiniAgent.Provider.BlockStream
import MiniAgent.Context.Exchange
import MiniAgent.Context.Completed
import MiniAgent.Provider.ChatCompletions
import MiniAgent.Provider.Choices
import MiniAgent.Provider.Chunking
import MiniAgent.Provider.Responses
import MiniAgent.Provider.Transport
import MiniAgent.Provider.Client
import MiniAgent.Provider.Retries
import MiniAgent.Api.TurnStart
import MiniAgent.Api.Started
import MiniAgent.Turn.Acceptance
import MiniAgent.Recovery.Executor
import MiniAgent.Recovery.Outcomes
import MiniAgent.Bridge.Writes
import MiniAgent.Files.Editing
import MiniAgent.Files.Lines
import MiniAgent.Queue.Direct
import MiniAgent.Store.Compaction
import MiniAgent.Context.Compacted
import MiniAgent.Bridge.Config
import MiniAgent.Context.Management
import MiniAgent.Provider.Failures
import MiniAgent.Provider.OutputItems
import MiniAgent.Provider.Preview
import MiniAgent.Files.Glob
import MiniAgent.Jobs.Output
import MiniAgent.Store.Ancestors
import MiniAgent.Files.Paging
import MiniAgent.Lib.Positions
import MiniAgent.Todo.Batches
import MiniAgent.Lib.JsonText
import MiniAgent.Turn.Codec
import MiniAgent.Files.Paths
import MiniAgent.Files.Confinement
import MiniAgent.Files.Displayed
import MiniAgent.Store.Snapshots
import MiniAgent.Bridge.Items
import MiniAgent.Bridge.Events
import MiniAgent.Bridge.Drafts
import MiniAgent.Bridge.Mirror
import MiniAgent.Bridge.Runs
import MiniAgent.Bridge.Changes
import MiniAgent.Bridge.Ends
import MiniAgent.Bridge.Histories
import MiniAgent.Bridge.Deliveries
import MiniAgent.Bridge.Speech

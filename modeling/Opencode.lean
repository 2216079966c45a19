import Opencode.Lib.Run
import Opencode.Lib.RootPath
import Opencode.Lib.History
import Opencode.Lib.Json
import Opencode.Lib.Memory
import Opencode.Lib.Recent
import Opencode.Lib.Changes
import Opencode.Lib.Decimal
import Opencode.Lib.Alternation
import Opencode.Lib.Preorder
import Opencode.Lib.Walks
import Opencode.Lib.Traverse
import Opencode.Lib.Paging
import Opencode.Lib.Settle
import Opencode.Lib.Reactive
import Opencode.Orders.Model
import Opencode.Orders.Operations
import Opencode.Orders.Lifetime
import Opencode.Orders.Service
import Opencode.Orders.Interleaving
import Opencode.Orders.Slices
import Opencode.Orders.Events
import Opencode.Orders.Shared
import Opencode.Orders.Totals
import Opencode.Orders.Commands
import Opencode.Orders.Listing
import Opencode.Orders.Pages
import Opencode.Orders.Pricing
import Opencode.Orders.Format
import Opencode.Opcua.NodeCache
import Opencode.Opcua.CacheVersions
import Opencode.Opcua.CacheBound
import Opencode.Opcua.CacheRecent
import Opencode.Opcua.Subscription
import Opencode.Opcua.Requests
import Opencode.Opcua.HistoryRead
import Opencode.Opcua.Browsing
import Opencode.Opcua.Writing
import Opencode.Opcua.TypedReads
import Opencode.Opcua.Variant
import Opencode.Opcua.Conversion
import Opencode.Opcua.StructParser
import Opencode.Opcua.StructFields
import Opencode.Opcua.JsonText
import Opencode.Opcua.StructLayout
import Opencode.Opcua.StructMisread
import Opencode.Opcua.PlcClient
import Opencode.Opcua.BatchRead
import Opencode.Opcua.Addresses
import Opencode.Opcua.Pacing
import Opencode.Opcua.Monitor
import Opencode.Opcua.PollThreads
import Opencode.Opcua.PollStopping
import Opencode.Fsm.Hierarchical
import Opencode.Fsm.Simple
import Opencode.Fsm.Flat
import Opencode.Fsm.ActiveConfiguration
import Opencode.Fsm.Bubbling
import Opencode.Fsm.CommonAncestor
import Opencode.Fsm.Growth
import Opencode.Fsm.Dump
import Opencode.Fsm.ObjectOriented
import Opencode.Fsm.DeviceModels
import Opencode.Hfsm.Engine
import Opencode.Hfsm.Driven
import Opencode.Hfsm.Landing
import Opencode.Hfsm.Deferral
import Opencode.Hfsm.FirstRule
import Opencode.Hfsm.Balance
import Opencode.Hfsm.ReplayResult
import Opencode.Hfsm.History
import Opencode.Hfsm.TypedIds
import Opencode.Hfsm.Client
import Opencode.Hfsm.TcpConnection
import Opencode.Hfsm.OrderProcessor
import Opencode.Hfsm.SubStates
import Opencode.Hfsm.DeferredQueue
import Opencode.Hfsm.TrafficLight
import Opencode.Hfsm.Regions
import Opencode.Async.Machine
import Opencode.Async.Loop
import Opencode.Async.Handle
import Opencode.Async.Wakeups
import Opencode.Async.Delivery
import Opencode.Async.Simulation
import Opencode.Async.Settling
import Opencode.Async.Direct
import Opencode.Hier.Node
import Opencode.Hier.Plant
import Opencode.Hier.Wiring
import Opencode.Hier.Line
import Opencode.Hier.Locality
import Opencode.Hier.Reports
import Opencode.Hier.Refinement
import Opencode.Hier.Aggregation
import Opencode.Hier.Readiness
import Opencode.Hier.Rounds
import Opencode.Hier.Visits
import Opencode.Hier.Alarms
import Opencode.Hier.StepLog
import Opencode.Hier.Finishing
import Opencode.Hier.ProcessOrder
import Opencode.Hier.Faults
import Opencode.Hier.Recovery
import Opencode.Device.Module
import Opencode.Device.Guards
import Opencode.Device.Separation
import Opencode.Stage.Pipeline
import Opencode.Stage.Words
import Opencode.Stage.Handles
import Opencode.Stage.Protocol
import Opencode.Stage.Stopping
import Opencode.Stage.Outcome
import Opencode.Stage.Settling
import Opencode.Pool.ThreadPool
import Opencode.Pool.Mailboxes
import Opencode.Pool.StopFlag
import Opencode.Pool.Settling
import Opencode.Pool.RoundRobin
import Opencode.Messaging.EventBus

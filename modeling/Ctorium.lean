import Ctorium.Basic
import Ctorium.Lib.Attempt
import Ctorium.Lib.Chase
import Ctorium.Lib.Machine
import Ctorium.Lib.StableInsert
import Ctorium.Lib.StdSort
import Ctorium.Lib.SwapRemove
import Ctorium.Lib.UniqueMax
import Ctorium.Materialization
import Ctorium.Materialization.Effect
import Ctorium.Materialization.Invariant
import Ctorium.Materialization.AtMostOnce
import Ctorium.Materialization.WaitGraph
import Ctorium.Materialization.Publication
import Ctorium.Isolation
import Ctorium.Lib.Linked
import Ctorium.Lib.Lockstep
import Ctorium.Lib.Precedes
import Ctorium.Lib.PostOrder
import Ctorium.HookScan
import Ctorium.Freelist
import Ctorium.Freelist.Partition
import Ctorium.ListenerStore
import Ctorium.ListenerStore.Hazard
import Ctorium.ThreadLocal
import Ctorium.ThreadLocal.Once
import Ctorium.Lib.Assoc
import Ctorium.ThreadLocal.Index
import Ctorium.Lib.Worklist
import Ctorium.Prototype
import Ctorium.Prototype.Invariant
import Ctorium.Prototype.Exact
import Ctorium.Prototype.Keeping
import Ctorium.Prototype.Deletion
import Ctorium.Prototype.Unwinding
import Ctorium.TypeIndex
import Ctorium.Listeners
import Ctorium.Listeners.Invariant
import Ctorium.Listeners.Dispatch
import Ctorium.Listeners.Order
import Ctorium.Listeners.Removal
import Ctorium.Listeners.FastPath
import Ctorium.Handles
import Ctorium.Lifecycle
import Ctorium.Lifecycle.Objects
import Ctorium.Lifecycle.Audience
import Ctorium.Lifecycle.Order
import Ctorium.Registry
import Ctorium.Lib.Arrays
import Ctorium.Registry.SingletonArrays
import Ctorium.Registry.Context
import Ctorium.Registry.Index
import Ctorium.Registry.Selection
import Ctorium.Registry.Reachable
import Ctorium.Registry.FirstStart
import Ctorium.Registry.Choice
import Ctorium.Registry.Sources
import Ctorium.QualifiedName
import Ctorium.Registry.Wiring
import Ctorium.Teardown
import Ctorium.Registry.InjectionPoints
import Ctorium.Registry.Producers
import Ctorium.Registry.Identities
import Ctorium.Registry.Slots
import Ctorium.Registry.Entries
import Ctorium.Registry.Uniqueness
import Ctorium.Registry.View
import Ctorium.Registry.Effects
import Ctorium.Registry.Bystanders
import Ctorium.Registry.Atomicity
import Ctorium.Registry.Reordering
import Ctorium.Registry.Numbering
import Ctorium.Startup
import Ctorium.Startup.Again
import Ctorium.Startup.Eager
import Ctorium.Registry.Deferred
import Ctorium.Registry.Retention
import Ctorium.Sessions
import Ctorium.Sessions.Aligned
import Ctorium.Sessions.Reentry
import Ctorium.Sessions.Tracking
import Ctorium.Sessions.Restart
import Ctorium.Prototype.Capacity
import Ctorium.Prototype.Chunks
import Ctorium.Prototype.Stored
import Ctorium.Prototype.Handover
import Ctorium.Freelist.Sequential
import Ctorium.Sessions.Scopes
import Ctorium.Registry.Families
import Ctorium.Registry.Lifetimes
import Ctorium.Sessions.Bounds
import Ctorium.Sessions.Simulation
import Ctorium.Sessions.Retired
import Ctorium.Sessions.Memory
import Ctorium.Sessions.Programs
import Ctorium.IdentifierCaches.Transparent
import Ctorium.WaitSlots
import Ctorium.WaitSlots.Tables
import Ctorium.WaitSlots.Tokens
import Ctorium.WaitSlots.Edges
import Ctorium.Registry.Selectable
import Ctorium.Startup.Tables
import Ctorium.Startup.Stable
import Ctorium.Startup.Conservation
import Ctorium.Startup.Built
import Ctorium.Handles.Casts

import MessageCenter.Lib.Machine
import MessageCenter.Lib.PositionLog
import MessageCenter.MpmcQueue.Model
import MessageCenter.MpmcQueue.Invariant
import MessageCenter.MpmcQueue.Preservation
import MessageCenter.MpmcQueue.Safety
import MessageCenter.MpmcQueue.Failure
import MessageCenter.Lib.LinkedChain
import MessageCenter.ObjectPool.LockFree
import MessageCenter.ObjectPool.Ownership
import MessageCenter.EventQueue.Placement
import MessageCenter.EventQueue.Removal
import MessageCenter.EventQueue.OneThread
import MessageCenter.EventQueue.Reference
import MessageCenter.EventQueue.Delivery
import MessageCenter.EventQueue.TopicIsolation
import MessageCenter.EventQueue.HandlerRemoval
import MessageCenter.EventQueue.CrossQueue
import MessageCenter.EventQueue.Lifecycle
import MessageCenter.EventQueue.PayloadOwnership
import MessageCenter.MpmcQueue.Sequential
import MessageCenter.PooledQueue.Model
import MessageCenter.Payload.RefCounted
import MessageCenter.EventQueueBroadcast.Model
import MessageCenter.EventQueueBroadcast.History
import MessageCenter.EventQueueBroadcast.Lifetime
import MessageCenter.SnapshotQueue.Model
import MessageCenter.SnapshotQueue.Reference
import MessageCenter.SnapshotQueue.Refinement
import MessageCenter.Lib.Ledger
import MessageCenter.Lib.Circulation
import MessageCenter.SnapshotQueue.Concurrent
import MessageCenter.SnapshotQueue.PayloadLedger
import MessageCenter.SnapshotQueue.PayloadLifetime
import MessageCenter.SnapshotQueue.SharedBatch
import MessageCenter.SnapshotQueue.Isolation
import MessageCenter.SnapshotQueue.Priority
import MessageCenter.MessageCenterFast.Pending
import MessageCenter.MessageCenterFast.Barrier
import MessageCenter.MessageCenterFast.Topics
import MessageCenter.MessageCenterFast.Blocks
import MessageCenter.MessageCenterFast.BlockOwnership
import MessageCenter.MessageCenterFast.RefusedPosts
import MessageCenter.Dispatcher.Threads
import MessageCenter.Dispatcher.Fast
import MessageCenter.Dispatcher.Center
import MessageCenter.Dispatcher.AtMostOne
import MessageCenter.MpmcQueue.Capacity
import MessageCenter.TopicIds.Snapshot
import MessageCenter.TopicIds.Emulator
import MessageCenter.MpmcQueue.Progress
import MessageCenter.SnapshotQueue.Ratio
import MessageCenter.MessageCenterFast.Deliveries
import MessageCenter.MessageCenterFast.Fidelity
import MessageCenter.MessageCenterFast.Erasure
import MessageCenter.SnapshotQueue.Nested
import MessageCenter.SnapshotQueue.Likeness
import MessageCenter.Recycling
import MessageCenter.SnapshotQueue.Batch
import MessageCenter.SnapshotQueue.BatchOrder
import MessageCenter.SnapshotQueue.BatchDispatch
import MessageCenter.EventQueue.RegistryRuns
import MessageCenter.MpmcQueue.WordSize
import MessageCenter.MpmcQueue.SizeApprox
import MessageCenter.PooledQueue.Destruction
import MessageCenter.SnapshotQueue.Destruction
import MessageCenter.ObjectPool.Mutex
import MessageCenter.Lib.LockOrder
import MessageCenter.MessageCenterFast.Deadlock
import MessageCenter.EventQueue.Bookkeeping
import MessageCenter.SnapshotQueue.BatchDestruction
import MessageCenter.EventQueueBroadcast.Destruction
import MessageCenter.Lib.Simulation
import MessageCenter.MpmcQueue.AtomicQueue
import MessageCenter.MpmcQueue.Linearization
import MessageCenter.Lib.Composition
import MessageCenter.MessageCenterFast.Shutdown
import MessageCenter.MessageCenterFast.ShutdownInvariant
import MessageCenter.MessageCenterFast.Drain
import MessageCenter.MessageCenterFast.StopContract
import MessageCenter.MpmcQueue.Callers
import MessageCenter.SnapshotQueue.OverRing
import MessageCenter.SnapshotQueue.Publication
import MessageCenter.SnapshotQueue.PublishedEntries
import MessageCenter.SnapshotQueue.PublishedObservers
import MessageCenter.MessageCenterFast.Order
import MessageCenter.Destruction

import PulsarRuntime.Lib.Machine
import PulsarRuntime.Lib.Family
import PulsarRuntime.Lib.Bits
import PulsarRuntime.Lib.Vector
import PulsarRuntime.Timer.Cascade
import PulsarRuntime.Timer.Fate
import PulsarRuntime.Timer.Runs
import PulsarRuntime.Timer.Earliest
import PulsarRuntime.Timer.Firing
import PulsarRuntime.Timer.Lingering
import PulsarRuntime.Timer.Race
import PulsarRuntime.Timer.Cancel
import PulsarRuntime.Timer.Poll
import PulsarRuntime.Sync.WaitQueue
import PulsarRuntime.Sync.FiberMutex
import PulsarRuntime.Sync.Handoff
import PulsarRuntime.Sync.FiberSemaphore
import PulsarRuntime.Sync.Relock
import PulsarRuntime.Sync.Notify
import PulsarRuntime.Sync.Punctual
import PulsarRuntime.Scheduler.Conservation
import PulsarRuntime.Scheduler.Drained
import PulsarRuntime.Scheduler.Search
import PulsarRuntime.Scheduler.Notified
import PulsarRuntime.Net.Wait
import PulsarRuntime.Net.Wakeup
import PulsarRuntime.Net.Capacity
import PulsarRuntime.Net.Stopped
import PulsarRuntime.Net.Exact
import PulsarRuntime.Events.Table
import PulsarRuntime.Events.Bookkeeping
import PulsarRuntime.Rpc.Stream
import PulsarRuntime.Rpc.Integrity
import PulsarRuntime.Rpc.Handover
import PulsarRuntime.Rpc.Decode
import PulsarRuntime.Rpc.Varint
import PulsarRuntime.Rpc.Framing
import PulsarRuntime.Rpc.Limits
import PulsarRuntime.Rpc.Matching
import PulsarRuntime.Rpc.Reconnect
import PulsarRuntime.Rpc.Pairing
import PulsarRuntime.Rpc.Completion
import PulsarRuntime.Rpc.Drain
import PulsarRuntime.Rpc.Throwing
import PulsarRuntime.Rpc.Buffers
import PulsarRuntime.Rpc.Reservation
import PulsarRuntime.Rpc.Executor
import PulsarRuntime.Rpc.AtMostOnce
import PulsarRuntime.Stack.Accounting
import PulsarRuntime.Stack.Rounding
import PulsarRuntime.Stack.Reuse
import PulsarRuntime.Stack.Trim
import PulsarRuntime.Fiber.Lifecycle
import PulsarRuntime.Fiber.Nesting
import PulsarRuntime.Scheduler.CallbackCache
import PulsarRuntime.Blocking.Once
import PulsarRuntime.Hook.Sleep
import PulsarRuntime.Hook.Nonblock
import PulsarRuntime.Hook.Contexts
import PulsarRuntime.Hook.Recycled
import PulsarRuntime.Hook.Timeout

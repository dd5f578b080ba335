import Ustevent.Reasoning.Runs
import Ustevent.Reasoning.Circular
import Ustevent.Ring.Layout
import Ustevent.Ring.Calls
import Ustevent.Ring.Consume
import Ustevent.Ring.Refinement
import Ustevent.Ring.Interleaved
import Ustevent.Ring.Interference
import Ustevent.Ring.Transitions
import Ustevent.Ring.InterleavedSafe
import Ustevent.Queue.Record
import Ustevent.Queue.TaskQueue
import Ustevent.Queue.Order
import Ustevent.Queue.Runs
import Ustevent.Net.EventOperation
import Ustevent.Net.Transfer
import Ustevent.Net.ReadStream
import Ustevent.Net.WriteStream
import Ustevent.Core.BasicSemaphore
import Ustevent.Net.Events
import Ustevent.Net.EpollSelector
import Ustevent.Net.TcpConnection
import Ustevent.Net.TcpDialer
import Ustevent.Net.Interrupt
import Ustevent.Net.TcpListener
import Ustevent.Core.Permits
import Ustevent.Core.BasicBarrier
import Ustevent.Core.SpinMutex
import Ustevent.Concurrency.ListNodeAllocator
import Ustevent.Concurrency.ListQueue
import Ustevent.Concurrency.ThreadLocalStorage
import Ustevent.Queue.Writers
import Ustevent.Core.BlockingContextStrategy
import Ustevent.Queue.Wakeup
import Ustevent.Net.SocketOwners
import Ustevent.Net.ReadErrors
import Ustevent.Net.DialOutcome
import Ustevent.Core.Buckets
import Ustevent.Core.AppendOnlyArray
import Ustevent.Core.TimedWaits
import Ustevent.Core.SemaphoreReset
import Ustevent.Core.SpinMutexRelease
import Ustevent.Queue.Decode
import Ustevent.Ring.Progress
import Ustevent.Reasoning.Links
import Ustevent.Core.WaitingLists
import Ustevent.Core.Backtraces
import Ustevent.Core.CallStack
import Ustevent.Net.EpollData
import Ustevent.Reasoning.LoggedBytes
import Ustevent.Net.IpAddress
import Ustevent.Net.TcpAddress
import Ustevent.Queue.Dispatch
import Ustevent.Ring.WrapCounter
import Ustevent.Concurrency.StorageNodes
import Ustevent.Core.Boost
import Ustevent.Core.Schedule
import Ustevent.Core.Scheduling
import Ustevent.Core.ScheduleRuns
import Ustevent.Queue.Posting
import Ustevent.Queue.PostingRuns
import Ustevent.Core.Lifecycle
import Ustevent.Net.MultiplexingContextStrategy
import Ustevent.Core.SpinMutexOrder
import Ustevent.Net.EventObject
import Ustevent.Net.StreamPair
import Ustevent.Net.Shutdown
import Ustevent.Reasoning.Work
import Ustevent.Ring.Termination

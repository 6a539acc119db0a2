import Scoro.Lib.Transition
import Scoro.Lib.Fifo
import Scoro.Queue.Model
import Scoro.Queue.Chain
import Scoro.Queue.Invariant
import Scoro.Queue.History
import Scoro.Queue.Refinement
import Scoro.Combinators.Awaiter
import Scoro.Combinators.WaitAny
import Scoro.Lib.Counting
import Scoro.Queue.WaitDequeue
import Scoro.Queue.MaybeEmpty
import Scoro.Lib.Ledger
import Scoro.Queue.Destructor
import Scoro.Queue.Shared
import Scoro.Combinators.WaitAll
import Scoro.Combinators.WaitEach.Invariant
import Scoro.Combinators.WaitEach.Delivery
import Scoro.Combinators.WaitEach.Once
import Scoro.Lib.Temporary
import Scoro.Combinators.AwaiterLifetime
import Scoro.Combinators.Buffered.WakeUp
import Scoro.Sync.Mutex
import Scoro.Sync.TimedAcquire
import Scoro.Lib.Lock
import Scoro.Lib.PriorityQueue
import Scoro.Timer.Model
import Scoro.Timer.Invariant
import Scoro.Timer.Accounting
import Scoro.Timer.Drain
import Scoro.Timer.Shutdown
import Scoro.Timer.Timeout
import Scoro.Timer.CancelableSleep
import Scoro.Looper.Model
import Scoro.Looper.Invariant
import Scoro.Looper.Shutdown
import Scoro.Coro.Future
import Scoro.Coro.Cancel.Once
import Scoro.Coro.Lifetime
import Scoro.Lib.Forest
import Scoro.Coro.Frames
import Scoro.Io.Service
import Scoro.Io.Completion
import Scoro.Coro.Cancel.Final
import Scoro.Lib.Holders
import Scoro.Ptr.IntrusivePtr
import Scoro.Ptr.RcPtr.Runs
import Scoro.Io.Visits
import Scoro.Io.Outcome
import Scoro.Timer.SleepResult
import Scoro.Timer.StopCalls
import Scoro.Sync.Grants
import Scoro.Looper.Discipline
import Scoro.Timer.TimeoutLifetime
import Scoro.Timer.TimeoutRelease
import Scoro.Combinators.WaitEach.FailedEnqueue
import Scoro.Sync.FailedEnqueue
import Scoro.Queue.WaitableAtomic
import Scoro.Queue.WaitDequeueUntil
import Scoro.Queue.ThrowingMove
import Scoro.Queue.Buffered.Delivery
import Scoro.Timer.SharedSleep.FreedOnce
import Scoro.Combinators.Results
import Scoro.Combinators.ResultsView
import Scoro.Coro.Composition.Fib
import Scoro.Ptr.MtCounter
import Scoro.Waitable.CondVar

import Scoro.Lib.Counting
import Scoro.Queue.Frame
import Scoro.Combinators.Awaiter

/-!
# `WaitEachAwaitable`

Each runner enqueues its outcome into an `AtomicQueue`, decrements `remaining` and exchanges
`coroutine_addr`. The consumer awaits the same object again and again. One call of
`await_suspend` may still be running when the coroutine, resumed by a runner, has got to its
next `co_await`, so the calls are numbered and each has its own position. The queue is the one
of `AtomicQueue.system` with runner `i` as producer `i`.
-/

namespace Scoro.WaitEach
open Scoro.Lib Scoro.Combinators
open AtomicQueue (Addr EnqueuePc DequeuePc)

/-- `id_result_t`. -/
abbrev Result (n : ℕ) (V E : Type*) := Fin n × Stored V E

inductive RunnerPc where
  | awaiting
  | enqueue
  | fetchSub
  | exchange
  | finished
  deriving DecidableEq

/-- The consumer in `await_ready`, suspended, or in `await_resume`. It is `ready` at the start
of each `co_await`. -/
inductive ConsumerPc where
  | ready
  | readyHead
  | readyNext (head : Addr)
  | suspended
  | resume
  | dequeue
  deriving DecidableEq

inductive SuspendPc where
  | idle
  | store
  | loadHead
  | loadNext (head : Addr)
  | exchange
  | returned
  deriving DecidableEq

/-- `WaitEachAwaitable::State` with its runners and its consumer. `calls` is the number of calls
of `await_suspend` so far. `fault` is set when a coroutine is resumed that is not suspended.
`outcomes` records what the awaitables have produced. -/
structure State (n : ℕ) (V E : Type*) where
  remaining : ℕ
  coroutineAddr : Bool
  queue : AtomicQueue.State (Fin n) (Result n V E)
  runners : Fin n → RunnerPc
  consumer : ConsumerPc
  suspends : ℕ → SuspendPc
  calls : ℕ
  fault : Bool
  outcomes : Fin n → Option (Outcome V E)

/-- `addr` is the answer of the allocator and `spurious` the failure of a weak CAS, where the
step has one. `guess` is what `await_suspend` reads through a pointer to a deleted node. -/
inductive Action (n : ℕ) (V E : Type*) where
  | complete (i : Fin n) (outcome : Outcome V E)
  | enqueue (i : Fin n) (addr : Option Addr) (spurious : Bool)
  | runner (i : Fin n)
  | consumer
  | suspend (k : ℕ) (guess : Bool)
  deriving DecidableEq

section step
variable {n : ℕ} {V E : Type*}

def init (n : ℕ) (V E : Type*) (stub : Addr) : State n V E where
  remaining := n
  coroutineAddr := false
  queue := AtomicQueue.init (Fin n) (Result n V E) stub
  runners := fun _ => .awaiting
  consumer := .ready
  suspends := fun _ => .idle
  calls := 0
  fault := false
  outcomes := fun _ => none

namespace State

def setRunner (s : State n V E) (i : Fin n) (pc : RunnerPc) : State n V E :=
  { s with runners := Function.update s.runners i pc }

def setSuspend (s : State n V E) (k : ℕ) (pc : SuspendPc) : State n V E :=
  { s with suspends := Function.update s.suspends k pc }

/-- `coroutine_addr.exchange(nullptr)`, and `resume()` if there was a handle. -/
def exchange (s : State n V E) : State n V E :=
  if s.coroutineAddr then
    match s.consumer with
    | .suspended => { s with coroutineAddr := false, consumer := .resume }
    | _ => { s with coroutineAddr := false, fault := true }
  else s

end State

/-- The step of the queue that the runner's call of `enqueue` makes next. -/
def enqueueAction (i : Fin n) (addr : Option Addr) (spurious : Bool) :
    EnqueuePc (Result n V E) → Option (AtomicQueue.Action (Fin n) (Result n V E))
  | .idle => none
  | .alloc _ => some (.alloc i addr)
  | .loadTail .. => some (.loadTail i)
  | .cas .. => some (.cas i spurious)
  | .link .. => some (.link i)
  | .ret _ => some (.enqueueRet i)

/-- The runner's position after a step of its call of `enqueue`, whose result is not used. -/
def RunnerPc.ofEnqueue {T : Type*} : EnqueuePc T → RunnerPc
  | .idle => .fetchSub
  | _ => .enqueue

/-- The consumer's position after a step of its call of `try_dequeue`. -/
def ConsumerPc.ofDequeue {T : Type*} : DequeuePc T → ConsumerPc
  | .idle => .ready
  | _ => .dequeue

/-- A step inside `results.enqueue`. -/
def enqueueStep (s : State n V E) (i : Fin n) (addr : Option Addr) (spurious : Bool) :
    Option (State n V E) :=
  match s.runners i with
  | .enqueue =>
    (enqueueAction i addr spurious (s.queue.producers i)).bind fun a =>
      (AtomicQueue.step s.queue a).map fun q =>
        { s.setRunner i (.ofEnqueue (q.producers i)) with queue := q }
  | _ => none

def runnerStep (s : State n V E) (i : Fin n) : Option (State n V E) :=
  match s.runners i with
  | .fetchSub => some { s.setRunner i .exchange with remaining := s.remaining - 1 }
  | .exchange => some (s.exchange.setRunner i .finished)
  | _ => none

/-- `await_ready` tests `remaining` and then `maybe_empty`. If it is false the coroutine is
suspended and `await_suspend` is called. `await_resume` calls `try_dequeue`. -/
def consumerStep (s : State n V E) : Option (State n V E) :=
  match s.consumer with
  | .ready => some { s with consumer := if s.remaining = 0 then .resume else .readyHead }
  | .readyHead => some { s with consumer := .readyNext s.queue.mHead }
  | .readyNext head =>
    match s.queue.heap head with
    | none => some { s with fault := true }
    | some node =>
      if node.next = none then
        some { s.setSuspend s.calls .store with consumer := .suspended, calls := s.calls + 1 }
      else some { s with consumer := .resume }
  | .suspended => none
  | .resume => (AtomicQueue.step s.queue .tryDequeue).map fun q =>
      { s with queue := q, consumer := .dequeue }
  | .dequeue => (AtomicQueue.consumerStep s.queue).map fun q =>
      { s with queue := q, consumer := .ofDequeue q.consumer }

/-- `!results.maybe_empty()` with the head that has been loaded. -/
def nonEmpty (s : State n V E) (head : Addr) (guess : Bool) : Bool :=
  match s.queue.heap head with
  | none => guess
  | some node => node.next.isSome

/-- The next step of call `k` of `await_suspend`. -/
def suspendStep (s : State n V E) (k : ℕ) (guess : Bool) : Option (State n V E) :=
  match s.suspends k with
  | .idle | .returned => none
  | .store => some { s.setSuspend k .loadHead with coroutineAddr := true }
  | .loadHead => some (s.setSuspend k (.loadNext s.queue.mHead))
  | .loadNext head =>
    some (s.setSuspend k (if nonEmpty s head guess then .exchange else .returned))
  | .exchange => some (s.exchange.setSuspend k .returned)

def step (s : State n V E) : Action n V E → Option (State n V E)
  | .complete i outcome =>
    match s.runners i with
    | .awaiting => (AtomicQueue.step s.queue (.enqueue i (i, outcome.stored))).map fun q =>
        { s.setRunner i .enqueue with
          queue := q, outcomes := Function.update s.outcomes i (some outcome) }
    | _ => none
  | .enqueue i addr spurious => enqueueStep s i addr spurious
  | .runner i => runnerStep s i
  | .consumer => consumerStep s
  | .suspend k guess => suspendStep s k guess

def system (n : ℕ) (V E : Type*) (stub : Addr) : System (State n V E) (Action n V E) where
  init := init n V E stub
  step := step

end step

end Scoro.WaitEach

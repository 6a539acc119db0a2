import Scoro.Lib.Fifo

/-!
# `nct::AtomicQueue`

The multi-producer, single-consumer linked queue of `container/queue.hpp` with its heap. An
address is given out by the allocator and may be given out again after the node there has
been deleted. Each action is one atomic step of one thread, so the runs of `system` are the
sequentially consistent interleavings. `compare_exchange_weak` may fail spuriously and
`new(std::nothrow)` may return null. `m_tail.wait(tail)` lets the consumer pass as soon as
`m_tail` differs from `tail`, so the notifications have no effect of their own here.
-/

namespace Scoro.AtomicQueue
open Scoro.Lib

/-- The address of a node. A pointer is an `Option Addr`, with `none` for `nullptr`. -/
abbrev Addr := ℕ

/-- `AtomicQueue::Node`. The union member `value` is `none` while no `T` lives there. -/
structure Node (T : Type*) where
  next : Option Addr
  value : Option T
  deriving DecidableEq

/-- Where a producer stands in `enqueue`. The argument `v` is kept until the CAS for the
history only. -/
inductive EnqueuePc (T : Type*) where
  | idle
  | alloc (v : T)
  | loadTail (n : Addr) (v : T)
  | cas (n : Addr) (v : T) (tail : Option Addr)
  | link (tail n : Addr)
  | ret (ok : Bool)
  deriving DecidableEq

/-- Where the consumer stands in `try_dequeue` or in `wait_dequeue_helper<false>`, with its
local copies of `head`, `tail` and `next`. Both functions end with the same steps. -/
inductive DequeuePc (T : Type*) where
  | idle
  | tryLoadHead
  | tryLoadNext (head : Addr)
  | waitLoadHead
  | waitLoadTail (head : Addr)
  | waitLoadNext (head : Addr) (tail : Option Addr)
  | waitTest (head : Addr) (tail next : Option Addr)
  | wait (tail : Addr)
  | reloadHead
  | reloadNext (head : Addr)
  | reloadTail (head : Addr) (next : Option Addr)
  | storeHead (head next : Addr)
  | deleteHead (head next : Addr)
  | moveValue (next : Addr)
  | ret (result : Option T)
  deriving DecidableEq

/-- A successful CAS on `m_tail`: the `call`-th `enqueue` of `producer`, with its argument. -/
structure Ticket (P T : Type*) where
  producer : P
  call : ℕ
  value : T
  deriving DecidableEq

/-- The queue, its heap and the threads. `fault` is set by an access to a deleted node or to a
value that is not there. The last four fields are history, which no step reads. -/
structure State (P T : Type*) where
  heap : Addr → Option (Node T)
  mTail : Option Addr
  mHead : Addr
  producers : P → EnqueuePc T
  consumer : DequeuePc T
  fault : Bool
  /-- The arguments of each producer's calls of `enqueue`. -/
  calls : P → List T
  /-- The results of each producer's calls that have returned. -/
  results : P → List Bool
  /-- The successful CASes on `m_tail`, in their order. -/
  accepted : List (Ticket P T)
  /-- The results of the consumer's calls that have returned. -/
  returned : List (Option T)

inductive Action (P T : Type*) where
  | enqueue (p : P) (v : T)
  | alloc (p : P) (n : Option Addr)
  | loadTail (p : P)
  | cas (p : P) (spurious : Bool)
  | link (p : P)
  | enqueueRet (p : P)
  | tryDequeue
  | waitDequeue
  | consumer
  | stop
  deriving DecidableEq

section step
variable {P T : Type*} [DecidableEq P]

/-- The queue after its constructor, which has stored the address of the stub. -/
def init (P T : Type*) (stub : Addr) : State P T where
  heap := Function.update (fun _ => none) stub (some ⟨none, none⟩)
  mTail := some stub
  mHead := stub
  producers := fun _ => .idle
  consumer := .idle
  fault := false
  calls := fun _ => []
  results := fun _ => []
  accepted := []
  returned := []

namespace State

def setProducer (s : State P T) (p : P) (pc : EnqueuePc T) : State P T :=
  { s with producers := Function.update s.producers p pc }

def setConsumer (s : State P T) (pc : DequeuePc T) : State P T :=
  { s with consumer := pc }

def setNode (s : State P T) (a : Addr) (nd : Option (Node T)) : State P T :=
  { s with heap := Function.update s.heap a nd }

def crash (s : State P T) : State P T :=
  { s with fault := true }

/-- Loads `a->next` and continues with it. -/
def loadNext (s : State P T) (a : Addr) (k : Option Addr → DequeuePc T) : State P T :=
  match s.heap a with
  | none => s.crash
  | some nd => s.setConsumer (k nd.next)

end State

/-- `n->value.~T(); delete n; return false`. -/
def rejectNode (s : State P T) (p : P) (n : Addr) : State P T :=
  match s.heap n with
  | some ⟨_, some _⟩ => (s.setNode n none).setProducer p (.ret false)
  | _ => s.crash

/-- `m_tail.compare_exchange_weak(tail, n)` after the test of `tail` at the head of the loop. -/
def casTail (s : State P T) (p : P) (spurious : Bool) (n : Addr) (v : T) :
    Option Addr → State P T
  | none => rejectNode s p n
  | some tail =>
    if s.mTail = some tail ∧ spurious = false then
      { s.setProducer p (.link tail n) with
        mTail := some n
        accepted := s.accepted ++ [⟨p, (s.results p).length, v⟩] }
    else s.setProducer p (.cas n v s.mTail)

/-- `tail->next.store(n)`. -/
def linkTail (s : State P T) (p : P) (tail n : Addr) : State P T :=
  match s.heap tail with
  | none => s.crash
  | some nd => (s.setNode tail (some { nd with next := some n })).setProducer p (.ret true)

/-- `std::move(next->value)` and the destructor call after it. -/
def moveValue (s : State P T) (next : Addr) : State P T :=
  match s.heap next with
  | some ⟨nx, some v⟩ => (s.setNode next (some ⟨nx, none⟩)).setConsumer (.ret (some v))
  | _ => s.crash

/-- The next step of the consumer inside its call. -/
def consumerStep (s : State P T) : Option (State P T) :=
  match s.consumer with
  | .idle => none
  | .tryLoadHead => some (s.setConsumer (.tryLoadNext s.mHead))
  | .tryLoadNext head => some (s.loadNext head fun
      | none => .ret none
      | some next => .storeHead head next)
  | .waitLoadHead => some (s.setConsumer (.waitLoadTail s.mHead))
  | .waitLoadTail head => some (s.setConsumer (.waitLoadNext head s.mTail))
  | .waitLoadNext head tail => some (s.loadNext head (.waitTest head tail))
  | .waitTest head _ (some next) => some (s.setConsumer (.storeHead head next))
  | .waitTest _ none none => some (s.setConsumer (.ret none))
  | .waitTest head (some tail) none =>
    some (s.setConsumer (if head = tail then .wait tail else .reloadTail head none))
  | .wait tail => if s.mTail = some tail then none else some (s.setConsumer .reloadHead)
  | .reloadHead => some (s.setConsumer (.reloadNext s.mHead))
  | .reloadNext head => some (s.loadNext head (.reloadTail head))
  | .reloadTail head next => some (s.setConsumer (.waitTest head s.mTail next))
  | .storeHead head next => some { s.setConsumer (.deleteHead head next) with mHead := next }
  | .deleteHead head next =>
    match s.heap head with
    | none => some s.crash
    | some _ => some ((s.setNode head none).setConsumer (.moveValue next))
  | .moveValue next => some (moveValue s next)
  | .ret r => some { s.setConsumer .idle with returned := s.returned ++ [r] }

/-- One atomic step. -/
def step (s : State P T) : Action P T → Option (State P T)
  | .enqueue p v =>
    match s.producers p with
    | .idle => some { s.setProducer p (.alloc v) with
        calls := Function.update s.calls p (s.calls p ++ [v]) }
    | _ => none
  | .alloc p n =>
    match s.producers p, n with
    | .alloc _, none => some (s.setProducer p (.ret false))
    | .alloc v, some n =>
      if (s.heap n).isNone then
        some ((s.setNode n (some ⟨none, some v⟩)).setProducer p (.loadTail n v))
      else none
    | _, _ => none
  | .loadTail p =>
    match s.producers p with
    | .loadTail n v => some (s.setProducer p (.cas n v s.mTail))
    | _ => none
  | .cas p spurious =>
    match s.producers p with
    | .cas n v tail => some (casTail s p spurious n v tail)
    | _ => none
  | .link p =>
    match s.producers p with
    | .link tail n => some (linkTail s p tail n)
    | _ => none
  | .enqueueRet p =>
    match s.producers p with
    | .ret ok => some { s.setProducer p .idle with
        results := Function.update s.results p (s.results p ++ [ok]) }
    | _ => none
  | .tryDequeue =>
    match s.consumer with
    | .idle => some (s.setConsumer .tryLoadHead)
    | _ => none
  | .waitDequeue =>
    match s.consumer with
    | .idle => some (s.setConsumer .waitLoadHead)
    | _ => none
  | .consumer => consumerStep s
  | .stop => some { s with mTail := none }

/-- The steps one by one. -/
inductive Move (s : State P T) : Action P T → State P T → Prop
  | enqueue {p : P} (v : T) (hp : s.producers p = .idle) :
      Move s (.enqueue p v) { s.setProducer p (.alloc v) with
        calls := Function.update s.calls p (s.calls p ++ [v]) }
  | noMemory {p : P} {v : T} (hp : s.producers p = .alloc v) :
      Move s (.alloc p none) (s.setProducer p (.ret false))
  | alloc {p : P} {n : Addr} {v : T} (hp : s.producers p = .alloc v) (hn : s.heap n = none) :
      Move s (.alloc p (some n))
        ((s.setNode n (some ⟨none, some v⟩)).setProducer p (.loadTail n v))
  | loadTail {p : P} {n : Addr} {v : T} (hp : s.producers p = .loadTail n v) :
      Move s (.loadTail p) (s.setProducer p (.cas n v s.mTail))
  | reject {p : P} {spurious : Bool} {n : Addr} {v : T} (hp : s.producers p = .cas n v none) :
      Move s (.cas p spurious) (rejectNode s p n)
  | push {p : P} {n t : Addr} {v : T} (hp : s.producers p = .cas n v (some t))
      (ht : s.mTail = some t) :
      Move s (.cas p false) { s.setProducer p (.link t n) with
        mTail := some n
        accepted := s.accepted ++ [⟨p, (s.results p).length, v⟩] }
  | retry {p : P} {spurious : Bool} {n t : Addr} {v : T}
      (hp : s.producers p = .cas n v (some t)) (hfail : ¬(s.mTail = some t ∧ spurious = false)) :
      Move s (.cas p spurious) (s.setProducer p (.cas n v s.mTail))
  | link {p : P} {t n : Addr} (hp : s.producers p = .link t n) :
      Move s (.link p) (linkTail s p t n)
  | enqueueRet {p : P} {ok : Bool} (hp : s.producers p = .ret ok) :
      Move s (.enqueueRet p) { s.setProducer p .idle with
        results := Function.update s.results p (s.results p ++ [ok]) }
  | tryDequeue (hc : s.consumer = .idle) : Move s .tryDequeue (s.setConsumer .tryLoadHead)
  | waitDequeue (hc : s.consumer = .idle) : Move s .waitDequeue (s.setConsumer .waitLoadHead)
  | consumer {s' : State P T} (hs : consumerStep s = some s') : Move s .consumer s'
  | stop : Move s .stop { s with mTail := none }

theorem step_move {s s' : State P T} {a : Action P T} (hs : step s a = some s') :
    Move s a s' := by
  cases a with
  | enqueue p v =>
    cases hp : s.producers p <;> simp only [step, hp, reduceCtorEq, Option.some.injEq] at hs
    subst hs
    exact .enqueue v hp
  | alloc p n =>
    cases hp : s.producers p <;> cases n <;>
      simp only [step, hp, reduceCtorEq, Option.some.injEq] at hs
    case alloc.none v =>
      subst hs
      exact .noMemory hp
    case alloc.some v n =>
      split at hs <;> cases hs
      rename_i hn
      exact .alloc hp (Option.isNone_iff_eq_none.mp hn)
  | loadTail p =>
    cases hp : s.producers p <;> simp only [step, hp, reduceCtorEq, Option.some.injEq] at hs
    subst hs
    exact .loadTail hp
  | cas p spurious =>
    cases hp : s.producers p <;> simp only [step, hp, reduceCtorEq, Option.some.injEq] at hs
    case cas n v tail =>
      subst hs
      cases tail with
      | none => exact .reject hp
      | some t =>
        simp only [casTail]
        split
        · rename_i hcas
          obtain ⟨ht, rfl⟩ := hcas
          exact .push hp ht
        · exact .retry hp ‹_›
  | link p =>
    cases hp : s.producers p <;> simp only [step, hp, reduceCtorEq, Option.some.injEq] at hs
    subst hs
    exact .link hp
  | enqueueRet p =>
    cases hp : s.producers p <;> simp only [step, hp, reduceCtorEq, Option.some.injEq] at hs
    subst hs
    exact .enqueueRet hp
  | tryDequeue =>
    cases hc : s.consumer <;> simp only [step, hc, reduceCtorEq, Option.some.injEq] at hs
    subst hs
    exact .tryDequeue hc
  | waitDequeue =>
    cases hc : s.consumer <;> simp only [step, hc, reduceCtorEq, Option.some.injEq] at hs
    subst hs
    exact .waitDequeue hc
  | consumer => exact .consumer hs
  | stop =>
    cases hs
    exact .stop

end step

/-- The queue with producers `P`, one consumer and the stub at address `stub`. -/
def system (P T : Type*) [DecidableEq P] (stub : Addr) : System (State P T) (Action P T) where
  init := init P T stub
  step := step

end Scoro.AtomicQueue

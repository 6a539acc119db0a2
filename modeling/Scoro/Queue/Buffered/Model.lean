import Scoro.Lib.StoreBuffer
import Scoro.Lib.Transition
import Scoro.Queue.Model

/-!
# `AtomicQueue` with store buffers

The queue on a machine on which the stores of a thread may get to memory late, in their order: the
link store of `enqueue`, the constructor of a node, the head store of the consumer and `stop`. The
CAS on `m_tail` waits until the own stores are in memory. Who calls `stop` is a thread of its own
that does not look at `m_tail` afterwards. An address is not given out again before the stores of
other threads to it have got to memory.
-/

namespace Scoro.BufferedQueue
open Scoro.Lib
open Scoro.AtomicQueue (Addr EnqueuePc DequeuePc Ticket)

inductive Thread (P : Type*) where
  | producer (p : P)
  | consumer
  | stopper
  deriving DecidableEq

inductive Loc where
  | tail
  | head
  | next (a : Addr)
  | value (a : Addr)
  deriving DecidableEq

/-- What is kept at a location. -/
@[reducible] def Cell (T : Type) : Loc → Type
  | .tail | .next _ => Option Addr
  | .head => Addr
  | .value _ => Option T

/-- `live` says which nodes have been allocated and not been deleted. The other fields are those of
the queue. -/
structure State (P : Type*) (T : Type) where
  memory : StoreBuffer (Thread P) (Cell T)
  live : Addr → Bool
  producers : P → EnqueuePc T
  consumer : DequeuePc T
  fault : Bool
  calls : P → List T
  results : P → List Bool
  accepted : List (Ticket P T)
  returned : List (Option T)

/-- With `drain` the oldest store of a thread gets to memory. -/
inductive Action (P T : Type*) where
  | queue (a : AtomicQueue.Action P T)
  | drain (u : Thread P)
  deriving DecidableEq

section step
variable {P : Type*} {T : Type} [DecidableEq P]

/-- Memory after the constructor of the queue. -/
def initialMemory (T : Type) (stub : Addr) : ∀ l, Cell T l
  | .tail => some stub
  | .head => stub
  | .next _ | .value _ => none

def init (P : Type*) (T : Type) (stub : Addr) : State P T where
  memory := .init (Thread P) (initialMemory T stub)
  live := Function.update (fun _ => false) stub true
  producers := fun _ => .idle
  consumer := .idle
  fault := false
  calls := fun _ => []
  results := fun _ => []
  accepted := []
  returned := []

namespace State

def setProducer (s : State P T) (p : P) (pc : EnqueuePc T) : State P T :=
  { s with producers := Function.update s.producers p pc }

def setConsumer (s : State P T) (pc : DequeuePc T) : State P T := { s with consumer := pc }

def crash (s : State P T) : State P T := { s with fault := true }

def store (s : State P T) (u : Thread P) (l : Loc) (v : Cell T l) : State P T :=
  { s with memory := s.memory.store u l v }

def setLive (s : State P T) (a : Addr) (live : Bool) : State P T :=
  { s with live := Function.update s.live a live }

/-- The consumer loads `a->next` and continues with it. -/
def loadNext (s : State P T) (a : Addr) (k : Option Addr → DequeuePc T) : State P T :=
  if s.live a then s.setConsumer (k (s.memory.load .consumer (.next a))) else s.crash

/-- The stores of `u` to a node at `a` are in memory. -/
def Arrived (s : State P T) (u : Thread P) (a : Addr) : Prop :=
  s.memory.writes u (.next a) = [] ∧ s.memory.writes u (.value a) = []

instance (s : State P T) (u : Thread P) (a : Addr) : Decidable (s.Arrived u a) :=
  inferInstanceAs (Decidable (_ = [] ∧ _ = []))

end State

/-- `n->value.~T(); delete n; return false`. -/
def rejectNode (s : State P T) (p : P) (n : Addr) : State P T :=
  if s.live n ∧ (s.memory.load (.producer p) (.value n)).isSome then
    ((s.store (.producer p) (.value n) none).setLive n false).setProducer p (.ret false)
  else s.crash

/-- `m_tail.compare_exchange_weak(tail, n)` after the test of `tail` at the head of the loop. -/
def casTail (s : State P T) (p : P) (spurious : Bool) (n : Addr) (v : T) :
    Option Addr → Option (State P T)
  | none => some (rejectNode s p n)
  | some tail =>
    (s.memory.rmw (.producer p) .tail fun old =>
      if old = some tail ∧ spurious = false then some n else old).map fun r =>
        if r.1 = some tail ∧ spurious = false then
          { s.setProducer p (.link tail n) with
            memory := r.2
            accepted := s.accepted ++ [⟨p, (s.results p).length, v⟩] }
        else { s.setProducer p (.cas n v r.1) with memory := r.2 }

/-- `tail->next.store(n)`. -/
def linkTail (s : State P T) (p : P) (tail n : Addr) : State P T :=
  if s.live tail then
    (s.store (.producer p) (.next tail) (some n)).setProducer p (.ret true)
  else s.crash

/-- `std::move(next->value)` and the destructor call after it. -/
def moveValue (s : State P T) (next : Addr) : State P T :=
  if s.live next then
    match s.memory.load .consumer (.value next) with
    | some v => (s.store .consumer (.value next) none).setConsumer (.ret (some v))
    | none => s.crash
  else s.crash

/-- The next step of the consumer inside its call. -/
def consumerStep (s : State P T) : Option (State P T) :=
  match s.consumer with
  | .idle => none
  | .tryLoadHead => some (s.setConsumer (.tryLoadNext (s.memory.load .consumer .head)))
  | .tryLoadNext head => some (s.loadNext head fun
      | none => .ret none
      | some next => .storeHead head next)
  | .waitLoadHead => some (s.setConsumer (.waitLoadTail (s.memory.load .consumer .head)))
  | .waitLoadTail head =>
    some (s.setConsumer (.waitLoadNext head (s.memory.load .consumer .tail)))
  | .waitLoadNext head tail => some (s.loadNext head (.waitTest head tail))
  | .waitTest head _ (some next) => some (s.setConsumer (.storeHead head next))
  | .waitTest _ none none => some (s.setConsumer (.ret none))
  | .waitTest head (some tail) none =>
    some (s.setConsumer (if head = tail then .wait tail else .reloadTail head none))
  | .wait tail =>
    if s.memory.load .consumer .tail = some tail then none else some (s.setConsumer .reloadHead)
  | .reloadHead => some (s.setConsumer (.reloadNext (s.memory.load .consumer .head)))
  | .reloadNext head => some (s.loadNext head (.reloadTail head))
  | .reloadTail head next =>
    some (s.setConsumer (.waitTest head (s.memory.load .consumer .tail) next))
  | .storeHead head next =>
    some ((s.store .consumer .head next).setConsumer (.deleteHead head next))
  | .deleteHead head next =>
    if s.live head then some ((s.setLive head false).setConsumer (.moveValue next))
    else some s.crash
  | .moveValue next => some (moveValue s next)
  | .ret r => some { s.setConsumer .idle with returned := s.returned ++ [r] }

/-- A step of a thread of the queue. -/
def queueStep (s : State P T) : AtomicQueue.Action P T → Option (State P T)
  | .enqueue p v =>
    match s.producers p with
    | .idle => some { s.setProducer p (.alloc v) with
        calls := Function.update s.calls p (s.calls p ++ [v]) }
    | _ => none
  | .alloc p n =>
    match s.producers p, n with
    | .alloc _, none => some (s.setProducer p (.ret false))
    | .alloc v, some n =>
      if s.live n then none
      else some ((((s.setLive n true).store (.producer p) (.next n) none).store
        (.producer p) (.value n) (some v)).setProducer p (.loadTail n v))
    | _, _ => none
  | .loadTail p =>
    match s.producers p with
    | .loadTail n v => some (s.setProducer p (.cas n v (s.memory.load (.producer p) .tail)))
    | _ => none
  | .cas p spurious =>
    match s.producers p with
    | .cas n v tail => casTail s p spurious n v tail
    | _ => none
  | .link p =>
    match s.producers p with
    | .link tail n => some (linkTail s p tail n)
    | _ => none
  | .enqueueRet p =>
    match s.producers p with
    | .ret ok => some { s.setProducer p .idle with
        results := Function.update s.results p (s.results p ++ [ok]) }
    | _ => none
  | .tryDequeue =>
    match s.consumer with
    | .idle => some (s.setConsumer .tryLoadHead)
    | _ => none
  | .waitDequeue =>
    match s.consumer with
    | .idle => some (s.setConsumer .waitLoadHead)
    | _ => none
  | .consumer => consumerStep s
  | .stop => some (s.store .stopper .tail none)

def step (s : State P T) : Action P T → Option (State P T)
  | .queue a => queueStep s a
  | .drain u => (s.memory.drain u).map fun m => { s with memory := m }

/-- The steps one by one. -/
inductive Move (s : State P T) : Action P T → State P T → Prop
  | enqueue {p : P} (v : T) (hp : s.producers p = .idle) :
      Move s (.queue (.enqueue p v)) { s.setProducer p (.alloc v) with
        calls := Function.update s.calls p (s.calls p ++ [v]) }
  | noMemory {p : P} {v : T} (hp : s.producers p = .alloc v) :
      Move s (.queue (.alloc p none)) (s.setProducer p (.ret false))
  | alloc {p : P} {n : Addr} {v : T} (hp : s.producers p = .alloc v) (hn : s.live n = false) :
      Move s (.queue (.alloc p (some n))) ((((s.setLive n true).store (.producer p) (.next n)
        none).store (.producer p) (.value n) (some v)).setProducer p (.loadTail n v))
  | loadTail {p : P} {n : Addr} {v : T} (hp : s.producers p = .loadTail n v) :
      Move s (.queue (.loadTail p))
        (s.setProducer p (.cas n v (s.memory.load (.producer p) .tail)))
  | reject {p : P} {spurious : Bool} {n : Addr} {v : T} (hp : s.producers p = .cas n v none) :
      Move s (.queue (.cas p spurious)) (rejectNode s p n)
  | push {p : P} {n t : Addr} {v : T} (hp : s.producers p = .cas n v (some t))
      (hempty : s.memory.buffer (.producer p) = []) (ht : s.memory.memory .tail = some t) :
      Move s (.queue (.cas p false)) { s.setProducer p (.link t n) with
        memory := { s.memory with memory := Function.update s.memory.memory .tail (some n) }
        accepted := s.accepted ++ [⟨p, (s.results p).length, v⟩] }
  | retry {p : P} {spurious : Bool} {n t : Addr} {v : T} (hp : s.producers p = .cas n v (some t))
      (hfail : ¬(s.memory.memory .tail = some t ∧ spurious = false)) :
      Move s (.queue (.cas p spurious)) (s.setProducer p (.cas n v (s.memory.memory .tail)))
  | link {p : P} {t n : Addr} (hp : s.producers p = .link t n) :
      Move s (.queue (.link p)) (linkTail s p t n)
  | enqueueRet {p : P} {ok : Bool} (hp : s.producers p = .ret ok) :
      Move s (.queue (.enqueueRet p)) { s.setProducer p .idle with
        results := Function.update s.results p (s.results p ++ [ok]) }
  | tryDequeue (hc : s.consumer = .idle) :
      Move s (.queue .tryDequeue) (s.setConsumer .tryLoadHead)
  | waitDequeue (hc : s.consumer = .idle) :
      Move s (.queue .waitDequeue) (s.setConsumer .waitLoadHead)
  | consumer {s' : State P T} (hs : consumerStep s = some s') : Move s (.queue .consumer) s'
  | stop : Move s (.queue .stop) (s.store .stopper .tail none)
  | drain {u : Thread P} {m : StoreBuffer (Thread P) (Cell T)} (hm : s.memory.drain u = some m) :
      Move s (.drain u) { s with memory := m }

lemma casTail_move {s s' : State P T} {p : P} {spurious : Bool} {n t : Addr} {v : T}
    (hp : s.producers p = .cas n v (some t)) (hs : casTail s p spurious n v (some t) = some s') :
    Move s (.queue (.cas p spurious)) s' := by
  obtain ⟨r, hr, rfl⟩ := Option.map_eq_some_iff.mp hs
  obtain ⟨hempty, rfl⟩ := StoreBuffer.rmw_eq_some hr
  by_cases hcas : s.memory.memory .tail = some t ∧ spurious = false
  · simp only [hcas, and_self, if_true]
    obtain ⟨ht, rfl⟩ := hcas
    exact .push hp hempty ht
  · simp only [hcas, if_false, Function.update_eq_self]
    exact .retry hp hcas

theorem step_move {s s' : State P T} {a : Action P T} (hs : step s a = some s') : Move s a s' := by
  cases a with
  | drain u =>
    obtain ⟨m, hm, rfl⟩ := Option.map_eq_some_iff.mp hs
    exact .drain hm
  | queue a =>
    simp only [step] at hs
    cases a with
    | enqueue p v =>
      cases hp : s.producers p <;> simp only [queueStep, hp, reduceCtorEq, Option.some.injEq] at hs
      subst hs
      exact .enqueue v hp
    | alloc p n =>
      cases hp : s.producers p <;> cases n <;>
        simp only [queueStep, hp, reduceCtorEq, Option.some.injEq] at hs
      case alloc.none v =>
        subst hs
        exact .noMemory hp
      case alloc.some v n =>
        split at hs <;> cases hs
        rename_i hn
        exact .alloc hp (Bool.eq_false_iff.mpr hn)
    | loadTail p =>
      cases hp : s.producers p <;> simp only [queueStep, hp, reduceCtorEq, Option.some.injEq] at hs
      subst hs
      exact .loadTail hp
    | cas p spurious =>
      cases hp : s.producers p <;> simp only [queueStep, hp, reduceCtorEq] at hs
      case cas n v tail =>
        cases tail with
        | none =>
          cases hs
          exact .reject hp
        | some t => exact casTail_move hp hs
    | link p =>
      cases hp : s.producers p <;> simp only [queueStep, hp, reduceCtorEq, Option.some.injEq] at hs
      subst hs
      exact .link hp
    | enqueueRet p =>
      cases hp : s.producers p <;> simp only [queueStep, hp, reduceCtorEq, Option.some.injEq] at hs
      subst hs
      exact .enqueueRet hp
    | tryDequeue =>
      cases hc : s.consumer <;> simp only [queueStep, hc, reduceCtorEq, Option.some.injEq] at hs
      subst hs
      exact .tryDequeue hc
    | waitDequeue =>
      cases hc : s.consumer <;> simp only [queueStep, hc, reduceCtorEq, Option.some.injEq] at hs
      subst hs
      exact .waitDequeue hc
    | consumer => exact .consumer hs
    | stop =>
      cases hs
      exact .stop

/-- The queue with producers `P`, one consumer and the stub at address `stub`. -/
def system (P : Type*) (T : Type) [DecidableEq P] (stub : Addr) :
    System (State P T) (Action P T) where
  init := init P T stub
  step := step

/-- The allocator gives an address out after the stores of the threads that used it before. -/
def Allocates (s : State P T) : Action P T → Prop
  | .queue (.alloc p (some n)) =>
    s.Arrived .consumer n ∧ ∀ q, q ≠ p → s.Arrived (.producer q) n
  | _ => True

instance [Fintype P] (s : State P T) (a : Action P T) : Decidable (Allocates s a) :=
  match a with
  | .queue (.alloc p (some n)) => inferInstanceAs (Decidable
      (s.Arrived .consumer n ∧ ∀ q, q ≠ p → s.Arrived (.producer q) n))
  | .queue (.alloc _ none) | .queue (.enqueue ..) | .queue (.loadTail _) | .queue (.cas ..)
  | .queue (.link _) | .queue (.enqueueRet _) | .queue .tryDequeue | .queue .waitDequeue
  | .queue .consumer | .queue .stop | .drain _ => isTrue trivial

end step

end Scoro.BufferedQueue

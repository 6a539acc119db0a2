import Scoro.Queue.Destructor

/-!
# A move constructor that throws

`T` may have a move constructor that throws, and then the dequeue functions are not `noexcept`.
The exception leaves the call when the head has been moved and the old stub is gone, and before
`next->value.~T()`. In `~AtomicQueue`, which is `noexcept`, it calls `std::terminate`.
-/

namespace Scoro.ThrowingMove
open Scoro.Lib Scoro.AtomicQueue

/-- How a call of a dequeue function has ended: with its result, or with the exception of the move
of `v`. -/
inductive Exit (T : Type*) where
  | returned (result : Option T)
  | threw (v : T)
  deriving DecidableEq

/-- What a call has returned. -/
def Exit.result {T : Type*} : Exit T → Option (Option T)
  | .returned r => some r
  | .threw _ => none

/-- The value whose move has thrown. -/
def Exit.thrown {T : Type*} : Exit T → Option T
  | .returned _ => none
  | .threw v => some v

/-- The queue with its destructor. History is in what order the calls have ended, and in which nodes
of the ledger an exception has left the value. -/
structure State (P T : Type*) where
  base : Destructor.State P T
  exits : List (Exit T)
  leaked : List ℕ
  terminated : Bool

inductive Action (P T : Type*) where
  | base (a : Destructor.Action P T)
  | moveThrows
  deriving DecidableEq

section step
variable {P T : Type*}

def init (P T : Type*) (stub : Addr) : State P T where
  base := Destructor.init P T stub
  exits := []
  leaked := []
  terminated := false

/-- The call of the consumer that returns with this step. -/
def exitOf (q : AtomicQueue.State P T) (a : AtomicQueue.Action P T) : List (Exit T) :=
  match a, q.consumer with
  | .consumer, .ret r => [.returned r]
  | _, _ => []

def returning (s : Destructor.State P T) : Destructor.Action P T → List (Exit T)
  | .queue a => exitOf s.queue a
  | .begin => []
  | .destroy => if s.destroy = .drain then exitOf s.queue .consumer else []

/-- `std::move(next->value)` throws. The value stays in the node. `result` is constructed in the
place of the return value, so that no other move follows. -/
def moveThrows (s : State P T) : Option (State P T) :=
  match s.base.queue.consumer with
  | .moveValue next => (s.base.queue.value next).map fun v =>
      if s.base.destroy = .idle then { s with
        base := { s.base with queue := s.base.queue.setConsumer .idle }
        exits := s.exits ++ [.threw v]
        leaked := s.leaked ++ [s.base.ledger.serial next] }
      else { s with terminated := true }
  | _ => none

def step [DecidableEq P] (s : State P T) : Action P T → Option (State P T)
  | .base a => if s.terminated then none else
      (Destructor.step s.base a).map fun t =>
        { s with base := t, exits := s.exits ++ returning s.base a }
  | .moveThrows => if s.terminated then none else moveThrows s

def system (P T : Type*) [DecidableEq P] (stub : Addr) : System (State P T) (Action P T) where
  init := init P T stub
  step := step

end step

variable {P T : Type*}

/-- What the caller of the destructor sees to. -/
def QuietBegin (s : State P T) : Action P T → Prop
  | .base a => Destructor.QuietBegin s.base a
  | .moveThrows => True

instance [Fintype P] [DecidableEq P] [DecidableEq T] (s : State P T) :
    (a : Action P T) → Decidable (QuietBegin s a)
  | .base a => inferInstanceAs (Decidable (Destructor.QuietBegin s.base a))
  | .moveThrows => inferInstanceAs (Decidable True)

/-- The values that have been accepted and not been returned yet: the one that the consumer is about
to return, and those on the chain. -/
def Undelivered (q : AtomicQueue.State P T) (us : List T) : Prop :=
  ∃ cs vs, Shape q cs ∧ cs.tail.map q.value = vs.map some ∧ us = q.handOf q.consumer ++ vs

/-- The values whose moves have thrown in calls that the exception has left. -/
def State.thrown (s : State P T) : List T := s.exits.filterMap Exit.thrown

/-- Exceptions reach the caller, all values accepted have been returned or are going to be, and
after the destructor all nodes have been deleted once and all values in them destroyed once. -/
structure Kept (s : State P T) : Prop where
  caught : s.terminated = false
  values : s.base.destroy ≠ .done → ∃ us, Undelivered s.base.queue us ∧
    s.base.queue.acceptedValues = s.base.queue.delivered ++ us
  settled : s.base.destroy = .done → ∀ i < s.base.ledger.count, s.base.ledger.Settled i

/-! ### The run in which the value is lost after its return -/

/-- What the call has taken out of the queue. -/
def Exit.taken : Exit T → Option T
  | .returned r => r
  | .threw v => some v

/-- The node without a value of its own that the consumer is going to delete. -/
def stubAddr (q : AtomicQueue.State P T) : Option Addr :=
  match q.consumer with
  | .deleteHead head _ => some head
  | .moveValue _ => none
  | _ => some q.mHead

def hollow (nd : Node T) : Node T := { nd with value := none }

/-- The queue when an exception leaves no value behind, and the calls have returned instead. -/
def absQueue (q : AtomicQueue.State P T) (exits : List (Exit T)) : AtomicQueue.State P T :=
  { q with
    heap := fun a => if stubAddr q = some a then (q.heap a).map hollow else q.heap a
    returned := exits.map Exit.taken }

/-- The ledger when the values that were left behind have been destroyed. -/
def absLedger (l : Ledger Addr) (leaked : List ℕ) : Ledger Addr :=
  { l with destroyed := fun i => l.destroyed i + leaked.count i }

def abs (s : State P T) : Destructor.State P T where
  queue := absQueue s.base.queue s.exits
  ledger := absLedger s.base.ledger s.leaked
  destroy := s.base.destroy

section abs
variable {q q' : AtomicQueue.State P T} {exits : List (Exit T)} {cs : List Addr} {vs : List T}
  {a n : Addr} {l : Ledger Addr} {leaked : List ℕ}

lemma absQueue_next : (absQueue q exits).next a = q.next a := by
  unfold State.next absQueue
  dsimp only
  split_ifs
  · cases q.heap a <;> rfl
  · rfl

lemma absQueue_value :
    (absQueue q exits).value a = if stubAddr q = some a then none else q.value a := by
  unfold State.value absQueue
  dsimp only
  split_ifs
  · cases q.heap a <;> rfl
  · rfl

lemma absQueue_live : (absQueue q exits).Live a ↔ q.Live a := by
  unfold State.Live absQueue
  dsimp only
  split_ifs
  · rw [Option.isSome_map]
  · rfl

lemma absQueue_heap_eq_none : (absQueue q exits).heap a = none ↔ q.heap a = none := by
  unfold absQueue
  dsimp only
  split_ifs
  · exact Option.map_eq_none_iff
  · rfl

lemma absQueue_setNode (q : AtomicQueue.State P T) (exits : List (Exit T)) (n : Addr)
    (nd : Option (Node T)) : absQueue (q.setNode n nd) exits =
    (absQueue q exits).setNode n (if stubAddr q = some n then nd.map hollow else nd) := by
  unfold absQueue State.setNode
  simp only [AtomicQueue.State.mk.injEq, and_true]
  funext b
  by_cases hb : b = n
  · subst hb
    rw [Function.update_self, Function.update_self]
    rfl
  · rw [Function.update_of_ne hb, Function.update_of_ne hb]
    rfl

/-- A step of the consumer that does not change which node is the stub. -/
lemma absQueue_setConsumer {pc : DequeuePc T} (h : stubAddr (q.setConsumer pc) = stubAddr q) :
    absQueue (q.setConsumer pc) exits = (absQueue q exits).setConsumer pc := by
  unfold absQueue
  rw [h]
  rfl

lemma absLedger_delete : absLedger (l.delete n) leaked = (absLedger l leaked).delete n := rfl

lemma absLedger_destroy : absLedger (l.destroy n) leaked = (absLedger l leaked).destroy n := by
  unfold absLedger Ledger.destroy
  simp only [Ledger.mk.injEq, and_true, true_and]
  funext i
  by_cases hi : i = l.serial n
  · subst hi
    rw [Function.update_self, Function.update_self]
    omega
  · rw [Function.update_of_ne hi, Function.update_of_ne hi]

end abs

section step
variable [DecidableEq P] {q q' : AtomicQueue.State P T} {exits : List (Exit T)} {cs : List Addr}
  {vs : List T} {a : AtomicQueue.Action P T}

omit [DecidableEq P] in
/-- A node whose value somebody has is not the stub. -/
lemma heap_of_absQueue {n : Addr} {nx : Option Addr} {v : T}
    (hn : (absQueue q exits).heap n = some ⟨nx, some v⟩) :
    stubAddr q ≠ some n ∧ q.heap n = some ⟨nx, some v⟩ := by
  unfold absQueue at hn
  dsimp only at hn
  split_ifs at hn with hstub
  · obtain ⟨nd, -, hnd⟩ := Option.map_eq_some_iff.mp hn
    cases hnd
  · exact ⟨hstub, hn⟩

omit [DecidableEq P] in
/-- The stub is alive. -/
lemma live_stubAddr (h : AtomicQueue.Inv (absQueue q exits) cs vs) {n : Addr}
    (hn : stubAddr q = some n) : q.Live n := by
  have hpc := h.consumer
  have hhead : q.Live q.mHead := absQueue_live.mp h.live_head
  unfold stubAddr at hn
  split at hn
  · rename_i head next hc
    obtain rfl := Option.some.inj hn
    change (absQueue q exits).PcOk cs q.consumer at hpc
    rw [hc] at hpc
    exact absQueue_live.mp hpc.2.2.1
  · cases hn
  · obtain rfl := Option.some.inj hn
    exact hhead

omit [DecidableEq P] in
lemma absQueue_loadNext {n : Addr} {k : Option Addr → DequeuePc T}
    (hk : ∀ next, stubAddr (q.setConsumer (k next)) = stubAddr q) :
    (absQueue q exits).loadNext n k = absQueue (q.loadNext n k) exits := by
  unfold State.loadNext
  cases hn : q.heap n with
  | none =>
    rw [absQueue_heap_eq_none.mpr hn]
    rfl
  | some nd =>
    have hnext : ∃ nd', (absQueue q exits).heap n = some nd' ∧ nd'.next = nd.next := by
      unfold absQueue
      dsimp only
      split_ifs
      · exact ⟨hollow nd, by rw [hn]; rfl, rfl⟩
      · exact ⟨nd, hn, rfl⟩
    obtain ⟨nd', hnd', heq⟩ := hnext
    rw [hnd']
    dsimp only
    rw [heq, absQueue_setConsumer (hk _)]

omit [DecidableEq P] in
/-- The consumer does not look at the value in its stub. -/
lemma absQueue_consumerStep (h : AtomicQueue.Inv (absQueue q exits) cs vs)
    (hs : consumerStep q = some q') : consumerStep (absQueue q exits) =
      some (absQueue q' (exits ++ exitOf q (.consumer : AtomicQueue.Action P T))) := by
  have hpc : (absQueue q exits).PcOk cs q.consumer := h.consumer
  have hc' : (absQueue q exits).consumer = q.consumer := rfl
  cases hc : q.consumer <;> rw [hc] at hpc <;> unfold consumerStep at hs ⊢ <;> rw [hc', hc] <;>
    rw [hc] at hs <;> simp only [reduceCtorEq, Option.some.injEq] at hs <;>
    simp only [exitOf, hc, List.append_nil]
  case tryLoadHead | waitLoadHead | waitLoadTail | reloadHead | reloadTail =>
    subst hs
    rw [absQueue_setConsumer (by simp [stubAddr, State.setConsumer, hc])]
    rfl
  case tryLoadNext | waitLoadNext | reloadNext =>
    subst hs
    rw [absQueue_loadNext fun next => by cases next <;> simp [stubAddr, State.setConsumer, hc]]
  case waitTest head tail next =>
    cases next with
    | some next =>
      simp only [Option.some.injEq] at hs ⊢
      subst hs
      rw [absQueue_setConsumer (by simp [stubAddr, State.setConsumer, hc])]
    | none =>
      cases tail with
      | none =>
        simp only [Option.some.injEq] at hs ⊢
        subst hs
        rw [absQueue_setConsumer (by simp [stubAddr, State.setConsumer, hc])]
      | some tail =>
        simp only [Option.some.injEq] at hs ⊢
        subst hs
        rw [absQueue_setConsumer (by split_ifs <;> simp [stubAddr, State.setConsumer, hc])]
  case wait tail =>
    have htail : (absQueue q exits).mTail = q.mTail := rfl
    rw [htail]
    split_ifs at hs ⊢
    cases hs
    rw [absQueue_setConsumer (by simp [stubAddr, State.setConsumer, hc])]
  case storeHead head next =>
    obtain rfl : head = q.mHead := hpc.1
    subst hs
    simp only [absQueue, stubAddr, State.setConsumer, hc]
    rfl
  case deleteHead head next =>
    cases hn : q.heap head with
    | none =>
      rw [absQueue_heap_eq_none.mpr hn]
      rw [hn] at hs
      cases hs
      rfl
    | some nd =>
      have hsome : (absQueue q exits).heap head = some (hollow nd) := by
        simp [absQueue, stubAddr, hc, hn]
      rw [hsome]
      rw [hn] at hs
      cases hs
      simp only [absQueue, stubAddr, State.setConsumer, State.setNode, hc, Option.some.injEq,
        AtomicQueue.State.mk.injEq, and_true]
      funext b
      by_cases hb : b = head
      · simp [hb]
      · simp [hb, Ne.symm hb]
  case moveValue next =>
    obtain rfl : next = q.mHead := hpc.1
    obtain ⟨v, hv⟩ := hpc.2
    have hsame : absQueue q exits = { q with returned := exits.map Exit.taken } := by
      simp [absQueue, stubAddr, hc]
    subst hs
    rw [hsame] at hv ⊢
    have hval : q.value q.mHead = some v := hv
    rw [moveValue_eq hv, moveValue_eq hval]
    simp only [absQueue, stubAddr, State.setConsumer, State.setNode, Option.some.injEq,
      AtomicQueue.State.mk.injEq, and_true]
    funext b
    by_cases hb : b = q.mHead
    · simp [hb, hollow, State.next]
    · simp [hb, Ne.symm hb]
  case ret r =>
    subst hs
    simp [absQueue, stubAddr, State.setConsumer, hc, Exit.taken]

/-- Nobody looks at a value that was left behind. -/
lemma absQueue_step (h : AtomicQueue.Inv (absQueue q exits) cs vs)
    (hs : AtomicQueue.step q a = some q') :
    AtomicQueue.step (absQueue q exits) a = some (absQueue q' (exits ++ exitOf q a)) := by
  cases step_move hs with
  | consumer hs => exact absQueue_consumerStep h hs
  | enqueue v hp =>
    have hp' : (absQueue q exits).producers _ = _ := hp
    simp only [AtomicQueue.step, hp', exitOf, List.append_nil]
    rfl
  | noMemory hp =>
    have hp' : (absQueue q exits).producers _ = _ := hp
    simp only [AtomicQueue.step, hp', exitOf, List.append_nil]
    rfl
  | @alloc p n v hp hn =>
    have hp' : (absQueue q exits).producers p = _ := hp
    have hn' : (absQueue q exits).heap n = none := absQueue_heap_eq_none.mpr hn
    have hstub : stubAddr q ≠ some n := by
      intro hstub
      have hlive := live_stubAddr h hstub
      simp [State.Live, hn] at hlive
    simp only [AtomicQueue.step, hp', hn', Option.isNone_none, if_true, exitOf, List.append_nil]
    have hset := absQueue_setNode q exits n (some ⟨none, some v⟩)
    rw [if_neg hstub] at hset
    rw [← hset]
    rfl
  | loadTail hp =>
    have hp' : (absQueue q exits).producers _ = _ := hp
    simp only [AtomicQueue.step, hp', exitOf, List.append_nil]
    rfl
  | @reject p spurious n v hp =>
    have hp' : (absQueue q exits).producers p = _ := hp
    obtain ⟨hnode, -⟩ := h.node p n v (by rw [hp']; exact ⟨rfl, rfl⟩)
    obtain ⟨hstub, hnode'⟩ := heap_of_absQueue hnode
    have hset := absQueue_setNode q exits n none
    rw [if_neg hstub] at hset
    simp only [AtomicQueue.step, hp', casTail, rejectNode, hnode, hnode', exitOf, List.append_nil]
    rw [← hset]
    rfl
  | @push p n t v hp ht =>
    have hp' : (absQueue q exits).producers p = _ := hp
    have ht' : (absQueue q exits).mTail = some t := ht
    simp only [AtomicQueue.step, hp', casTail, ht', and_self, if_true, exitOf, List.append_nil]
    rfl
  | @retry p spurious n t v hp hfail =>
    have hp' : (absQueue q exits).producers p = _ := hp
    have hfail' : ¬((absQueue q exits).mTail = some t ∧ spurious = false) := hfail
    simp only [AtomicQueue.step, hp', casTail, hfail', if_false, exitOf, List.append_nil]
    rfl
  | @link p t n hp =>
    have hp' : (absQueue q exits).producers p = _ := hp
    have hlive := h.shape.live t (h.shape.pending p t n hp').1
    obtain ⟨nd, hnd⟩ := Option.isSome_iff_exists.mp (absQueue_live.mp hlive)
    have hnd' : (absQueue q exits).heap t =
        some (if stubAddr q = some t then hollow nd else nd) := by
      simp only [absQueue, hnd]
      split_ifs <;> rfl
    have hset := absQueue_setNode q exits t (some { nd with next := some n })
    simp only [AtomicQueue.step, hp', linkTail, hnd, hnd', exitOf, List.append_nil]
    have hcomm :
        absQueue ((q.setNode t (some { nd with next := some n })).setProducer p (.ret true)) exits =
          (absQueue (q.setNode t (some { nd with next := some n })) exits).setProducer p
            (.ret true) := rfl
    rw [hcomm, hset]
    split_ifs <;> rfl
  | enqueueRet hp =>
    have hp' : (absQueue q exits).producers _ = _ := hp
    simp only [AtomicQueue.step, hp', exitOf, List.append_nil]
    rfl
  | tryDequeue hc | waitDequeue hc =>
    have hc' : (absQueue q exits).consumer = _ := hc
    have hsame : ∀ pc : DequeuePc T, stubAddr (q.setConsumer pc) = some q.mHead →
        stubAddr (q.setConsumer pc) = stubAddr q := by
      intro pc hpc
      rw [hpc]
      simp [stubAddr, hc]
    simp only [AtomicQueue.step, hc', exitOf, List.append_nil]
    rw [absQueue_setConsumer (hsame _ rfl)]
  | stop =>
    simp only [AtomicQueue.step, exitOf, List.append_nil]
    rfl

omit [DecidableEq P] in
lemma absLedger_record (exits : List (Exit T)) {l : Ledger Addr} {leaked : List ℕ} :
    absLedger (record q a l) leaked = record (absQueue q exits) a (absLedger l leaked) := by
  cases a with
  | alloc p n =>
    cases n with
    | none => rfl
    | some n =>
      have hp : (absQueue q exits).producers p = q.producers p := rfl
      simp only [record, hp]
      split <;> rfl
  | cas p spurious =>
    have hp : (absQueue q exits).producers p = q.producers p := rfl
    simp only [record, hp]
    split
    · rw [absLedger_delete, absLedger_destroy]
    · rfl
  | consumer =>
    have hc : (absQueue q exits).consumer = q.consumer := rfl
    simp only [record, hc]
    split
    · rfl
    · exact absLedger_destroy
    · rfl
  | _ => rfl

end step

/-! ### The steps of the run with the throwing moves -/

section run
variable [DecidableEq P] {s s' : State P T} {t : Destructor.State P T} {cs : List Addr}
  {vs : List T}

lemma abs_queueStep (h : AtomicQueue.Inv (abs s).queue cs vs) {b : AtomicQueue.Action P T}
    {pc : Destructor.DestroyPc} (hs : Destructor.queueStep s.base b pc = some t) :
    Destructor.queueStep (abs s) b pc =
      some (abs { s with base := t, exits := s.exits ++ exitOf s.base.queue b }) := by
  obtain ⟨q, hq, rfl⟩ := Option.map_eq_some_iff.mp hs
  have hstep : AtomicQueue.step (abs s).queue b =
      some (absQueue q (s.exits ++ exitOf s.base.queue b)) := absQueue_step h hq
  simp only [Destructor.queueStep, hstep, Option.map_some, Option.some.injEq]
  simp only [abs, absLedger_record s.exits]

omit [DecidableEq P] in
lemma abs_deleteStub {stub : Addr} :
    Destructor.deleteStub (abs s) stub =
      abs { s with base := Destructor.deleteStub s.base stub } := by
  unfold Destructor.deleteStub
  cases hn : s.base.queue.heap stub with
  | none =>
    have hn' : (abs s).queue.heap stub = none := absQueue_heap_eq_none.mpr hn
    rw [hn']
    rfl
  | some nd =>
    obtain ⟨nd', hnd'⟩ : ∃ nd', (abs s).queue.heap stub = some nd' := by
      refine Option.ne_none_iff_exists'.mp fun hnone => ?_
      rw [absQueue_heap_eq_none.mp hnone] at hn
      cases hn
    have hset := absQueue_setNode s.base.queue s.exits stub none
    rw [hnd']
    simp only [abs, hset, absLedger_delete]
    split_ifs <;> rfl

lemma abs_destroyStep (h : AtomicQueue.Inv (abs s).queue cs vs)
    (hs : Destructor.destroyStep s.base = some t) : Destructor.destroyStep (abs s) =
      some (abs { s with base := t, exits := s.exits ++ returning s.base .destroy }) := by
  have hd : (abs s).destroy = s.base.destroy := rfl
  have hc : (abs s).queue.consumer = s.base.queue.consumer := rfl
  cases hpc : s.base.destroy <;>
    simp only [Destructor.destroyStep, hpc, hd, hc, reduceCtorEq] at hs ⊢
  case stop =>
    rw [abs_queueStep h hs]
    simp [returning, hpc, exitOf]
  case call =>
    rw [abs_queueStep h hs]
    simp [returning, hpc, exitOf]
  case drain =>
    rw [returning, if_pos hpc]
    split at hs <;> exact abs_queueStep h hs
  case exchange =>
    cases hs
    simp only [returning, hpc, reduceCtorEq, if_false, List.append_nil]
    rfl
  case delete stub =>
    cases hs
    rw [abs_deleteStub]
    simp [returning, hpc]

/-- Each step of the run is one of the run that loses the values after their return. -/
lemma abs_baseStep (h : Destructor.Inv (abs s)) {a : Destructor.Action P T}
    (hs : Destructor.step s.base a = some t) : Destructor.step (abs s) a =
      some (abs { s with base := t, exits := s.exits ++ returning s.base a }) := by
  have hd : (abs s).destroy = s.base.destroy := rfl
  cases h with
  | gone hdone =>
    rw [hd] at hdone
    cases a <;> simp [Destructor.step, Destructor.destroyStep, hdone] at hs
  | live cs vs hq howned hledger hphase =>
    cases a with
    | queue b =>
      simp only [Destructor.step, hd] at hs ⊢
      split_ifs at hs ⊢
      exact abs_queueStep hq hs
    | begin =>
      simp only [Destructor.step, hd] at hs ⊢
      split_ifs at hs ⊢
      cases hs
      simp only [returning, List.append_nil]
      rfl
    | destroy => exact abs_destroyStep hq hs

omit [DecidableEq P] in
/-- An exception is out of a move of the consumer. -/
lemma moveThrows_eq (hs : moveThrows s = some s') : ∃ next v,
    s.base.queue.consumer = .moveValue next ∧ s.base.queue.value next = some v ∧
      s' = if s.base.destroy = .idle then { s with
        base := { s.base with queue := s.base.queue.setConsumer .idle }
        exits := s.exits ++ [.threw v]
        leaked := s.leaked ++ [s.base.ledger.serial next] }
      else { s with terminated := true } := by
  unfold moveThrows at hs
  split at hs
  · rename_i next hc
    obtain ⟨v, hval, rfl⟩ := Option.map_eq_some_iff.mp hs
    exact ⟨next, v, hc, hval, rfl⟩
  · cases hs

omit [DecidableEq P] in
lemma absLedger_append {l : Ledger Addr} {leaked : List ℕ} {n : Addr} :
    absLedger l (leaked ++ [l.serial n]) = (absLedger l leaked).destroy n := by
  unfold absLedger Ledger.destroy
  simp only [Ledger.mk.injEq, and_true, true_and, List.count_append, List.count_singleton]
  funext i
  by_cases hi : i = l.serial n
  · subst hi
    simp [Nat.add_assoc]
  · simp [hi, Ne.symm hi]

/-- The exception leaves a call. In the other run the call has moved the value, destroyed the one in
the node, and returned. -/
lemma abs_moveThrows (h : Destructor.Inv (abs s)) (hs : moveThrows s = some s')
    (hidle : s.base.destroy = .idle) : ∃ u, Destructor.step (abs s) (.queue .consumer) = some u ∧
      Destructor.step u (.queue .consumer) = some (abs s') := by
  obtain ⟨next, v, hc, hval, rfl⟩ := moveThrows_eq hs
  rw [if_pos hidle]
  have hd : (abs s).destroy = .idle := hidle
  have hc' : (abs s).queue.consumer = .moveValue next := hc
  cases h with
  | gone hdone =>
    rw [hd] at hdone
    cases hdone
  | live cs vs hq howned hledger hphase =>
    have hpc := hq.consumer
    rw [hc'] at hpc
    obtain rfl : next = s.base.queue.mHead := hpc.1
    have hsame : (abs s).queue =
        { s.base.queue with returned := s.exits.map Exit.taken } := by
      simp [abs, absQueue, stubAddr, hc]
    have hval' : (abs s).queue.value s.base.queue.mHead = some v := by
      rw [hsame]
      exact hval
    refine ⟨⟨((abs s).queue.setNode s.base.queue.mHead
      (some ⟨(abs s).queue.next s.base.queue.mHead, none⟩)).setConsumer (.ret (some v)),
      (abs s).ledger.destroy s.base.queue.mHead, .idle⟩, ?_, ?_⟩
    · simp [Destructor.step, hd, Destructor.queueStep, AtomicQueue.step, consumerStep, hc',
        moveValue_eq hval', record]
    · simp only [Destructor.step, if_true, Destructor.queueStep, AtomicQueue.step, consumerStep,
        State.setConsumer, Option.map_some, Option.some.injEq, record]
      simp only [abs, absLedger_append, hidle, Destructor.State.mk.injEq, and_true]
      simp only [absQueue, stubAddr, hc, State.setNode, State.next, List.map_append,
        AtomicQueue.State.mk.injEq, true_and]
      refine ⟨funext fun b => ?_, rfl⟩
      by_cases hb : b = s.base.queue.mHead
      · subst hb
        have hlive : s.base.queue.Live s.base.queue.mHead := absQueue_live.mp hq.live_head
        obtain ⟨nd, hnd⟩ := Option.isSome_iff_exists.mp hlive
        simp [hnd, hollow]
      · simp [hb, Ne.symm hb]

omit [DecidableEq P] in
/-- Only the return of a call is noted. -/
lemma consumerStep_returned {q q' : AtomicQueue.State P T} (hs : consumerStep q = some q') :
    q'.returned =
      q.returned ++ (exitOf q (.consumer : AtomicQueue.Action P T)).filterMap Exit.result := by
  cases hc : q.consumer <;> simp only [consumerStep, hc] at hs <;>
    simp only [exitOf, hc, List.filterMap_nil, List.append_nil]
  case idle => cases hs
  case waitTest head tail next => cases next <;> cases tail <;> cases hs <;> rfl
  case tryLoadNext head | waitLoadNext head tail | reloadNext head =>
    cases hs
    unfold State.loadNext
    split <;> rfl
  case wait tail | deleteHead head next => split at hs <;> cases hs <;> rfl
  case moveValue next =>
    cases hs
    unfold AtomicQueue.moveValue
    split <;> rfl
  all_goals
    cases hs
    rfl

lemma step_returned {q q' : AtomicQueue.State P T} {b : AtomicQueue.Action P T}
    (hs : AtomicQueue.step q b = some q') :
    q'.returned = q.returned ++ (exitOf q b).filterMap Exit.result := by
  cases step_move hs with
  | consumer hs => exact consumerStep_returned hs
  | @reject p _ n _ hp =>
    simp only [exitOf, List.filterMap_nil, List.append_nil]
    unfold rejectNode
    split <;> rfl
  | link hp =>
    simp only [exitOf, List.filterMap_nil, List.append_nil]
    unfold linkTail
    split <;> rfl
  | _ => simp [exitOf, State.setProducer, State.setNode, State.setConsumer]

lemma queueStep_returned {r t : Destructor.State P T} {b : AtomicQueue.Action P T}
    {pc : Destructor.DestroyPc} (hs : Destructor.queueStep r b pc = some t) :
    t.queue.returned = r.queue.returned ++ (exitOf r.queue b).filterMap Exit.result := by
  obtain ⟨q, hq, rfl⟩ := Option.map_eq_some_iff.mp hs
  exact step_returned hq

lemma baseStep_returned {r t : Destructor.State P T} {a : Destructor.Action P T}
    (hs : Destructor.step r a = some t) :
    t.queue.returned = r.queue.returned ++ (returning r a).filterMap Exit.result := by
  cases a with
  | queue b =>
    simp only [Destructor.step] at hs
    split_ifs at hs
    exact queueStep_returned hs
  | begin =>
    simp only [Destructor.step] at hs
    split_ifs at hs
    cases hs
    simp [returning]
  | destroy =>
    change Destructor.destroyStep r = some t at hs
    cases hpc : r.destroy <;> simp only [Destructor.destroyStep, hpc, reduceCtorEq] at hs
    case stop | call =>
      rw [queueStep_returned hs]
      simp [returning, exitOf, hpc]
    case drain =>
      rw [returning, if_pos hpc]
      split at hs <;> exact queueStep_returned hs
    case exchange =>
      cases hs
      simp [returning, hpc]
    case delete stub =>
      cases hs
      unfold Destructor.deleteStub
      split <;> simp [returning, hpc, State.crash, State.setNode]

omit [DecidableEq P] in
/-- A step of the queue throws nothing. -/
lemma returning_thrown {r : Destructor.State P T} {a : Destructor.Action P T} :
    (returning r a).filterMap Exit.thrown = [] := by
  have hexit : ∀ b, (exitOf r.queue b).filterMap Exit.thrown = [] := by
    intro b
    unfold exitOf
    split <;> rfl
  cases a with
  | queue b => exact hexit b
  | begin => rfl
  | destroy =>
    unfold returning
    split_ifs
    · exact hexit _
    · rfl

/-- What is known of a run: the one that loses the values after their return exists, and every
exception has left a value in a node. -/
structure Inv (stub : Addr) (s : State P T) : Prop where
  run : (Destructor.system P T stub).Reaches Destructor.QuietBegin (abs s)
  returned : s.base.queue.returned = s.exits.filterMap Exit.result
  leaked : s.leaked.length = s.thrown.length

variable {stub : Addr}

lemma init_inv : Inv stub (init P T stub) := by
  refine ⟨?_, rfl, rfl⟩
  have heq : abs (init P T stub) = Destructor.init P T stub := by
    have hqueue : absQueue (AtomicQueue.init P T stub) [] = AtomicQueue.init P T stub := by
      simp only [absQueue, stubAddr, AtomicQueue.init, List.map_nil, AtomicQueue.State.mk.injEq,
        and_true]
      funext a
      by_cases ha : a = stub
      · simp [ha, hollow]
      · simp [ha, Ne.symm ha]
    simp only [abs, init, Destructor.init, hqueue]
    rfl
  rw [heq]
  exact .init

lemma Inv.step (h : Inv stub s) {a : Action P T} (hquiet : QuietBegin s a)
    (hs : step s a = some s') : Inv stub s' := by
  have hinv := Destructor.reaches_inv h.run
  cases a with
  | base a =>
    simp only [ThrowingMove.step] at hs
    split_ifs at hs
    obtain ⟨t, ht, rfl⟩ := Option.map_eq_some_iff.mp hs
    refine ⟨h.run.step (show Destructor.QuietBegin (abs s) a from hquiet) (abs_baseStep hinv ht),
      ?_, ?_⟩
    · rw [List.filterMap_append, ← h.returned]
      exact baseStep_returned ht
    · simp only [State.thrown, List.filterMap_append, returning_thrown, List.append_nil]
      exact h.leaked
  | moveThrows =>
    simp only [ThrowingMove.step] at hs
    split_ifs at hs
    by_cases hidle : s.base.destroy = .idle
    · obtain ⟨u, hu, hs'⟩ := abs_moveThrows hinv hs hidle
      have hfirst := h.run.step (show Destructor.QuietBegin (abs s) (.queue .consumer) by
        simp [Destructor.QuietBegin]) hu
      have hsecond := hfirst.step (show Destructor.QuietBegin u (.queue .consumer) by
        simp [Destructor.QuietBegin]) hs'
      obtain ⟨next, v, -, -, rfl⟩ := moveThrows_eq hs
      rw [if_pos hidle] at hsecond ⊢
      refine ⟨hsecond, ?_, ?_⟩
      · rw [List.filterMap_append]
        exact h.returned.trans (List.append_nil _).symm
      · simpa [State.thrown, Exit.thrown] using h.leaked
    · obtain ⟨next, v, -, -, rfl⟩ := moveThrows_eq hs
      rw [if_neg hidle]
      exact ⟨h.run, h.returned, h.leaked⟩

/-! ### What is kept and what is lost -/

omit [DecidableEq P] in
/-- What the calls have taken out is what they have returned and what has been lost. -/
lemma length_taken (exits : List (Exit T)) : (exits.filterMap Exit.taken).length =
    ((exits.filterMap Exit.result).filterMap id).length + (exits.filterMap Exit.thrown).length := by
  induction exits with
  | nil => rfl
  | cons e exits ih =>
    cases e with
    | returned r =>
      cases r <;> simp only [List.filterMap_cons, Exit.taken, Exit.result, Exit.thrown, id_eq,
        List.length_cons] at ih ⊢ <;> omega
    | threw v =>
      simp only [List.filterMap_cons, Exit.taken, Exit.result, Exit.thrown, List.length_cons]
      omega

omit [DecidableEq P] in
lemma taken_of_thrown_nil {exits : List (Exit T)} (h : exits.filterMap Exit.thrown = []) :
    exits.filterMap Exit.taken = (exits.filterMap Exit.result).filterMap id := by
  induction exits with
  | nil => rfl
  | cons e exits ih =>
    cases e with
    | returned r =>
      cases r <;> simp only [List.filterMap_cons, Exit.taken, Exit.result, id_eq, ih h]
    | threw v => cases h

omit [DecidableEq P] in
lemma Undelivered.unique {q : AtomicQueue.State P T} {us ws : List T} (hu : Undelivered q us)
    (hw : Undelivered q ws) : us = ws := by
  obtain ⟨cs, vs, hcs, hvs, rfl⟩ := hu
  obtain ⟨ds, xs, hds, hxs, rfl⟩ := hw
  obtain rfl := hcs.unique hds
  rw [hvs] at hxs
  rw [List.map_injective_iff.mpr (Option.some_injective T) hxs]

omit [DecidableEq P] in
/-- The chain is the same in both runs, and so is what the consumer has in its hand. -/
lemma undelivered (h : AtomicQueue.Inv (abs s).queue cs vs) :
    Undelivered s.base.queue (s.base.queue.handOf s.base.queue.consumer ++ vs) ∧
      s.base.queue.acceptedValues = s.exits.filterMap Exit.taken ++
        (s.base.queue.handOf s.base.queue.consumer ++ vs) := by
  have hpc : (abs s).queue.PcOk cs s.base.queue.consumer := h.consumer
  have hvalue : ∀ a v, (abs s).queue.value a = some v → s.base.queue.value a = some v := by
    intro a v ha
    rw [show (abs s).queue = absQueue s.base.queue s.exits from rfl, absQueue_value] at ha
    split_ifs at ha
    exact ha
  have hhand : (abs s).queue.handOf s.base.queue.consumer =
      s.base.queue.handOf s.base.queue.consumer := by
    cases hc : s.base.queue.consumer <;> rw [hc] at hpc <;> try rfl
    case deleteHead head next =>
      obtain ⟨-, ⟨v, hv⟩, -⟩ := hpc
      simp only [State.handOf, hv, hvalue next v hv]
    case moveValue next =>
      obtain ⟨-, v, hv⟩ := hpc
      simp only [State.handOf, hv, hvalue next v hv]
  have hshape : Shape s.base.queue cs := by
    refine h.shape.frame rfl (Or.inr rfl) (fun a _ => ?_) (fun a ha => ?_) fun _ _ _ => Iff.rfl
    · exact absQueue_next.symm
    · exact absQueue_live.mp (h.shape.live a ha)
  have hvalues : cs.tail.map s.base.queue.value = vs.map some := by
    rw [← h.values]
    refine List.map_congr_left fun a ha => ?_
    have hmem : (abs s).queue.value a ∈ cs.tail.map (abs s).queue.value := List.mem_map_of_mem ha
    rw [h.values] at hmem
    obtain ⟨v, -, hv⟩ := List.mem_map.mp hmem
    rw [← hv]
    exact hvalue a v hv.symm
  refine ⟨⟨cs, vs, hshape, hvalues, rfl⟩, ?_⟩
  have hacc : s.base.queue.acceptedValues = (abs s).queue.delivered ++
      (abs s).queue.handOf s.base.queue.consumer ++ vs := h.accepted
  have hdelivered : (abs s).queue.delivered = s.exits.filterMap Exit.taken := by
    change (s.exits.map Exit.taken).filterMap id = _
    rw [List.filterMap_map]
    rfl
  rw [hacc, hhand, hdelivered, List.append_assoc]

/-- A value that was left behind is not destroyed any more. -/
lemma Inv.leaked_value (h : Inv stub s) {i : ℕ} (hi : i ∈ s.leaked) :
    i < s.base.ledger.count ∧ s.base.ledger.constructed i = 1 ∧ s.base.ledger.destroyed i = 0 := by
  have hpos : 0 < s.leaked.count i := List.count_pos_iff.mpr hi
  have hbalanced : (abs s).ledger.Balanced (abs s).queue.Live (abs s).queue.Full := by
    cases Destructor.reaches_inv h.run with
    | live _ _ _ _ hledger _ => exact hledger
    | gone _ _ _ _ hledger => exact hledger
  have hdestroyed : (abs s).ledger.destroyed i = s.base.ledger.destroyed i + s.leaked.count i := rfl
  obtain ⟨-, hcon, hle⟩ := hbalanced.once i
  have hcon' : s.base.ledger.constructed i ≤ 1 := hcon
  have hle' : (abs s).ledger.destroyed i ≤ s.base.ledger.constructed i := hle
  refine ⟨?_, by omega, by omega⟩
  by_contra hge
  obtain ⟨-, -, hzero⟩ := hbalanced.fresh i (not_lt.mp hge)
  omega

lemma Inv.kept_iff (h : Inv stub s) : Kept s ↔ s.terminated = false ∧ s.thrown = [] := by
  have hinv := Destructor.reaches_inv h.run
  have hdelivered : s.base.queue.delivered = (s.exits.filterMap Exit.result).filterMap id := by
    rw [State.delivered, h.returned]
  constructor
  · rintro ⟨hcaught, hvalues, hsettled⟩
    refine ⟨hcaught, ?_⟩
    by_cases hdone : s.base.destroy = .done
    · by_contra hthrown
      have hlength : s.leaked ≠ [] := by
        intro hnil
        have hlen := h.leaked
        rw [hnil] at hlen
        exact hthrown (List.length_eq_zero_iff.mp hlen.symm)
      obtain ⟨i, hi⟩ := List.exists_mem_of_ne_nil _ hlength
      obtain ⟨hlt, hcon, hzero⟩ := h.leaked_value hi
      have hset := (hsettled hdone i hlt).destroyed
      omega
    · cases hinv with
      | gone hgone => exact absurd hgone hdone
      | live cs vs hq howned hledger hphase =>
        obtain ⟨us, hus, hacc⟩ := hvalues hdone
        obtain ⟨hund, htaken⟩ := undelivered hq
        obtain rfl := hus.unique hund
        have hlen := congrArg List.length (hacc.symm.trans htaken)
        simp only [List.length_append, hdelivered, length_taken] at hlen
        exact List.length_eq_zero_iff.mp (by rw [State.thrown]; omega)
  · rintro ⟨hcaught, hthrown⟩
    have hnil : s.leaked = [] := by
      have hlen := h.leaked
      rw [hthrown] at hlen
      exact List.length_eq_zero_iff.mp hlen
    refine ⟨hcaught, fun hdone => ?_, fun hdone i hi => ?_⟩
    · cases hinv with
      | gone hgone => exact absurd hgone hdone
      | live cs vs hq howned hledger hphase =>
        obtain ⟨hund, htaken⟩ := undelivered hq
        refine ⟨_, hund, ?_⟩
        rw [htaken, hdelivered, taken_of_thrown_nil hthrown]
    · have hend := (Destructor.reclaimed_once h.run).2.2.2.2.2 hdone
      obtain ⟨hdel, hcon, hdes⟩ := hend.2 i hi
      refine ⟨hdel, hcon, ?_⟩
      have hdestroyed : (abs s).ledger.destroyed i = s.base.ledger.destroyed i := by
        change _ + s.leaked.count i = _
        rw [hnil]
        rfl
      exact hdestroyed.symm.trans hdes

lemma reaches_inv (h : (system P T stub).Reaches QuietBegin s) : Inv stub s :=
  h.invariant (I := Inv stub) init_inv fun _ _ _ _ hinv hquiet hs => hinv.step hquiet hs

lemma Inv.fault (h : Inv stub s) : s.base.queue.fault = false := by
  cases Destructor.reaches_inv h.run with
  | live _ _ hq _ _ _ => exact hq.fault
  | gone _ hfault _ _ _ => exact hfault

/-- The value whose move throws is the first one that is not delivered, and afterwards it is not
among them any more. -/
lemma Inv.lost (h : Inv stub s) (hs : moveThrows s = some s') (hidle : s.base.destroy = .idle) :
    ∃ v us, s'.exits = s.exits ++ [.threw v] ∧ s'.base.queue.consumer = .idle ∧
      Undelivered s.base.queue (v :: us) ∧ Undelivered s'.base.queue us := by
  have hd : (abs s).destroy = .idle := hidle
  obtain ⟨next, v, hc, hval, rfl⟩ := moveThrows_eq hs
  rw [if_pos hidle]
  cases Destructor.reaches_inv h.run with
  | gone hdone =>
    rw [hd] at hdone
    cases hdone
  | live cs vs hq howned hledger hphase =>
    obtain ⟨ds, ws, hshape, hvalues, heq⟩ := (undelivered hq).1
    have hhand : s.base.queue.handOf s.base.queue.consumer = [v] := by
      rw [hc]
      simp [State.handOf, hval]
    have hund : Undelivered s.base.queue (v :: ws) := ⟨ds, ws, hshape, hvalues, by rw [hhand]; rfl⟩
    refine ⟨v, ws, rfl, rfl, hund, ds, ws, ?_, hvalues, rfl⟩
    exact hshape.congr rfl rfl (Or.inr rfl) rfl

/-- Everything is kept as long as no move throws, and not any more after that. An exception that
leaves a dequeue function reaches its caller. It takes the first value away from those that are to
be delivered, and that value is not destroyed at all. One that leaves the destructor ends the
program. -/
theorem throwing_move_keeps_iff (h : (system P T stub).Reaches QuietBegin s) :
    (Kept s ↔ s.terminated = false ∧ s.thrown = []) ∧
    s.base.queue.fault = false ∧
    (∀ i ∈ s.leaked, s.base.ledger.constructed i = 1 ∧ s.base.ledger.destroyed i = 0) ∧
    ∀ s', step s .moveThrows = some s' →
      (s.base.destroy = .idle → ∃ v us, s'.exits = s.exits ++ [.threw v] ∧
        s'.base.queue.consumer = .idle ∧ Undelivered s.base.queue (v :: us) ∧
        Undelivered s'.base.queue us) ∧
      (s.base.destroy ≠ .idle → s'.terminated = true) := by
  have hinv := reaches_inv h
  refine ⟨hinv.kept_iff, hinv.fault, fun i hi => (hinv.leaked_value hi).2, fun s' hs => ?_⟩
  simp only [step] at hs
  split_ifs at hs
  refine ⟨hinv.lost hs, fun hbegun => ?_⟩
  obtain ⟨next, v, -, -, rfl⟩ := moveThrows_eq hs
  rw [if_neg hbegun]

end run

/-- The values 5 and 6 are enqueued, and the move of 5 throws. -/
def throwing : List (Action Unit ℕ) :=
  [.base (.queue (.enqueue () 5)), .base (.queue (.alloc () (some 1))),
    .base (.queue (.loadTail ())), .base (.queue (.cas () false)), .base (.queue (.link ())),
    .base (.queue (.enqueueRet ())), .base (.queue (.enqueue () 6)),
    .base (.queue (.alloc () (some 2))), .base (.queue (.loadTail ())),
    .base (.queue (.cas () false)), .base (.queue (.link ())), .base (.queue (.enqueueRet ())),
    .base (.queue .tryDequeue), .base (.queue .consumer), .base (.queue .consumer),
    .base (.queue .consumer), .base (.queue .consumer), .moveThrows]

/-- The next call returns 6, and the destructor leaves 5 undestroyed. -/
theorem throwing_move_loses : ∃ s : State Unit ℕ, (system Unit ℕ 0).Reaches QuietBegin s ∧
    s.exits = [.threw 5, .returned (some 6), .returned none] ∧ s.base.destroy = .done ∧
    s.base.ledger.constructed 1 = 1 ∧ s.base.ledger.destroyed 1 = 0 ∧ ¬Kept s := by
  obtain ⟨s, hs, hexits, hdone, hcount, hcon, hdes⟩ := System.exists_reaches
    (S := system Unit ℕ 0) QuietBegin (fun s => s.exits =
      [.threw 5, .returned (some 6), .returned none] ∧ s.base.destroy = .done ∧
      1 < s.base.ledger.count ∧ s.base.ledger.constructed 1 = 1 ∧ s.base.ledger.destroyed 1 = 0)
    (throwing ++ [.base (.queue .tryDequeue), .base (.queue .consumer), .base (.queue .consumer),
      .base (.queue .consumer), .base (.queue .consumer), .base (.queue .consumer),
      .base (.queue .consumer), .base .begin, .base .destroy, .base .destroy, .base .destroy,
      .base .destroy, .base .destroy, .base .destroy, .base .destroy]) (by decide)
  refine ⟨s, hs, hexits, hdone, hcon, hdes, fun hkept => ?_⟩
  have hset := (hkept.settled hdone 1 hcount).destroyed
  omega

/-- Before the next call 6 is all that is to be delivered, and nothing is kept. -/
theorem throwing_move_keeps_iff_thrown : ∃ s : State Unit ℕ, s.exits = [.threw 5] ∧ ¬Kept s ∧
    s.base.queue.fault = false := by
  obtain ⟨s, hs, hexits⟩ := System.exists_reaches (S := system Unit ℕ 0) QuietBegin
    (fun s => s.exits = [.threw 5]) throwing (by decide)
  obtain ⟨hkept, hfault, -, -⟩ := throwing_move_keeps_iff hs
  refine ⟨s, hexits, fun hk => ?_, hfault⟩
  have hthrown := (hkept.mp hk).2
  rw [State.thrown, hexits] at hthrown
  cases hthrown

end Scoro.ThrowingMove

import Scoro.Queue.Frame

/-!
# `wait_dequeue` with several consumers

Consumers `C` that call `wait_dequeue` with a lock on one mutex. The consumer of the queue is the
one inside the call, and the mutex is released while a consumer waits for `m_tail` to differ from
the address that it remembers. Meanwhile another consumer may delete the node there and a producer
publish a new node at the same address.
-/

namespace Scoro.SharedQueue
open Scoro.Lib Scoro.AtomicQueue

/-- Where a consumer stands. `lock` and `relock` are its waits for the mutex, at the call and after
`m_tail.wait(tail)`. The lock is given back when the call returns. -/
inductive ConsumerPc where
  | idle
  | lock
  | inside
  | wait (tail : Addr)
  | relock
  | unlock
  deriving DecidableEq

structure State (P T C : Type*) where
  queue : AtomicQueue.State P T
  consumers : C → ConsumerPc
  mutex : Option C

/-- A step of a producer or `stop`, a call of `wait_dequeue` and its next step. -/
inductive Action (P T C : Type*) where
  | other (a : AtomicQueue.Action P T)
  | waitDequeue (c : C)
  | consumer (c : C)
  deriving DecidableEq

section step
variable {P T C : Type*}

def init (P T C : Type*) (stub : Addr) : State P T C where
  queue := AtomicQueue.init P T stub
  consumers := fun _ => .idle
  mutex := none

/-- The steps that no consumer takes. -/
def isOther : AtomicQueue.Action P T → Bool
  | .tryDequeue | .waitDequeue | .consumer => false
  | _ => true

variable [DecidableEq C]

def State.setConsumer (s : State P T C) (c : C) (pc : ConsumerPc) : State P T C :=
  { s with consumers := Function.update s.consumers c pc }

/-- A consumer that holds the mutex takes the next step of `wait_dequeue_helper<false>`. -/
def insideStep (s : State P T C) (c : C) : Option (State P T C) :=
  match s.queue.consumer with
  | .wait tail => some { s.setConsumer c (.wait tail) with
      queue := s.queue.setConsumer .idle, mutex := none }
  | .ret _ =>
    (AtomicQueue.consumerStep s.queue).map fun q => { s.setConsumer c .unlock with queue := q }
  | _ => (AtomicQueue.consumerStep s.queue).map fun q => { s with queue := q }

def consumerStep (s : State P T C) (c : C) : Option (State P T C) :=
  match s.consumers c with
  | .idle => none
  | .lock =>
    if s.mutex.isNone then some { s.setConsumer c .inside with
      queue := s.queue.setConsumer .waitLoadHead, mutex := some c }
    else none
  | .inside => insideStep s c
  | .wait tail => if s.queue.mTail = some tail then none else some (s.setConsumer c .relock)
  | .relock =>
    if s.mutex.isNone then some { s.setConsumer c .inside with
      queue := s.queue.setConsumer .reloadHead, mutex := some c }
    else none
  | .unlock => some { s.setConsumer c .idle with mutex := none }

def step [DecidableEq P] (s : State P T C) : Action P T C → Option (State P T C)
  | .other a => if isOther a then (AtomicQueue.step s.queue a).map fun q => { s with queue := q }
    else none
  | .waitDequeue c =>
    match s.consumers c with
    | .idle => some (s.setConsumer c .lock)
    | _ => none
  | .consumer c => consumerStep s c

def system (P T C : Type*) [DecidableEq P] [DecidableEq C] (stub : Addr) :
    System (State P T C) (Action P T C) where
  init := init P T C stub
  step := step

end step

variable {P T C : Type*} {s s' : State P T C} {q q' : AtomicQueue.State P T} {c : C}
  {cs : List Addr} {vs : List T} {stub : Addr}

/-- The address that the step swings `m_tail` to, if it is a successful CAS. -/
def published (q : AtomicQueue.State P T) : AtomicQueue.Action P T → Option Addr
  | .cas p false =>
    match q.producers p with
    | .cas n _ (some tail) => if q.mTail = some tail then some n else none
    | _ => none
  | _ => none

/-- No address is published that a waiting consumer remembers. -/
def KeepsTail (s : State P T C) : Action P T C → Prop
  | .other a => ∀ n ∈ published s.queue a, ∀ c, s.consumers c ≠ .wait n
  | .waitDequeue _ | .consumer _ => True

instance [Fintype C] (s : State P T C) : (a : Action P T C) → Decidable (KeepsTail s a)
  | .other a => inferInstanceAs
      (Decidable (∀ n ∈ published s.queue a, ∀ c, s.consumers c ≠ .wait n))
  | .waitDequeue _ | .consumer _ => .isTrue trivial

/-- The consumer waits, as `m_tail` is the address that it remembers. -/
def Blocked (s : State P T C) (c : C) : Prop :=
  ∃ tail, s.consumers c = .wait tail ∧ s.queue.mTail = some tail

/-- All calls of `enqueue` have returned and a value is linked behind `m_head`, but one consumer is
blocked and no other one is in a call. -/
def Stranded (s : State P T C) : Prop :=
  (∀ p, s.queue.producers p = .idle) ∧ s.queue.next s.queue.mHead ≠ none ∧
    ∃ c, Blocked s c ∧ ∀ d, d ≠ c → s.consumers d = .idle

section queue
variable [DecidableEq P]

/-- A step of another thread changes `m_tail` by publishing a node or by `stop`. -/
lemma mTail_step {a : AtomicQueue.Action P T} (hs : AtomicQueue.step q a = some q')
    (ha : isOther a = true) :
    q'.mTail = q.mTail ∨ q'.mTail = none ∨ q'.mTail = published q a := by
  cases step_move hs with
  | tryDequeue _ | waitDequeue _ | consumer _ => cases ha
  | stop => exact Or.inr (Or.inl rfl)
  | enqueue _ _ | noMemory _ | alloc _ _ | loadTail _ | retry _ _ | enqueueRet _ => exact Or.inl rfl
  | push hp ht => simp [published, hp, ht]
  | reject _ =>
    left
    unfold rejectNode
    split <;> rfl
  | link _ =>
    left
    unfold linkTail
    split <;> rfl

/-- The CAS that publishes an address appends a value. -/
lemma published_step {a : AtomicQueue.Action P T} {n : Addr} (hn : published q a = some n)
    (hs : AtomicQueue.step q a = some q') :
    q'.mTail = some n ∧ q'.removed = q.removed ∧
      ∃ v, q'.acceptedValues = q.acceptedValues ++ [v] := by
  cases step_move hs
  case push p n' t v hp ht =>
    simp only [published, hp, ht, ↓reduceIte, Option.some.injEq] at hn
    subst hn
    refine ⟨rfl, ?_, v, by simp [AtomicQueue.State.acceptedValues]⟩
    cases hc : q.consumer <;>
      simp [AtomicQueue.State.removed, AtomicQueue.State.handOf, AtomicQueue.State.delivered,
        AtomicQueue.State.value, AtomicQueue.State.setProducer, hc]
  case retry p spurious n' t v hp hfail =>
    have ht : spurious = false → q.mTail ≠ some t := fun hb ht => hfail ⟨ht, hb⟩
    cases spurious with
    | true => cases hn
    | false => simp [published, hp, ht] at hn
  case reject p spurious n' v hp => cases spurious <;> simp [published, hp] at hn
  all_goals cases hn

omit [DecidableEq P] in
/-- A producer does not publish the node at `m_head`. -/
lemma published_ne_head {a : AtomicQueue.Action P T} {n : Addr} (h : AtomicQueue.Inv q cs vs)
    (hn : published q a = some n) : n ≠ q.mHead := by
  rintro rfl
  unfold published at hn
  split at hn
  · split at hn
    · rename_i hp
      split at hn <;> cases hn
      exact (h.node _ _ _ (by rw [hp]; exact ⟨rfl, rfl⟩)).2 h.shape.head_mem
    · cases hn
  · cases hn

omit [DecidableEq P] in
/-- The consumer moves `m_head` only if a node is linked behind the old one, and it waits only for
the address of the node at `m_head`. -/
lemma mHead_step (h : AtomicQueue.Inv q cs vs) (hs : AtomicQueue.consumerStep q = some q') :
    (q'.mHead = q.mHead ∨ q.next q.mHead ≠ none) ∧
      ∀ tail, q'.consumer = .wait tail → tail = q'.mHead := by
  have hpc := h.consumer
  cases h.move hs with
  | storeHead hc =>
    rw [hc] at hpc
    exact ⟨Or.inr (by simp [hpc.2]), by simp [AtomicQueue.State.setConsumer]⟩
  | moveValue hc hret =>
    refine ⟨Or.inl ?_, by simp [hret]⟩
    unfold moveValue
    split <;> rfl
  | stub hc =>
    refine ⟨Or.inl rfl, fun tail ht => ?_⟩
    cases ht
    rfl
  | _ => exact ⟨Or.inl rfl, by simp [AtomicQueue.State.setConsumer]⟩

omit [DecidableEq P] in
/-- While `m_tail` points to the node at `m_head` nothing is linked behind it. -/
lemma next_head_of_mTail (h : AtomicQueue.Inv q cs vs) (ht : q.mTail = some q.mHead) :
    q.next q.mHead = none := by
  cases vs with
  | nil => exact h.of_nil.1
  | cons v vs => exact absurd ht h.of_cons.1

end queue

/-- A consumer remembers the address of the stub, as long as `m_tail` is that address. -/
structure Inv (s : State P T C) : Prop where
  queue : ∃ cs vs, AtomicQueue.Inv s.queue cs vs
  holder : ∀ c, s.consumers c = .inside ∨ s.consumers c = .unlock → s.mutex = some c
  free : (∀ c, s.consumers c ≠ .inside) → s.queue.consumer = .idle
  stub : ∀ tail, s.queue.consumer = .wait tail → tail = s.queue.mHead
  waiters : ∀ c tail, s.consumers c = .wait tail → s.queue.mTail = some tail →
    tail = s.queue.mHead

lemma init_inv : Inv (init P T C stub) := by
  refine ⟨⟨[stub], [], inv_init⟩, ?_, fun _ => rfl, ?_, ?_⟩ <;> simp [init, AtomicQueue.init]

/-- A blocked consumer has nothing to take. -/
lemma Inv.not_stranded (h : Inv s) : ¬Stranded s := by
  rintro ⟨-, hnext, c, ⟨tail, hc, ht⟩, -⟩
  obtain ⟨cs, vs, hq⟩ := h.queue
  obtain rfl := h.waiters c tail hc ht
  exact hnext (next_head_of_mTail hq ht)

section step
variable [DecidableEq C]

lemma insideStep_of_ne {d : C} (hs : insideStep s c = some s') (hd : d ≠ c) :
    s'.consumers d = s.consumers d := by
  unfold insideStep at hs
  split at hs
  · cases hs
    exact Function.update_of_ne hd ..
  · obtain ⟨_, -, rfl⟩ := Option.map_eq_some_iff.mp hs
    exact Function.update_of_ne hd ..
  · obtain ⟨_, -, rfl⟩ := Option.map_eq_some_iff.mp hs
    rfl

/-- A consumer moves itself only. -/
lemma consumerStep_of_ne {d : C} (hs : consumerStep s c = some s') (hd : d ≠ c) :
    s'.consumers d = s.consumers d := by
  cases hc : s.consumers c <;> simp only [consumerStep, hc, reduceCtorEq] at hs
  case inside => exact insideStep_of_ne hs hd
  case unlock =>
    cases hs
    exact Function.update_of_ne hd ..
  all_goals
    split at hs <;> cases hs
    exact Function.update_of_ne hd ..

/-- A consumer begins to wait where `wait_dequeue_helper` has found the stub. -/
lemma Inv.stub_of_consumerStep {tail : Addr} (h : Inv s) (hout : ∀ tail, s.consumers c ≠ .wait tail)
    (hs : consumerStep s c = some s') (hc : s'.consumers c = .wait tail) :
    tail = s'.queue.mHead := by
  cases hold : s.consumers c <;> simp only [SharedQueue.consumerStep, hold, reduceCtorEq] at hs
  case wait tail => exact absurd hold (hout tail)
  case inside =>
    unfold SharedQueue.insideStep at hs
    split at hs
    · rename_i tail' hpc
      cases hs
      simp only [State.setConsumer, Function.update_self, ConsumerPc.wait.injEq] at hc
      exact hc.symm.trans (h.stub tail' hpc)
    · obtain ⟨r, -, rfl⟩ := Option.map_eq_some_iff.mp hs
      simp [State.setConsumer] at hc
    · obtain ⟨r, -, rfl⟩ := Option.map_eq_some_iff.mp hs
      simp [hold] at hc
  case unlock =>
    cases hs
    simp [State.setConsumer] at hc
  all_goals
    split at hs <;> cases hs
    simp [State.setConsumer] at hc

/-- A consumer goes on outside of the queue. -/
lemma Inv.setConsumer (h : Inv s) {pc : ConsumerPc} (hold : s.consumers c ≠ .inside)
    (hnew : pc = .idle ∨ pc = .lock ∨ pc = .relock) : Inv (s.setConsumer c pc) := by
  refine ⟨h.queue, fun d hd => ?_, fun hfree => h.free fun d => ?_, h.stub, fun d tail hd => ?_⟩
  all_goals by_cases hdc : d = c
  · subst hdc
    simp only [State.setConsumer, Function.update_self] at hd
    rcases hnew with rfl | rfl | rfl <;> simp at hd
  · simp only [State.setConsumer, Function.update_of_ne hdc] at hd
    exact h.holder d hd
  · rwa [hdc]
  · have hd := hfree d
    simpa only [State.setConsumer, Function.update_of_ne hdc] using hd
  · subst hdc
    simp only [State.setConsumer, Function.update_self] at hd
    rcases hnew with rfl | rfl | rfl <;> cases hd
  · simp only [State.setConsumer, Function.update_of_ne hdc] at hd
    exact h.waiters d tail hd

/-- A consumer takes the mutex and goes on inside. -/
lemma Inv.enter (h : Inv s) {pc : DequeuePc T} (hfree : s.mutex = none)
    (hpc : pc = .waitLoadHead ∨ pc = .reloadHead) :
    Inv { s.setConsumer c .inside with queue := s.queue.setConsumer pc, mutex := some c } := by
  have hout : ∀ d, s.consumers d ≠ .inside ∧ s.consumers d ≠ .unlock := fun d => by
    constructor <;>
    · intro hd
      have := h.holder d (by simp [hd])
      rw [hfree] at this
      cases this
  have hidle := h.free fun d => (hout d).1
  obtain ⟨cs, vs, hq⟩ := h.queue
  refine ⟨⟨cs, vs, hq.setConsumer ?_ ?_⟩, fun d hd => ?_, fun hall => ?_, fun tail ht => ?_,
    fun d tail hd => ?_⟩
  · rcases hpc with rfl | rfl <;> trivial
  · rcases hpc with rfl | rfl <;> rw [hidle] <;> rfl
  · by_cases hdc : d = c
    · rw [hdc]
    · simp only [State.setConsumer, Function.update_of_ne hdc] at hd
      exact absurd hd (not_or.mpr (hout d))
  · exact absurd (Function.update_self ..) (hall c)
  · rcases hpc with rfl | rfl <;> cases ht
  · by_cases hdc : d = c
    · subst hdc
      simp [State.setConsumer] at hd
    · simp only [State.setConsumer, Function.update_of_ne hdc] at hd
      exact h.waiters d tail hd

omit [DecidableEq C] in
/-- A step inside the queue leaves the waiting consumers right. -/
lemma Inv.waiters_step (h : Inv s) (hs : AtomicQueue.consumerStep s.queue = some q) {tail : Addr}
    (hc : s.consumers c = .wait tail) (ht : q.mTail = some tail) : tail = q.mHead := by
  obtain ⟨cs, vs, hq⟩ := h.queue
  rw [(consumerStep_frame hs).2.2.2.2] at ht
  obtain rfl := h.waiters c tail hc ht
  rcases (mHead_step hq hs).1 with hhead | hnext
  · exact hhead.symm
  · exact absurd (next_head_of_mTail hq ht) hnext

lemma Inv.insideStep (h : Inv s) (hc : s.consumers c = .inside) (hs : insideStep s c = some s') :
    Inv s' := by
  have hmutex := h.holder c (Or.inl hc)
  have honly : ∀ d, s.consumers d = .inside ∨ s.consumers d = .unlock → d = c := fun d hd =>
    Option.some.inj ((h.holder d hd).symm.trans hmutex)
  obtain ⟨cs, vs, hq⟩ := h.queue
  simp only [SharedQueue.insideStep] at hs
  split at hs
  · rename_i tail hpc
    cases hs
    refine ⟨⟨cs, vs, hq.setConsumer trivial (by rw [hpc]; rfl)⟩, fun d hd => ?_, fun _ => rfl,
      (fun tail ht => by cases ht), fun d tail' hd ht => ?_⟩
    · by_cases hdc : d = c
      · subst hdc
        simp [State.setConsumer] at hd
      · simp only [State.setConsumer, Function.update_of_ne hdc] at hd
        exact absurd (honly d hd) hdc
    · by_cases hdc : d = c
      · subst hdc
        simp only [State.setConsumer, Function.update_self, ConsumerPc.wait.injEq] at hd
        exact hd.symm.trans (h.stub tail hpc)
      · simp only [State.setConsumer, Function.update_of_ne hdc] at hd
        exact h.waiters d tail' hd ht
  · rename_i r hpc
    obtain ⟨q, hstep, rfl⟩ := Option.map_eq_some_iff.mp hs
    obtain ⟨cs', vs', hq', -⟩ := hq.consumerStep hstep
    refine ⟨⟨cs', vs', hq'⟩, fun d hd => ?_, fun _ => ?_, (mHead_step hq hstep).2,
      fun d tail hd ht => ?_⟩
    · by_cases hdc : d = c
      · rw [hdc]
        exact hmutex
      · simp only [State.setConsumer, Function.update_of_ne hdc] at hd
        exact h.holder d hd
    · simp only [AtomicQueue.consumerStep, hpc, Option.some.injEq] at hstep
      subst hstep
      rfl
    · by_cases hdc : d = c
      · subst hdc
        simp [State.setConsumer] at hd
      · simp only [State.setConsumer, Function.update_of_ne hdc] at hd
        exact h.waiters_step hstep hd ht
  · obtain ⟨q, hstep, rfl⟩ := Option.map_eq_some_iff.mp hs
    obtain ⟨cs', vs', hq', -⟩ := hq.consumerStep hstep
    exact ⟨⟨cs', vs', hq'⟩, h.holder, fun hout => absurd hc (hout c), (mHead_step hq hstep).2,
      fun d tail hd ht => h.waiters_step hstep hd ht⟩

lemma Inv.consumerStep (h : Inv s) (hs : consumerStep s c = some s') : Inv s' := by
  cases hc : s.consumers c <;>
    simp only [SharedQueue.consumerStep, hc, reduceCtorEq] at hs
  case lock =>
    split at hs <;> cases hs
    rename_i hfree
    exact h.enter (Option.isNone_iff_eq_none.mp hfree) (Or.inl rfl)
  case inside => exact h.insideStep hc hs
  case wait tail =>
    split at hs <;> cases hs
    exact h.setConsumer (by simp [hc]) (Or.inr (Or.inr rfl))
  case relock =>
    split at hs <;> cases hs
    rename_i hfree
    exact h.enter (Option.isNone_iff_eq_none.mp hfree) (Or.inr rfl)
  case unlock =>
    cases hs
    have hmutex := h.holder c (Or.inr hc)
    have hset : Inv (s.setConsumer c .idle) := h.setConsumer (by simp [hc]) (Or.inl rfl)
    refine ⟨hset.queue, fun d hd => ?_, hset.free, hset.stub, hset.waiters⟩
    -- the mutex was held by `c`
    by_cases hdc : d = c
    · subst hdc
      simp [State.setConsumer] at hd
    · have hd := hset.holder d hd
      exact absurd (Option.some.inj (hd.symm.trans hmutex)) hdc

variable [DecidableEq P]

lemma Inv.step (h : Inv s) {a : Action P T C} (hkeeps : KeepsTail s a) (hs : step s a = some s') :
    Inv s' := by
  cases a with
  | other a =>
    simp only [SharedQueue.step] at hs
    split at hs
    · rename_i ha
      obtain ⟨q, hstep, rfl⟩ := Option.map_eq_some_iff.mp hs
      obtain ⟨cs, vs, hq⟩ := h.queue
      obtain ⟨cs', vs', hq', -⟩ := hq.step hstep
      have hother := step_other hq hstep (by rintro rfl; cases ha) (by rintro rfl; cases ha)
        (by rintro rfl; cases ha)
      refine ⟨⟨cs', vs', hq'⟩, h.holder, fun hout => hother.consumer.trans (h.free hout),
        fun tail ht => ?_, fun c tail hc ht => ?_⟩
      · exact (h.stub tail (hother.consumer.symm.trans ht)).trans hother.head.symm
      · rcases mTail_step hstep ha with hsame | hnone | hpub
        · exact (h.waiters c tail hc (hsame.symm.trans ht)).trans hother.head.symm
        · rw [hnone] at ht
          cases ht
        · exact absurd hc (hkeeps tail (hpub.symm.trans ht) c)
    · cases hs
  | waitDequeue c =>
    cases hc : s.consumers c <;>
      simp only [SharedQueue.step, hc, reduceCtorEq, Option.some.injEq] at hs
    subst hs
    exact h.setConsumer (by simp [hc]) (Or.inr (Or.inl rfl))
  | consumer c => exact h.consumerStep hs

lemma reaches_inv (h : (system P T C stub).Reaches KeepsTail s) : Inv s :=
  h.invariant (I := Inv) init_inv fun _ _ _ _ hinv hkeeps hs => hinv.step hkeeps hs

/-- The waiting consumer `0` remembers the address of the stub. Consumer `1` takes a value and
deletes the stub, and the next node is allocated there. -/
theorem stranded_at_reused_address : ∃ s : State (Fin 1) ℕ (Fin 2),
    (system (Fin 1) ℕ (Fin 2) 0).Reachable s ∧ Stranded s := by
  obtain ⟨s, hs, hprod, hnext, hwait, htail, hidle⟩ := System.exists_reaches
    (S := system (Fin 1) ℕ (Fin 2) 0) (fun _ _ => True)
    (fun s => s.queue.producers 0 = .idle ∧ (s.queue.next s.queue.mHead).isSome ∧
      s.consumers 0 = .wait 0 ∧ s.queue.mTail = some 0 ∧ s.consumers 1 = .idle)
    [.waitDequeue 0, .consumer 0, .consumer 0, .consumer 0, .consumer 0, .consumer 0, .consumer 0,
      .other (.enqueue 0 5), .other (.alloc 0 (some 1)), .other (.loadTail 0),
      .other (.cas 0 false), .other (.link 0), .other (.enqueueRet 0),
      .waitDequeue 1, .consumer 1, .consumer 1, .consumer 1, .consumer 1, .consumer 1, .consumer 1,
      .consumer 1, .consumer 1, .consumer 1, .consumer 1,
      .other (.enqueue 0 6), .other (.alloc 0 (some 0)), .other (.loadTail 0),
      .other (.cas 0 false), .other (.link 0), .other (.enqueueRet 0)] (by decide)
  refine ⟨s, hs, fun p => ?_, ?_, 0, ⟨0, hwait, htail⟩, fun d hd => ?_⟩
  · rwa [Subsingleton.elim p 0]
  · exact Option.ne_none_iff_isSome.mpr hnext
  · have hd : d = 1 := by omega
    rwa [hd]

/-- As long as no address is published in `m_tail` that a waiting consumer remembers, no consumer
is stranded. Where one is published, the consumer is blocked with an accepted value on the
chain. -/
theorem wait_dequeue_not_stranded (h : (system P T C stub).Reaches KeepsTail s) :
    ¬Stranded s ∧
    ∀ a s', step s a = some s' → ¬KeepsTail s a →
      ∃ c, Blocked s' c ∧ s'.queue.acceptedValues ≠ s'.queue.removed := by
  have hinv := reaches_inv h
  refine ⟨hinv.not_stranded, fun a s' hs ha => ?_⟩
  cases a with
  | other a =>
    simp only [KeepsTail, not_forall, not_not] at ha
    obtain ⟨n, hpub, c, hc⟩ := ha
    simp only [SharedQueue.step] at hs
    split at hs
    · obtain ⟨q, hstep, rfl⟩ := Option.map_eq_some_iff.mp hs
      obtain ⟨htail, hremoved, v, hacc⟩ := published_step hpub hstep
      refine ⟨c, ⟨n, hc, htail⟩, fun heq => ?_⟩
      obtain ⟨cs, vs, hq⟩ := hinv.queue
      have hlen := congrArg List.length (hacc.symm.trans (heq.trans hremoved))
      rw [hq.accepted] at hlen
      simp only [List.length_append, List.length_singleton] at hlen
      omega
    · cases hs
  | waitDequeue c | consumer c => exact absurd trivial ha

/-- Consumer 0 waits at the stub. Consumer 1 takes the first value and deletes the stub, and the
second value is published at another address. Consumer 0 is not blocked then. -/
theorem wait_dequeue_not_stranded_run : ∃ s : State (Fin 1) ℕ (Fin 2),
    s.consumers 0 = .wait 0 ∧ s.queue.delivered = [5] ∧ s.queue.next s.queue.mHead = some 2 ∧
      ¬Stranded s := by
  obtain ⟨s, hs, hwait, hdelivered, hnext⟩ := System.exists_reaches
    (S := system (Fin 1) ℕ (Fin 2) 0) KeepsTail
    (fun s => s.consumers 0 = .wait 0 ∧ s.queue.delivered = [5] ∧
      s.queue.next s.queue.mHead = some 2)
    [.waitDequeue 0, .consumer 0, .consumer 0, .consumer 0, .consumer 0, .consumer 0, .consumer 0,
      .other (.enqueue 0 5), .other (.alloc 0 (some 1)), .other (.loadTail 0),
      .other (.cas 0 false), .other (.link 0), .other (.enqueueRet 0),
      .waitDequeue 1, .consumer 1, .consumer 1, .consumer 1, .consumer 1, .consumer 1, .consumer 1,
      .consumer 1, .consumer 1, .consumer 1, .consumer 1,
      .other (.enqueue 0 6), .other (.alloc 0 (some 2)), .other (.loadTail 0),
      .other (.cas 0 false), .other (.link 0), .other (.enqueueRet 0)] (by decide)
  exact ⟨s, hwait, hdelivered, hnext, (wait_dequeue_not_stranded hs).1⟩

end step

end Scoro.SharedQueue

import Scoro.Combinators.WaitEach.Model

/-!
# The invariant of `wait_each`

Every run is also a run of the queue, so that the queue's invariant and histories hold. On top
of it, each runner makes one call of `enqueue`, `remaining` counts the runners that have not
decremented it, and the handle is in `coroutine_addr` only while the coroutine is suspended by
its latest call of `await_suspend`.
-/

namespace Scoro.WaitEach
open Scoro.Lib Scoro.Combinators
open AtomicQueue (Addr EnqueuePc DequeuePc)

variable {n : ℕ} {V E : Type*} {s s' : State n V E} {i : Fin n} {stub : Addr}

/-! ### The run of the queue -/

/-- The steps of the queue that the runners and the consumer make. -/
def QueueAction (a : Action n V E) (b : AtomicQueue.Action (Fin n) (Result n V E)) : Prop :=
  b ≠ .stop ∧ b ≠ .waitDequeue ∧ ∀ i, b = .alloc i none → ∃ spurious, a = .enqueue i none spurious

lemma exchange_queue (s : State n V E) : s.exchange.queue = s.queue := by
  unfold State.exchange
  split
  · split <;> rfl
  · rfl

lemma suspendStep_queue {k : ℕ} {guess : Bool} (hs : suspendStep s k guess = some s') :
    s'.queue = s.queue := by
  unfold suspendStep at hs
  split at hs <;> cases hs
  · rfl
  · rfl
  · rfl
  · exact exchange_queue s

lemma runnerStep_queue (hs : runnerStep s i = some s') : s'.queue = s.queue := by
  unfold runnerStep at hs
  split at hs <;> cases hs
  · rfl
  · exact exchange_queue s

lemma enqueueAction_producer {addr : Option Addr} {spurious : Bool}
    {pc : EnqueuePc (Result n V E)} {b : AtomicQueue.Action (Fin n) (Result n V E)}
    (hb : enqueueAction i addr spurious pc = some b) :
    b.producer = some i ∧ (∀ v, b ≠ .enqueue i v) ∧ QueueAction (.enqueue i addr spurious) b := by
  unfold enqueueAction at hb
  cases pc <;> cases hb
  case alloc.refl v =>
    refine ⟨rfl, by simp, by simp, by simp, ?_⟩
    rintro j hj
    cases hj
    exact ⟨spurious, rfl⟩
  all_goals exact ⟨rfl, by simp, by simp, by simp, by simp⟩

/-- The awaitable of a runner that still awaits it finishes. -/
lemma complete_eq {o : Outcome V E} (hs : step s (.complete i o) = some s') :
    s.runners i = .awaiting ∧
      ∃ q, AtomicQueue.step s.queue (.enqueue i (i, o.stored)) = some q ∧
        s' = { s.setRunner i .enqueue with
          queue := q, outcomes := Function.update s.outcomes i (some o) } := by
  simp only [step] at hs
  split at hs
  · obtain ⟨q, hq, rfl⟩ := Option.map_eq_some_iff.mp hs
    exact ⟨‹_›, q, hq, rfl⟩
  · cases hs

/-- A runner in `enqueue` makes its next step in the queue. -/
lemma enqueueStep_eq {addr : Option Addr} {spurious : Bool}
    (hs : enqueueStep s i addr spurious = some s') : s.runners i = .enqueue ∧
      ∃ b q, enqueueAction i addr spurious (s.queue.producers i) = some b ∧
        AtomicQueue.step s.queue b = some q ∧
        s' = { s.setRunner i (.ofEnqueue (q.producers i)) with queue := q } := by
  unfold enqueueStep at hs
  split at hs
  · obtain ⟨b, hb, hs⟩ := Option.bind_eq_some_iff.mp hs
    obtain ⟨q, hq, rfl⟩ := Option.map_eq_some_iff.mp hs
    exact ⟨‹_›, b, q, hb, hq, rfl⟩
  · cases hs

/-- What a step of the consumer leaves alone, and what it does to the queue. -/
lemma consumerStep_frame (hs : consumerStep s = some s') :
    s'.outcomes = s.outcomes ∧ s'.coroutineAddr = s.coroutineAddr ∧
      (s'.queue = s.queue ∨ ∃ b, (b = .tryDequeue ∨ b = .consumer) ∧
        AtomicQueue.step s.queue b = some s'.queue) := by
  unfold consumerStep at hs
  split at hs
  · cases hs
    exact ⟨rfl, rfl, Or.inl rfl⟩
  · cases hs
    exact ⟨rfl, rfl, Or.inl rfl⟩
  · split at hs
    · cases hs
      exact ⟨rfl, rfl, Or.inl rfl⟩
    · split at hs <;> cases hs <;> exact ⟨rfl, rfl, Or.inl rfl⟩
  · cases hs
  · obtain ⟨q, hq, rfl⟩ := Option.map_eq_some_iff.mp hs
    exact ⟨rfl, rfl, Or.inr ⟨.tryDequeue, Or.inl rfl, hq⟩⟩
  · obtain ⟨q, hq, rfl⟩ := Option.map_eq_some_iff.mp hs
    exact ⟨rfl, rfl, Or.inr ⟨.consumer, Or.inr rfl, hq⟩⟩

/-- A step of `wait_each` is a step of the queue or leaves the queue alone. -/
lemma step_queue {a : Action n V E} (hs : step s a = some s') : s'.queue = s.queue ∨
    ∃ b, QueueAction a b ∧ AtomicQueue.step s.queue b = some s'.queue := by
  cases a with
  | complete i o =>
    obtain ⟨-, q, hq, rfl⟩ := complete_eq hs
    exact Or.inr ⟨.enqueue i (i, o.stored), ⟨by simp, by simp, by simp⟩, hq⟩
  | enqueue i addr spurious =>
    obtain ⟨-, b, q, hb, hq, rfl⟩ := enqueueStep_eq hs
    exact Or.inr ⟨b, (enqueueAction_producer hb).2.2, hq⟩
  | runner i => exact Or.inl (runnerStep_queue hs)
  | consumer =>
    obtain ⟨-, -, hqueue | ⟨b, rfl | rfl, hb⟩⟩ := consumerStep_frame hs
    · exact Or.inl hqueue
    · exact Or.inr ⟨.tryDequeue, ⟨by simp, by simp, by simp⟩, hb⟩
    · exact Or.inr ⟨.consumer, ⟨by simp, by simp, by simp⟩, hb⟩
  | suspend k guess => exact Or.inl (suspendStep_queue hs)

theorem refines_queue {C : State n V E → Action n V E → Prop}
    {D : AtomicQueue.State (Fin n) (Result n V E) →
      AtomicQueue.Action (Fin n) (Result n V E) → Prop}
    (hCD : ∀ s a b, C s a → QueueAction a b → D s.queue b) :
    System.Refines (system n V E stub) C (AtomicQueue.system (Fin n) (Result n V E) stub) D
      State.queue where
  init := rfl
  step := by
    intro s a s' _ hC hs
    rcases step_queue hs with heq | ⟨b, hab, hb⟩
    · exact Or.inl heq
    · exact Or.inr ⟨b, hCD s a b hC hab, hb⟩

/-- The queue of a run of `wait_each` is in a reachable state. -/
lemma reaches_queue {C : State n V E → Action n V E → Prop}
    (h : (system n V E stub).Reaches C s) :
    (AtomicQueue.system (Fin n) (Result n V E) stub).Reachable s.queue :=
  (refines_queue fun _ _ _ _ _ => trivial).reaches h

/-! ### The runners -/

/-- One for a runner that has not decremented `remaining` yet. -/
def RunnerPc.weight : RunnerPc → ℕ
  | .awaiting | .enqueue | .fetchSub => 1
  | .exchange | .finished => 0

/-- What the queue's histories say about runner `i`. -/
def Linked (s : State n V E) (i : Fin n) : Prop :=
  match s.runners i with
  | .awaiting => s.queue.producers i = .idle ∧ s.queue.results i = [] ∧ s.queue.calls i = [] ∧
      s.outcomes i = none
  | .enqueue => s.queue.producers i ≠ .idle ∧ s.queue.results i = [] ∧
      ∃ o, s.outcomes i = some o ∧ s.queue.calls i = [(i, o.stored)]
  | .fetchSub | .exchange | .finished => s.queue.producers i = .idle ∧
      (∃ ok, s.queue.results i = [ok]) ∧
      ∃ o, s.outcomes i = some o ∧ s.queue.calls i = [(i, o.stored)]

structure Runners (s : State n V E) : Prop where
  linked : ∀ i, Linked s i
  count : s.remaining = ∑ i, (s.runners i).weight

lemma Linked.frame (h : Linked s i) (hrunner : s'.runners i = s.runners i)
    (houtcome : s'.outcomes i = s.outcomes i)
    (hqueue : s'.queue.producers i = s.queue.producers i ∧ s'.queue.calls i = s.queue.calls i ∧
      s'.queue.results i = s.queue.results i) : Linked s' i := by
  obtain ⟨hprod, hcalls, hresults⟩ := hqueue
  unfold Linked at h ⊢
  rw [hrunner, houtcome, hprod, hcalls, hresults]
  exact h

/-- A step that leaves the runners' side alone. -/
lemma Runners.congr (h : Runners s) (hrunners : s'.runners = s.runners)
    (houtcomes : s'.outcomes = s.outcomes) (hremaining : s'.remaining = s.remaining)
    (hqueue : ∀ i, s'.queue.producers i = s.queue.producers i ∧
      s'.queue.calls i = s.queue.calls i ∧ s'.queue.results i = s.queue.results i) :
    Runners s' := by
  constructor
  · intro i
    exact (h.linked i).frame (congrFun hrunners i) (congrFun houtcomes i) (hqueue i)
  · rw [hremaining, hrunners]
    exact h.count

/-- A step of runner `i`. -/
lemma Runners.setRunner (h : Runners s) {x : RunnerPc} (hself : Linked s' i)
    (hrunners : s'.runners = Function.update s.runners i x)
    (hremaining : s'.remaining + (s.runners i).weight = s.remaining + x.weight)
    (houtcomes : ∀ j, j ≠ i → s'.outcomes j = s.outcomes j)
    (hqueue : ∀ j, j ≠ i → s'.queue.producers j = s.queue.producers j ∧
      s'.queue.calls j = s.queue.calls j ∧ s'.queue.results j = s.queue.results j) :
    Runners s' := by
  constructor
  · intro j
    by_cases hji : j = i
    · subst hji
      exact hself
    · apply (h.linked j).frame
      · rw [hrunners, Function.update_of_ne hji]
      · exact houtcomes j hji
      · exact hqueue j hji
  · have hsum := sum_update RunnerPc.weight s.runners i x
    have hcount := h.count
    rw [hrunners]
    omega

/-- While runner `i` has not decremented it, `remaining` is positive. -/
lemma Runners.weight_eq_zero (h : Runners s) (hzero : s.remaining = 0) (i : Fin n) :
    (s.runners i).weight = 0 := by
  have hsum := h.count
  rw [hzero] at hsum
  exact Finset.sum_eq_zero_iff.mp hsum.symm i (Finset.mem_univ i)

lemma Runners.complete (h : Runners s) {o : Outcome V E}
    {q : AtomicQueue.State (Fin n) (Result n V E)} (hi : s.runners i = .awaiting)
    (hq : AtomicQueue.step s.queue (.enqueue i (i, o.stored)) = some q) :
    Runners { s.setRunner i .enqueue with
      queue := q, outcomes := Function.update s.outcomes i (some o) } := by
  have hlinked := h.linked i
  unfold Linked at hlinked
  rw [hi] at hlinked
  obtain ⟨hidle, hresults, hcalls, -⟩ := hlinked
  apply h.setRunner (i := i) (x := .enqueue)
  · simp only [AtomicQueue.step, hidle, Option.some.injEq] at hq
    subst hq
    unfold Linked
    simp only [State.setRunner, Function.update_self]
    refine ⟨by simp [AtomicQueue.State.setProducer], hresults, o, rfl, ?_⟩
    rw [hcalls]
    rfl
  · rfl
  · rw [hi]
    rfl
  · intro j hji
    exact Function.update_of_ne hji ..
  · intro j hji
    apply AtomicQueue.step_producer_ne hq
    intro heq
    exact hji (Option.some.inj heq).symm

lemma Runners.enqueueStep (h : Runners s) {addr : Option Addr} {spurious : Bool}
    (hs : enqueueStep s i addr spurious = some s') : Runners s' := by
  obtain ⟨hi, b, q, hb, hq, rfl⟩ := enqueueStep_eq hs
  obtain ⟨hproducer, hcall, -⟩ := enqueueAction_producer hb
  obtain ⟨hcalls, hself⟩ := AtomicQueue.step_producer_self hq hproducer hcall
  have hlinked := h.linked i
  unfold Linked at hlinked
  rw [hi] at hlinked
  obtain ⟨-, hresults, hout⟩ := hlinked
  have hothers : ∀ j, j ≠ i → q.producers j = s.queue.producers j ∧
      q.calls j = s.queue.calls j ∧ q.results j = s.queue.results j := by
    intro j hji
    apply AtomicQueue.step_producer_ne hq
    rw [hproducer]
    intro heq
    exact hji (Option.some.inj heq).symm
  rw [hresults] at hself
  rcases hself with ⟨hbusy, hres⟩ | ⟨hidle, ok, hres⟩
  · have hpc : RunnerPc.ofEnqueue (q.producers i) = .enqueue := by
      unfold RunnerPc.ofEnqueue
      split
      · exact absurd ‹_› hbusy
      · rfl
    apply h.setRunner (i := i) (x := .enqueue)
    · unfold Linked
      simp only [State.setRunner, Function.update_self, hpc, hcalls]
      exact ⟨hbusy, hres, hout⟩
    · simp only [State.setRunner, hpc]
    · rw [hi]
      rfl
    · exact fun _ _ => rfl
    · exact hothers
  · have hpc : RunnerPc.ofEnqueue (q.producers i) = .fetchSub := by rw [hidle]; rfl
    apply h.setRunner (i := i) (x := .fetchSub)
    · unfold Linked
      simp only [State.setRunner, Function.update_self, hpc, hcalls]
      exact ⟨hidle, ⟨ok, hres⟩, hout⟩
    · simp only [State.setRunner, hpc]
    · rw [hi]
      rfl
    · exact fun _ _ => rfl
    · exact hothers

/-- After its call of `enqueue` the runner only decrements `remaining`. -/
lemma Runners.advance (h : Runners s) {pc : RunnerPc}
    (hi : s.runners i = .fetchSub ∨ s.runners i = .exchange)
    (hpc : pc = .exchange ∨ pc = .finished) {r : ℕ}
    (hr : r + (s.runners i).weight = s.remaining) :
    Runners { s.setRunner i pc with remaining := r } := by
  have hlinked := h.linked i
  unfold Linked at hlinked
  have hself : Linked { s.setRunner i pc with remaining := r } i := by
    unfold Linked
    simp only [State.setRunner, Function.update_self]
    rcases hi with hi | hi <;> rw [hi] at hlinked <;> rcases hpc with rfl | rfl <;> exact hlinked
  apply h.setRunner (i := i) (x := pc) hself rfl
  · rcases hpc with rfl | rfl <;> exact hr
  · exact fun _ _ => rfl
  · exact fun _ _ => ⟨rfl, rfl, rfl⟩

/-! ### The handle -/

/-- The handle, the coroutine and the calls of `await_suspend`. -/
structure Handover (s : State n V E) : Prop where
  held : s.coroutineAddr = true → s.consumer = .suspended
  current : s.consumer = .suspended → 0 < s.calls ∧
    (s.coroutineAddr = true ∨ s.suspends (s.calls - 1) = .store)
  store : ∀ k, s.suspends k = .store →
    s.consumer = .suspended ∧ k + 1 = s.calls ∧ s.coroutineAddr = false
  later : ∀ k, s.calls ≤ k → s.suspends k = .idle
  fault : s.fault = false

/-- A handle that is taken out resumes a suspended coroutine. -/
lemma Handover.exchange_eq (h : Handover s) : s.exchange =
    if s.coroutineAddr then { s with coroutineAddr := false, consumer := .resume } else s := by
  unfold State.exchange
  split
  · rename_i haddr
    rw [h.held haddr]
  · rfl

lemma Handover.exchange (h : Handover s) : Handover s.exchange := by
  rw [h.exchange_eq]
  split
  · rename_i haddr
    refine ⟨by simp, by simp, fun k hk => ?_, h.later, h.fault⟩
    have hfalse := (h.store k hk).2.2
    rw [haddr] at hfalse
    cases hfalse
  · exact h

/-- The coroutine's own steps while it is not suspended. -/
lemma Handover.run (h : Handover s) (hc : s.consumer ≠ .suspended)
    (hc' : s'.consumer ≠ .suspended) (haddr : s'.coroutineAddr = s.coroutineAddr)
    (hsuspends : s'.suspends = s.suspends) (hcalls : s'.calls = s.calls)
    (hfault : s'.fault = s.fault) : Handover s' := by
  refine ⟨fun ha => ?_, fun hc => absurd hc hc', fun k hk => ?_, fun k hk => ?_,
    hfault.trans h.fault⟩
  · exact absurd (h.held (haddr ▸ ha)) hc
  · exact absurd (h.store k (hsuspends ▸ hk)).1 hc
  · rw [hsuspends]
    exact h.later k (hcalls ▸ hk)

/-- The coroutine suspends, with a new call of `await_suspend`. -/
lemma Handover.call (h : Handover s) (hc : s.consumer ≠ .suspended) :
    Handover { s.setSuspend s.calls .store with
      consumer := .suspended, calls := s.calls + 1 } := by
  have haddr : s.coroutineAddr = false := by
    rw [Bool.eq_false_iff]
    exact fun ha => hc (h.held ha)
  refine ⟨fun _ => rfl, fun _ => ⟨Nat.succ_pos _, Or.inr ?_⟩, fun k hk => ?_, fun k hk => ?_,
    h.fault⟩
  · simp [State.setSuspend]
  · refine ⟨rfl, ?_, haddr⟩
    by_cases hkc : k = s.calls
    · rw [hkc]
    · simp only [State.setSuspend, Function.update_of_ne hkc] at hk
      exact absurd (h.store k hk).1 hc
  · have hkc : k ≠ s.calls := by
      intro heq
      change s.calls + 1 ≤ k at hk
      omega
    simp only [State.setSuspend, Function.update_of_ne hkc]
    exact h.later k (by change s.calls + 1 ≤ k at hk; omega)

/-- A call of `await_suspend` behind its store. -/
lemma Handover.setSuspend (h : Handover s) {k : ℕ} {pc : SuspendPc} (hidle : s.suspends k ≠ .idle)
    (hstore : s.suspends k ≠ .store) (hpc : pc ≠ .store) : Handover (s.setSuspend k pc) := by
  refine ⟨h.held, fun hc => ?_, fun j hj => ?_, fun j hj => ?_, h.fault⟩
  · obtain ⟨hpos, haddr | hlast⟩ := h.current hc
    · exact ⟨hpos, Or.inl haddr⟩
    · refine ⟨hpos, Or.inr ?_⟩
      have hk : s.calls - 1 ≠ k := by
        rintro rfl
        exact hstore hlast
      simpa only [State.setSuspend, Function.update_of_ne hk] using hlast
  · have hjk : j ≠ k := by
      rintro rfl
      simp only [State.setSuspend, Function.update_self] at hj
      exact hpc hj
    simp only [State.setSuspend, Function.update_of_ne hjk] at hj
    exact h.store j hj
  · have hjk : j ≠ k := by
      rintro rfl
      exact hidle (h.later j hj)
    simpa only [State.setSuspend, Function.update_of_ne hjk] using h.later j hj

/-- The handle is stored by the latest call of `await_suspend`. -/
lemma Handover.storeHandle (h : Handover s) {k : ℕ} (hk : s.suspends k = .store) :
    Handover { s.setSuspend k .loadHead with coroutineAddr := true } := by
  obtain ⟨hc, hcalls, -⟩ := h.store k hk
  refine ⟨fun _ => hc, fun _ => ⟨by change 0 < s.calls; omega, Or.inl rfl⟩, fun j hj => ?_,
    fun j hj => ?_, h.fault⟩
  · exfalso
    by_cases hjk : j = k
    · subst hjk
      simp [State.setSuspend] at hj
    · simp only [State.setSuspend, Function.update_of_ne hjk] at hj
      have := (h.store j hj).2.1
      omega
  · change s.calls ≤ j at hj
    have hjk : j ≠ k := by omega
    simpa only [State.setSuspend, Function.update_of_ne hjk] using h.later j hj

/-! ### The invariant -/

structure Inv (s : State n V E) : Prop where
  runners : Runners s
  handover : Handover s
  /-- The consumer is inside `try_dequeue` only in `await_resume`. -/
  outside : s.consumer ≠ .dequeue → s.queue.consumer = .idle
  head : ∀ head, s.consumer = .readyNext head → head = s.queue.mHead

lemma inv_init : Inv (init n V E stub) := by
  refine ⟨⟨fun i => ⟨rfl, rfl, rfl, rfl⟩, ?_⟩, ⟨?_, ?_, ?_, fun _ _ => rfl, rfl⟩, fun _ => rfl, ?_⟩
  · simp [init, RunnerPc.weight]
  · intro ha
    cases ha
  · intro hc
    cases hc
  · intro k hk
    cases hk
  · intro head hc
    cases hc

/-- The exchange itself, in a runner or in `await_suspend`. -/
lemma Inv.exchange (h : Inv s) : Inv s.exchange := by
  have hhand := h.handover.exchange
  rw [h.handover.exchange_eq] at hhand ⊢
  split
  · rename_i haddr
    rw [if_pos haddr] at hhand
    refine ⟨h.runners.congr rfl rfl rfl fun _ => ⟨rfl, rfl, rfl⟩, hhand, fun _ => ?_, by simp⟩
    apply h.outside
    rw [h.handover.held haddr]
    simp
  · exact h

lemma exchange_runners (s : State n V E) : s.exchange.runners = s.runners := by
  unfold State.exchange
  split
  · split <;> rfl
  · rfl

lemma exchange_suspends (s : State n V E) : s.exchange.suspends = s.suspends := by
  unfold State.exchange
  split
  · split <;> rfl
  · rfl

lemma Inv.runnerStep (h : Inv s) (hs : runnerStep s i = some s') : Inv s' := by
  unfold WaitEach.runnerStep at hs
  split at hs <;> cases hs
  · rename_i hi
    have hpos : s.remaining ≠ 0 := by
      intro hzero
      have := h.runners.weight_eq_zero hzero i
      rw [hi] at this
      cases this
    refine ⟨?_, ⟨h.handover.held, h.handover.current, h.handover.store, h.handover.later,
      h.handover.fault⟩, h.outside, h.head⟩
    apply h.runners.advance (Or.inl hi) (Or.inl rfl)
    rw [hi]
    change s.remaining - 1 + 1 = s.remaining
    omega
  · rename_i hi
    have hex := h.exchange
    have hi' : s.exchange.runners i = .exchange := by rw [exchange_runners, hi]
    refine ⟨?_, ⟨hex.handover.held, hex.handover.current, hex.handover.store,
      hex.handover.later, hex.handover.fault⟩, hex.outside, hex.head⟩
    apply hex.runners.advance (Or.inr hi') (Or.inr rfl)
    rw [hi']
    rfl

lemma Inv.suspendStep (h : Inv s) {k : ℕ} {guess : Bool}
    (hs : suspendStep s k guess = some s') : Inv s' := by
  have hrunners : ∀ {t : State n V E} {pc}, Inv t → Runners (t.setSuspend k pc) :=
    fun ht => ht.runners.congr rfl rfl rfl fun _ => ⟨rfl, rfl, rfl⟩
  unfold WaitEach.suspendStep at hs
  cases hk : s.suspends k <;> rw [hk] at hs <;> cases hs
  case store.refl =>
    refine ⟨h.runners.congr rfl rfl rfl fun _ => ⟨rfl, rfl, rfl⟩, h.handover.storeHandle hk,
      h.outside, h.head⟩
  case loadHead.refl =>
    exact ⟨hrunners h, h.handover.setSuspend (by simp [hk]) (by simp [hk]) (by simp), h.outside,
      h.head⟩
  case loadNext.refl head =>
    refine ⟨hrunners h, h.handover.setSuspend (by simp [hk]) (by simp [hk]) ?_, h.outside, h.head⟩
    split <;> simp
  case exchange.refl =>
    have hex := h.exchange
    have hk' : s.exchange.suspends k = .exchange := by rw [exchange_suspends, hk]
    exact ⟨hrunners hex, hex.handover.setSuspend (by simp [hk']) (by simp [hk']) (by simp),
      hex.outside, hex.head⟩

/-- A step of the queue in a runner's call leaves the consumer's side alone. -/
lemma Inv.producer_step (h : Inv s) {q : AtomicQueue.State (Fin n) (Result n V E)}
    {b : AtomicQueue.Action (Fin n) (Result n V E)} {cs : List Addr} {vs : List (Result n V E)}
    (hinv : AtomicQueue.Inv s.queue cs vs) (hq : AtomicQueue.step s.queue b = some q)
    (hb : b.producer ≠ none) (hrunners : Runners s') (hqueue : s'.queue = q)
    (haddr : s'.coroutineAddr = s.coroutineAddr) (hconsumer : s'.consumer = s.consumer)
    (hsuspends : s'.suspends = s.suspends) (hcalls : s'.calls = s.calls)
    (hfault : s'.fault = s.fault) : Inv s' := by
  have hother := AtomicQueue.step_other_of_producer hinv hq hb
  refine ⟨hrunners, ⟨?_, ?_, ?_, ?_, ?_⟩, ?_, ?_⟩
  · rw [haddr, hconsumer]
    exact h.handover.held
  · rw [haddr, hconsumer, hsuspends, hcalls]
    exact h.handover.current
  · rw [haddr, hconsumer, hsuspends, hcalls]
    exact h.handover.store
  · rw [hsuspends, hcalls]
    exact h.handover.later
  · rw [hfault]
    exact h.handover.fault
  · rw [hqueue, hconsumer, hother.consumer]
    exact h.outside
  · rw [hqueue, hconsumer, hother.head]
    exact h.head

lemma Inv.consumerStep (h : Inv s) {cs : List Addr} {vs : List (Result n V E)}
    (hinv : AtomicQueue.Inv s.queue cs vs) (hs : consumerStep s = some s') : Inv s' := by
  have hrunners : ∀ {t : State n V E}, t.runners = s.runners → t.outcomes = s.outcomes →
      t.remaining = s.remaining → t.queue = s.queue → Runners t := by
    intro t hr ho hrem hq
    apply h.runners.congr hr ho hrem
    rw [hq]
    exact fun _ => ⟨rfl, rfl, rfl⟩
  unfold WaitEach.consumerStep at hs
  cases hc : s.consumer <;> rw [hc] at hs
  case ready =>
    cases hs
    refine ⟨hrunners rfl rfl rfl rfl, h.handover.run (by simp [hc]) ?_ rfl rfl rfl rfl,
      fun _ => h.outside (by simp [hc]), ?_⟩
    · dsimp only
      split <;> simp
    · intro head hhead
      dsimp only at hhead
      split at hhead <;> cases hhead
  case readyHead =>
    cases hs
    refine ⟨hrunners rfl rfl rfl rfl, h.handover.run (by simp [hc]) (by simp) rfl rfl rfl rfl,
      fun _ => h.outside (by simp [hc]), fun head hhead => ?_⟩
    cases hhead
    rfl
  case readyNext head =>
    obtain rfl := h.head head hc
    obtain ⟨node, hnode⟩ := Option.isSome_iff_exists.mp hinv.live_head
    simp only [hnode] at hs
    split at hs <;> cases hs
    · exact ⟨hrunners rfl rfl rfl rfl, h.handover.call (by simp [hc]),
        fun _ => h.outside (by simp [hc]), by simp⟩
    · exact ⟨hrunners rfl rfl rfl rfl,
        h.handover.run (by simp [hc]) (by simp) rfl rfl rfl rfl,
        fun _ => h.outside (by simp [hc]), by simp⟩
  case suspended => cases hs
  case resume =>
    obtain ⟨q, hq, rfl⟩ := Option.map_eq_some_iff.mp hs
    refine ⟨?_, h.handover.run (by simp [hc]) (by simp) rfl rfl rfl rfl, by simp, by simp⟩
    refine h.runners.congr rfl rfl rfl fun _ => ?_
    exact AtomicQueue.step_producer_ne hq (Option.some_ne_none _).symm
  case dequeue =>
    obtain ⟨q, hq, rfl⟩ := Option.map_eq_some_iff.mp hs
    refine ⟨?_, h.handover.run (by simp [hc]) ?_ rfl rfl rfl rfl, fun hne => ?_, ?_⟩
    · have hstep : AtomicQueue.step s.queue .consumer = some q := hq
      refine h.runners.congr rfl rfl rfl fun _ => ?_
      exact AtomicQueue.step_producer_ne hstep (Option.some_ne_none _).symm
    · dsimp only
      unfold ConsumerPc.ofDequeue
      split <;> simp
    · dsimp only at hne ⊢
      unfold ConsumerPc.ofDequeue at hne
      split at hne
      · assumption
      · exact absurd rfl hne
    · intro head hhead
      dsimp only at hhead
      unfold ConsumerPc.ofDequeue at hhead
      split at hhead <;> cases hhead

theorem Inv.step (h : Inv s) {cs : List Addr} {vs : List (Result n V E)}
    (hinv : AtomicQueue.Inv s.queue cs vs) {a : Action n V E} (hs : step s a = some s') :
    Inv s' := by
  cases a with
  | complete i o =>
    obtain ⟨hi, q, hq, rfl⟩ := complete_eq hs
    exact h.producer_step hinv hq (Option.some_ne_none i) (h.runners.complete hi hq)
      rfl rfl rfl rfl rfl rfl
  | enqueue i addr spurious =>
    have hrunners := h.runners.enqueueStep hs
    obtain ⟨-, b, q, hb, hq, rfl⟩ := enqueueStep_eq hs
    refine h.producer_step hinv hq ?_ hrunners rfl rfl rfl rfl rfl rfl
    rw [(enqueueAction_producer hb).1]
    simp
  | runner i => exact h.runnerStep hs
  | consumer => exact h.consumerStep hinv hs
  | suspend k guess => exact h.suspendStep hs

theorem reaches_inv {C : State n V E → Action n V E → Prop}
    (h : (system n V E stub).Reaches C s) : Inv s := by
  refine h.invariant inv_init fun s a s' run ih _ hs => ?_
  obtain ⟨cs, vs, hinv⟩ := AtomicQueue.reaches_inv (reaches_queue run)
  exact ih.step hinv hs

end Scoro.WaitEach

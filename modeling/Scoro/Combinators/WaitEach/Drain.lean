import Scoro.Combinators.WaitEach.Delivery

/-!
# `wait_each` after its last runner

Each runner makes one call of `enqueue`, so that the tickets of the queue name the awaitables. After
the last runner the consumer takes what is left, whatever earlier calls of `await_suspend` are still
doing. It may have been overtaken: `try_dequeue` gives up a queue that was empty when it looked, and
`await_ready` may have read `remaining` before the last decrement, so that the consumer suspends and
nobody is left to wake it. An outcome is missing, too, if the runner's `enqueue`, whose result is
not looked at, could not allocate a node.
-/

namespace Scoro.WaitEach
open Scoro.Lib Scoro.Combinators
open AtomicQueue (Addr EnqueuePc DequeuePc)

variable {n : ℕ} {V E : Type*} {s s' : State n V E} {stub : Addr} {cs : List Addr}
  {vs : List (Result n V E)} {i : Fin n}

/-! ### Tickets -/

/-- A ticket is the only one of its runner and carries the outcome of its awaitable. -/
lemma ticket_outcome (h : Runners s) (hist : AtomicQueue.History s.queue)
    {x : AtomicQueue.Ticket (Fin n) (Result n V E)} (hx : x ∈ s.queue.accepted) :
    x.call = 0 ∧ ∃ o, s.outcomes x.producer = some o ∧ x.value = (x.producer, o.stored) := by
  have hcall := hist.tickets x hx
  have hlinked := h.linked x.producer
  unfold Linked at hlinked
  obtain ⟨o, ho, hcalls⟩ : ∃ o, s.outcomes x.producer = some o ∧
      s.queue.calls x.producer = [(x.producer, o.stored)] := by
    cases hpc : s.runners x.producer <;> rw [hpc] at hlinked
    case awaiting =>
      rw [hlinked.2.2.1] at hcall
      cases hcall
    all_goals exact hlinked.2.2
  rw [hcalls] at hcall
  obtain ⟨hzero, hvalue⟩ := List.getElem?_eq_some_iff.mp hcall
  have hx0 : x.call = 0 := by simpa using hzero
  simp only [hx0, List.getElem_cons_zero] at hvalue
  exact ⟨hx0, o, ho, hvalue.symm⟩

lemma accepted_nodup (h : Runners s) (hist : AtomicQueue.History s.queue) :
    (s.queue.acceptedValues.map Prod.fst).Nodup := by
  unfold AtomicQueue.State.acceptedValues
  rw [List.map_map, List.Nodup, List.pairwise_map]
  refine hist.order.imp_of_mem fun {x y} hx hy hlt heq => ?_
  obtain ⟨hx0, o, -, hxv⟩ := ticket_outcome h hist hx
  obtain ⟨hy0, o', -, hyv⟩ := ticket_outcome h hist hy
  simp only [Function.comp_apply, hxv, hyv] at heq
  have := hlt heq
  omega

/-- What has been delivered comes from a ticket. -/
lemma delivered_ticket (hinv : AtomicQueue.Inv s.queue cs vs) {r : Result n V E}
    (hr : r ∈ s.queue.delivered) : ∃ x ∈ s.queue.accepted, x.value = r :=
  List.mem_map.mp (hinv.delivered_prefix.subset hr)

/-- The `enqueue` of a runner whose outcome has been delivered has returned `true`. -/
lemma results_of_delivered (h : Inv s) (hinv : AtomicQueue.Inv s.queue cs vs)
    (hist : AtomicQueue.History s.queue) (hfinished : s.runners i = .finished)
    (hd : s.Delivered i) : s.queue.results i = [true] := by
  obtain ⟨o, ho, hmem⟩ := hd
  obtain ⟨x, hx, hvalue⟩ := delivered_ticket hinv hmem
  obtain ⟨hcall, o', -, hvalue'⟩ := ticket_outcome h.runners hist hx
  have hproducer : x.producer = i := congrArg Prod.fst (hvalue'.symm.trans hvalue)
  have hlinked := h.runners.linked i
  unfold Linked at hlinked
  rw [hfinished] at hlinked
  obtain ⟨-, ⟨ok, hresults⟩, -⟩ := hlinked
  rcases (hist.accepted_iff i 0).mp ⟨x, hx, hproducer, hcall⟩ with htrue | ⟨hlen, -⟩
  · rw [hresults] at htrue ⊢
    cases htrue
    rfl
  · rw [hresults] at hlen
    cases hlen

lemma remaining_eq_zero (h : Runners s) (hfinished : ∀ i, s.runners i = .finished) :
    s.remaining = 0 := by
  rw [h.count]
  apply Finset.sum_eq_zero
  intro i _
  rw [hfinished i]
  rfl

/-- After the last runner an empty queue has delivered what its runners could enqueue. -/
lemma allDelivered_iff (h : Inv s) (hinv : AtomicQueue.Inv s.queue cs vs)
    (hist : AtomicQueue.History s.queue) (hfinished : ∀ i, s.runners i = .finished)
    (hnext : s.queue.next s.queue.mHead = none)
    (hhand : s.queue.handOf s.queue.consumer = []) :
    s.AllDelivered ↔ ∀ i, s.queue.results i = [true] := by
  constructor
  · exact fun hall i => results_of_delivered h hinv hist (hfinished i) (hall i)
  · intro hok
    refine allDelivered_of_empty h hinv hist (fun i => ?_)
      (Or.inr (remaining_eq_zero h.runners hfinished)) hnext hhand
    have hlinked := h.runners.linked i
    unfold Linked at hlinked
    rw [hfinished i] at hlinked
    rintro (hret | hmem)
    · simp [hlinked.1] at hret
    · simp [hok i] at hmem

/-! ### After the last runner -/

/-- The steps that are left are those of the consumer and of its calls of `await_suspend`. -/
lemma step_of_finished {a : Action n V E} (hfinished : ∀ i, s.runners i = .finished)
    (hs : step s a = some s') : a = .consumer ∧ consumerStep s = some s' ∨
      ∃ k guess, a = .suspend k guess ∧ suspendStep s k guess = some s' := by
  cases a with
  | complete i o => simp [step, hfinished i] at hs
  | enqueue i addr spurious => simp [step, enqueueStep, hfinished i] at hs
  | runner i => simp [step, runnerStep, hfinished i] at hs
  | consumer => exact Or.inl ⟨rfl, hs⟩
  | suspend k guess => exact Or.inr ⟨k, guess, rfl, hs⟩

/-- `co_await` is about to yield `nullopt`. -/
def State.AtEnd (s : State n V E) : Prop :=
  s.consumer = .dequeue ∧ s.queue.consumer = .ret none

/-- What the consumer has seen still holds when the runners are done. In `await_ready`, past the
test of `remaining`, there is a result left to see, and `try_dequeue` has not given up a queue that
shows one. -/
def State.UpToDate (s : State n V E) : Prop :=
  match s.consumer with
  | .readyHead | .readyNext _ => (s.queue.next s.queue.mHead).isSome
  | .dequeue => s.queue.consumer = .ret none → s.queue.next s.queue.mHead = none
  | .ready | .suspended | .resume => True

/-- In every order of the steps that satisfy `C` the `co_await`s come to a `nullopt`, and by the
first one they have yielded everything. -/
def State.Drains (stub : Addr) (C : State n V E → Action n V E → Prop) (s : State n V E) : Prop :=
  (system n V E stub).Leads (fun t _ => ¬t.AtEnd) C (fun t => t.AtEnd ∧ t.AllDelivered) s

/-- The positions in `try_dequeue`, by the steps that are left there. -/
def DequeuePc.tryWeight {T : Type*} : DequeuePc T → ℕ
  | .tryLoadHead => 7
  | .tryLoadNext _ => 6
  | .storeHead .. => 5
  | .deleteHead .. => 4
  | .moveValue _ => 3
  | .ret _ => 2
  | _ => 0

/-- All runners have finished. A consumer that is suspended has not stored its handle yet, and the
queue shows nothing that could wake it. -/
structure Settled (s : State n V E) : Prop where
  finished : ∀ i, s.runners i = .finished
  trying : s.consumer = .dequeue → 0 < DequeuePc.tryWeight s.queue.consumer
  waiting : s.consumer = .suspended →
    s.coroutineAddr = false ∧ s.queue.next s.queue.mHead = none
  ended : s.AtEnd → (s.AllDelivered ↔ ∀ i, s.queue.results i = [true])

def SuspendPc.weight : SuspendPc → ℕ
  | .store => 4
  | .loadHead => 3
  | .loadNext _ => 2
  | .exchange => 1
  | .idle | .returned => 0

def State.consumerWeight (s : State n V E) : ℕ :=
  match s.consumer with
  | .readyHead => 10
  | .ready | .readyNext _ => 9
  | .resume => 8
  | .dequeue => DequeuePc.tryWeight s.queue.consumer
  | .suspended => 0

/-- A bound on the steps that are left until `co_await` yields `nullopt`, or until `await_suspend`
stores its handle. -/
def State.left (s : State n V E) : ℕ :=
  12 * (s.queue.acceptedValues.length - s.queue.delivered.length) + s.consumerWeight +
    ∑ k ∈ Finset.range s.calls, (s.suspends k).weight

/-- Nobody has taken or is going to take the handle. -/
lemma Settled.coroutineAddr (h : Settled s) (hhand : Handover s) : s.coroutineAddr = false := by
  rw [Bool.eq_false_iff]
  intro haddr
  have hfalse := (h.waiting (hhand.held haddr)).1
  rw [haddr] at hfalse
  cases hfalse

/-- A step of the consumer's, with the values that it takes off the queue. -/
lemma left_lt_of_consumer (hcalls : s'.calls = s.calls) (hsuspends : s'.suspends = s.suspends)
    (hlt : 12 * (s'.queue.acceptedValues.length - s'.queue.delivered.length) + s'.consumerWeight <
      12 * (s.queue.acceptedValues.length - s.queue.delivered.length) + s.consumerWeight) :
    s'.left < s.left := by
  unfold State.left
  rw [hcalls, hsuspends]
  omega

/-- The consumer goes on outside of `try_dequeue`. -/
lemma Settled.setConsumer (h : Settled s) {pc : ConsumerPc} (hdequeue : pc ≠ .dequeue)
    (hsuspended : pc ≠ .suspended) (hlt : ({ s with consumer := pc } : State n V E).consumerWeight <
      s.consumerWeight) : Settled { s with consumer := pc } ∧
      ({ s with consumer := pc } : State n V E).left < s.left := by
  refine ⟨⟨h.finished, fun hc => absurd hc hdequeue, fun hc => absurd hc hsuspended,
    fun hend => absurd hend.1 hdequeue⟩, left_lt_of_consumer rfl rfl ?_⟩
  exact Nat.add_lt_add_left hlt _

/-- The consumer suspends, as the queue shows nothing, with a new call of `await_suspend`. -/
lemma Settled.suspend (h : Settled s) (hhand : Handover s) {head : Addr}
    (hc : s.consumer = .readyNext head) (hnext : s.queue.next s.queue.mHead = none) :
    Settled { s.setSuspend s.calls .store with consumer := .suspended, calls := s.calls + 1 } ∧
      ({ s.setSuspend s.calls .store with
        consumer := .suspended, calls := s.calls + 1 } : State n V E).left < s.left := by
  refine ⟨⟨h.finished, by simp, fun _ => ⟨h.coroutineAddr hhand, hnext⟩, by rintro ⟨⟨⟩, -⟩⟩, ?_⟩
  have hsum : ∑ k ∈ Finset.range s.calls, (Function.update s.suspends s.calls .store k).weight =
      ∑ k ∈ Finset.range s.calls, (s.suspends k).weight := by
    apply Finset.sum_congr rfl
    intro k hk
    rw [Function.update_of_ne (Finset.mem_range.mp hk).ne]
  simp only [State.left, State.setSuspend, State.consumerWeight, hc, Finset.sum_range_succ,
    Function.update_self]
  rw [hsum]
  simp only [SuspendPc.weight]
  omega

section dequeue
variable {q : AtomicQueue.State (Fin n) (Result n V E)}

/-- The consumer goes on in `try_dequeue`. -/
lemma Settled.advance (h : Settled s) (hc : s.consumer = .dequeue)
    (hpos : 0 < DequeuePc.tryWeight q.consumer)
    (hlt : DequeuePc.tryWeight q.consumer < DequeuePc.tryWeight s.queue.consumer)
    (hdelivered : q.delivered = s.queue.delivered)
    (haccepted : q.acceptedValues = s.queue.acceptedValues)
    (hresults : q.results = s.queue.results) (hended : q.consumer = .ret none →
      (s.AllDelivered ↔ ∀ i, s.queue.results i = [true])) :
    Settled { s with queue := q, consumer := .ofDequeue q.consumer } ∧
      ({ s with queue := q, consumer := .ofDequeue q.consumer } : State n V E).left < s.left := by
  have hdequeue : ConsumerPc.ofDequeue q.consumer = .dequeue := by
    unfold ConsumerPc.ofDequeue
    split
    · rename_i hidle
      rw [hidle] at hpos
      exact absurd hpos (Nat.lt_irrefl 0)
    · rfl
  refine ⟨⟨h.finished, fun _ => hpos, fun hsus => ?_, fun hend => ?_⟩, ?_⟩
  · exact absurd (hdequeue.symm.trans hsus) (by simp)
  · simpa only [State.AllDelivered, State.Delivered, hdelivered, hresults] using hended hend.2
  · refine left_lt_of_consumer rfl rfl ?_
    simp only [State.consumerWeight, hdequeue, hc, hdelivered, haccepted]
    omega

/-- The consumer's step inside `try_dequeue`. -/
lemma Settled.dequeue (h : Settled s) (hinv : Inv s) (hqueue : AtomicQueue.Inv s.queue cs vs)
    (hist : AtomicQueue.History s.queue) (hc : s.consumer = .dequeue) (hend : ¬s.AtEnd)
    (hq : AtomicQueue.consumerStep s.queue = some q) :
    Settled { s with queue := q, consumer := .ofDequeue q.consumer } ∧
      ({ s with queue := q, consumer := .ofDequeue q.consumer } : State n V E).left < s.left := by
  have htry := h.trying hc
  cases hqueue.move hq with
  | tryLoadHead hqc =>
    exact h.advance hc (Nat.succ_pos _) (by rw [hqc]; exact Nat.lt_succ_self _) rfl rfl rfl
      (by rintro ⟨⟩)
  | tryEmpty hqc hnext =>
    refine h.advance hc (Nat.succ_pos _) (by rw [hqc]; exact (by decide : 2 < 6)) rfl rfl rfl
      fun _ => ?_
    exact allDelivered_iff hinv hqueue hist h.finished hnext (by rw [hqc]; rfl)
  | tryFound hqc _ | storeHead hqc | deleteHead hqc =>
    exact h.advance hc (Nat.succ_pos _) (by rw [hqc]; exact Nat.lt_succ_self _) rfl rfl rfl
      (by rintro ⟨⟩)
  | @moveValue next v hqc hret =>
    have hsame : (AtomicQueue.moveValue s.queue next).delivered = s.queue.delivered ∧
        (AtomicQueue.moveValue s.queue next).results = s.queue.results := by
      unfold AtomicQueue.moveValue
      split <;> exact ⟨rfl, rfl⟩
    refine h.advance hc (by rw [hret]; exact Nat.succ_pos _)
      (by rw [hret, hqc]; exact Nat.lt_succ_self _) hsame.1
      (AtomicQueue.moveValue_accepted s.queue next) hsame.2 fun hnone => ?_
    rw [hret] at hnone
    cases hnone
  | @ret r hqc =>
    cases r with
    | none => exact absurd ⟨hc, hqc⟩ hend
    | some v =>
      refine ⟨⟨h.finished, by rintro ⟨⟩, by rintro ⟨⟩, by rintro ⟨⟨⟩, -⟩⟩,
        left_lt_of_consumer rfl rfl ?_⟩
      obtain ⟨cs', vs', hqueue', -⟩ := hqueue.consumerStep hq
      have hle := hqueue'.delivered_prefix.length_le
      have hdelivered : ({ s.queue.setConsumer .idle with
          returned := s.queue.returned ++ [some v] } :
          AtomicQueue.State (Fin n) (Result n V E)).delivered.length =
          s.queue.delivered.length + 1 := by
        simp [AtomicQueue.State.delivered]
      have haccepted : ({ s.queue.setConsumer .idle with
          returned := s.queue.returned ++ [some v] } :
          AtomicQueue.State (Fin n) (Result n V E)).acceptedValues = s.queue.acceptedValues := rfl
      change 12 * (_ - _) + 9 < 12 * (_ - _) + _
      rw [hdelivered, haccepted] at hle ⊢
      simp only [State.consumerWeight, hc, hqc, DequeuePc.tryWeight]
      omega
  -- the other steps belong to `wait_dequeue`
  | waitLoadHead hqc | waitLoadTail hqc | waitLoadNext hqc | found hqc | stopped hqc | stub hqc
  | unlinked hqc | wake hqc | reloadHead hqc | reloadNext hqc | reloadTail hqc =>
    rw [hqc] at htry
    exact absurd htry (by simp [DequeuePc.tryWeight])

end dequeue

lemma Settled.consumerStep (h : Settled s) (hinv : Inv s)
    (hqueue : AtomicQueue.Inv s.queue cs vs) (hist : AtomicQueue.History s.queue)
    (hend : ¬s.AtEnd) (hs : consumerStep s = some s') : Settled s' ∧ s'.left < s.left := by
  unfold WaitEach.consumerStep at hs
  cases hc : s.consumer <;> rw [hc] at hs
  case ready =>
    simp only [if_pos (remaining_eq_zero hinv.runners h.finished), Option.some.injEq] at hs
    subst hs
    exact h.setConsumer (by simp) (by simp) (by simp [State.consumerWeight, hc])
  case readyHead =>
    cases hs
    exact h.setConsumer (by simp) (by simp) (by simp [State.consumerWeight, hc])
  case readyNext head =>
    obtain rfl := hinv.head head hc
    obtain ⟨node, hnode⟩ := Option.isSome_iff_exists.mp hqueue.live_head
    have hnext : s.queue.next s.queue.mHead = node.next := by simp [AtomicQueue.State.next, hnode]
    simp only [hnode] at hs
    split at hs <;> cases hs
    · rename_i hnone
      exact h.suspend hinv.handover hc (hnext.trans hnone)
    · exact h.setConsumer (by simp) (by simp) (by simp [State.consumerWeight, hc])
  case suspended => cases hs
  case resume =>
    obtain ⟨q, hq, rfl⟩ := Option.map_eq_some_iff.mp hs
    simp only [AtomicQueue.step, hinv.outside (by simp [hc]), Option.some.injEq] at hq
    subst hq
    refine ⟨⟨h.finished, fun _ => Nat.succ_pos _, by rintro ⟨⟩, by rintro ⟨-, ⟨⟩⟩⟩,
      left_lt_of_consumer rfl rfl ?_⟩
    simp [State.consumerWeight, hc, AtomicQueue.State.setConsumer, DequeuePc.tryWeight,
      AtomicQueue.State.delivered, AtomicQueue.State.acceptedValues]
  case dequeue =>
    obtain ⟨q, hq, rfl⟩ := Option.map_eq_some_iff.mp hs
    exact h.dequeue hinv hqueue hist hc hend hq

/-- An earlier call of `await_suspend` finds no handle any more. -/
lemma Settled.suspendStep (h : Settled s) (hinv : Inv s) {k : ℕ} {guess : Bool}
    (hcovered : s.suspends k = .store → s.Covered) (hs : suspendStep s k guess = some s') :
    Settled s' ∧ s'.left < s.left ∧ s'.consumer = s.consumer ∧ s'.queue = s.queue := by
  have hhand := hinv.handover
  have haddr := h.coroutineAddr hhand
  have hset : ∀ pc : SuspendPc, pc.weight < (s.suspends k).weight →
      Settled (s.setSuspend k pc) ∧ (s.setSuspend k pc).left < s.left ∧
        (s.setSuspend k pc).consumer = s.consumer ∧ (s.setSuspend k pc).queue = s.queue := by
    intro pc hlt
    refine ⟨⟨h.finished, h.trying, h.waiting, h.ended⟩, ?_, rfl, rfl⟩
    have hk : k ∈ Finset.range s.calls := by
      rw [Finset.mem_range]
      by_contra hle
      rw [hhand.later k (not_lt.mp hle)] at hlt
      exact absurd hlt (Nat.not_lt_zero _)
    have hsum := sum_update_of_mem SuspendPc.weight s.suspends hk pc
    simp only [State.left, State.setSuspend, State.consumerWeight] at hsum ⊢
    omega
  unfold WaitEach.suspendStep at hs
  cases hk : s.suspends k <;> rw [hk] at hs <;> cases hs
  case store.refl =>
    exfalso
    have hnext := (h.waiting (hhand.store k hk).1).2
    rcases hcovered hk with ⟨i, hi⟩ | hsome
    · exact hi (h.finished i)
    · simp [hnext] at hsome
  case loadHead.refl => exact hset _ (by rw [hk]; exact Nat.lt_succ_self _)
  case loadNext.refl head =>
    apply hset
    rw [hk]
    split <;> simp [SuspendPc.weight]
  case exchange.refl =>
    rw [hhand.exchange_eq, haddr]
    exact hset _ (by rw [hk]; decide)

lemma Settled.step (h : Settled s) (hinv : Inv s) (hqueue : AtomicQueue.Inv s.queue cs vs)
    (hist : AtomicQueue.History s.queue) (hend : ¬s.AtEnd) {a : Action n V E}
    (hcovered : StoreCovered s a) (hs : step s a = some s') : Settled s' ∧ s'.left < s.left := by
  rcases step_of_finished h.finished hs with ⟨rfl, ha⟩ | ⟨k, guess, rfl, ha⟩
  · exact h.consumerStep hinv hqueue hist hend ha
  · obtain ⟨hsettled, hlt, -⟩ := h.suspendStep hinv (hcovered k guess rfl) ha
    exact ⟨hsettled, hlt⟩

/-- The consumer can take its next step, or its call of `await_suspend` can. -/
lemma Settled.exists_step (h : Settled s) (hinv : Inv s)
    (hqueue : AtomicQueue.Inv s.queue cs vs) : ∃ a s', WaitEach.step s a = some s' := by
  cases hc : s.consumer
  case suspended =>
    obtain ⟨-, haddr | hstore⟩ := hinv.handover.current hc
    · rw [(h.waiting hc).1] at haddr
      cases haddr
    · exact ⟨.suspend (s.calls - 1) false, by simp [WaitEach.step, WaitEach.suspendStep, hstore]⟩
  case ready | readyHead => exact ⟨.consumer, by simp [WaitEach.step, WaitEach.consumerStep, hc]⟩
  case readyNext head =>
    obtain rfl := hinv.head head hc
    obtain ⟨node, hnode⟩ := Option.isSome_iff_exists.mp hqueue.live_head
    refine ⟨.consumer, ?_⟩
    simp only [WaitEach.step, WaitEach.consumerStep, hc, hnode]
    split <;> exact ⟨_, rfl⟩
  case resume =>
    exact ⟨.consumer, by
      simp [WaitEach.step, WaitEach.consumerStep, hc, AtomicQueue.step, hinv.outside]⟩
  case dequeue =>
    have htry := h.trying hc
    have hlive : ∀ head next, s.queue.consumer = .deleteHead head next →
        (s.queue.heap head).isSome = true := fun head next hqc => (hqueue.deleteHead hqc).1
    refine ⟨.consumer, ?_⟩
    simp only [WaitEach.step, WaitEach.consumerStep, hc]
    cases hqc : s.queue.consumer <;> rw [hqc] at htry <;>
      simp only [AtomicQueue.consumerStep, hqc, Option.map_some, Option.some.injEq, exists_eq']
    case deleteHead head next =>
      obtain ⟨node, hnode⟩ := Option.isSome_iff_exists.mp (hlive head next hqc)
      simp [hnode]
    case waitTest => exact absurd htry (Nat.not_lt_zero _)
    case idle | wait => exact absurd htry (Nat.not_lt_zero _)

/-- As long as no handle is stored on an empty queue, the `co_await`s come to a `nullopt`. -/
lemma Settled.leads (h : Settled s) (hs : (system n V E stub).Reachable s) :
    (system n V E stub).Leads (fun t _ => ¬t.AtEnd) StoreCovered
      (fun t => t.AtEnd ∧ (t.AllDelivered ↔ ∀ i, t.queue.results i = [true])) s := by
  apply System.leads_of_measure (I := fun s => (system n V E stub).Reachable s ∧ Settled s)
    State.left
  · rintro t ⟨ht, hsettled⟩ hend
    obtain ⟨cs, vs, hqueue⟩ := AtomicQueue.reaches_inv (reaches_queue ht)
    obtain ⟨a, t', ha⟩ := hsettled.exists_step (reaches_inv ht) hqueue
    exact ⟨a, t', fun hat => hend ⟨hat, hsettled.ended hat⟩, ha⟩
  · rintro t a t' ⟨ht, hsettled⟩ - hend hcovered ha
    obtain ⟨cs, vs, hqueue⟩ := AtomicQueue.reaches_inv (reaches_queue ht)
    obtain ⟨hsettled', hlt⟩ := hsettled.step (reaches_inv ht) hqueue
      (AtomicQueue.reaches_history (reaches_queue ht)) hend hcovered ha
    exact ⟨⟨ht.step trivial ha, hsettled'⟩, hlt⟩
  · exact ⟨hs, h⟩

lemma ofDequeue_eq {T : Type*} (pc : DequeuePc T) :
    ConsumerPc.ofDequeue pc = .ready ∨ ConsumerPc.ofDequeue pc = .dequeue := by
  unfold ConsumerPc.ofDequeue
  split
  · exact Or.inl rfl
  · exact Or.inr rfl

/-- `try_dequeue` gives up right behind the load that finds nothing. -/
lemma next_of_ret_none {q q' : AtomicQueue.State (Fin n) (Result n V E)}
    (hqueue : AtomicQueue.Inv q cs vs) (htry : 0 < DequeuePc.tryWeight q.consumer)
    (hq : AtomicQueue.consumerStep q = some q') (hnone : q'.consumer = .ret none) :
    q'.next q'.mHead = none := by
  cases hqueue.move hq with
  | tryEmpty hqc hnext => exact hnext
  | moveValue hqc hret =>
    rw [hret] at hnone
    cases hnone
  | stopped hqc =>
    rw [hqc] at htry
    exact absurd htry (Nat.lt_irrefl 0)
  | _ => cases hnone

/-- A consumer that is up to date does not suspend any more. -/
lemma Settled.upToDate_step (h : Settled s) (hinv : Inv s)
    (hqueue : AtomicQueue.Inv s.queue cs vs) (hc : s.consumer ≠ .suspended) (hup : s.UpToDate)
    {a : Action n V E} (hs : WaitEach.step s a = some s') :
    StoreCovered s a ∧ s'.consumer ≠ .suspended ∧ s'.UpToDate := by
  have hstore : ∀ k, s.suspends k ≠ .store := fun k hk => hc (hinv.handover.store k hk).1
  refine ⟨fun k guess _ hk => absurd hk (hstore k), ?_⟩
  unfold State.UpToDate at hup
  rcases step_of_finished h.finished hs with ⟨rfl, ha⟩ | ⟨k, guess, rfl, ha⟩
  · unfold WaitEach.consumerStep at ha
    cases hpc : s.consumer <;> rw [hpc] at ha hup
    case ready =>
      simp only [if_pos (remaining_eq_zero hinv.runners h.finished), Option.some.injEq] at ha
      subst ha
      exact ⟨by simp, trivial⟩
    case readyHead =>
      cases ha
      exact ⟨by simp, hup⟩
    case readyNext head =>
      obtain rfl := hinv.head head hpc
      obtain ⟨node, hnode⟩ := Option.isSome_iff_exists.mp hqueue.live_head
      simp only [AtomicQueue.State.next, hnode, Option.bind_some] at hup
      simp only [hnode, if_neg (Option.isSome_iff_ne_none.mp hup), Option.some.injEq] at ha
      subst ha
      exact ⟨by simp, trivial⟩
    case suspended => exact absurd hpc hc
    case resume =>
      obtain ⟨q, hq, rfl⟩ := Option.map_eq_some_iff.mp ha
      simp only [AtomicQueue.step, hinv.outside (by simp [hpc]), Option.some.injEq] at hq
      subst hq
      exact ⟨by simp, by rintro ⟨⟩⟩
    case dequeue =>
      obtain ⟨q, hq, rfl⟩ := Option.map_eq_some_iff.mp ha
      have hnext := next_of_ret_none hqueue (h.trying hpc) hq
      rcases ofDequeue_eq q.consumer with hpc' | hpc' <;> rw [hpc']
      · exact ⟨by simp, trivial⟩
      · exact ⟨by simp, hnext⟩
  · obtain ⟨-, -, hconsumer, hsame⟩ := h.suspendStep hinv (fun hk => absurd hk (hstore k)) ha
    unfold State.UpToDate
    rw [hconsumer, hsame]
    exact ⟨hc, hup⟩

/-! ### Up to date or not -/

/-- Inside `await_resume` the consumer makes the steps of `try_dequeue` only. -/
lemma reaches_trying {C : State n V E → Action n V E → Prop} (h : (system n V E stub).Reaches C s)
    (hc : s.consumer = .dequeue) : 0 < DequeuePc.tryWeight s.queue.consumer := by
  refine h.invariant (I := fun s => s.consumer = .dequeue →
    0 < DequeuePc.tryWeight s.queue.consumer) (by rintro ⟨⟩) ?_ hc
  intro s a s' run ih _ hs hc'
  obtain ⟨cs, vs, hqueue⟩ := AtomicQueue.reaches_inv (reaches_queue run)
  have hinv := reaches_inv run
  have hexchange : s.exchange.consumer = .dequeue → s.consumer = .dequeue := by
    rw [hinv.handover.exchange_eq]
    split
    · rintro ⟨⟩
    · exact id
  cases a with
  | complete i o =>
    obtain ⟨-, q, hq, rfl⟩ := complete_eq hs
    have hother := AtomicQueue.step_other_of_producer hqueue hq (Option.some_ne_none i)
    exact hother.consumer.symm ▸ ih hc'
  | enqueue i addr spurious =>
    obtain ⟨-, b, q, hb, hq, rfl⟩ := enqueueStep_eq hs
    have hother := AtomicQueue.step_other_of_producer hqueue hq
      (by rw [(enqueueAction_producer hb).1]; simp)
    exact hother.consumer.symm ▸ ih hc'
  | runner i =>
    rw [runnerStep_queue hs]
    simp only [system, step, runnerStep] at hs
    split at hs <;> cases hs
    · exact ih hc'
    · exact ih (hexchange hc')
  | suspend k guess =>
    rw [suspendStep_queue hs]
    simp only [system, step, suspendStep] at hs
    split at hs <;> cases hs
    · exact ih hc'
    · exact ih hc'
    · exact ih hc'
    · exact ih (hexchange hc')
  | consumer =>
    simp only [system, step, consumerStep] at hs
    cases hpc : s.consumer <;> rw [hpc] at hs
    case ready =>
      cases hs
      dsimp only at hc'
      split at hc' <;> cases hc'
    case readyHead =>
      cases hs
      cases hc'
    case readyNext head =>
      obtain rfl := hinv.head head hpc
      obtain ⟨node, hnode⟩ := Option.isSome_iff_exists.mp hqueue.live_head
      simp only [hnode] at hs
      split at hs <;> cases hs <;> cases hc'
    case suspended => cases hs
    case resume =>
      obtain ⟨q, hq, rfl⟩ := Option.map_eq_some_iff.mp hs
      simp only [AtomicQueue.step, hinv.outside (by simp [hpc]), Option.some.injEq] at hq
      subst hq
      exact Nat.succ_pos _
    case dequeue =>
      obtain ⟨q, hq, rfl⟩ := Option.map_eq_some_iff.mp hs
      have htry := ih hpc
      cases hqueue.move hq with
      | tryLoadHead _ | tryEmpty _ _ | tryFound _ _ | storeHead _ | deleteHead _ =>
        exact Nat.succ_pos _
      | moveValue _ hret =>
        rw [hret]
        exact Nat.succ_pos _
      | ret _ => cases hc'
      | waitLoadHead hqc | waitLoadTail hqc | waitLoadNext hqc | found hqc | stopped hqc | stub hqc
      | unlinked hqc | wake hqc | reloadHead hqc | reloadNext hqc | reloadTail hqc =>
        rw [hqc] at htry
        exact absurd htry (by simp [DequeuePc.tryWeight])

lemma settled_of_ended (h : (system n V E stub).Reachable s)
    (hfinished : ∀ i, s.runners i = .finished) (hc : s.consumer ≠ .suspended)
    (hended : s.AtEnd → (s.AllDelivered ↔ ∀ i, s.queue.results i = [true])) : Settled s :=
  ⟨hfinished, reaches_trying h, fun hsus => absurd hsus hc, hended⟩

lemma settled_of_upToDate (h : (system n V E stub).Reachable s)
    (hfinished : ∀ i, s.runners i = .finished) (hc : s.consumer ≠ .suspended)
    (hup : s.UpToDate) : Settled s := by
  refine settled_of_ended h hfinished hc fun hend => ?_
  obtain ⟨cs, vs, hqueue⟩ := AtomicQueue.reaches_inv (reaches_queue h)
  unfold State.UpToDate at hup
  rw [hend.1] at hup
  exact allDelivered_iff (reaches_inv h) hqueue (AtomicQueue.reaches_history (reaches_queue h))
    hfinished (hup hend.2) (by rw [hend.2]; rfl)

/-- After the last runner no call of `enqueue` returns any more. -/
lemma results_step {a : Action n V E} (hfinished : ∀ i, s.runners i = .finished)
    (hs : step s a = some s') :
    (∀ i, s'.runners i = .finished) ∧ s'.queue.results = s.queue.results := by
  rcases step_of_finished hfinished hs with ⟨rfl, ha⟩ | ⟨k, guess, rfl, ha⟩
  · have hrunners : s'.runners = s.runners := by
      simp only [consumerStep] at ha
      split at ha
      · cases ha
        rfl
      · cases ha
        rfl
      · split at ha
        · cases ha
          rfl
        · split at ha <;> cases ha <;> rfl
      · cases ha
      all_goals
        obtain ⟨q, -, rfl⟩ := Option.map_eq_some_iff.mp ha
        rfl
    refine ⟨fun i => hrunners ▸ hfinished i, ?_⟩
    obtain ⟨-, -, hsame | ⟨b, hb, hq⟩⟩ := consumerStep_frame ha
    · rw [hsame]
    · funext i
      refine (AtomicQueue.step_producer_ne hq ?_).2.2
      rcases hb with rfl | rfl <;> exact (Option.some_ne_none i).symm
  · rw [suspendStep_queue ha]
    simp only [suspendStep] at ha
    split at ha <;> cases ha
    · exact ⟨hfinished, rfl⟩
    · exact ⟨hfinished, rfl⟩
    · exact ⟨hfinished, rfl⟩
    · refine ⟨fun i => ?_, rfl⟩
      change s.exchange.runners i = _
      rw [exchange_runners, hfinished i]

/-- What has to be delivered if every `enqueue` has returned `true`. -/
lemma leads_allDelivered {C : State n V E → Action n V E → Prop}
    (h : (system n V E stub).Leads (fun t _ => ¬t.AtEnd) C
      (fun t => t.AtEnd ∧ (t.AllDelivered ↔ ∀ i, t.queue.results i = [true])) s)
    (hfinished : ∀ i, s.runners i = .finished) (hok : ∀ i, s.queue.results i = [true]) :
    s.Drains stub C := by
  refine h.imp (I := fun t => (∀ i, t.runners i = .finished) ∧ ∀ i, t.queue.results i = [true])
    ?_ ?_ ⟨hfinished, hok⟩
  · rintro t a t' ⟨ht, hres⟩ - - ha
    obtain ⟨ht', heq⟩ := results_step ht ha
    exact ⟨ht', fun i => (congrFun heq i).trans (hres i)⟩
  · rintro t ⟨-, hres⟩ ⟨hend, hall⟩
    exact ⟨hend, hall.mpr hres⟩

lemma drains_of_upToDate (h : (system n V E stub).Reachable s)
    (hfinished : ∀ i, s.runners i = .finished) (hc : s.consumer ≠ .suspended)
    (hup : s.UpToDate) (hok : ∀ i, s.queue.results i = [true]) :
    s.Drains stub fun _ _ => True := by
  have hsettled := settled_of_upToDate h hfinished hc hup
  have hleads := hsettled.leads h
  have hall := hleads.of_guard (I := fun t => (system n V E stub).Reachable t ∧ Settled t ∧
    t.consumer ≠ .suspended ∧ t.UpToDate) ?_ ⟨h, hsettled, hc, hup⟩
  · exact leads_allDelivered hall hfinished hok
  · rintro t a t' ⟨ht, hset, hrun, hupt⟩ hend ha
    obtain ⟨cs, vs, hqueue⟩ := AtomicQueue.reaches_inv (reaches_queue ht)
    obtain ⟨hcovered, hrun', hupt'⟩ := hset.upToDate_step (reaches_inv ht) hqueue hrun hupt ha
    have hset' := (hset.step (reaches_inv ht) hqueue
      (AtomicQueue.reaches_history (reaches_queue ht)) hend hcovered ha).1
    exact ⟨hcovered, ht.step trivial ha, hset', hrun', hupt'⟩

/-- The consumer has read `remaining` before the last runner decremented it, and there is nothing
to take any more. Once its handle is stored all other calls of `await_suspend` have returned. -/
structure Late (s : State n V E) : Prop where
  finished : ∀ i, s.runners i = .finished
  empty : s.queue.next s.queue.mHead = none
  consumer : s.consumer = .readyHead ∨ (∃ head, s.consumer = .readyNext head) ∨
    s.consumer = .suspended
  stored : s.coroutineAddr = true → ∀ k, (s.suspends k).weight = 0 ∨ k + 1 = s.calls ∧
    (s.suspends k = .loadHead ∨ s.suspends k = .loadNext s.queue.mHead)

lemma Late.not_atEnd (h : Late s) : ¬s.AtEnd := by
  rintro ⟨hc, -⟩
  rcases h.consumer with hr | ⟨head, hr⟩ | hr <;> rw [hc] at hr <;> cases hr

/-- A call of `await_suspend` takes a step that leaves the consumer suspended. -/
lemma Late.suspend_step (h : Late s) (hinv : Inv s) (hqueue : AtomicQueue.Inv s.queue cs vs)
    {k : ℕ} (hk : 0 < (s.suspends k).weight)
    (hlast : s.suspends k = .store → ∀ j, j ≠ k → (s.suspends j).weight = 0) :
    ∃ t, WaitEach.step s (.suspend k false) = some t ∧ Late t := by
  have hhand := hinv.handover
  have hset : ∀ pc : SuspendPc, (s.coroutineAddr = true → pc.weight = 0 ∨ k + 1 = s.calls ∧
      (pc = .loadHead ∨ pc = .loadNext s.queue.mHead)) → Late (s.setSuspend k pc) := by
    refine fun pc hpc => ⟨h.finished, h.empty, h.consumer, fun haddr j => ?_⟩
    by_cases hj : j = k
    · subst hj
      simpa [State.setSuspend] using hpc haddr
    · simpa only [State.setSuspend, Function.update_of_ne hj] using h.stored haddr j
  cases hpc : s.suspends k with
  | idle | returned =>
    rw [hpc] at hk
    cases hk
  | store =>
    obtain ⟨-, hcalls, -⟩ := hhand.store k hpc
    have hs : step s (.suspend k false) =
        some { s.setSuspend k .loadHead with coroutineAddr := true } := by
      simp [step, suspendStep, hpc]
    refine ⟨_, hs, h.finished, h.empty, h.consumer, fun _ j => ?_⟩
    by_cases hj : j = k
    · subst hj
      exact Or.inr ⟨hcalls, Or.inl (by simp [State.setSuspend])⟩
    · left
      simpa only [State.setSuspend, Function.update_of_ne hj] using hlast hpc j hj
  | loadHead =>
    have hs : step s (.suspend k false) = some (s.setSuspend k (.loadNext s.queue.mHead)) := by
      simp [step, suspendStep, hpc]
    refine ⟨_, hs, hset _ fun haddr => ?_⟩
    rcases h.stored haddr k with hzero | ⟨hcalls, -⟩
    · rw [hpc] at hzero
      cases hzero
    · exact Or.inr ⟨hcalls, Or.inr rfl⟩
  | loadNext head =>
    have hs : step s (.suspend k false) = some (s.setSuspend k
        (if nonEmpty s head false then .exchange else .returned)) := by
      simp [step, suspendStep, hpc]
    refine ⟨_, hs, hset _ fun haddr => ?_⟩
    rcases h.stored haddr k with hzero | ⟨-, hhead | hhead⟩
    · rw [hpc] at hzero
      cases hzero
    · rw [hpc] at hhead
      cases hhead
    · obtain rfl : head = s.queue.mHead := by simpa [hpc] using hhead
      rw [nonEmpty_eq hqueue.live_head, h.empty]
      exact Or.inl rfl
  | exchange =>
    have haddr : s.coroutineAddr = false := by
      rw [Bool.eq_false_iff]
      intro haddr
      rcases h.stored haddr k with hzero | ⟨-, hpos | hpos⟩
      · rw [hpc] at hzero
        cases hzero
      · rw [hpc] at hpos
        cases hpos
      · rw [hpc] at hpos
        cases hpos
    have hs : step s (.suspend k false) = some (s.setSuspend k .returned) := by
      simp [step, suspendStep, hpc, hhand.exchange_eq, haddr]
    exact ⟨_, hs, hset _ fun ha => absurd (ha.symm.trans haddr) (by simp)⟩

/-- Some order of steps leaves the consumer suspended for good. -/
lemma Late.exists_step (h : Late s) (hinv : Inv s) (hqueue : AtomicQueue.Inv s.queue cs vs)
    (hs : ∃ a t, WaitEach.step s a = some t) : ∃ a t, WaitEach.step s a = some t ∧ Late t := by
  have hhand := hinv.handover
  rcases h.consumer with hc | ⟨head, hc⟩ | hc
  · have hs : step s .consumer = some { s with consumer := .readyNext s.queue.mHead } := by
      simp [step, consumerStep, hc]
    refine ⟨.consumer, _, hs, h.finished, h.empty, Or.inr (Or.inl ⟨_, rfl⟩), fun haddr => ?_⟩
    exact absurd (hc.symm.trans (hhand.held haddr)) (by simp)
  · obtain rfl := hinv.head head hc
    obtain ⟨node, hnode⟩ := Option.isSome_iff_exists.mp hqueue.live_head
    have hnext : node.next = none := by
      have hempty := h.empty
      simpa [AtomicQueue.State.next, hnode] using hempty
    have hs : step s .consumer = some { s.setSuspend s.calls .store with
        consumer := .suspended, calls := s.calls + 1 } := by
      simp [step, consumerStep, hc, hnode, hnext]
    refine ⟨.consumer, _, hs, h.finished, h.empty, Or.inr (Or.inr rfl), fun haddr => ?_⟩
    exact absurd (hc.symm.trans (hhand.held haddr)) (by simp)
  · by_cases holder : ∃ k, 0 < (s.suspends k).weight ∧ s.suspends k ≠ .store
    · obtain ⟨k, hk, hstore⟩ := holder
      obtain ⟨t, ht, hlate⟩ := h.suspend_step hinv hqueue hk fun hstore' => absurd hstore' hstore
      exact ⟨_, t, ht, hlate⟩
    · push Not at holder
      by_cases hlast : ∃ k, s.suspends k = .store
      · obtain ⟨k, hk⟩ := hlast
        obtain ⟨t, ht, hlate⟩ := h.suspend_step hinv hqueue (by rw [hk]; decide) fun _ j hj => by
          by_contra hpos
          have hj' := hhand.store j (holder j (Nat.pos_of_ne_zero hpos))
          have hk' := hhand.store k hk
          omega
        exact ⟨_, t, ht, hlate⟩
      · -- no call is left that could take a step
        exfalso
        obtain ⟨a, t, ht⟩ := hs
        have hzero : ∀ k, (s.suspends k).weight = 0 := fun k => by
          by_contra hpos
          exact hlast ⟨k, holder k (Nat.pos_of_ne_zero hpos)⟩
        rcases step_of_finished h.finished ht with ⟨-, ht⟩ | ⟨k, guess, -, ht⟩
        · simp [consumerStep, hc] at ht
        · have hk := hzero k
          unfold WaitEach.suspendStep at ht
          cases hpc : s.suspends k <;> rw [hpc] at ht hk
          case idle | returned => cases ht
          case store | loadHead | loadNext | exchange => cases hk

/-- The consumer may be left suspended for good. -/
lemma Late.not_drains (h : Late s) (hs : (system n V E stub).Reachable s) :
    ¬s.Drains stub fun _ _ => True := by
  refine System.not_leads_of_trap (I := fun t => (system n V E stub).Reachable t ∧ Late t)
    (fun t ht hP => ht.2.not_atEnd hP.1) ?_ ⟨hs, h⟩
  rintro t ⟨ht, hlate⟩ ⟨a, t', -, ha⟩
  obtain ⟨cs, vs, hqueue⟩ := AtomicQueue.reaches_inv (reaches_queue ht)
  obtain ⟨b, u, hu, hlate'⟩ := hlate.exists_step (reaches_inv ht) hqueue ⟨a, t', ha⟩
  exact ⟨b, u, hlate.not_atEnd, trivial, hu, ht.step trivial hu, hlate'⟩

/-- A result that the queue shows has not been delivered. -/
lemma not_allDelivered (h : Inv s) (hqueue : AtomicQueue.Inv s.queue cs vs)
    (hist : AtomicQueue.History s.queue) (hnext : s.queue.next s.queue.mHead ≠ none) :
    ¬s.AllDelivered := by
  intro hall
  cases vs with
  | nil => exact hnext hqueue.of_nil.1
  | cons v vs' =>
    have hmem : v ∈ s.queue.acceptedValues := by
      rw [hqueue.accepted]
      exact List.mem_append_right _ List.mem_cons_self
    obtain ⟨x, hx, hvalue⟩ := List.mem_map.mp hmem
    obtain ⟨-, o, ho, hstored⟩ := ticket_outcome h.runners hist hx
    obtain ⟨o', ho', hdelivered⟩ := hall v.1
    have hnodup := accepted_nodup h.runners hist
    rw [hqueue.accepted, AtomicQueue.State.removed, List.map_append, List.map_append,
      List.map_cons, List.append_assoc] at hnodup
    refine List.disjoint_of_nodup_append hnodup (List.mem_map_of_mem hdelivered) ?_
    exact List.mem_append_right _ List.mem_cons_self

/-- Where the `co_await`s bring everything, the consumer is up to date and every `enqueue` has
returned `true`. -/
lemma upToDate_of_drains (h : (system n V E stub).Reachable s)
    (hfinished : ∀ i, s.runners i = .finished) (hdrains : s.Drains stub fun _ _ => True) :
    s.UpToDate ∧ ∀ i, s.queue.results i = [true] := by
  have hinv := reaches_inv h
  obtain ⟨cs, vs, hqueue⟩ := AtomicQueue.reaches_inv (reaches_queue h)
  have hist := AtomicQueue.reaches_history (reaches_queue h)
  have hempty : ∀ {o : Option Addr}, ¬o.isSome → o = none := by
    rintro (- | o) ho
    · rfl
    · exact absurd rfl ho
  constructor
  · unfold State.UpToDate
    cases hc : s.consumer with
    | readyHead | readyNext head =>
      have haddr : s.coroutineAddr = true → s.consumer = .suspended := hinv.handover.held
      rw [hc] at haddr
      by_contra hsome
      refine Late.not_drains ⟨hfinished, hempty hsome, by simp [hc], fun ha => ?_⟩ h hdrains
      cases haddr ha
    | dequeue =>
      intro hnone
      by_contra hnext
      cases hdrains with
      | now hP => exact not_allDelivered hinv hqueue hist hnext hP.2
      | later enabled _ =>
        obtain ⟨-, -, hend, -⟩ := enabled
        exact hend ⟨hc, hnone⟩
    | ready | suspended | resume => trivial
  · obtain ⟨as, t, ht, -, hall⟩ := hdrains.exists_exec
    have hreach := h.exec ht
    have hsame : (∀ i, t.runners i = .finished) ∧ t.queue.results = s.queue.results := by
      refine System.exec_invariant (I := fun t => (∀ i, t.runners i = .finished) ∧
        t.queue.results = s.queue.results) ?_ ⟨hfinished, rfl⟩ ht
      rintro t a t' ⟨hft, hres⟩ - ha
      obtain ⟨hft', heq⟩ := results_step hft ha
      exact ⟨hft', heq.trans hres⟩
    obtain ⟨cs', vs', hqueue'⟩ := AtomicQueue.reaches_inv (reaches_queue hreach)
    intro i
    rw [← hsame.2]
    exact results_of_delivered (reaches_inv hreach) hqueue'
      (AtomicQueue.reaches_history (reaches_queue hreach)) (hsame.1 i) (hall i)

end Scoro.WaitEach

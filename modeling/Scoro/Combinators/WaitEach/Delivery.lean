import Scoro.Queue.Refinement
import Scoro.Combinators.WaitEach.Invariant

/-!
# The end of `wait_each`

The consumer takes `nullopt` for the end. It gets `nullopt` early when an exchange resumes it
while the queue is still empty: the exchange of a runner whose result it has already taken, or
of a runner that has overtaken another one whose link store is outstanding. It waits for ever
when it stores its handle after the last exchange of a runner, since `await_suspend` does not
test `remaining` again.
-/

namespace Scoro.WaitEach
open Scoro.Lib Scoro.Combinators
open AtomicQueue (Addr EnqueuePc DequeuePc)

variable {n : ℕ} {V E : Type*} {s s' : State n V E} {stub : Addr} {cs : List Addr}
  {vs : List (Result n V E)}

namespace State

/-- The outcome of awaitable `i` has been returned by an earlier `co_await`. -/
def Delivered (s : State n V E) (i : Fin n) : Prop :=
  ∃ o ∈ s.outcomes i, (i, o.stored) ∈ s.queue.delivered

def AllDelivered (s : State n V E) : Prop := ∀ i, s.Delivered i

/-- There is a result to take, or nothing is missing. -/
def Supplied (s : State n V E) : Prop :=
  (s.queue.next s.queue.mHead).isSome ∨ s.AllDelivered

/-- The step takes the handle out of `coroutine_addr`. -/
def Takes (s : State n V E) : Action n V E → Prop
  | .runner i => s.coroutineAddr = true ∧ s.runners i = .exchange
  | .suspend k _ => s.coroutineAddr = true ∧ s.suspends k = .exchange
  | _ => False

/-- A `co_await` that is about to yield `nullopt` does so after all results. -/
def EndsRight (s : State n V E) : Prop :=
  s.consumer = .dequeue → s.queue.consumer = .ret none → s.AllDelivered

/-- All runners have finished, the latest call of `await_suspend` has returned, and the handle
is still in `coroutine_addr`. -/
def Stranded (s : State n V E) : Prop :=
  (∀ i, s.runners i = .finished) ∧ s.suspends (s.calls - 1) = .returned ∧
    s.coroutineAddr = true

/-- Some runner still has its exchange to make, or the queue shows a result. -/
def Covered (s : State n V E) : Prop :=
  (∃ i, s.runners i ≠ .finished) ∨ (s.queue.next s.queue.mHead).isSome

instance [DecidableEq V] [DecidableEq E] (s : State n V E) : Decidable s.Supplied :=
  inferInstanceAs (Decidable (_ ∨ ∀ i, ∃ o ∈ s.outcomes i, (i, o.stored) ∈ s.queue.delivered))

instance (s : State n V E) : Decidable s.Covered := inferInstanceAs (Decidable (_ ∨ _))

instance (s : State n V E) : (a : Action n V E) → Decidable (s.Takes a)
  | .runner i => inferInstanceAs (Decidable (s.coroutineAddr = true ∧ s.runners i = .exchange))
  | .suspend k _ => inferInstanceAs (Decidable (s.coroutineAddr = true ∧ s.suspends k = .exchange))
  | .complete .. | .enqueue .. | .consumer => isFalse id

end State

/-- No exchange resumes the consumer before there is something for it, and no allocation in
`enqueue` fails. -/
def NoEarlyWake (s : State n V E) (a : Action n V E) : Prop :=
  (s.Takes a → s.Supplied) ∧ ∀ i spurious, a ≠ .enqueue i none spurious

/-- `await_suspend` does not store the handle behind the last exchange on an empty queue. -/
def StoreCovered (s : State n V E) (a : Action n V E) : Prop :=
  ∀ k guess, a = .suspend k guess → s.suspends k = .store → s.Covered

instance [DecidableEq V] [DecidableEq E] (s : State n V E) (a : Action n V E) :
    Decidable (NoEarlyWake s a) :=
  inferInstanceAs (Decidable ((_ → _) ∧ ∀ i spurious, a ≠ .enqueue i none spurious))

instance [DecidableEq V] [DecidableEq E] (s : State n V E) (a : Action n V E) :
    Decidable (StoreCovered s a) :=
  match a with
  | .suspend k _ => decidable_of_iff (s.suspends k = .store → s.Covered)
      ⟨fun h _ _ heq hk => by cases heq; exact h hk, fun h hk => h k _ rfl hk⟩
  | .complete .. | .enqueue .. | .runner _ | .consumer => isTrue nofun

/-! ### What a resumed consumer finds -/

/-- `try_dequeue` finds a result, or all of them have been delivered. -/
def CanTake (s : State n V E) : Prop := s.Supplied ∨ s.remaining = 0

/-- A consumer in `await_resume` has been let through for a reason. -/
def Told (s : State n V E) : Prop :=
  match s.consumer with
  | .resume => CanTake s
  | .dequeue =>
    match s.queue.consumer with
    | .tryLoadHead | .tryLoadNext _ => CanTake s
    | .ret none => s.AllDelivered
    | .waitLoadHead | .waitLoadTail _ | .waitLoadNext .. | .waitTest .. | .wait _ | .reloadHead
    | .reloadNext _ | .reloadTail .. => False
    | _ => True
  | _ => True

lemma Told.mono (h : Told s) (hconsumer : s'.consumer = s.consumer)
    (hqueue : s'.queue.consumer = s.queue.consumer) (hcan : CanTake s → CanTake s')
    (hall : s.AllDelivered → s'.AllDelivered) : Told s' := by
  unfold Told at h ⊢
  rw [hconsumer, hqueue]
  cases hc : s.consumer <;> rw [hc] at h
  case resume => exact hcan h
  case dequeue =>
    cases hq : s.queue.consumer <;> rw [hq] at h
    case tryLoadHead | tryLoadNext head => exact hcan h
    case ret r =>
      cases r with
      | none => exact hall h
      | some v => trivial
    all_goals exact h
  all_goals trivial

/-- Results are not taken back, and outcomes do not change. -/
lemma allDelivered_mono (h : Inv s) {a : Action n V E} (hs : step s a = some s')
    (hreturned : ∀ r ∈ s.queue.delivered, r ∈ s'.queue.delivered) (hall : s.AllDelivered) :
    s'.AllDelivered := by
  have hsame : s'.outcomes = s.outcomes → s'.AllDelivered := by
    intro hout i
    obtain ⟨o, ho, hmem⟩ := hall i
    exact ⟨o, hout ▸ ho, hreturned _ hmem⟩
  cases a with
  | complete i o =>
    exfalso
    obtain ⟨hi, -⟩ := complete_eq hs
    have hlinked := h.runners.linked i
    unfold Linked at hlinked
    rw [hi] at hlinked
    obtain ⟨o', ho', -⟩ := hall i
    rw [hlinked.2.2.2] at ho'
    cases ho'
  | enqueue i addr spurious =>
    apply hsame
    obtain ⟨-, b, q, -, -, rfl⟩ := enqueueStep_eq hs
    rfl
  | runner i =>
    apply hsame
    simp only [step, runnerStep] at hs
    split at hs <;> cases hs
    · rfl
    · rw [h.handover.exchange_eq]
      split <;> rfl
  | consumer => exact hsame (consumerStep_frame hs).1
  | suspend k guess =>
    apply hsame
    simp only [step, suspendStep] at hs
    split at hs <;> cases hs
    · rfl
    · rfl
    · rfl
    · rw [h.handover.exchange_eq]
      split <;> rfl

/-- Once `remaining` is zero and the queue shows nothing, everything has been delivered. -/
lemma allDelivered_of_empty (h : Inv s) (hinv : AtomicQueue.Inv s.queue cs vs)
    (hist : AtomicQueue.History s.queue) (hnone : ∀ i, ¬s.queue.Failed i)
    (hcan : CanTake s) (hnext : s.queue.next s.queue.mHead = none)
    (hhand : s.queue.handOf s.queue.consumer = []) : s.AllDelivered := by
  rcases hcan with (hsome | hall) | hzero
  · rw [hnext] at hsome
    cases hsome
  · exact hall
  have hcall : ∀ i, s.queue.producers i = .idle ∧ (∃ ok, s.queue.results i = [ok]) ∧
      ∃ o, s.outcomes i = some o ∧ s.queue.calls i = [(i, o.stored)] := by
    intro i
    have hweight := h.runners.weight_eq_zero hzero i
    have hlinked := h.runners.linked i
    unfold Linked at hlinked
    cases hi : s.runners i <;> rw [hi] at hweight hlinked
    case awaiting => cases hweight
    case enqueue => cases hweight
    case fetchSub => cases hweight
    case exchange => exact hlinked
    case finished => exact hlinked
  have hvs : vs = [] := by
    cases vs with
    | nil => rfl
    | cons v vs' =>
      have hno : s.queue.NoPending := by
        intro p t m
        rw [(hcall p).1]
        exact fun hp => by cases hp
      obtain ⟨m, hm⟩ := hinv.next_head hno
      rw [hnext] at hm
      cases hm
  have hdelivered : s.queue.acceptedValues = s.queue.delivered := by
    rw [hinv.accepted, hvs, AtomicQueue.State.removed, hhand, List.append_nil, List.append_nil]
  intro i
  obtain ⟨-, ⟨ok, hresults⟩, o, ho, hcalls⟩ := hcall i
  have htrue : (s.queue.results i)[0]? = some true := by
    have hmem := AtomicQueue.eq_true_of_not_failed (hnone i)
      (hresults ▸ List.mem_singleton_self ok)
    rw [hresults, hmem]
    rfl
  obtain ⟨x, hx, rfl, hxcall⟩ := (hist.accepted_iff i 0).mpr (Or.inl htrue)
  have hvalue := hist.tickets x hx
  rw [hxcall, hcalls] at hvalue
  refine ⟨o, ho, ?_⟩
  rw [← hdelivered]
  have hx' : x.value = (x.producer, o.stored) := (Option.some.inj hvalue).symm
  rw [← hx']
  exact List.mem_map_of_mem hx

/-- A step of the queue in a runner's call. -/
lemma Told.producer_step (h : Told s) (hinv : AtomicQueue.Inv s.queue cs vs)
    {b : AtomicQueue.Action (Fin n) (Result n V E)}
    (hq : AtomicQueue.step s.queue b = some s'.queue) (hb : b.producer ≠ none)
    (hconsumer : s'.consumer = s.consumer) (hremaining : s'.remaining = s.remaining)
    (hall : (∀ r ∈ s.queue.delivered, r ∈ s'.queue.delivered) →
      s.AllDelivered → s'.AllDelivered) : Told s' := by
  have hother := AtomicQueue.step_other_of_producer hinv hq hb
  have hdel : s.AllDelivered → s'.AllDelivered := by
    apply hall
    intro r hr
    rwa [AtomicQueue.State.delivered, hother.returned]
  apply h.mono hconsumer hother.consumer _ hdel
  rintro ((hsome | hd) | hzero)
  · obtain ⟨m, hm⟩ := Option.isSome_iff_exists.mp hsome
    refine Or.inl (Or.inl ?_)
    rw [hother.head, hother.next m hm]
    rfl
  · exact Or.inl (Or.inr (hdel hd))
  · exact Or.inr (hremaining.trans hzero)

lemma Told.exchange (h : Told s) (hhand : Handover s)
    (hwake : s.coroutineAddr = true → s.Supplied) : Told s.exchange := by
  rw [hhand.exchange_eq]
  split
  · rename_i haddr
    exact Or.inl (hwake haddr)
  · exact h

/-- The consumer's step inside `try_dequeue`. -/
lemma told_dequeue (h : Inv s) (hinv : AtomicQueue.Inv s.queue cs vs)
    (hist : AtomicQueue.History s.queue) (hnone : ∀ i, ¬s.queue.Failed i)
    (htold : Told s) (hc : s.consumer = .dequeue)
    {q : AtomicQueue.State (Fin n) (Result n V E)}
    (hq : AtomicQueue.consumerStep s.queue = some q) :
    Told { s with queue := q, consumer := .ofDequeue q.consumer } := by
  unfold Told at htold
  rw [hc] at htold
  cases hinv.move hq with
  | tryLoadHead hqc =>
    simp only [hqc] at htold
    exact htold
  | tryEmpty hqc hnext =>
    simp only [hqc] at htold
    have hall : s.AllDelivered :=
      allDelivered_of_empty h hinv hist hnone htold hnext (by rw [hqc]; rfl)
    exact hall
  | moveValue hqc hret =>
    unfold Told
    dsimp only
    rw [hret]
    trivial
  | tryFound | found | storeHead | deleteHead | ret => trivial
  -- the other steps belong to `wait_dequeue`
  | waitLoadHead hqc | waitLoadTail hqc | waitLoadNext hqc | stopped hqc | stub hqc
  | unlinked hqc | wake hqc | reloadHead hqc | reloadNext hqc | reloadTail hqc =>
    simp only [hqc] at htold

lemma told_step (h : Inv s) (hinv : AtomicQueue.Inv s.queue cs vs)
    (hist : AtomicQueue.History s.queue) (hnone : ∀ i, ¬s.queue.Failed i)
    (htold : Told s) {a : Action n V E} (hwake : s.Takes a → s.Supplied)
    (hs : step s a = some s') : Told s' := by
  have hall := allDelivered_mono h hs
  cases a with
  | complete i o =>
    obtain ⟨-, q, hq, rfl⟩ := complete_eq hs
    exact htold.producer_step hinv hq (Option.some_ne_none i) rfl rfl hall
  | enqueue i addr spurious =>
    obtain ⟨-, b, q, hb, hq, rfl⟩ := enqueueStep_eq hs
    refine htold.producer_step hinv hq ?_ rfl rfl hall
    rw [(enqueueAction_producer hb).1]
    simp
  | runner i =>
    simp only [step, runnerStep] at hs
    split at hs <;> cases hs
    · refine htold.mono rfl rfl ?_ id
      rintro (hsup | hzero)
      · exact Or.inl hsup
      · refine Or.inr ?_
        change s.remaining - 1 = 0
        omega
    · rename_i hi
      exact htold.exchange h.handover fun haddr => hwake ⟨haddr, hi⟩
  | consumer =>
    simp only [step, consumerStep] at hs
    cases hc : s.consumer <;> rw [hc] at hs
    case ready =>
      cases hs
      unfold Told
      dsimp only
      by_cases hzero : s.remaining = 0
      · rw [if_pos hzero]
        exact Or.inr hzero
      · rw [if_neg hzero]
        trivial
    case readyHead =>
      cases hs
      trivial
    case readyNext head =>
      obtain rfl := h.head head hc
      obtain ⟨node, hnode⟩ := Option.isSome_iff_exists.mp hinv.live_head
      simp only [hnode] at hs
      split at hs <;> cases hs
      · trivial
      · rename_i hne
        refine Or.inl (Or.inl ?_)
        simp only [AtomicQueue.State.next, hnode, Option.bind_some]
        exact Option.isSome_iff_ne_none.mpr hne
    case suspended => cases hs
    case resume =>
      obtain ⟨q, hq, rfl⟩ := Option.map_eq_some_iff.mp hs
      simp only [AtomicQueue.step, h.outside (by simp [hc]), Option.some.injEq] at hq
      subst hq
      unfold Told at htold
      rw [hc] at htold
      exact htold
    case dequeue =>
      obtain ⟨q, hq, rfl⟩ := Option.map_eq_some_iff.mp hs
      exact told_dequeue h hinv hist hnone htold hc hq
  | suspend k guess =>
    simp only [step, suspendStep] at hs
    split at hs <;> cases hs
    · exact htold
    · exact htold
    · exact htold
    · rename_i hk
      exact htold.exchange h.handover fun haddr => hwake ⟨haddr, hk⟩

/-- Without a failing allocation no call of `enqueue` fails. -/
lemma reaches_not_failed {C : State n V E → Action n V E → Prop}
    (hC : ∀ s a, C s a → ∀ i spurious, a ≠ .enqueue i none spurious)
    (h : (system n V E stub).Reaches C s) (i : Fin n) : ¬s.queue.Failed i := by
  have hqueue : (AtomicQueue.system (Fin n) (Result n V E) stub).Reaches
      (fun _ b => b ≠ .stop ∧ ∀ i, b ≠ .alloc i none) s.queue := by
    refine (refines_queue fun s a b hCa hb => ⟨hb.1, fun i hi => ?_⟩).reaches h
    obtain ⟨spurious, rfl⟩ := hb.2.2 i hi
    exact hC s _ hCa i spurious rfl
  obtain ⟨hpc, hresults⟩ := AtomicQueue.reaches_accepts (fun _ _ hb => hb) hqueue i
  rintro (hret | hmem)
  · simp [hret, AtomicQueue.EnqueuePc.refused] at hpc
  · simpa using hresults _ hmem

lemma failed_step {a : Action n V E} (h : s.queue.Failed i) (hs : step s a = some s') :
    s'.queue.Failed i := by
  rcases step_queue hs with heq | ⟨b, -, hb⟩
  · rwa [heq]
  · exact AtomicQueue.Failed.step h hb

/-- As long as no call of `enqueue` has failed, a consumer in `await_resume` has been let through
for a reason, unless an exchange was early. -/
lemma reaches_told_or_failed {C : State n V E → Action n V E → Prop}
    (hC : ∀ s a, C s a → s.Takes a → s.Supplied) (h : (system n V E stub).Reaches C s) :
    (∃ i, s.queue.Failed i) ∨ Told s := by
  refine h.invariant (I := fun s => (∃ i, s.queue.Failed i) ∨ Told s)
    (Or.inr (show Told (init n V E stub) from trivial)) ?_
  intro s a s' run ih hCa hs
  by_cases hfailed : ∃ i, s.queue.Failed i
  · obtain ⟨i, hi⟩ := hfailed
    exact Or.inl ⟨i, failed_step hi hs⟩
  · obtain ⟨cs, vs, hinv⟩ := AtomicQueue.reaches_inv (reaches_queue run)
    have htold := ih.resolve_left hfailed
    have hist := AtomicQueue.reaches_history (reaches_queue run)
    exact Or.inr (told_step (reaches_inv run) hinv hist (not_exists.mp hfailed) htold (hC s a hCa)
      hs)

lemma reaches_told (h : (system n V E stub).Reaches NoEarlyWake s) : Told s :=
  (reaches_told_or_failed (fun _ _ ha => ha.1) h).resolve_left fun ⟨i, hi⟩ =>
    reaches_not_failed (fun _ _ ha => ha.2) h i hi

/-- A resumed consumer that goes on alone up to the test in `try_dequeue`. -/
lemma solo_resume (hc : s.consumer = .resume) (hidle : s.queue.consumer = .idle)
    (hlive : s.queue.Live s.queue.mHead) : ∃ t, solo consumerStep 3 s = some t ∧
      t.consumer = .dequeue ∧ t.outcomes = s.outcomes ∧
      t.queue.delivered = s.queue.delivered ∧
      (t.queue.consumer = .ret none ↔ s.queue.next s.queue.mHead = none) := by
  have hcall : consumerStep s = some { s with
      consumer := .dequeue, queue := s.queue.setConsumer .tryLoadHead } := by
    simp [consumerStep, hc, AtomicQueue.step, hidle]
  have hload : consumerStep { s with
      consumer := .dequeue, queue := s.queue.setConsumer .tryLoadHead } =
      some { s with
        consumer := .dequeue, queue := s.queue.setConsumer (.tryLoadNext s.queue.mHead) } := rfl
  rw [solo_succ hcall, solo_succ hload]
  obtain ⟨node, hnode⟩ := Option.isSome_iff_exists.mp hlive
  have hnext : s.queue.next s.queue.mHead = node.next := by simp [AtomicQueue.State.next, hnode]
  rw [hnext]
  cases hn : node.next with
  | none =>
    refine ⟨{ s with consumer := .dequeue, queue := s.queue.setConsumer (.ret none) },
      ?_, rfl, rfl, rfl, by simp [AtomicQueue.State.setConsumer]⟩
    simp [solo, consumerStep, AtomicQueue.consumerStep, AtomicQueue.State.setConsumer,
      AtomicQueue.State.loadNext, hnode, hn, ConsumerPc.ofDequeue]
  | some m =>
    refine ⟨{ s with
      consumer := .dequeue, queue := s.queue.setConsumer (.storeHead s.queue.mHead m) },
      ?_, rfl, rfl, rfl, by simp [AtomicQueue.State.setConsumer]⟩
    simp [solo, consumerStep, AtomicQueue.consumerStep, AtomicQueue.State.setConsumer,
      AtomicQueue.State.loadNext, hnode, hn, ConsumerPc.ofDequeue]

/-- In a run without early wake-ups and failing allocations a `co_await` yields `nullopt` only
after all results. From any reachable state, the consumer that an exchange resumes gets an
early `nullopt` by going on alone exactly if the exchange was early. -/
theorem wait_each_ends_iff (h : (system n V E stub).Reachable s) :
    ((system n V E stub).Reaches NoEarlyWake s → s.EndsRight) ∧
      ∀ a s', s.Takes a → step s a = some s' →
        ∃ t, solo consumerStep 3 s' = some t ∧ (t.EndsRight ↔ s.Supplied) := by
  refine ⟨fun hrun hc hnone => ?_, fun a s' htakes hs => ?_⟩
  · have htold := reaches_told hrun
    unfold Told at htold
    rw [hc] at htold
    simp only [hnone] at htold
    exact htold
  obtain ⟨cs, vs, hinv⟩ := AtomicQueue.reaches_inv (reaches_queue h)
  have hhand := (reaches_inv h).handover
  have haddr : s.coroutineAddr = true := by
    cases a with
    | runner i => exact htakes.1
    | suspend k guess => exact htakes.1
    | complete i o => exact htakes.elim
    | enqueue i addr spurious => exact htakes.elim
    | consumer => exact htakes.elim
  -- the exchange resumes the consumer and changes neither the queue nor the outcomes
  have hresumed : s'.consumer = .resume ∧ s'.queue = s.queue ∧ s'.outcomes = s.outcomes := by
    have hex := hhand.exchange_eq
    rw [if_pos haddr] at hex
    cases a with
    | runner i =>
      simp only [step, runnerStep, htakes.2, Option.some.injEq] at hs
      subst hs
      rw [hex]
      exact ⟨rfl, rfl, rfl⟩
    | suspend k guess =>
      simp only [step, suspendStep, htakes.2, Option.some.injEq] at hs
      subst hs
      rw [hex]
      exact ⟨rfl, rfl, rfl⟩
    | complete i o => exact htakes.elim
    | enqueue i addr spurious => exact htakes.elim
    | consumer => exact htakes.elim
  obtain ⟨hc, hqueue, hout⟩ := hresumed
  have hidle : s.queue.consumer = .idle := by
    apply (reaches_inv h).outside
    rw [hhand.held haddr]
    simp
  obtain ⟨t, ht, htc, htout, htdel, htnone⟩ :=
    solo_resume hc (hqueue ▸ hidle) (hqueue ▸ hinv.live_head)
  rw [hqueue] at htdel htnone
  have hall : t.AllDelivered ↔ s.AllDelivered := by
    unfold State.AllDelivered State.Delivered
    rw [htout, hout, htdel]
  refine ⟨t, ht, ?_⟩
  unfold State.EndsRight State.Supplied
  rw [htnone, hall, Option.isSome_iff_ne_none]
  constructor
  · intro hends
    by_cases hnone : s.queue.next s.queue.mHead = none
    · exact Or.inr (hends htc hnone)
    · exact Or.inl hnone
  · rintro (hsome | hd) - hnone
    · exact absurd hnone hsome
    · exact hd

/-- Two awaitables. The exchange of runner 0 comes after the consumer has taken its result and
has suspended again, and resumes it on an empty queue. -/
theorem wait_each_early_end :
    ∃ s : State 2 ℕ ℕ, (system 2 ℕ ℕ 0).Reachable s ∧ s.consumer = .dequeue ∧
      s.queue.consumer = .ret none ∧ s.outcomes 1 = none ∧ ¬s.EndsRight := by
  obtain ⟨s, hs, hc, hret, hout⟩ := System.exists_reaches (S := system 2 ℕ ℕ 0)
    (fun _ _ => True) (fun s => s.consumer = .dequeue ∧ s.queue.consumer = .ret none ∧
      s.outcomes 1 = none)
    [.complete 0 (.value 7), .enqueue 0 (some 1) false, .enqueue 0 none false,
      .enqueue 0 none false, .enqueue 0 none false, .enqueue 0 none false,
      .consumer, .consumer, .consumer, .consumer, .consumer, .consumer, .consumer, .consumer,
      .consumer, .consumer,
      .consumer, .consumer, .consumer, .suspend 0 false, .suspend 0 false, .suspend 0 false,
      .runner 0, .runner 0, .consumer, .consumer, .consumer] (by decide)
  refine ⟨s, hs, hc, hret, hout, fun hends => ?_⟩
  obtain ⟨o, ho, -⟩ := hends hc hret 1
  rw [hout] at ho
  cases ho

/-- Two awaitables, and the consumer suspends before each result. Each runner's exchange finds the
handle and the result in the queue. -/
theorem wait_each_ends_woken_twice :
    ∃ s : State 2 ℕ ℕ, s.calls = 2 ∧ s.queue.delivered = [(0, .value 7), (1, .error 9)] ∧
      s.consumer = .dequeue ∧ s.queue.consumer = .ret none ∧ s.AllDelivered := by
  obtain ⟨s, hs, hcalls, hdelivered, hc, hret⟩ := System.exists_reaches (S := system 2 ℕ ℕ 0)
    NoEarlyWake (fun s => s.calls = 2 ∧ s.queue.delivered = [(0, .value 7), (1, .error 9)] ∧
      s.consumer = .dequeue ∧ s.queue.consumer = .ret none)
    (List.flatten [List.replicate 3 .consumer, List.replicate 3 (.suspend 0 false),
      [.complete 0 (.value 7)], List.replicate 5 (.enqueue 0 (some 1) false),
      [.runner 0, .runner 0], List.replicate 10 .consumer, List.replicate 3 (.suspend 1 false),
      [.complete 1 (.error 9)], List.replicate 5 (.enqueue 1 (some 2) false),
      [.runner 1, .runner 1], List.replicate 11 .consumer]) (by decide)
  exact ⟨s, hcalls, hdelivered, hc, hret, (wait_each_ends_iff hs.reachable).1 hs hc hret⟩

/-! ### The consumer that is not woken -/

/-- A stored handle will be taken: by a runner, or by the latest call of `await_suspend`, which
is on its way to find the queue not empty. -/
def Expected (s : State n V E) : Prop :=
  s.coroutineAddr = true → (∃ i, s.runners i ≠ .finished) ∨
    (s.queue.next s.queue.mHead).isSome ∧
      match s.suspends (s.calls - 1) with
      | .loadHead | .exchange => True
      | .loadNext head => head = s.queue.mHead
      | _ => False

lemma nonEmpty_eq {guess : Bool} {head : Addr} (hlive : s.queue.Live head) :
    nonEmpty s head guess = (s.queue.next head).isSome := by
  obtain ⟨node, hnode⟩ := Option.isSome_iff_exists.mp hlive
  simp [nonEmpty, AtomicQueue.State.next, hnode]

lemma exchange_coroutineAddr (s : State n V E) : s.exchange.coroutineAddr = false := by
  unfold State.exchange
  split
  · split <;> rfl
  · rename_i haddr
    exact Bool.eq_false_iff.mpr haddr

lemma Expected.of_taken (h : s.coroutineAddr = false) : Expected s := by
  intro haddr
  rw [h] at haddr
  cases haddr

lemma expected_suspend (h : Inv s) (hinv : AtomicQueue.Inv s.queue cs vs) (hexp : Expected s)
    {k : ℕ} {guess : Bool} (hcovered : s.suspends k = .store → s.Covered)
    (hs : suspendStep s k guess = some s') : Expected s' := by
  unfold suspendStep at hs
  cases hk : s.suspends k <;> rw [hk] at hs <;> cases hs
  case store.refl =>
    obtain ⟨-, hcalls, -⟩ := h.handover.store k hk
    have hlast : s.calls - 1 = k := by omega
    intro _
    refine (hcovered hk).imp_right fun hsome => ⟨hsome, ?_⟩
    simp [State.setSuspend, hlast]
  case loadHead.refl =>
    intro haddr
    refine (hexp haddr).imp_right (And.imp_right fun hpc => ?_)
    by_cases hlast : s.calls - 1 = k
    · simp [State.setSuspend, hlast]
    · simpa only [State.setSuspend, Function.update_of_ne hlast] using hpc
  case loadNext.refl head =>
    intro haddr
    rcases hexp haddr with hrunner | ⟨hsome, hpc⟩
    · exact Or.inl hrunner
    refine Or.inr ⟨hsome, ?_⟩
    by_cases hlast : s.calls - 1 = k
    · rw [hlast, hk] at hpc
      obtain rfl : head = s.queue.mHead := hpc
      rw [nonEmpty_eq hinv.live_head, hsome]
      simp [State.setSuspend, hlast]
    · simpa only [State.setSuspend, Function.update_of_ne hlast] using hpc
  case exchange.refl => exact .of_taken (exchange_coroutineAddr s)

lemma expected_step (h : Inv s) (hinv : AtomicQueue.Inv s.queue cs vs) (hexp : Expected s)
    {a : Action n V E} (hcovered : StoreCovered s a) (hs : step s a = some s') :
    Expected s' := by
  cases a with
  | complete i o =>
    obtain ⟨-, q, -, rfl⟩ := complete_eq hs
    exact fun _ => Or.inl ⟨i, by simp [State.setRunner]⟩
  | enqueue i addr spurious =>
    obtain ⟨-, b, q, -, -, rfl⟩ := enqueueStep_eq hs
    refine fun _ => Or.inl ⟨i, ?_⟩
    simp only [State.setRunner, Function.update_self]
    unfold RunnerPc.ofEnqueue
    split <;> simp
  | runner i =>
    simp only [step, runnerStep] at hs
    split at hs <;> cases hs
    · exact fun _ => Or.inl ⟨i, by simp [State.setRunner]⟩
    · exact .of_taken (exchange_coroutineAddr s)
  | consumer =>
    -- a coroutine that runs has no handle in the slot
    have hrun : s.consumer ≠ .suspended := by
      intro hc
      simp [step, consumerStep, hc] at hs
    have haddr : s.coroutineAddr = false := by
      rw [Bool.eq_false_iff]
      exact fun ha => hrun (h.handover.held ha)
    exact .of_taken ((consumerStep_frame hs).2.1.trans haddr)
  | suspend k guess => exact expected_suspend h hinv hexp (hcovered k guess rfl) hs

lemma reaches_expected (h : (system n V E stub).Reaches StoreCovered s) : Expected s := by
  refine h.invariant (.of_taken rfl) fun s a s' run ih hC hs => ?_
  obtain ⟨cs, vs, hinv⟩ := AtomicQueue.reaches_inv (reaches_queue run)
  exact expected_step (reaches_inv run) hinv ih hC hs

/-- The consumer is not left with its handle in `coroutine_addr` after all runners have finished,
if the handle is never stored behind the last exchange on an empty queue. From any reachable
state in which `await_suspend` is about to store the handle, its own steps leave the
consumer stranded exactly if that is the case. -/
theorem wait_each_stranded_iff (h : (system n V E stub).Reachable s) :
    ((system n V E stub).Reaches StoreCovered s → ¬s.Stranded) ∧
      ∀ k, s.suspends k = .store → ∃ t, solo (fun s => suspendStep s k false) 3 s = some t ∧
        (t.Stranded ↔ ¬s.Covered) := by
  refine ⟨?_, fun k hk => ?_⟩
  · rintro hrun ⟨hfinished, hreturned, haddr⟩
    rcases reaches_expected hrun haddr with ⟨i, hi⟩ | ⟨-, hpc⟩
    · exact hi (hfinished i)
    · rw [hreturned] at hpc
      exact hpc
  obtain ⟨cs, vs, hinv⟩ := AtomicQueue.reaches_inv (reaches_queue h)
  obtain ⟨-, hcalls, -⟩ := (reaches_inv h).handover.store k hk
  have hlast : s.calls - 1 = k := by omega
  obtain ⟨node, hnode⟩ := Option.isSome_iff_exists.mp hinv.live_head
  have hnext : s.queue.next s.queue.mHead = node.next := by simp [AtomicQueue.State.next, hnode]
  refine ⟨{ s.setSuspend k (if node.next.isSome then .exchange else .returned) with
    coroutineAddr := true }, ?_, ?_⟩
  · simp [solo, suspendStep, hk, State.setSuspend, nonEmpty, hnode]
  · unfold State.Stranded State.Covered
    rw [hnext]
    cases hn : node.next <;> simp [State.setSuspend, hlast]

/-- One awaitable. The consumer takes the result before the runner has decremented
`remaining`, comes back, and stores its handle after the runner's exchange. -/
theorem wait_each_strands :
    ∃ s : State 1 ℕ ℕ, (system 1 ℕ ℕ 0).Reachable s ∧ s.Stranded ∧ s.AllDelivered ∧
      s.queue.returned.length = 1 := by
  obtain ⟨s, hs, hf, hr, ha, hdel, hlen⟩ := System.exists_reaches (S := system 1 ℕ ℕ 0)
    (fun _ _ => True) (fun s => (∀ i, s.runners i = .finished) ∧
      s.suspends (s.calls - 1) = .returned ∧ s.coroutineAddr = true ∧
      (∀ i, ∃ o ∈ s.outcomes i, (i, o.stored) ∈ s.queue.delivered) ∧ s.queue.returned.length = 1)
    [.complete 0 (.value 7), .enqueue 0 (some 1) false, .enqueue 0 none false,
      .enqueue 0 none false, .enqueue 0 none false, .enqueue 0 none false,
      .consumer, .consumer, .consumer, .consumer, .consumer, .consumer, .consumer, .consumer,
      .consumer, .consumer,
      .consumer, .consumer, .consumer, .runner 0, .runner 0,
      .suspend 0 false, .suspend 0 false, .suspend 0 false] (by decide)
  exact ⟨s, hs, ⟨hf, hr, ha⟩, hdel, hlen⟩

/-- The runner's exchange comes after the handle has been stored. -/
theorem wait_each_woken :
    ∃ s : State 1 ℕ ℕ, (∀ i, s.runners i = .finished) ∧ s.calls = 1 ∧ ¬s.Stranded := by
  obtain ⟨s, hs, hf, hcalls⟩ := System.exists_reaches (S := system 1 ℕ ℕ 0) StoreCovered
    (fun s => (∀ i, s.runners i = .finished) ∧ s.calls = 1)
    [.consumer, .consumer, .consumer, .suspend 0 false, .suspend 0 false, .suspend 0 false,
      .complete 0 (.value 7), .enqueue 0 (some 1) false, .enqueue 0 (some 1) false,
      .enqueue 0 (some 1) false, .enqueue 0 (some 1) false, .enqueue 0 (some 1) false,
      .runner 0, .runner 0] (by decide)
  exact ⟨s, hf, hcalls, (wait_each_stranded_iff hs.reachable).1 hs⟩

end Scoro.WaitEach

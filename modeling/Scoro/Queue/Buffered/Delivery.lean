import Scoro.Queue.Buffered.Consumer
import Scoro.Queue.Refinement

/-!
# The queue with store buffers delivers in order

Every run shows a run of the queue without buffers, so that nothing is lost, doubled or used after
it has been deleted. The histories of the calls are those of the threads themselves.
-/

namespace Scoro.BufferedQueue
open Scoro.Lib
open Scoro.AtomicQueue (Addr EnqueuePc DequeuePc Ticket Inv History)

variable {P : Type*} {T : Type} [DecidableEq P] {s s' : State P T}
  {t t' : AtomicQueue.State (P × ℕ) T} {cs : List Addr} {vs : List T} {stub : Addr}

/-! ### Runs -/

namespace Sim

/-- Every step is a step of the queue without buffers, or none. -/
theorem step (h : Sim s t) (hinv : Inv t cs vs) {a : Action P T} (hC : Allocates s a)
    (hs : step s a = some s') :
    ∃ t', Sim s' t' ∧ (t' = t ∨ ∃ c, AtomicQueue.step t c = some t') := by
  have hpc : ∀ {p}, s.producers p ≠ .ret true → t.producers (p, s.call p) = s.producers p :=
    fun hp => h.pc_eq hp
  cases step_move hs with
  | @enqueue p v hp =>
    have hsim := h.setProducer (.alloc v) hp (by simp) (by simp) (by simp)
      fun _ _ => Iff.rfl
    refine ⟨{ t.setProducer (p, s.call p) (.alloc v) with
      calls := Function.update t.calls (p, s.call p) (t.calls (p, s.call p) ++ [v]) },
      { hsim with }, .inr ⟨.enqueue (p, s.call p) v, ?_⟩⟩
    simp [AtomicQueue.step, hpc, hp]
  | @noMemory p v hp =>
    have hsim := h.setProducer (.ret false) hp (by simp) (by simp) (by simp)
      fun _ _ => Iff.rfl
    refine ⟨_, hsim, .inr ⟨.alloc (p, s.call p) none, ?_⟩⟩
    simp [AtomicQueue.step, hpc, hp]
  | @alloc p n v hp hn =>
    refine ⟨_, h.alloc hinv hp hn hC.1 hC.2, .inr ⟨.alloc (p, s.call p) (some n), ?_⟩⟩
    have hnone : (t.heap n).isNone := by
      rw [Option.isNone_iff_eq_none, ← Option.not_isSome_iff_eq_none, ← h.live, hn]
      simp
    simp [AtomicQueue.step, hpc, hp, hnone]
  | @loadTail p n v hp =>
    have hsim := h.setProducer (.cas n v t.mTail) hp (by simp) (by simp) (by simp)
      fun _ _ => Iff.rfl
    rw [h.load_tail (by simp)]
    refine ⟨_, hsim, .inr ⟨.loadTail (p, s.call p), ?_⟩⟩
    simp [AtomicQueue.step, hpc, hp]
  | @reject p spurious n v hp =>
    refine ⟨_, h.reject hinv hp, .inr ⟨.cas (p, s.call p) spurious, ?_⟩⟩
    simp [AtomicQueue.step, hpc, hp, AtomicQueue.casTail]
  | @push p n tl v hp hempty ht =>
    refine ⟨_, h.push hinv hp hempty, .inr ⟨.cas (p, s.call p) false, ?_⟩⟩
    simp [AtomicQueue.step, hpc, hp, AtomicQueue.casTail, h.tail, ht]
  | @retry p spurious n tl v hp hfail =>
    rw [← h.tail] at hfail ⊢
    have hsim := h.setProducer (.cas n v t.mTail) hp (by simp) (by simp) (by simp)
      fun _ _ => Iff.rfl
    refine ⟨_, hsim, .inr ⟨.cas (p, s.call p) spurious, ?_⟩⟩
    simp [AtomicQueue.step, hpc, hp, AtomicQueue.casTail, hfail]
  | link hp => exact ⟨t, h.link hinv hp, .inl rfl⟩
  | enqueueRet hp => exact ⟨t, h.enqueueRet hp, .inl rfl⟩
  | tryDequeue hc =>
    refine ⟨_, h.setConsumer .tryLoadHead, .inr ⟨.tryDequeue, ?_⟩⟩
    simp [AtomicQueue.step, h.consumer, hc]
  | waitDequeue hc =>
    refine ⟨_, h.setConsumer .waitLoadHead, .inr ⟨.waitDequeue, ?_⟩⟩
    simp [AtomicQueue.step, h.consumer, hc]
  | consumer hs =>
    obtain ⟨t', ht, hsim⟩ := h.consumer_forth hinv hs
    exact ⟨t', hsim, .inr ⟨.consumer, ht⟩⟩
  | stop => exact ⟨t, h.stop, .inl rfl⟩
  | drain hm => exact h.drain hinv hm

omit [DecidableEq P] in
lemma init : Sim (BufferedQueue.init P T stub) (AtomicQueue.init (P × ℕ) T stub) where
  tail := rfl
  head := rfl
  consumer := rfl
  returned := rfl
  accepted := rfl
  results _ := rfl
  fault := rfl
  live a := by
    by_cases ha : a = stub
    · subst ha
      simp [BufferedQueue.init, AtomicQueue.init]
    · simp [BufferedQueue.init, AtomicQueue.init, ha]
  current _ := rfl
  future _ _ _ := rfl
  links p k a n hp := by cases hp
  once p := Nat.zero_le 1
  fresh p n v hp := hp.elim
  nodes a nd ha _ := by
    have hnd : nd = ⟨none, none⟩ := by
      simp only [AtomicQueue.init, Function.update_apply] at ha
      split at ha <;> cases ha
      rfl
    rw [hnd]
    rfl
  stores u w hw := by cases hw

end Sim

/-- A state that is reached shows a state that the queue without buffers reaches. -/
theorem reaches_sim (h : (system P T stub).Reaches Allocates s) :
    ∃ t, (AtomicQueue.system (P × ℕ) T stub).Reachable t ∧ Sim s t := by
  refine h.invariant (I := fun s => ∃ t, (AtomicQueue.system (P × ℕ) T stub).Reachable t ∧ Sim s t)
    ⟨_, .init, Sim.init⟩ ?_
  rintro s a s' - ⟨t, ht, hsim⟩ hC hs
  obtain ⟨cs, vs, hinv⟩ := AtomicQueue.reaches_inv ht
  obtain ⟨t', hsim', rfl | ⟨c, hc⟩⟩ := hsim.step hinv hC hs
  · exact ⟨t', ht, hsim'⟩
  · exact ⟨t', ht.step trivial hc, hsim'⟩

/-! ### The calls of the producers -/

omit [DecidableEq P] in
/-- The threads without the memory. -/
def State.threads (s : State P T) : AtomicQueue.State P T where
  heap := fun _ => none
  mTail := none
  mHead := 0
  producers := s.producers
  consumer := s.consumer
  fault := s.fault
  calls := s.calls
  results := s.results
  accepted := s.accepted
  returned := s.returned

/-- The consumer leaves the producers and their histories alone. -/
lemma consumerStep_frame (hs : consumerStep s = some s') :
    s'.producers = s.producers ∧ s'.calls = s.calls ∧ s'.results = s.results ∧
      s'.accepted = s.accepted := by
  cases hc : s.consumer <;> simp only [consumerStep, hc] at hs
  case waitTest head tail next =>
    cases next <;> cases tail <;> cases hs <;> exact ⟨rfl, rfl, rfl, rfl⟩
  case tryLoadNext head | waitLoadNext head tail | reloadNext head =>
    cases hs
    unfold State.loadNext
    split <;> exact ⟨rfl, rfl, rfl, rfl⟩
  case moveValue next =>
    cases hs
    unfold moveValue
    split
    · split <;> exact ⟨rfl, rfl, rfl, rfl⟩
    · exact ⟨rfl, rfl, rfl, rfl⟩
  case wait tail | deleteHead head next =>
    split at hs <;> cases hs <;> exact ⟨rfl, rfl, rfl, rfl⟩
  all_goals
    cases hs <;> exact ⟨rfl, rfl, rfl, rfl⟩

/-- A step inside a call that neither swings `m_tail` nor returns. -/
lemma history_move (h : History s.threads) {p : P} {c pc : EnqueuePc T} (hp : s.producers p = c)
    (hprod : s'.producers = Function.update s.producers p pc) (hcalls : s'.calls = s.calls)
    (hresults : s'.results = s.results) (haccepted : s'.accepted = s.accepted)
    (hcalling : pc.calling = c.calling) (harg : ∀ v, pc.arg = some v → c.arg = some v)
    (hswung : pc.swung = c.swung) : History s'.threads := by
  subst hp
  exact h.move hprod hcalls hresults haccepted hcalling harg hswung

lemma history_step (h : History s.threads) {a : Action P T} (hs : step s a = some s') :
    History s'.threads := by
  cases step_move hs with
  | enqueue v hp => exact h.call hp
  | noMemory hp => exact history_move h hp rfl rfl rfl rfl rfl (by rintro w ⟨⟩) rfl
  | alloc hp _ | loadTail hp | retry hp _ =>
    exact history_move h hp rfl rfl rfl rfl rfl (fun w hw => hw) rfl
  | reject hp =>
    unfold rejectNode
    split
    · exact history_move h hp rfl rfl rfl rfl rfl (by rintro w ⟨⟩) rfl
    · exact h.congr rfl rfl rfl rfl
  | push hp _ _ => exact h.push hp rfl rfl rfl rfl
  | link hp =>
    unfold linkTail
    split
    · exact history_move h hp rfl rfl rfl rfl rfl (by rintro w ⟨⟩) rfl
    · exact h.congr rfl rfl rfl rfl
  | enqueueRet hp => exact h.ret hp
  | tryDequeue _ | waitDequeue _ | stop | drain _ => exact h.congr rfl rfl rfl rfl
  | consumer hs =>
    obtain ⟨hprod, hcalls, hresults, haccepted⟩ := consumerStep_frame hs
    exact h.congr hprod hcalls hresults haccepted

theorem reaches_history (h : (system P T stub).Reaches Allocates s) : History s.threads := by
  refine h.invariant (I := fun s => History s.threads) ?_ fun s a s' _ ih _ hs => history_step ih hs
  constructor <;>
    simp [system, init, State.threads, EnqueuePc.calling, EnqueuePc.arg, EnqueuePc.swung]

/-! ### What the consumer gets -/

namespace State

omit [DecidableEq P]

def delivered (s : State P T) : List T := s.returned.filterMap id

def acceptedValues (s : State P T) : List T := s.accepted.map Ticket.value

/-- No producer is at its link store, and no link store is on the way. -/
def NoPending (s : State P T) : Prop :=
  ∀ p a n, s.producers p ≠ .link a n ∧
    (⟨.next a, some n⟩ : Σ l, Cell T l) ∉ s.memory.buffer (.producer p)

end State

/-- The consumer alone calls `try_dequeue` until a call returns `nullopt`. -/
def takeAll : ℕ → State P T → Option (State P T)
  | 0, _ => none
  | fuel + 1, s =>
    match s.consumer with
    | .idle => (step s (.queue .tryDequeue)).bind (takeAll fuel)
    | .ret none => consumerStep s
    | _ => (consumerStep s).bind (takeAll fuel)

namespace Sim

omit [DecidableEq P] in
lemma delivered (h : Sim s t) : t.delivered = s.delivered := by
  simp only [AtomicQueue.State.delivered, State.delivered, h.returned]

omit [DecidableEq P] in
lemma acceptedValues (h : Sim s t) : t.acceptedValues = s.acceptedValues := by
  simp [AtomicQueue.State.acceptedValues, State.acceptedValues, h.accepted]

omit [DecidableEq P] in
lemma noPending (h : Sim s t) (hno : s.NoPending) : t.NoPending := by
  rintro ⟨p, k⟩ a n hp
  rcases h.links p k a n hp with ⟨-, hlink⟩ | hmem
  · exact (hno p a n).1 hlink
  · exact (hno p a n).2 hmem

/-- The consumer gets what it gets without buffers. -/
lemma takeAll (h : Sim s t) (hinv : Inv t cs vs) {fuel : ℕ}
    (ht : AtomicQueue.drain fuel t = some t') :
    ∃ s', BufferedQueue.takeAll fuel s = some s' ∧ Sim s' t' := by
  induction fuel generalizing s t cs vs with
  | zero => cases ht
  | succ fuel ih =>
    rw [AtomicQueue.drain] at ht
    rw [BufferedQueue.takeAll, ← h.consumer]
    split at ht
    · rename_i hc
      have hcall : BufferedQueue.step s (.queue .tryDequeue) =
          some (s.setConsumer .tryLoadHead) := by
        simp [BufferedQueue.step, queueStep, ← h.consumer, hc]
      have hcall' : AtomicQueue.step t .tryDequeue = some (t.setConsumer .tryLoadHead) := by
        simp [AtomicQueue.step, hc]
      rw [hcall', Option.bind_some] at ht
      obtain ⟨cs', vs', hinv', -⟩ := hinv.step hcall'
      obtain ⟨s', hs', hsim⟩ := ih (h.setConsumer .tryLoadHead) hinv' ht
      exact ⟨s', by simpa only [hc, hcall, Option.bind_some] using hs', hsim⟩
    · rename_i hc
      obtain ⟨s', hs', hsim⟩ := h.consumer_back hinv ht
      exact ⟨s', by simpa only [hc] using hs', hsim⟩
    · rename_i hidle hret
      obtain ⟨t₁, ht₁, hrest⟩ := Option.bind_eq_some_iff.mp ht
      obtain ⟨s₁, hs₁, hsim₁⟩ := h.consumer_back hinv ht₁
      obtain ⟨cs', vs', hinv', -⟩ := hinv.consumerStep ht₁
      obtain ⟨s', hs', hsim⟩ := ih hsim₁ hinv' hrest
      refine ⟨s', ?_, hsim⟩
      split
      · exact absurd ‹_› hidle
      · exact absurd ‹_› hret
      · rw [hs₁, Option.bind_some]
        exact hs'

end Sim

/-- On a machine with store buffers too, what comes out is a prefix of what the CASes on `m_tail`
put in, in their order. A call of `enqueue` that has returned put in its argument if it returned
`true` and nothing otherwise, and the calls of one producer do so in their order. No thread touches
a node that has been deleted. Once the link stores have got to memory the consumer alone gets
exactly the remaining values before its first `nullopt`. -/
theorem buffered_queue_delivers_fifo (h : (system P T stub).Reaches Allocates s) :
    s.fault = false ∧
    s.delivered <+: s.acceptedValues ∧
    s.accepted.Pairwise (fun x y => x.producer = y.producer → x.call < y.call) ∧
    (∀ x ∈ s.accepted, (s.calls x.producer)[x.call]? = some x.value) ∧
    (∀ p k ok, (s.results p)[k]? = some ok →
      ((∃ x ∈ s.accepted, x.producer = p ∧ x.call = k) ↔ ok = true)) ∧
    (s.NoPending → s.consumer = .idle → ∃ fuel s' rest, takeAll fuel s = some s' ∧
      s'.returned = s.returned ++ rest.map some ++ [none] ∧
      s'.acceptedValues = s.acceptedValues ∧ s.acceptedValues = s.delivered ++ rest) := by
  obtain ⟨t, ht, hsim⟩ := reaches_sim h
  obtain ⟨cs, vs, hinv⟩ := AtomicQueue.reaches_inv ht
  have hhist := reaches_history h
  refine ⟨hsim.fault, ?_, hhist.order, hhist.tickets, ?_, ?_⟩
  · rw [← hsim.delivered, ← hsim.acceptedValues]
    exact hinv.delivered_prefix
  · exact fun p k ok hk => hhist.returned_iff hk
  · intro hno hc
    obtain ⟨fuel, t', ht', hret, hacc⟩ :=
      AtomicQueue.drain_all hinv (hsim.consumer.trans hc) (hsim.noPending hno)
    obtain ⟨s', hs', hsim'⟩ := hsim.takeAll hinv ht'
    refine ⟨fuel, s', vs, hs', ?_, ?_, ?_⟩
    · rw [← hsim'.returned, hret, hsim.returned]
    · rw [← hsim'.acceptedValues, hacc, hsim.acceptedValues]
    · rw [← hsim.acceptedValues, hinv.accepted, AtomicQueue.State.removed, hsim.consumer, hc,
        hsim.delivered]
      simp [AtomicQueue.State.handOf]

/-- The first call returns `true` while its link store is on the way, so that `try_dequeue` finds
nothing. The second call has linked its node already. -/
def lateLink : List (Action Bool ℕ) :=
  [.queue (.enqueue false 5), .queue (.alloc false (some 1)), .queue (.loadTail false),
    .drain (.producer false), .drain (.producer false), .queue (.cas false false),
    .queue (.link false), .queue (.enqueueRet false), .queue (.enqueue true 7),
    .queue (.alloc true (some 2)), .queue (.loadTail true), .drain (.producer true),
    .drain (.producer true), .queue (.cas true false), .queue (.link true),
    .drain (.producer true), .queue (.enqueueRet true), .queue .tryDequeue, .queue .consumer,
    .queue .consumer, .queue .consumer, .drain (.producer false), .queue .tryDequeue,
    .queue .consumer, .queue .consumer, .queue .consumer, .queue .consumer, .queue .consumer,
    .queue .consumer]

theorem late_link_delivers_fifo :
    ∃ s : State Bool ℕ, s.acceptedValues = [5, 7] ∧ s.returned = [none, some 5] ∧
      s.fault = false ∧ ∃ fuel s' rest, takeAll fuel s = some s' ∧
        s'.returned = s.returned ++ rest.map some ++ [none] ∧
        s.acceptedValues = s.delivered ++ rest := by
  obtain ⟨s, hs, hacc, hret, hidle, hbuffer, hc⟩ := System.exists_reaches
    (S := system Bool ℕ 0) Allocates (fun s => s.acceptedValues = [5, 7] ∧
      s.returned = [none, some 5] ∧ (∀ p, s.producers p = .idle) ∧
      (∀ p, s.memory.buffer (.producer p) = []) ∧ s.consumer = .idle) lateLink (by decide)
  obtain ⟨hfault, -, -, -, -, htake⟩ := buffered_queue_delivers_fifo hs
  have hno : s.NoPending := by
    intro p a n
    rw [hidle p, hbuffer p]
    exact ⟨nofun, nofun⟩
  obtain ⟨fuel, s', rest, hs', hreturned, -, hrest⟩ := htake hno hc
  exact ⟨s, hacc, hret, hfault, fuel, s', rest, hs', hreturned, hrest⟩

end Scoro.BufferedQueue

import Scoro.Queue.Buffered.Simulation

/-!
# The consumer and the stores that arrive

The consumer goes step by step with the consumer of the queue without buffers. A store that gets to
memory is the link store of one call, `stop`, or one that nobody else looks at.
-/

namespace Scoro.BufferedQueue
open Scoro.Lib
open Scoro.AtomicQueue (Addr EnqueuePc DequeuePc Node Ticket Inv)

variable {P : Type*} {T : Type} [DecidableEq P] {s s' : State P T}
  {t t' : AtomicQueue.State (P × ℕ) T} {cs : List Addr} {vs : List T} {p q : P} {a n : Addr} {v : T}
  {u : Thread P} {m m' : StoreBuffer (Thread P) (Cell T)} {w : Σ l, Cell T l}

namespace Sim

/-! ### Steps of the consumer -/

omit [DecidableEq P] in
lemma setConsumer (h : Sim s t) (pc : DequeuePc T) : Sim (s.setConsumer pc) (t.setConsumer pc) :=
  { h with consumer := rfl }

omit [DecidableEq P] in
/-- What the consumer sees of a node on the chain. -/
lemma loadNext (h : Sim s t) (hinv : Inv t cs vs) (ha : a ∈ cs) (k : Option Addr → DequeuePc T) :
    Sim (s.loadNext a k) (t.loadNext a k) := by
  obtain ⟨nd, hnd⟩ := Option.isSome_iff_exists.mp (hinv.shape.live a ha)
  have hlive : s.live a = true := (h.live a).trans (hinv.shape.live a ha)
  have hnext : s.memory.load .consumer (.next a) = nd.next := by
    rw [h.load_next, h.nodes a nd hnd (h.not_held hinv ha)]
    rfl
  simp only [State.loadNext, AtomicQueue.State.loadNext, hlive, hnd, if_true, hnext]
  exact h.setConsumer _

lemma storeHead (h : Sim s t) (head next : Addr) :
    Sim ((s.store .consumer .head next).setConsumer (.deleteHead head next))
      { t.setConsumer (.deleteHead head next) with mHead := next } := by
  refine { h with
    head := ?_
    consumer := rfl
    once := h.once
    fresh := fun p n v hp => (h.fresh p n v hp).store (by simp) (by simp) _
    nodes := fun a nd ha hno => ?_
    stores := fun r w hw => ?_ }
  · change next = (s.memory.store .consumer .head next).load .consumer .head
    rw [StoreBuffer.load_store_self]
  · exact (h.nodes a nd ha hno).trans (nodeAt_store (Or.inr (by simp)) _).symm
  · rcases StoreBuffer.mem_buffer_store.mp hw with ⟨rfl, rfl⟩ | hw
    · trivial
    · exact h.stores r w hw

omit [DecidableEq P] in
/-- `delete head`. -/
lemma deleteHead (h : Sim s t) (hinv : Inv t cs vs) {head next : Addr}
    (hc : t.consumer = .deleteHead head next) :
    s.live head = true ∧ Sim ((s.setLive head false).setConsumer (.moveValue next))
      ((t.setNode head none).setConsumer (.moveValue next)) := by
  have hpc := hinv.consumer
  rw [hc] at hpc
  obtain ⟨-, -, hlive, -, hfree⟩ := hpc
  refine ⟨(h.live head).trans hlive, { h with
    consumer := rfl
    live := h.live_update head none
    nodes := fun a nd ha hno => ?_
    stores := fun r w hw => ?_ }⟩
  · have hah : a ≠ head := by
      rintro rfl
      simp [AtomicQueue.State.setNode, AtomicQueue.State.setConsumer] at ha
    exact h.nodes a nd ((Function.update_of_ne hah ..).symm.trans ha) hno
  · refine (h.stores r w hw).imp ?_ fun _ _ _ _ _ _ hq => hq
    intro q a _ _ hq
    by_cases ha : a = head
    · subst ha
      exact Or.inl (Function.update_self ..)
    · exact hq.imp_left (Function.update_of_ne ha ..).trans

/-- The value moves out of a node on the chain. -/
lemma moveValue (h : Sim s t) (hinv : Inv t cs vs) {next : Addr}
    (hc : t.consumer = .moveValue next) :
    Sim (BufferedQueue.moveValue s next) (AtomicQueue.moveValue t next) := by
  have hpc := hinv.consumer
  rw [hc] at hpc
  obtain ⟨rfl, v, hv⟩ := hpc
  have hmem := hinv.shape.head_mem
  obtain ⟨⟨nx, x⟩, hnd⟩ := Option.isSome_iff_exists.mp (hinv.shape.live _ hmem)
  have hlive : s.live t.mHead = true := (h.live _).trans (hinv.shape.live _ hmem)
  obtain rfl : x = some v := by simpa [AtomicQueue.State.value, hnd] using hv
  have hnode := h.nodes _ _ hnd (h.not_held hinv hmem)
  have hvalue : s.memory.load .consumer (.value t.mHead) = some v :=
    (congrArg Node.value hnode).symm
  have heq : BufferedQueue.moveValue s t.mHead =
      (s.store .consumer (.value t.mHead) none).setConsumer (.ret (some v)) := by
    simp [BufferedQueue.moveValue, hlive, hvalue]
  have heq' : AtomicQueue.moveValue t t.mHead =
      (t.setNode t.mHead (some ⟨nx, none⟩)).setConsumer (.ret (some v)) := by
    simp [AtomicQueue.moveValue, hnd]
  rw [heq, heq']
  refine { h with
    head := ?_
    consumer := rfl
    live := h.live_store hlive ⟨nx, none⟩
    once := h.once
    fresh := fun p n x hp => ?_
    nodes := fun a nd ha hno => ?_
    stores := fun r w hw => ?_ }
  · exact h.head.trans (StoreBuffer.load_store_of_ne (by simp)).symm
  · have hn : t.mHead ≠ n := by
      rintro rfl
      exact h.not_held hinv hmem p x hp
    exact (h.fresh p n x hp).store (by simp) (by simpa using hn) _
  · by_cases hah : a = t.mHead
    · subst hah
      have hnd' : nd = ⟨nx, none⟩ := by
        simpa [AtomicQueue.State.setNode, AtomicQueue.State.setConsumer, eq_comm] using ha
      have hnext : nx = s.memory.memory (.next t.mHead) := congrArg Node.next hnode
      have hself : (s.memory.store .consumer (.value t.mHead) none).load .consumer
          (.value t.mHead) = none := StoreBuffer.load_store_self
      rw [hnd', hnext]
      exact congrArg (Node.mk _) hself.symm
    · have hold := h.nodes a nd ((Function.update_of_ne hah ..).symm.trans ha) hno
      exact hold.trans (nodeAt_store (Or.inr (by simpa using Ne.symm hah)) _).symm
  · rcases StoreBuffer.mem_buffer_store.mp hw with ⟨rfl, rfl⟩ | hw
    · trivial
    · exact h.stores r w hw

/-- The consumer does the same as without buffers, or is stopped with it. -/
theorem consumerStep (h : Sim s t) (hinv : Inv t cs vs) :
    Option.Rel Sim (consumerStep s) (AtomicQueue.consumerStep t) := by
  have hpc := hinv.consumer
  have htail : s.memory.load .consumer .tail = t.mTail := h.load_tail (by simp)
  cases hc : t.consumer <;> rw [hc] at hpc <;>
    simp only [BufferedQueue.consumerStep, AtomicQueue.consumerStep, ← h.consumer, hc, htail,
      ← h.head]
  case idle => exact .none
  case tryLoadHead | waitLoadHead | waitLoadTail | reloadHead | reloadTail =>
    exact .some (h.setConsumer _)
  case tryLoadNext head =>
    subst hpc
    exact .some (h.loadNext hinv hinv.shape.head_mem _)
  case waitLoadNext head tail =>
    subst hpc
    exact .some (h.loadNext hinv hinv.shape.head_mem _)
  case reloadNext head =>
    subst hpc
    exact .some (h.loadNext hinv hinv.shape.head_mem _)
  case waitTest head tail next =>
    cases next with
    | some n => exact .some (h.setConsumer _)
    | none =>
      cases tail with
      | none => exact .some (h.setConsumer _)
      | some tail => exact .some (h.setConsumer _)
  case wait tail =>
    split
    · exact .none
    · exact .some (h.setConsumer _)
  case storeHead head next => exact .some (h.storeHead head next)
  case deleteHead head next =>
    obtain ⟨hlive, hsim⟩ := h.deleteHead hinv hc
    obtain ⟨nd, hnd⟩ := Option.isSome_iff_exists.mp ((h.live head).symm.trans hlive)
    simp only [hlive, if_true, hnd]
    exact .some hsim
  case moveValue next => exact .some (h.moveValue hinv hc)
  case ret r =>
    refine .some { h with
      consumer := rfl
      returned := ?_ }
    exact congrArg (· ++ [r]) h.returned

lemma consumer_forth (h : Sim s t) (hinv : Inv t cs vs)
    (hs : BufferedQueue.consumerStep s = some s') :
    ∃ t', AtomicQueue.consumerStep t = some t' ∧ Sim s' t' := by
  have hrel := h.consumerStep hinv
  rw [hs] at hrel
  cases ht : AtomicQueue.consumerStep t with
  | none =>
    rw [ht] at hrel
    cases hrel
  | some t' =>
    rw [ht] at hrel
    cases hrel with
    | some hsim => exact ⟨t', rfl, hsim⟩

lemma consumer_back (h : Sim s t) (hinv : Inv t cs vs)
    (ht : AtomicQueue.consumerStep t = some t') :
    ∃ s', BufferedQueue.consumerStep s = some s' ∧ Sim s' t' := by
  have hrel := h.consumerStep hinv
  rw [ht] at hrel
  cases hs : BufferedQueue.consumerStep s with
  | none =>
    rw [hs] at hrel
    cases hrel
  | some s' =>
    rw [hs] at hrel
    cases hrel with
    | some hsim => exact ⟨s', rfl, hsim⟩

/-! ### Stores that arrive -/

/-- `stop` has been called. -/
lemma stop (h : Sim s t) : Sim (s.store .stopper .tail none) t := by
  refine { h with
    head := h.head
    links := h.links
    once := h.once
    fresh := fun p n v hp => (h.fresh p n v hp).store (by simp) (by simp) _
    nodes := fun a nd ha hno => ?_
    stores := fun r w hw => ?_ }
  · exact (h.nodes a nd ha hno).trans (nodeAt_store (Or.inl (by simp)) _).symm
  · rcases StoreBuffer.mem_buffer_store.mp hw with ⟨rfl, rfl⟩ | hw
    · trivial
    · exact h.stores r w hw

variable {b : List (Σ l, Cell T l)}

omit [DecidableEq P] in
/-- Only the consumer stores to `m_head`. -/
lemma sends_head (h : Sends s t u w) (hu : u ≠ .consumer) : w.1 ≠ .head := by
  obtain ⟨l, x⟩ := w
  rintro rfl
  cases u with
  | producer | stopper => exact h
  | consumer => exact hu rfl

lemma load_head_drain (h : Sim s t) (hm : s.memory.drain u = some m)
    (hb : s.memory.buffer u = w :: b) : t.mHead = m.load .consumer .head := by
  rw [h.head]
  by_cases hu : u = .consumer
  · subst hu
    exact (StoreBuffer.load_drain_self hm).symm
  · have hw : w ∈ s.memory.buffer u := by simp [hb]
    exact (StoreBuffer.load_drain_of_ne hm hb (sends_head (h.stores u w hw) hu) (Ne.symm hu)).symm

omit [DecidableEq P] in
/-- A node that is in use and that no producer holds is not private. -/
lemma sends_node (h : Sends s t u w) (hlive : s.live a = true)
    (hno : ∀ p v, ¬(s.producers p).Holds a v) (hw : isLink w = false) :
    w.1 ≠ .next a ∧ (u ≠ .consumer → w.1 ≠ .value a) := by
  obtain ⟨l, x⟩ := w
  have hprivate : ∀ p, ¬s.Private p a := by
    rintro p (hdead | ⟨v, hv⟩)
    · rw [hlive] at hdead
      cases hdead
    · exact hno p v hv
  constructor
  · rintro rfl
    cases u with
    | producer p =>
      cases x with
      | none => exact hprivate p h
      | some n => cases hw
    | consumer | stopper => exact h
  · rintro hu rfl
    cases u with
    | producer p => exact hprivate p h
    | consumer => exact hu rfl
    | stopper => exact h

/-- A store that arrives at a private node, or one of the consumer. -/
lemma drainQuiet (h : Sim s t) (hm : s.memory.drain u = some m) (hb : s.memory.buffer u = w :: b)
    (hlink : isLink w = false) (htail : w.1 ≠ .tail) : Sim { s with memory := m } t := by
  have hw : w ∈ s.memory.buffer u := by simp [hb]
  have hsend := h.stores u w hw
  obtain ⟨w', b', hb', heq⟩ := StoreBuffer.drain_cases hm
  obtain ⟨rfl, rfl⟩ := List.cons.inj (hb'.symm.trans hb)
  refine { h with
    tail := ?_
    head := h.load_head_drain hm hb
    links := fun p k a n hp => ?_
    once := fun p => ?_
    fresh := fun p n v hp => (h.fresh p n v hp).drain hm
    nodes := fun a nd ha hno => ?_
    stores := fun r x hx => h.stores r x ((StoreBuffer.drain_sublist hm).subset hx) }
  · rw [h.tail, heq]
    exact (Function.update_of_ne htail.symm ..).symm
  · refine (h.links p k a n hp).imp_right fun hmem => ?_
    refine (StoreBuffer.mem_buffer_drain hm hb hmem).resolve_right ?_
    rintro ⟨-, rfl⟩
    cases hlink
  · exact (Nat.add_le_add_right ((StoreBuffer.drain_sublist hm).countP_le) _).trans (h.once p)
  · have hlive : s.live a = true := by
      rw [h.live, ha]
      rfl
    obtain ⟨hnext, hvalue⟩ := sends_node hsend hlive hno hlink
    exact (h.nodes a nd ha hno).trans (nodeAt_drain hm hb hnext hvalue).symm

/-- `stop` gets to memory. -/
lemma drainStop (h : Sim s t) (hm : s.memory.drain u = some m)
    (hb : s.memory.buffer u = ⟨.tail, none⟩ :: b) :
    Sim { s with memory := m } { t with mTail := none } := by
  obtain ⟨w', b', hb', heq⟩ := StoreBuffer.drain_cases hm
  obtain ⟨rfl, rfl⟩ := List.cons.inj (hb'.symm.trans hb)
  refine { h with
    tail := ?_
    head := h.load_head_drain hm hb
    links := fun p k a n hp => ?_
    once := fun p => ?_
    fresh := fun p n v hp => (h.fresh p n v hp).drain hm
    nodes := fun a nd ha hno => ?_
    stores := fun r x hx => h.stores r x ((StoreBuffer.drain_sublist hm).subset hx) }
  · rw [heq]
    exact (Function.update_self Loc.tail none s.memory.memory).symm
  · refine (h.links p k a n hp).imp_right fun hmem => ?_
    refine (StoreBuffer.mem_buffer_drain hm hb hmem).resolve_right ?_
    rintro ⟨-, ⟨⟩⟩
  · exact (Nat.add_le_add_right ((StoreBuffer.drain_sublist hm).countP_le) _).trans (h.once p)
  · exact (h.nodes a nd ha hno).trans (nodeAt_drain hm hb (by simp) (by simp)).symm

omit [DecidableEq P] in
/-- A call whose link store is on the way has made it, in its thread. -/
lemma shows_done {c : EnqueuePc T} (h : Shows c (.link a n)) (hc : EnqueuePc.linking c = 0) :
    c = .ret true := by
  by_contra hret
  rw [← h.eq hret] at hc
  cases hc

/-- A link store gets to memory. -/
lemma drainLink (h : Sim s t) (hinv : Inv t cs vs) {k : ℕ}
    (hm : s.memory.drain (.producer p) = some m)
    (hb : s.memory.buffer (.producer p) = ⟨.next a, some n⟩ :: b)
    (hk : t.producers (p, k) = .link a n) :
    Sim { s with memory := m } (AtomicQueue.linkTail t (p, k) a n) := by
  obtain ⟨ha, -, -⟩ := hinv.shape.pending _ a n hk
  obtain ⟨nd, hnd⟩ := Option.isSome_iff_exists.mp (hinv.shape.live a ha)
  have hlive : s.live a = true := (h.live a).trans (hinv.shape.live a ha)
  have heq' : AtomicQueue.linkTail t (p, k) a n =
      (t.setNode a (some { nd with next := some n })).setProducer (p, k) (.ret true) := by
    simp [AtomicQueue.linkTail, hnd]
  have honce : b.countP isLink = 0 ∧ EnqueuePc.linking (s.producers p) = 0 := by
    have hp := h.once p
    rw [hb, List.countP_cons_of_pos rfl] at hp
    omega
  obtain ⟨w', b', hb', heq⟩ := StoreBuffer.drain_cases hm
  obtain ⟨rfl, rfl⟩ := List.cons.inj (hb'.symm.trans hb)
  rw [heq']
  refine { h with
    tail := ?_
    head := h.load_head_drain hm hb
    live := h.live_store hlive { nd with next := some n }
    current := fun q => ?_
    future := fun q j hj => ?_
    links := fun q j c r hq => ?_
    once := fun q => ?_
    fresh := fun q c v hq => (h.fresh q c v hq).drain hm
    nodes := fun c nd' hc hno => ?_
    stores := fun r x hx =>
      (h.stores r x ((StoreBuffer.drain_sublist hm).subset hx)).imp (fun _ _ _ _ hq => hq) ?_ }
  · have hne : Loc.tail ≠ .next a := by simp
    rw [heq]
    exact h.tail.trans (Function.update_of_ne hne (some n) s.memory.memory).symm
  · have hq := h.current q
    change Shows _ (Function.update t.producers (p, k) (.ret true) (q, s.call q))
    by_cases hqk : (q, s.call q) = (p, k)
    · obtain ⟨rfl, rfl⟩ := Prod.mk.inj hqk
      rw [hk] at hq
      rw [Function.update_self, shows_done hq honce.2]
      exact Or.inl rfl
    · rwa [Function.update_of_ne hqk]
  · refine (Function.update_of_ne ?_ ..).trans (h.future q j hj)
    intro hqj
    rw [← hqj, h.future q j hj] at hk
    cases hk
  · have hqj : (q, j) ≠ (p, k) := by
      intro hqj
      rw [hqj] at hq
      simp [AtomicQueue.State.setProducer] at hq
    have hold : t.producers (q, j) = .link c r := (Function.update_of_ne hqj ..).symm.trans hq
    refine (h.links q j c r hold).imp_right fun hmem => ?_
    refine (StoreBuffer.mem_buffer_drain hm hb hmem).resolve_right ?_
    rintro ⟨-, ⟨⟩⟩
    exact hqj (hinv.shape.pending_inj _ _ _ _ _ hold hk)
  · exact (Nat.add_le_add_right ((StoreBuffer.drain_sublist hm).countP_le) _).trans (h.once q)
  · by_cases hca : c = a
    · subst hca
      have hnd' : nd' = { nd with next := some n } := by
        simpa [AtomicQueue.State.setNode, AtomicQueue.State.setProducer, eq_comm] using hc
      have hvalue : m.load .consumer (.value c) = nd.value := by
        rw [StoreBuffer.load_drain_of_ne hm hb (by simp) (by simp), h.nodes c nd hnd hno]
        rfl
      have hnext : m.memory (.next c) = some n := by
        rw [heq]
        exact Function.update_self (Loc.next c) (some n) s.memory.memory
      unfold nodeAt
      rw [hnd', hvalue, hnext]
    · have hold := h.nodes c nd' ((Function.update_of_ne hca ..).symm.trans hc) hno
      exact hold.trans (nodeAt_drain hm hb (by simpa using Ne.symm hca) (by simp)).symm
  · rintro q j c r rfl rfl hq
    refine (Function.update_of_ne ?_ ..).trans hq
    rintro ⟨⟩
    -- it would be the second link store of the thread
    rw [hk] at hq
    cases hq
    rw [heq] at hx
    have hx' : ⟨.next a, some n⟩ ∈ Function.update s.memory.buffer (.producer p) b'
      (.producer p) := hx
    rw [Function.update_self] at hx'
    exact List.countP_eq_zero.mp honce.1 _ hx' rfl

/-- What arrives is a link, `stop`, or nothing that anybody sees. -/
theorem drain (h : Sim s t) (hinv : Inv t cs vs) (hm : s.memory.drain u = some m) :
    ∃ t', Sim { s with memory := m } t' ∧ (t' = t ∨ ∃ c, AtomicQueue.step t c = some t') := by
  obtain ⟨w, b, hb, -⟩ := StoreBuffer.drain_cases hm
  have hsend := h.stores u w (by simp [hb])
  obtain ⟨l, x⟩ := w
  cases l with
  | tail =>
    cases u with
    | producer | consumer => exact hsend.elim
    | stopper =>
      cases x with
      | some n => exact hsend.elim
      | none => exact ⟨_, h.drainStop hm hb, .inr ⟨.stop, rfl⟩⟩
  | next a =>
    cases u with
    | consumer | stopper => exact hsend.elim
    | producer p =>
      cases x with
      | none => exact ⟨t, h.drainQuiet hm hb rfl (by simp), .inl rfl⟩
      | some n =>
        obtain ⟨k, hk⟩ := hsend
        refine ⟨_, h.drainLink hinv hm hb hk, .inr ⟨.link (p, k), ?_⟩⟩
        simp [AtomicQueue.step, hk]
  | head | value => exact ⟨t, h.drainQuiet hm hb rfl (by simp), .inl rfl⟩

end Sim

end Scoro.BufferedQueue

import Scoro.Queue.Buffered.Model
import Scoro.Queue.Invariant

/-!
# The queue with store buffers does nothing new

A state of the queue with store buffers shows a state of the queue without them. There each call of
`enqueue` has a producer of its own, so that a call whose link store is still on its way stands
before it while its thread goes on with the next call. The link store and `stop` take place when
they get to memory. What the consumer has stored it has stored, since nobody else looks at it.
-/

namespace Scoro.BufferedQueue
open Scoro.Lib
open Scoro.AtomicQueue (Addr EnqueuePc DequeuePc Node Ticket Inv)

variable {P : Type*} {T : Type} [DecidableEq P] {s s' : State P T}
  {t t' : AtomicQueue.State (P × ℕ) T} {cs : List Addr} {vs : List T} {p q : P} {a n : Addr} {v : T}
  {u : Thread P} {m m' : StoreBuffer (Thread P) (Cell T)} {w : Σ l, Cell T l}

/-! ### What the threads see of a node -/

/-- To its producer the node at `n` is constructed, and nobody else has stores on the way to it. -/
structure Fresh (m : StoreBuffer (Thread P) (Cell T)) (p : P) (n : Addr) (v : T) : Prop where
  next : m.load (.producer p) (.next n) = none
  value : m.load (.producer p) (.value n) = some v
  arrived : ∀ u, u ≠ .producer p → m.writes u (.next n) = [] ∧ m.writes u (.value n) = []

/-- The node at `a` with the links that have got to memory and the value as the consumer sees it. -/
def nodeAt (m : StoreBuffer (Thread P) (Cell T)) (a : Addr) : Node T :=
  ⟨m.memory (.next a), m.load .consumer (.value a)⟩

lemma Fresh.store (h : Fresh m p n v) {l : Loc} (hnext : l ≠ .next n) (hvalue : l ≠ .value n)
    (x : Cell T l) : Fresh (m.store u l x) p n v := by
  refine ⟨?_, ?_, fun r hr => ?_⟩
  · rw [StoreBuffer.load_store_of_ne hnext]
    exact h.next
  · rw [StoreBuffer.load_store_of_ne hvalue]
    exact h.value
  · rw [StoreBuffer.writes_store_of_ne hnext, StoreBuffer.writes_store_of_ne hvalue]
    exact h.arrived r hr

lemma Fresh.drain (h : Fresh m p n v) (hm : m.drain u = some m') : Fresh m' p n v := by
  obtain ⟨l, ⟨x, hx, -⟩, hothers, hthreads⟩ := StoreBuffer.drain_eq_some hm
  by_cases hu : u = .producer p
  · subst hu
    refine ⟨?_, ?_, fun r hr => ?_⟩
    · rw [StoreBuffer.load_drain_self hm]
      exact h.next
    · rw [StoreBuffer.load_drain_self hm]
      exact h.value
    · rw [hthreads r hr, hthreads r hr]
      exact h.arrived r hr
  · -- what arrives does not go to the node
    have hnext : l ≠ .next n := by
      rintro rfl
      rw [(h.arrived u hu).1] at hx
      cases hx
    have hvalue : l ≠ .value n := by
      rintro rfl
      rw [(h.arrived u hu).2] at hx
      cases hx
    have hload : ∀ k, k ≠ l → m'.load (.producer p) k = m.load (.producer p) k := by
      intro k hk
      unfold StoreBuffer.load
      rw [(hothers k hk).1, hthreads _ (Ne.symm hu)]
    refine ⟨(hload _ hnext.symm).trans h.next, (hload _ hvalue.symm).trans h.value, ?_⟩
    intro r hr
    by_cases hru : r = u
    · subst hru
      rw [(hothers _ hnext.symm).2, (hothers _ hvalue.symm).2]
      exact h.arrived r hr
    · rw [hthreads r hru, hthreads r hru]
      exact h.arrived r hr

omit [DecidableEq P] in
lemma Fresh.write_tail (h : Fresh m p n v) (x : Option Addr) :
    Fresh { m with memory := Function.update m.memory .tail x } p n v :=
  ⟨(StoreBuffer.load_write_of_ne (by simp)).trans h.next,
    (StoreBuffer.load_write_of_ne (by simp)).trans h.value, h.arrived⟩

omit [DecidableEq P] in
lemma nodeAt_write_tail (x : Option Addr) :
    nodeAt { m with memory := Function.update m.memory .tail x } a = nodeAt m a := by
  have hnext : Loc.next a ≠ .tail := by simp
  unfold nodeAt
  rw [StoreBuffer.load_write_of_ne (by simp)]
  exact congrArg (Node.mk · _) (Function.update_of_ne hnext x m.memory)

lemma nodeAt_store {l : Loc} (h : u ≠ .consumer ∨ l ≠ .value a) (x : Cell T l) :
    nodeAt (m.store u l x) a = nodeAt m a := by
  unfold nodeAt
  rcases h with hu | hl
  · rw [StoreBuffer.load_store_other hu.symm]
    rfl
  · rw [StoreBuffer.load_store_of_ne hl]
    rfl

lemma nodeAt_drain {b : List (Σ l, Cell T l)} (hm : m.drain u = some m')
    (hb : m.buffer u = w :: b) (hnext : w.1 ≠ .next a) (hvalue : u ≠ .consumer → w.1 ≠ .value a) :
    nodeAt m' a = nodeAt m a := by
  have hload : m'.load .consumer (.value a) = m.load .consumer (.value a) := by
    by_cases hu : u = .consumer
    · rw [← hu]
      exact StoreBuffer.load_drain_self hm
    · exact StoreBuffer.load_drain_of_ne hm hb (hvalue hu) (Ne.symm hu)
  obtain ⟨w', b', hb', rfl⟩ := StoreBuffer.drain_cases hm
  obtain ⟨rfl, rfl⟩ := List.cons.inj (hb'.symm.trans hb)
  unfold nodeAt
  rw [hload]
  exact congrArg (Node.mk · _) (Function.update_of_ne hnext.symm ..)

/-! ### The simulation -/

omit [DecidableEq P] in
/-- The number of the call that a producer makes, or makes next. -/
def State.call (s : State P T) (p : P) : ℕ := (s.results p).length

/-- How a call stands without buffers. After its link store it may still stand before it. -/
def Shows : EnqueuePc T → EnqueuePc T → Prop
  | .ret true, d => d = .ret true ∨ ∃ a n, d = .link a n
  | c, d => d = c

def isLink : (Σ l, Cell T l) → Bool
  | ⟨.next _, some _⟩ => true
  | _ => false

def EnqueuePc.linking : EnqueuePc T → ℕ
  | .link .. => 1
  | _ => 0

omit [DecidableEq P] in
/-- Nobody but the producer looks at what is at `a`. -/
def State.Private (s : State P T) (p : P) (a : Addr) : Prop :=
  s.live a = false ∨ ∃ v, (s.producers p).Holds a v

/-- The stores that a thread has on the way. Those of a constructor and of a destructor go to a node
that nobody else knows, or that has been deleted. -/
def Sends (s : State P T) (t : AtomicQueue.State (P × ℕ) T) : Thread P → (Σ l, Cell T l) → Prop
  | .producer p, ⟨.next a, some n⟩ => ∃ k, t.producers (p, k) = .link a n
  | .producer p, ⟨.next a, none⟩ | .producer p, ⟨.value a, _⟩ => s.Private p a
  | .consumer, ⟨.head, _⟩ | .consumer, ⟨.value _, _⟩ => True
  | .stopper, ⟨.tail, none⟩ => True
  | _, _ => False

structure Sim (s : State P T) (t : AtomicQueue.State (P × ℕ) T) : Prop where
  tail : t.mTail = s.memory.memory .tail
  head : t.mHead = s.memory.load .consumer .head
  consumer : t.consumer = s.consumer
  returned : t.returned = s.returned
  accepted : t.accepted = s.accepted.map fun x => ⟨(x.producer, x.call), 0, x.value⟩
  results : ∀ c, t.results c = []
  fault : s.fault = false
  live : ∀ a, s.live a = (t.heap a).isSome
  current : ∀ p, Shows (s.producers p) (t.producers (p, s.call p))
  future : ∀ p k, s.call p < k → t.producers (p, k) = .idle
  links : ∀ p k a n, t.producers (p, k) = .link a n →
    k = s.call p ∧ s.producers p = .link a n ∨
      (⟨.next a, some n⟩ : Σ l, Cell T l) ∈ s.memory.buffer (.producer p)
  once : ∀ p, (s.memory.buffer (.producer p)).countP isLink +
    EnqueuePc.linking (s.producers p) ≤ 1
  fresh : ∀ p n v, (s.producers p).Holds n v → Fresh s.memory p n v
  nodes : ∀ a nd, t.heap a = some nd → (∀ p v, ¬(s.producers p).Holds a v) →
    nd = nodeAt s.memory a
  stores : ∀ u, ∀ w ∈ s.memory.buffer u, Sends s t u w

omit [DecidableEq P] in
lemma Shows.eq {c d : EnqueuePc T} (h : Shows c d) (hc : c ≠ .ret true) : d = c := by
  cases c with
  | ret ok =>
    cases ok with
    | true => exact absurd rfl hc
    | false => exact h
  | idle | alloc | loadTail | cas | link => exact h

lemma Shows.refl (c : EnqueuePc T) : Shows c c := by
  cases c with
  | ret ok =>
    cases ok with
    | true => exact Or.inl rfl
    | false => rfl
  | idle | alloc | loadTail | cas | link => rfl

omit [DecidableEq P] in
lemma Sends.imp (h : Sends s t u w)
    (hprivate : ∀ p a, u = .producer p → w.1 = .next a ∨ w.1 = .value a → s.Private p a →
      s'.Private p a)
    (hlink : ∀ p k a n, u = .producer p → w = ⟨.next a, some n⟩ → t.producers (p, k) = .link a n →
      t'.producers (p, k) = .link a n) : Sends s' t' u w := by
  obtain ⟨l, x⟩ := w
  cases u with
  | producer p =>
    cases l with
    | next a =>
      cases x with
      | none => exact hprivate p a rfl (Or.inl rfl) h
      | some n =>
        obtain ⟨k, hk⟩ := h
        exact ⟨k, hlink p k a n rfl rfl hk⟩
    | value a => exact hprivate p a rfl (Or.inr rfl) h
    | tail | head => exact h
  | consumer => cases l <;> exact h
  | stopper =>
    cases l with
    | tail => cases x <;> exact h
    | head | next | value => exact h

lemma holds_update {f : P → EnqueuePc T} {pc : EnqueuePc T}
    (h : (Function.update f p pc q).Holds n v) :
    q = p ∧ pc.Holds n v ∨ q ≠ p ∧ (f q).Holds n v := by
  by_cases hqp : q = p
  · subst hqp
    rw [Function.update_self] at h
    exact Or.inl ⟨rfl, h⟩
  · rw [Function.update_of_ne hqp] at h
    exact Or.inr ⟨hqp, h⟩

lemma holds_update_of_not {f : P → EnqueuePc T} {pc : EnqueuePc T} (hp : ∀ n v, ¬(f p).Holds n v)
    (h : (f q).Holds n v) : (Function.update f p pc q).Holds n v := by
  rw [Function.update_of_ne]
  · exact h
  · rintro rfl
    exact hp n v h

@[simp] lemma memory_setProducer (pc : EnqueuePc T) : (s.setProducer p pc).memory = s.memory := rfl

@[simp] lemma memory_store (l : Loc) (x : Cell T l) :
    (s.store u l x).memory = s.memory.store u l x := rfl

@[simp] lemma producers_setProducer (pc : EnqueuePc T) :
    (s.setProducer p pc).producers = Function.update s.producers p pc := rfl

@[simp] lemma producers_store (l : Loc) (x : Cell T l) :
    (s.store u l x).producers = s.producers := rfl

omit [DecidableEq P] in
@[simp] lemma producers_setLive (x : Bool) : (s.setLive a x).producers = s.producers := rfl

omit [DecidableEq P] in
@[simp] lemma memory_setLive (x : Bool) : (s.setLive a x).memory = s.memory := rfl

namespace Sim

omit [DecidableEq P] in
lemma pc_eq (h : Sim s t) (hp : s.producers p ≠ .ret true) :
    t.producers (p, s.call p) = s.producers p := (h.current p).eq hp

omit [DecidableEq P] in
lemma holds (h : Sim s t) (hp : (s.producers p).Holds n v) :
    (t.producers (p, s.call p)).Holds n v := by
  rw [h.pc_eq]
  · exact hp
  · intro hret
    rw [hret] at hp
    exact hp

omit [DecidableEq P] in
lemma held_node (h : Sim s t) (hinv : Inv t cs vs) (hp : (s.producers p).Holds n v) :
    t.heap n = some ⟨none, some v⟩ ∧ n ∉ cs := hinv.node _ n v (h.holds hp)

omit [DecidableEq P] in
lemma held_live (h : Sim s t) (hinv : Inv t cs vs) (hp : (s.producers p).Holds n v) :
    s.live n = true := by
  rw [h.live, (h.held_node hinv hp).1]
  rfl

omit [DecidableEq P] in
lemma held_inj (h : Sim s t) (hinv : Inv t cs vs) {w : T} (hp : (s.producers p).Holds n v)
    (hq : (s.producers q).Holds n w) : p = q :=
  congrArg Prod.fst (hinv.node_inj _ _ n v w (h.holds hp) (h.holds hq))

omit [DecidableEq P] in
lemma not_held (h : Sim s t) (hinv : Inv t cs vs) (ha : a ∈ cs) (p : P) (v : T) :
    ¬(s.producers p).Holds a v := fun hp => (h.held_node hinv hp).2 ha

omit [DecidableEq P] in
/-- The consumer and the producers have no store to `m_tail` on the way. -/
lemma load_tail (h : Sim s t) (hu : u ≠ .stopper) : s.memory.load u .tail = t.mTail := by
  rw [h.tail]
  refine StoreBuffer.load_of_writes (StoreBuffer.writes_eq_nil.mpr fun w hw hl => ?_)
  have hsend := h.stores u w hw
  obtain ⟨l, x⟩ := w
  subst hl
  cases u with
  | stopper => exact hu rfl
  | producer p | consumer => exact hsend

omit [DecidableEq P] in
/-- The consumer stores no links. -/
lemma load_next (h : Sim s t) (a : Addr) :
    s.memory.load .consumer (.next a) = s.memory.memory (.next a) := by
  refine StoreBuffer.load_of_writes (StoreBuffer.writes_eq_nil.mpr fun w hw hl => ?_)
  have hsend := h.stores .consumer w hw
  obtain ⟨l, x⟩ := w
  subst hl
  exact hsend

omit [DecidableEq P] in
/-- Who stops the queue does not store to its nodes. -/
lemma stopper_arrived (h : Sim s t) (a : Addr) : s.Arrived .stopper a := by
  constructor
  all_goals
    refine StoreBuffer.writes_eq_nil.mpr fun w hw hl => ?_
    have hsend := h.stores .stopper w hw
    obtain ⟨l, x⟩ := w
    subst hl
    exact hsend

omit [DecidableEq P] in
/-- A node is allocated or deleted. -/
lemma live_update (h : Sim s t) (n : Addr) (nd : Option (Node T)) (a : Addr) :
    Function.update s.live n nd.isSome a = (Function.update t.heap n nd a).isSome := by
  by_cases ha : a = n
  · subst ha
    rw [Function.update_self, Function.update_self]
  · rw [Function.update_of_ne ha, Function.update_of_ne ha]
    exact h.live a

omit [DecidableEq P] in
/-- A store to a node that is in use. -/
lemma live_store (h : Sim s t) (hn : s.live n = true) (nd : Node T) (a : Addr) :
    s.live a = (Function.update t.heap n (some nd) a).isSome := by
  rw [← h.live_update n (some nd) a, Option.isSome_some, ← hn, Function.update_eq_self]

/-! ### Steps of the producers -/

lemma current_update (h : Sim s t) {pc d : EnqueuePc T} (hd : Shows pc d) (q : P) :
    Shows (Function.update s.producers p pc q)
      (Function.update t.producers (p, s.call p) d (q, s.call q)) := by
  by_cases hq : q = p
  · subst hq
    rwa [Function.update_self, Function.update_self]
  · rw [Function.update_of_ne hq, Function.update_of_ne fun he => hq (congrArg Prod.fst he)]
    exact h.current q

lemma future_update (h : Sim s t) (d : EnqueuePc T) (q : P) (k : ℕ) (hk : s.call q < k) :
    Function.update t.producers (p, s.call p) d (q, k) = .idle := by
  rw [Function.update_of_ne]
  · exact h.future q k hk
  · rintro ⟨⟩
    exact lt_irrefl _ hk

lemma links_update (h : Sim s t) (pc : EnqueuePc T) (q : P) (k : ℕ) (a n : Addr)
    (hq : Function.update t.producers (p, s.call p) pc (q, k) = .link a n) :
    k = s.call q ∧ Function.update s.producers p pc q = .link a n ∨
      (⟨.next a, some n⟩ : Σ l, Cell T l) ∈ s.memory.buffer (.producer q) := by
  by_cases hqk : (q, k) = (p, s.call p)
  · obtain ⟨rfl, rfl⟩ := Prod.mk.inj hqk
    rw [Function.update_self] at hq ⊢
    exact Or.inl ⟨rfl, hq⟩
  · rw [Function.update_of_ne hqk] at hq
    rcases h.links q k a n hq with ⟨rfl, hlink⟩ | hmem
    · have hqp : q ≠ p := by
        rintro rfl
        exact hqk rfl
      rw [Function.update_of_ne hqp]
      exact Or.inl ⟨rfl, hlink⟩
    · exact Or.inr hmem

lemma once_update (h : Sim s t) (pc : EnqueuePc T)
    (hpc : EnqueuePc.linking pc ≤ EnqueuePc.linking (s.producers p)) (q : P) :
    (s.memory.buffer (.producer q)).countP isLink +
      EnqueuePc.linking (Function.update s.producers p pc q) ≤ 1 := by
  have hq := h.once q
  by_cases hqp : q = p
  · subst hqp
    rw [Function.update_self]
    omega
  · rwa [Function.update_of_ne hqp]

/-- A call that has not swung `m_tail` makes no difference to the links. -/
lemma link_update (h : Sim s t) (hlink : ∀ a n, s.producers p ≠ .link a n)
    (hret : s.producers p ≠ .ret true) {d : EnqueuePc T} {q : P} {k : ℕ}
    (hq : t.producers (q, k) = .link a n) :
    Function.update t.producers (p, s.call p) d (q, k) = .link a n := by
  rw [Function.update_of_ne]
  · exact hq
  · rintro ⟨⟩
    rw [h.pc_eq hret] at hq
    exact hlink a n hq

/-- A step inside the call that stores nothing and keeps the node. -/
lemma setProducer (h : Sim s t) {c : EnqueuePc T} (pc : EnqueuePc T) (hp : s.producers p = c)
    (hlink : ∀ a n, c ≠ .link a n) (hret : c ≠ .ret true) (hpc : ∀ a n, pc ≠ .link a n)
    (hholds : ∀ n v, pc.Holds n v ↔ c.Holds n v) :
    Sim (s.setProducer p pc) (t.setProducer (p, s.call p) pc) := by
  subst hp
  have heq : ∀ q n v, ((s.setProducer p pc).producers q).Holds n v ↔
      (s.producers q).Holds n v := by
    intro q n v
    by_cases hq : q = p
    · subst hq
      simp only [State.setProducer, Function.update_self]
      exact hholds n v
    · simp only [State.setProducer, Function.update_of_ne hq]
  refine { h with
    current := h.current_update (.refl pc)
    future := h.future_update pc
    links := h.links_update pc
    once := h.once_update pc ?_
    fresh := fun q n v hq => h.fresh q n v ((heq q n v).mp hq)
    nodes := fun a nd ha hno => h.nodes a nd ha fun q v hq => hno q v ((heq q a v).mpr hq)
    stores := fun u w hw => (h.stores u w hw).imp ?_ ?_ }
  · cases pc <;> first | exact Nat.zero_le _ | exact absurd rfl (hpc _ _)
  · exact fun q a _ _ hq => hq.imp_right fun ⟨v, hv⟩ => ⟨v, (heq q a v).mpr hv⟩
  · exact fun q k a n _ _ hq => h.link_update hlink hret hq

/-- `new` gives out an address. What has been at it before has got to memory, but for the own
stores. -/
lemma alloc (h : Sim s t) (hinv : Inv t cs vs) (hp : s.producers p = .alloc v)
    (hn : s.live n = false) (hconsumer : s.Arrived .consumer n)
    (hproducers : ∀ q, q ≠ p → s.Arrived (.producer q) n) :
    Sim ((((s.setLive n true).store (.producer p) (.next n) none).store (.producer p) (.value n)
      (some v)).setProducer p (.loadTail n v))
      ((t.setNode n (some ⟨none, some v⟩)).setProducer (p, s.call p) (.loadTail n v)) := by
  have hheld : ∀ q a x, (s.producers q).Holds a x → a ≠ n := by
    rintro q a x hq rfl
    rw [h.held_live hinv hq] at hn
    cases hn
  have harrived : ∀ r, r ≠ .producer p → s.Arrived r n := by
    intro r hr
    cases r with
    | producer q => exact hproducers q fun hq => hr (congrArg Thread.producer hq)
    | consumer => exact hconsumer
    | stopper => exact h.stopper_arrived n
  have hno_old : ∀ a x, ¬(s.producers p).Holds a x := by
    rw [hp]
    exact fun a x hx => hx
  have hself : (Function.update s.producers p (.loadTail n v) p).Holds n v := by
    rw [Function.update_self]
    exact ⟨rfl, rfl⟩
  refine { h with
    head := ?_
    live := h.live_update n (some ⟨none, some v⟩)
    current := h.current_update (.refl _)
    future := h.future_update _
    links := fun q k a b hq => ?_
    once := fun q => ?_
    fresh := fun q a x hq => ?_
    nodes := fun a nd ha hno => ?_
    stores := fun r w hw => ?_ }
  · exact h.head
  · refine (h.links_update _ q k a b hq).imp_right fun hmem => ?_
    exact StoreBuffer.mem_buffer_store.mpr (.inr (StoreBuffer.mem_buffer_store.mpr (.inr hmem)))
  · simpa [StoreBuffer.countP_store, isLink] using
      h.once_update (.loadTail n v) (Nat.zero_le _) q
  · rcases holds_update hq with ⟨rfl, rfl, rfl⟩ | ⟨hqp, hq⟩
    · refine ⟨?_, StoreBuffer.load_store_self, fun r hr => ?_⟩
      · exact (StoreBuffer.load_store_of_ne (by simp)).trans StoreBuffer.load_store_self
      · simp only [State.setProducer, State.store, StoreBuffer.writes_store_other hr]
        exact harrived r hr
    · have han := hheld q a x hq
      exact ((h.fresh q a x hq).store (by simp [han.symm]) (by simp) _).store (by simp)
        (by simp [han.symm]) _
  · have han : a ≠ n := by
      rintro rfl
      exact hno p v hself
    have hnd := h.nodes a nd ((Function.update_of_ne han ..).symm.trans ha) fun q x hq => hno q x ?_
    · simp only [State.setProducer, State.store, State.setLive]
      rw [nodeAt_store (Or.inl (by simp)), nodeAt_store (Or.inl (by simp)), hnd]
    · exact holds_update_of_not hno_old hq
  · rcases StoreBuffer.mem_buffer_store.mp hw with ⟨rfl, rfl⟩ | hw
    · exact Or.inr ⟨v, hself⟩
    rcases StoreBuffer.mem_buffer_store.mp hw with ⟨rfl, rfl⟩ | hw
    · exact Or.inr ⟨v, hself⟩
    refine (h.stores r w hw).imp ?_ fun q k a b _ _ hq =>
      h.link_update (by simp [hp]) (by simp [hp]) hq
    rintro q a rfl hwa hq
    by_cases ha : a = n
    · subst ha
      have hqp : q = p := by
        by_contra hqp
        obtain ⟨hnext, hvalue⟩ := hproducers q hqp
        rcases hwa with hwa | hwa
        · exact StoreBuffer.writes_eq_nil.mp hnext w hw hwa
        · exact StoreBuffer.writes_eq_nil.mp hvalue w hw hwa
      subst hqp
      exact Or.inr ⟨v, hself⟩
    · rcases hq with hdead | ⟨x, hx⟩
      · exact Or.inl ((Function.update_of_ne ha ..).trans hdead)
      · exact Or.inr ⟨x, holds_update_of_not hno_old hx⟩

/-- The queue has been stopped and the producer deletes its own node. -/
lemma reject (h : Sim s t) (hinv : Inv t cs vs) (hp : s.producers p = .cas n v none) :
    Sim (rejectNode s p n) (AtomicQueue.rejectNode t (p, s.call p) n) := by
  have hholds : (s.producers p).Holds n v := by
    rw [hp]
    exact ⟨rfl, rfl⟩
  have heq : rejectNode s p n =
      ((s.store (.producer p) (.value n) none).setLive n false).setProducer p (.ret false) := by
    simp [rejectNode, h.held_live hinv hholds, (h.fresh p n v hholds).value]
  have heq' : AtomicQueue.rejectNode t (p, s.call p) n =
      (t.setNode n none).setProducer (p, s.call p) (.ret false) := by
    simp [AtomicQueue.rejectNode, (h.held_node hinv hholds).1]
  have hother : ∀ q a x, (Function.update s.producers p (.ret false) q).Holds a x →
      a ≠ n ∧ (s.producers q).Holds a x := by
    intro q a x hq
    rcases holds_update hq with ⟨-, ⟨⟩⟩ | ⟨hqp, hq⟩
    refine ⟨?_, hq⟩
    rintro rfl
    exact hqp (h.held_inj hinv hq hholds)
  rw [heq, heq']
  refine { h with
    head := h.head
    live := h.live_update n none
    current := h.current_update (.refl _)
    future := h.future_update _
    links := fun q k a b hq => ?_
    once := fun q => ?_
    fresh := fun q a x hq => ?_
    nodes := fun a nd ha hno => ?_
    stores := fun r w hw => ?_ }
  · refine (h.links_update _ q k a b hq).imp_right fun hmem => ?_
    exact StoreBuffer.mem_buffer_store.mpr (.inr hmem)
  · simpa [StoreBuffer.countP_store, isLink] using
      h.once_update (.ret false) (Nat.zero_le _) q
  · obtain ⟨han, hq⟩ := hother q a x hq
    exact (h.fresh q a x hq).store (by simp) (by simp [han.symm]) _
  · have han : a ≠ n := by
      rintro rfl
      simp [AtomicQueue.State.setNode, AtomicQueue.State.setProducer] at ha
    rw [h.nodes a nd ((Function.update_of_ne han ..).symm.trans ha) fun q x hq => hno q x ?_]
    · exact (nodeAt_store (Or.inl (by simp)) _).symm
    · have hqp : q ≠ p := by
        rintro rfl
        rw [hp] at hq
        exact han hq.1.symm
      rw [producers_setProducer, Function.update_of_ne hqp]
      exact hq
  · rcases StoreBuffer.mem_buffer_store.mp hw with ⟨rfl, rfl⟩ | hw
    · exact Or.inl (Function.update_self ..)
    refine (h.stores r w hw).imp ?_ fun q k a b _ _ hq =>
      h.link_update (by simp [hp]) (by simp [hp]) hq
    rintro q a - - hq
    by_cases ha : a = n
    · subst ha
      exact Or.inl (Function.update_self ..)
    · refine hq.imp (Function.update_of_ne ha ..).trans ?_
      rintro ⟨x, hx⟩
      have hqp : q ≠ p := by
        rintro rfl
        rw [hp] at hx
        exact ha hx.1.symm
      refine ⟨x, ?_⟩
      rw [producers_setProducer, Function.update_of_ne hqp]
      exact hx

/-- The successful CAS. The constructor's stores have got to memory before it. -/
lemma push (h : Sim s t) (hinv : Inv t cs vs) {tl : Addr} {tail : Option Addr}
    (hp : s.producers p = .cas n v tail) (hempty : s.memory.buffer (.producer p) = []) :
    Sim { s.setProducer p (.link tl n) with
      memory := { s.memory with memory := Function.update s.memory.memory .tail (some n) }
      accepted := s.accepted ++ [⟨p, (s.results p).length, v⟩] }
      { t.setProducer (p, s.call p) (.link tl n) with
        mTail := some n
        accepted := t.accepted ++ [⟨(p, s.call p), (t.results (p, s.call p)).length, v⟩] } := by
  have hholds : (s.producers p).Holds n v := by
    rw [hp]
    exact ⟨rfl, rfl⟩
  have hother : ∀ q a x, (Function.update s.producers p (.link tl n) q).Holds a x →
      (s.producers q).Holds a x := by
    intro q a x hq
    rcases holds_update hq with ⟨-, ⟨⟩⟩ | ⟨-, hq⟩
    exact hq
  refine { h with
    tail := ?_
    head := ?_
    accepted := ?_
    current := h.current_update (.refl _)
    future := h.future_update _
    links := h.links_update _
    once := fun q => ?_
    fresh := fun q a x hq => (h.fresh q a x (hother q a x hq)).write_tail _
    nodes := fun a nd ha hno => ?_
    stores := fun r w hw => ?_ }
  · exact (Function.update_self Loc.tail (some n) s.memory.memory).symm
  · exact h.head.trans (StoreBuffer.load_write_of_ne (by simp)).symm
  · simp [h.accepted, h.results, State.call]
  · by_cases hqp : q = p
    · subst hqp
      simp [hempty, EnqueuePc.linking]
    · simpa [Function.update_of_ne hqp] using h.once q
  · change t.heap a = some nd at ha
    rw [nodeAt_write_tail]
    by_cases han : a = n
    · subst han
      -- nobody has stores on the way to it, so that all see the same
      have hfresh := h.fresh p a v hholds
      have hmem : ∀ l, s.memory.load (.producer p) l = s.memory.memory l := fun l =>
        StoreBuffer.load_of_writes (StoreBuffer.writes_of_empty hempty)
      obtain ⟨-, hvalue⟩ := hfresh.arrived .consumer (by simp)
      have hnd : nd = ⟨none, some v⟩ := by
        rw [(h.held_node hinv hholds).1] at ha
        exact (Option.some.inj ha).symm
      unfold nodeAt
      rw [StoreBuffer.load_of_writes hvalue, ← hmem, ← hmem, hfresh.next, hfresh.value, hnd]
    · refine h.nodes a nd ha fun q x hq => hno q x ?_
      have hqp : q ≠ p := by
        rintro rfl
        rw [hp] at hq
        exact han hq.1.symm
      rw [producers_setProducer, Function.update_of_ne hqp]
      exact hq
  · refine (h.stores r w hw).imp ?_ fun q k a b _ _ hq =>
      h.link_update (by simp [hp]) (by simp [hp]) hq
    rintro q a rfl - hq
    have hqp : q ≠ p := by
      rintro rfl
      rw [hempty] at hw
      cases hw
    refine hq.imp_right ?_
    rintro ⟨x, hx⟩
    exact ⟨x, (congrArg (EnqueuePc.Holds · a x) (Function.update_of_ne hqp ..)).mpr hx⟩

/-- The link store is on its way. -/
lemma link (h : Sim s t) (hinv : Inv t cs vs) {tl : Addr} (hp : s.producers p = .link tl n) :
    Sim (linkTail s p tl n) t := by
  have hpt : t.producers (p, s.call p) = .link tl n := (h.pc_eq (by simp [hp])).trans hp
  obtain ⟨htl, -, -⟩ := hinv.shape.pending _ tl n hpt
  have hlive : s.live tl = true := (h.live tl).trans (hinv.shape.live tl htl)
  have heq : linkTail s p tl n =
      (s.store (.producer p) (.next tl) (some n)).setProducer p (.ret true) := if_pos hlive
  have hother : ∀ q a x, (Function.update s.producers p (.ret true) q).Holds a x ↔
      (s.producers q).Holds a x := by
    intro q a x
    by_cases hqp : q = p
    · subst hqp
      rw [Function.update_self, hp]
      rfl
    · rw [Function.update_of_ne hqp]
  rw [heq]
  refine { h with
    head := h.head
    current := fun q => ?_
    links := fun q k a b hq => ?_
    once := fun q => ?_
    fresh := fun q a x hq => ?_
    nodes := fun a nd ha hno => ?_
    stores := fun r w hw => ?_ }
  · by_cases hqp : q = p
    · subst hqp
      rw [producers_setProducer, Function.update_self]
      exact Or.inr ⟨tl, n, hpt⟩
    · rw [producers_setProducer, Function.update_of_ne hqp]
      exact h.current q
  · rw [memory_setProducer, memory_store, StoreBuffer.mem_buffer_store]
    rcases h.links q k a b hq with ⟨rfl, hlink⟩ | hmem
    · by_cases hqp : q = p
      · subst hqp
        rw [hp] at hlink
        cases hlink
        exact Or.inr (Or.inl ⟨rfl, rfl⟩)
      · rw [producers_setProducer, Function.update_of_ne hqp]
        exact Or.inl ⟨rfl, hlink⟩
    · exact Or.inr (Or.inr hmem)
  · have hq := h.once q
    rw [memory_setProducer, memory_store, StoreBuffer.countP_store, producers_setProducer]
    by_cases hqp : q = p
    · subst hqp
      rw [hp] at hq
      simpa [isLink, EnqueuePc.linking] using hq
    · simpa [Function.update_of_ne hqp, hqp] using hq
  · have hq := (hother q a x).mp hq
    have han : tl ≠ a := by
      rintro rfl
      exact h.not_held hinv htl q x hq
    exact (h.fresh q a x hq).store (by simpa using han) (by simp) _
  · rw [h.nodes a nd ha fun q x hq => hno q x ((hother q a x).mpr hq)]
    exact (nodeAt_store (Or.inl (by simp)) _).symm
  · rcases StoreBuffer.mem_buffer_store.mp hw with ⟨rfl, rfl⟩ | hw
    · exact ⟨s.call p, hpt⟩
    · refine (h.stores r w hw).imp ?_ fun _ _ _ _ _ _ hq => hq
      exact fun q a _ _ hq => hq.imp_right fun ⟨x, hx⟩ => ⟨x, (hother q a x).mpr hx⟩

/-- A call of `enqueue` returns. Its link store may still be on the way. -/
lemma enqueueRet (h : Sim s t) {ok : Bool} (hp : s.producers p = .ret ok) :
    Sim { s.setProducer p .idle with
      results := Function.update s.results p (s.results p ++ [ok]) } t := by
  set s' : State P T := { s.setProducer p .idle with
    results := Function.update s.results p (s.results p ++ [ok]) } with hs'
  have hcall : ∀ q, s'.call q = if q = p then s.call p + 1 else s.call q := by
    intro q
    by_cases hqp : q = p
    · subst hqp
      simp [hs', State.call]
    · simp [hs', State.call, hqp]
  have hother : ∀ q, q ≠ p → s'.producers q = s.producers q := fun q hq =>
    Function.update_of_ne hq ..
  have hself : s'.producers p = .idle := Function.update_self ..
  have hholds : ∀ q a x, (s'.producers q).Holds a x ↔ (s.producers q).Holds a x := by
    intro q a x
    by_cases hqp : q = p
    · subst hqp
      rw [hself, hp]
      rfl
    · rw [hother q hqp]
  refine { h with
    current := fun q => ?_
    future := fun q k hk => h.future q k ?_
    links := fun q k a b hq => ?_
    once := fun q => ?_
    fresh := fun q a x hq => h.fresh q a x ((hholds q a x).mp hq)
    nodes := fun a nd ha hno => h.nodes a nd ha fun q x hq => hno q x ((hholds q a x).mpr hq)
    stores := fun r w hw => (h.stores r w hw).imp ?_ fun _ _ _ _ _ _ hq => hq }
  · by_cases hqp : q = p
    · subst hqp
      rw [hself, hcall, if_pos rfl]
      exact h.future q _ (Nat.lt_succ_self _)
    · rw [hother q hqp, hcall, if_neg hqp]
      exact h.current q
  · rw [hcall] at hk
    split at hk
    · rename_i hqp
      subst hqp
      omega
    · exact hk
  · rcases h.links q k a b hq with ⟨rfl, hlink⟩ | hmem
    · have hqp : q ≠ p := by
        rintro rfl
        rw [hp] at hlink
        cases hlink
      rw [hother q hqp, hcall, if_neg hqp]
      exact Or.inl ⟨rfl, hlink⟩
    · exact Or.inr hmem
  · have hq := h.once q
    by_cases hqp : q = p
    · subst hqp
      rw [hp] at hq
      rw [hself]
      exact hq
    · rw [hother q hqp]
      exact hq
  · exact fun q a _ _ hq => hq.imp_right fun ⟨x, hx⟩ => ⟨x, (hholds q a x).mpr hx⟩

end Sim

end Scoro.BufferedQueue

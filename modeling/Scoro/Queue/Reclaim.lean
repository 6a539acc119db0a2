import Scoro.Lib.Ledger
import Scoro.Queue.Refinement

/-!
# Reclamation of the nodes

A ledger is kept beside the queue of the nodes that are allocated and deleted and of the values
that are constructed in them and destroyed. Every live node is on the chain, or belongs to one
producer or to the consumer, and has a value in it unless it is the stub. So each step keeps the
ledger balanced.
-/

namespace Scoro.AtomicQueue
open Scoro.Lib

variable {P T : Type*}

/-- What a step does to nodes and to the values in them: `new Node(..)`, `n->value.~T()` with
`delete n` for a refused value, `delete head`, and `next->value.~T()`. -/
def record (s : State P T) (a : Action P T) (l : Ledger Addr) : Ledger Addr :=
  match a with
  | .alloc p (some n) =>
    match s.producers p with
    | .alloc _ => l.new n true
    | _ => l
  | .cas p _ =>
    match s.producers p with
    | .cas n _ none => (l.destroy n).delete n
    | _ => l
  | .consumer =>
    match s.consumer with
    | .deleteHead head _ => l.delete head
    | .moveValue next => l.destroy next
    | _ => l
  | _ => l

/-- The constructor allocates the stub, without a value in it. -/
def recordInit (stub : Addr) : Ledger Addr := Ledger.empty.new stub false

variable {s s' : State P T} {cs cs' : List Addr} {vs : List T}

/-- The consumer has the address `a` in a local variable that it is going to follow. -/
def DequeuePc.Uses : DequeuePc T → Addr → Prop
  | .tryLoadNext head, a | .waitLoadTail head, a | .waitLoadNext head _, a | .reloadNext head, a =>
    a = head
  | .waitTest head _ next, a | .reloadTail head next, a => a = head ∨ next = some a
  | .storeHead head next, a | .deleteHead head next, a => a = head ∨ a = next
  | .moveValue next, a => a = next
  | _, _ => False

namespace State

def Full (s : State P T) (a : Addr) : Prop := (s.value a).isSome

/-- A thread has the address `a` and is going to read, write or delete the node there. -/
def Uses (s : State P T) (a : Addr) : Prop :=
  (∃ p n, s.producers p = .link a n) ∨ (∃ p v, (s.producers p).Holds a v) ∨ s.consumer.Uses a

/-- Somebody is responsible for the node at `a`. -/
def Owner (s : State P T) (cs : List Addr) (a : Addr) : Prop :=
  a ∈ cs ∨ (∃ p v, (s.producers p).Holds a v) ∨ ∃ next, s.consumer = .deleteHead a next

end State

/-- The node linked behind the one at `m_head` is alive. -/
lemma Inv.live_next (h : Inv s cs vs) {n : Addr} (hn : s.next s.mHead = some n) : s.Live n := by
  have hpop : ∃ rest, cs = s.mHead :: n :: rest ∧ Shape { s with mHead := n } (n :: rest) :=
    h.shape.pop hn rfl rfl rfl rfl
  obtain ⟨rest, -, hshape⟩ := hpop
  exact hshape.live n hshape.head_mem

/-- What a thread is going to use is alive. -/
lemma Inv.live_of_uses (h : Inv s cs vs) {a : Addr} (ha : s.Uses a) : s.Live a := by
  rcases ha with ⟨p, n, hp⟩ | ⟨p, v, hp⟩ | hc
  · exact h.shape.live a (h.shape.pending p a n hp).1
  · simp [State.Live, (h.node p a v hp).1]
  · have hpc := h.consumer
    have hhead := h.live_head
    cases hcons : s.consumer <;> rw [hcons] at hc hpc <;> try exact hc.elim
    case tryLoadNext | waitLoadTail | waitLoadNext | reloadNext =>
      obtain rfl : _ = s.mHead := hpc
      rwa [show a = s.mHead from hc]
    case waitTest | reloadTail =>
      obtain ⟨rfl, hnext⟩ := hpc
      rcases hc with rfl | hn
      · exact hhead
      · exact h.live_next (hnext a hn)
    case storeHead head next =>
      obtain ⟨rfl, hnext⟩ := hpc
      rcases hc with rfl | rfl
      · exact hhead
      · exact h.live_next hnext
    case deleteHead head next =>
      obtain ⟨rfl, -, hlive, -⟩ := hpc
      rcases hc with rfl | rfl
      · exact hlive
      · exact hhead
    case moveValue next =>
      obtain ⟨rfl, -⟩ := hpc
      rwa [show a = s.mHead from hc]

/-- The consumer is between its head store and the destructor call of the value. -/
def DequeuePc.takes : DequeuePc T → Bool
  | .deleteHead _ _ | .moveValue _ => true
  | _ => false

structure Owned (s : State P T) (cs : List Addr) : Prop where
  owner : ∀ a, s.Live a → s.Owner cs a
  stub : s.consumer.takes = false → s.value s.mHead = none
  detached : ∀ head next, s.consumer = .deleteHead head next → s.value head = none

/-- What a step does to the heap, and what the ledger records of it. -/
inductive HeapMove (s s' : State P T) (a : Action P T) : Prop
  | keep (live : ∀ b, s'.Live b ↔ s.Live b) (full : ∀ b, s'.Full b ↔ s.Full b)
      (ledger : ∀ l, record s a l = l)
  | new (n : Addr) (dead : ¬s.Live n) (live : ∀ b, s'.Live b ↔ b = n ∨ s.Live b)
      (full : ∀ b, b ≠ n → (s'.Full b ↔ s.Full b)) (value : s'.Full n)
      (ledger : ∀ l, record s a l = l.new n true)
  | reject (n : Addr) (alive : s.Live n) (value : s.Full n)
      (live : ∀ b, s'.Live b ↔ s.Live b ∧ b ≠ n) (full : ∀ b, s'.Full b ↔ s.Full b ∧ b ≠ n)
      (ledger : ∀ l, record s a l = (l.destroy n).delete n)
  | delete (n : Addr) (alive : s.Live n) (hollow : ¬s.Full n)
      (live : ∀ b, s'.Live b ↔ s.Live b ∧ b ≠ n) (full : ∀ b, s'.Full b ↔ s.Full b)
      (ledger : ∀ l, record s a l = l.delete n)
  | move (n : Addr) (alive : s.Live n) (value : s.Full n) (live : ∀ b, s'.Live b ↔ s.Live b)
      (full : ∀ b, s'.Full b ↔ s.Full b ∧ b ≠ n) (ledger : ∀ l, record s a l = l.destroy n)

/-- The ledger stays balanced with the heap. -/
lemma HeapMove.balanced {a : Action P T} (h : HeapMove s s' a) {l : Ledger Addr}
    (hl : l.Balanced s.Live s.Full) : (record s a l).Balanced s'.Live s'.Full := by
  cases h with
  | keep live full ledger =>
    rw [ledger]
    exact hl.congr live full
  | new n dead live full value ledger =>
    rw [ledger]
    exact hl.new dead live full (by simp [value])
  | reject n alive value live full ledger =>
    rw [ledger]
    exact (hl.destroy alive value full).delete alive (by simp [full]) live
  | delete n alive hollow live full ledger =>
    rw [ledger]
    exact (hl.delete alive hollow live).congr (fun _ => Iff.rfl) full
  | move n alive value live full ledger =>
    rw [ledger]
    exact (hl.destroy alive value full).congr live fun _ => Iff.rfl

/-- A step that leaves the heap alone. -/
lemma HeapMove.of_heap {a : Action P T} (hheap : s'.heap = s.heap)
    (ledger : ∀ l, record s a l = l) : HeapMove s s' a :=
  .keep (fun b => by simp only [State.Live, hheap])
    (fun b => by simp only [State.Full, State.value, hheap]) ledger

lemma live_setNode (s : State P T) (a b : Addr) (nd : Option (Node T)) :
    (s.setNode a nd).Live b ↔ if b = a then nd.isSome = true else s.Live b := by
  by_cases hb : b = a <;> simp [State.Live, State.setNode, hb]

lemma full_setNode (s : State P T) (a b : Addr) (nd : Option (Node T)) :
    (s.setNode a nd).Full b ↔ if b = a then (nd.bind Node.value).isSome = true else s.Full b := by
  unfold State.Full
  rw [value_setNode]
  by_cases hb : b = a <;> simp [hb]

/-- A step that leaves the heap and what the consumer has detached alone. -/
lemma Owned.of_heap (h : Owned s cs) (hheap : s'.heap = s.heap) (hhead : s'.mHead = s.mHead)
    (howner : ∀ a, s.Owner cs a → s'.Owner cs' a) (htakes : s'.consumer.takes = s.consumer.takes)
    (hdet : ∀ a next, s'.consumer = .deleteHead a next → s.consumer = .deleteHead a next) :
    Owned s' cs' := by
  have hvalue : s'.value = s.value := by
    funext a
    simp only [State.value, hheap]
  refine ⟨fun a ha => howner a (h.owner a ?_), fun hno => ?_, fun a next hc => ?_⟩
  · simpa only [State.Live, hheap] using ha
  · rw [hvalue, hhead]
    exact h.stub (htakes.symm.trans hno)
  · rw [hvalue]
    exact h.detached a next (hdet a next hc)

section consumer

lemma Owned.setConsumer (h : Owned s cs) {pc : DequeuePc T} (hold : s.consumer.takes = false)
    (hnew : pc.takes = false) : Owned (s.setConsumer pc) cs := by
  refine h.of_heap rfl rfl (fun a ha => ?_) (hnew.trans hold.symm) (fun a next hc => ?_)
  · refine ha.imp_right (Or.imp_right ?_)
    rintro ⟨next, hc⟩
    rw [hc] at hold
    cases hold
  · rw [show pc = _ from hc] at hnew
    cases hnew

/-- The old stub is detached. The new one still has its value. -/
lemma Owned.storeHead (h : Owned s (s.mHead :: cs)) {next : Addr}
    (hc : s.consumer = .storeHead s.mHead next) :
    Owned { s.setConsumer (.deleteHead s.mHead next) with mHead := next } cs := by
  refine ⟨fun a ha => ?_, by simp [State.setConsumer, DequeuePc.takes], fun head next' hc' => ?_⟩
  · rcases h.owner a ha with hmem | hheld | ⟨next', hc'⟩
    · rcases List.mem_cons.mp hmem with rfl | hmem
      · exact Or.inr (Or.inr ⟨next, rfl⟩)
      · exact Or.inl hmem
    · exact Or.inr (Or.inl hheld)
    · rw [hc] at hc'
      cases hc'
  · simp only [State.setConsumer, DequeuePc.deleteHead.injEq] at hc'
    obtain ⟨rfl, rfl⟩ := hc'
    exact h.stub (by rw [hc]; rfl)

lemma Owned.deleteHead (h : Owned s cs) {head next : Addr}
    (hc : s.consumer = .deleteHead head next) :
    Owned ((s.setNode head none).setConsumer (.moveValue next)) cs := by
  refine ⟨fun a ha => ?_, by simp [State.setConsumer, DequeuePc.takes],
    by simp [State.setConsumer]⟩
  obtain ⟨hne, ha⟩ : a ≠ head ∧ s.Live a := by
    have hlive := (live_setNode s head a none).mp ha
    by_cases hah : a = head <;> simp_all
  rcases h.owner a ha with hmem | hheld | ⟨next', hc'⟩
  · exact Or.inl hmem
  · exact Or.inr (Or.inl hheld)
  · rw [hc] at hc'
    cases hc'
    exact absurd rfl hne

lemma moveValue_eq {a : Addr} {v : T} (h : s.value a = some v) :
    moveValue s a = (s.setNode a (some ⟨s.next a, none⟩)).setConsumer (.ret (some v)) := by
  cases hn : s.heap a with
  | none => simp [State.value, hn] at h
  | some nd =>
    obtain ⟨nx, w⟩ := nd
    obtain rfl : w = some v := by simpa [State.value, hn] using h
    simp [moveValue, State.next, hn]

/-- The node at `m_head` becomes the stub. -/
lemma Owned.moveValue (h : Owned s cs) {v : T} (hc : s.consumer = .moveValue s.mHead)
    (hv : s.value s.mHead = some v) (hlive : s.Live s.mHead) : Owned (moveValue s s.mHead) cs := by
  rw [moveValue_eq hv]
  refine ⟨fun a ha => ?_, fun _ => ?_, by simp [State.setConsumer]⟩
  · have ha : s.Live a := by
      have := (live_setNode s s.mHead a _).mp ha
      by_cases hah : a = s.mHead <;> simp_all
    refine (h.owner a ha).imp_right (Or.imp_right ?_)
    rintro ⟨next, hc'⟩
    rw [hc] at hc'
    cases hc'
  · exact (value_setNode s s.mHead s.mHead _).trans (if_pos rfl)

theorem Owned.consumerStep (h : Owned s cs) (hinv : Inv s cs vs) (hs : consumerStep s = some s') :
    ∃ cs' vs', Inv s' cs' vs' ∧ Owned s' cs' ∧ HeapMove s s' (.consumer : Action P T) := by
  have hgoto : ∀ pc, s.PcOk cs pc → s.handOf pc = s.handOf s.consumer → s.consumer.takes = false →
      pc.takes = false → (∀ l, record s .consumer l = l) →
      ∃ cs' vs', Inv (s.setConsumer pc) cs' vs' ∧ Owned (s.setConsumer pc) cs' ∧
        HeapMove s (s.setConsumer pc) (.consumer : Action P T) :=
    fun pc hpc hhand hold hnew hl =>
      ⟨cs, vs, hinv.setConsumer hpc hhand, h.setConsumer hold hnew, .of_heap rfl hl⟩
  have hpcok := hinv.consumer
  cases hinv.move hs with
  | tryLoadHead hc =>
    exact hgoto _ rfl (by rw [hc]; rfl) (by rw [hc]; rfl) rfl (by simp [record, hc])
  | tryEmpty hc _ =>
    exact hgoto _ trivial (by rw [hc]; rfl) (by rw [hc]; rfl) rfl (by simp [record, hc])
  | tryFound hc hn =>
    exact hgoto _ ⟨rfl, hn⟩ (by rw [hc]; rfl) (by rw [hc]; rfl) rfl (by simp [record, hc])
  | waitLoadHead hc =>
    exact hgoto _ rfl (by rw [hc]; rfl) (by rw [hc]; rfl) rfl (by simp [record, hc])
  | waitLoadTail hc =>
    exact hgoto _ rfl (by rw [hc]; rfl) (by rw [hc]; rfl) rfl (by simp [record, hc])
  | waitLoadNext hc =>
    exact hgoto _ ⟨rfl, fun _ hn => hn⟩ (by rw [hc]; rfl) (by rw [hc]; rfl) rfl
      (by simp [record, hc])
  | found hc hn =>
    exact hgoto _ ⟨rfl, hn⟩ (by rw [hc]; rfl) (by rw [hc]; rfl) rfl (by simp [record, hc])
  | stopped hc =>
    exact hgoto _ trivial (by rw [hc]; rfl) (by rw [hc]; rfl) rfl (by simp [record, hc])
  | stub hc => exact hgoto _ trivial (by rw [hc]; rfl) (by rw [hc]; rfl) rfl (by simp [record, hc])
  | unlinked hc _ =>
    exact hgoto _ ⟨rfl, by simp⟩ (by rw [hc]; rfl) (by rw [hc]; rfl) rfl (by simp [record, hc])
  | wake hc _ =>
    exact hgoto _ trivial (by rw [hc]; rfl) (by rw [hc]; rfl) rfl (by simp [record, hc])
  | reloadHead hc =>
    exact hgoto _ rfl (by rw [hc]; rfl) (by rw [hc]; rfl) rfl (by simp [record, hc])
  | reloadNext hc =>
    exact hgoto _ ⟨rfl, fun _ hn => hn⟩ (by rw [hc]; rfl) (by rw [hc]; rfl) rfl
      (by simp [record, hc])
  | reloadTail hc hn =>
    exact hgoto _ ⟨rfl, hn⟩ (by rw [hc]; rfl) (by rw [hc]; rfl) rfl (by simp [record, hc])
  | storeHead hc =>
    obtain ⟨cs', v, vs', rfl, rfl, hinv'⟩ := hinv.storeHead hc
    exact ⟨cs', vs', hinv', h.storeHead hc, .of_heap rfl (by simp [record, hc])⟩
  | @deleteHead head next hc =>
    obtain ⟨hlive, hinv'⟩ := hinv.deleteHead hc
    have hval := h.detached head next hc
    refine ⟨cs, vs, hinv', h.deleteHead hc, .delete head hlive (by simp [State.Full, hval])
      (fun b => ?_) (fun b => ?_) (by simp [record, hc])⟩
    · refine (live_setNode s head b none).trans ?_
      by_cases hb : b = head <;> simp [hb]
    · refine (full_setNode s head b none).trans ?_
      by_cases hb : b = head <;> simp [State.Full, hb, hval]
  | @moveValue next v hc hret =>
    obtain ⟨w, hw, -, hinv'⟩ := hinv.moveValue hc
    rw [hc] at hpcok
    obtain ⟨rfl, -⟩ := hpcok
    refine ⟨cs, vs, hinv', h.moveValue hc hw hinv.live_head,
      .move s.mHead hinv.live_head (by simp [State.Full, hw]) (fun b => ?_) (fun b => ?_)
      (by simp [record, hc])⟩
    · rw [moveValue_eq hw]
      refine (live_setNode s s.mHead b _).trans ?_
      by_cases hb : b = s.mHead
      · simp [hb, hinv.live_head]
      · simp [hb]
    · rw [moveValue_eq hw]
      refine (full_setNode s s.mHead b _).trans ?_
      by_cases hb : b = s.mHead <;> simp [hb]
  | ret hc =>
    refine ⟨cs, vs, hinv.ret hc, h.of_heap rfl rfl (fun a ha => ?_) (by rw [hc]; rfl)
      (by simp [State.setConsumer]), .of_heap rfl (by simp [record, hc])⟩
    refine ha.imp_right (Or.imp_right ?_)
    rintro ⟨next, hc'⟩
    rw [hc] at hc'
    cases hc'

end consumer

section producer
variable [DecidableEq P] {p : P}

/-- A producer's step that leaves the heap alone. What it gives up is on the chain. -/
lemma Owned.setProducer (h : Owned s cs) {pc : EnqueuePc T} (hheap : s'.heap = s.heap)
    (hhead : s'.mHead = s.mHead) (hconsumer : s'.consumer = s.consumer)
    (hprod : s'.producers = Function.update s.producers p pc) (hcs : ∀ a ∈ cs, a ∈ cs')
    (hsub : ∀ n v, (s.producers p).Holds n v → pc.Holds n v ∨ n ∈ cs') : Owned s' cs' := by
  refine h.of_heap hheap hhead (fun a ha => ?_) (by rw [hconsumer])
    fun a next hc => hconsumer.symm.trans hc
  rcases ha with hmem | ⟨q, v, hq⟩ | ⟨next, hc⟩
  · exact Or.inl (hcs a hmem)
  · by_cases hqp : q = p
    · subst hqp
      rcases hsub a v hq with hheld | hmem
      · exact Or.inr (Or.inl ⟨q, v, by rwa [hprod, Function.update_self]⟩)
      · exact Or.inl hmem
    · exact Or.inr (Or.inl ⟨q, v, by rwa [hprod, Function.update_of_ne hqp]⟩)
  · exact Or.inr (Or.inr ⟨next, hconsumer.trans hc⟩)

/-- A producer's step on its node `n`, which is off the chain. -/
lemma Owned.setHeld (h : Owned s cs) (hinv : Inv s cs vs) {pc : EnqueuePc T} {n : Addr}
    {nd : Option (Node T)} (hn : n ∉ cs) (hdet : ∀ next, s.consumer ≠ .deleteHead n next)
    (hold : ∀ m w, (s.producers p).Holds m w → m = n)
    (hnew : nd.isSome → ∃ w, pc.Holds n w) : Owned ((s.setNode n nd).setProducer p pc) cs := by
  have hvalue : ∀ b, b ≠ n → ((s.setNode n nd).setProducer p pc).value b = s.value b :=
    fun b hb => (value_setNode s n b nd).trans (if_neg hb)
  refine ⟨fun a ha => ?_, fun hno => ?_, fun a next hc => ?_⟩
  · have ha := (live_setNode s n a nd).mp ha
    by_cases han : a = n
    · subst han
      obtain ⟨w, hw⟩ := hnew (by simpa using ha)
      exact Or.inr (Or.inl ⟨p, w, by simpa [State.setProducer] using hw⟩)
    · rw [if_neg han] at ha
      refine (h.owner a ha).imp_right (Or.imp_left ?_)
      rintro ⟨q, v, hq⟩
      have hqp : q ≠ p := by
        rintro rfl
        exact han (hold a v hq)
      exact ⟨q, v, by simpa [State.setProducer, State.setNode, hqp] using hq⟩
  · have hne : s.mHead ≠ n := by
      rintro rfl
      exact hn hinv.shape.head_mem
    exact (hvalue _ hne).trans (h.stub hno)
  · have hne : a ≠ n := by
      rintro rfl
      exact hdet next hc
    exact (hvalue a hne).trans (h.detached a next hc)

lemma Owned.alloc (h : Owned s cs) (hinv : Inv s cs vs) {n : Addr} {v : T}
    (hp : s.producers p = .alloc v) (hn : s.heap n = none) :
    Owned ((s.setNode n (some ⟨none, some v⟩)).setProducer p (.loadTail n v)) cs ∧
      HeapMove s ((s.setNode n (some ⟨none, some v⟩)).setProducer p (.loadTail n v))
        (.alloc p (some n)) := by
  have hdead : ¬s.Live n := by simp [State.Live, hn]
  have hdet : ∀ next, s.consumer ≠ .deleteHead n next := fun next hc => hdead (hinv.deleteHead hc).1
  refine ⟨h.setHeld hinv (fun hmem => hdead (hinv.shape.live n hmem)) hdet ?_
    (fun _ => ⟨v, rfl, rfl⟩), .new n hdead (fun b => ?_) (fun b hb => ?_) ?_ (by simp [record, hp])⟩
  · rw [hp]
    rintro m w ⟨⟩
  · refine (live_setNode s n b _).trans ?_
    by_cases hb : b = n <;> simp [hb]
  · exact (full_setNode s n b _).trans (by rw [if_neg hb])
  · exact (full_setNode s n n _).mpr (by simp)

/-- The queue is closed, and the producer takes its node back. -/
lemma Owned.reject (h : Owned s cs) (hinv : Inv s cs vs) {n : Addr} {v : T} {spurious : Bool}
    (hp : s.producers p = .cas n v none) :
    Owned (rejectNode s p n) cs ∧ HeapMove s (rejectNode s p n) (.cas p spurious) := by
  have hholds : (s.producers p).Holds n v := by
    rw [hp]
    exact ⟨rfl, rfl⟩
  obtain ⟨hnode, hn⟩ := hinv.node p n v hholds
  have heq : rejectNode s p n = (s.setNode n none).setProducer p (.ret false) := by
    simp [rejectNode, hnode]
  have hdet : ∀ next, s.consumer ≠ .deleteHead n next := by
    intro next hc
    have hpc := hinv.consumer
    rw [hc] at hpc
    exact hpc.2.2.2.2 p v hholds
  rw [heq]
  refine ⟨h.setHeld hinv hn hdet ?_ (by simp), .reject n (by simp [State.Live, hnode])
    (by simp [State.Full, State.value, hnode]) (fun b => ?_) (fun b => ?_) (by simp [record, hp])⟩
  · rw [hp]
    rintro m w ⟨rfl, -⟩
    rfl
  · refine (live_setNode s n b none).trans ?_
    by_cases hb : b = n <;> simp [hb]
  · refine (full_setNode s n b none).trans ?_
    by_cases hb : b = n <;> simp [hb]

/-- The producer links its node. It has given the node up with its CAS. -/
lemma Owned.link (h : Owned s cs) (hinv : Inv s cs vs) {t n : Addr}
    (hp : s.producers p = .link t n) :
    Owned (linkTail s p t n) cs ∧ HeapMove s (linkTail s p t n) (.link p) := by
  obtain ⟨htcs, -, -⟩ := hinv.shape.pending p t n hp
  obtain ⟨nd, hnd⟩ := Option.isSome_iff_exists.mp (hinv.shape.live t htcs)
  have heq : linkTail s p t n =
      (s.setNode t (some { nd with next := some n })).setProducer p (.ret true) := by
    simp [linkTail, hnd]
  have hlive : ∀ b, (linkTail s p t n).Live b ↔ s.Live b := by
    intro b
    rw [heq]
    refine (live_setNode s t b _).trans ?_
    by_cases hb : b = t <;> simp [hb, State.Live, hnd]
  have hvalue : ∀ b, (linkTail s p t n).value b = s.value b := by
    intro b
    rw [heq]
    refine (value_setNode s t b _).trans ?_
    by_cases hb : b = t <;> simp [hb, State.value, hnd]
  have howner : ∀ a, s.Owner cs a → (linkTail s p t n).Owner cs a := by
    intro a ha
    rw [heq]
    refine ha.imp_right (Or.imp_left ?_)
    rintro ⟨q, v, hq⟩
    have hqp : q ≠ p := by
      rintro rfl
      rw [hp] at hq
      exact hq
    exact ⟨q, v, by simpa [State.setProducer, State.setNode, hqp] using hq⟩
  have hconsumer : (linkTail s p t n).consumer = s.consumer := by rw [heq]; rfl
  have hhead : (linkTail s p t n).mHead = s.mHead := by rw [heq]; rfl
  refine ⟨⟨fun a ha => howner a (h.owner a ((hlive a).mp ha)), fun hno => ?_, fun a next hc => ?_⟩,
    .keep hlive (fun b => ?_) fun _ => rfl⟩
  · rw [hconsumer] at hno
    rw [hvalue, hhead]
    exact h.stub hno
  · rw [hconsumer] at hc
    rw [hvalue]
    exact h.detached a next hc
  · unfold State.Full
    rw [hvalue]

end producer

section step
variable [DecidableEq P]

/-- What a step does to the heap, and that every node keeps its owner. -/
theorem Owned.step (h : Owned s cs) (hinv : Inv s cs vs) {a : Action P T}
    (hs : step s a = some s') :
    ∃ cs' vs', Inv s' cs' vs' ∧ Owned s' cs' ∧ HeapMove s s' a := by
  cases step_move hs with
  | @enqueue p v hp =>
    have hset : Inv (s.setProducer p (.alloc v)) cs vs :=
      hinv.setProducer (by simp [hp]) (by simp) (by rintro n w ⟨⟩)
    refine ⟨cs, vs, hset.history _ _, h.setProducer rfl rfl rfl rfl (fun _ ha => ha) ?_,
      .of_heap rfl fun _ => rfl⟩
    rw [hp]
    rintro n w ⟨⟩
  | noMemory hp =>
    refine ⟨cs, vs, hinv.setProducer (by simp [hp]) (by simp) (by rintro n w ⟨⟩),
      h.setProducer rfl rfl rfl rfl (fun _ ha => ha) ?_, .of_heap rfl fun _ => rfl⟩
    rw [hp]
    rintro n w ⟨⟩
  | alloc hp hn => exact ⟨cs, vs, hinv.alloc hp hn, h.alloc hinv hp hn⟩
  | @loadTail p n v hp =>
    have hsame : ∀ m w, (s.producers p).Holds m w → (EnqueuePc.cas n v s.mTail).Holds m w := by
      rw [hp]
      exact fun m w hm => hm
    refine ⟨cs, vs, hinv.setProducer (by simp [hp]) (by simp) ?_,
      h.setProducer rfl rfl rfl rfl (fun _ ha => ha) fun m w hm => Or.inl (hsame m w hm),
      .of_heap rfl fun _ => rfl⟩
    rw [hp]
    exact fun m w hm => hm
  | reject hp => exact ⟨cs, vs, hinv.reject hp, h.reject hinv hp⟩
  | @push p n t v hp ht =>
    refine ⟨cs ++ [n], vs ++ [v], hinv.push hp ht rfl,
      h.setProducer rfl rfl rfl rfl (fun _ ha => List.mem_append_left _ ha) ?_,
      .of_heap rfl (by simp [record, hp])⟩
    rw [hp]
    rintro m w ⟨rfl, -⟩
    exact Or.inr (List.mem_append_right _ (List.mem_singleton.mpr rfl))
  | retry hp _ =>
    refine ⟨cs, vs, hinv.setProducer (by simp [hp]) (by simp) ?_,
      h.setProducer rfl rfl rfl rfl (fun _ ha => ha) ?_, .of_heap rfl (by simp [record, hp])⟩
    · rw [hp]
      exact fun m w hm => hm
    · rw [hp]
      exact fun m w hm => Or.inl hm
  | link hp => exact ⟨cs, vs, hinv.link hp, h.link hinv hp⟩
  | @enqueueRet p ok hp =>
    have hset : Inv (s.setProducer p .idle) cs vs :=
      hinv.setProducer (by simp [hp]) (by simp) (by rintro n w ⟨⟩)
    refine ⟨cs, vs, hset.history _ _, h.setProducer rfl rfl rfl rfl (fun _ ha => ha) ?_,
      .of_heap rfl fun _ => rfl⟩
    rw [hp]
    rintro n w ⟨⟩
  | tryDequeue hc | waitDequeue hc =>
    exact ⟨cs, vs, hinv.setConsumer trivial (by rw [hc]; rfl),
      h.setConsumer (by rw [hc]; rfl) rfl, .of_heap rfl fun _ => rfl⟩
  | consumer hs => exact h.consumerStep hinv hs
  | stop =>
    exact ⟨cs, vs, hinv.stop, h.of_heap rfl rfl (fun _ ha => ha) rfl fun _ _ hc => hc,
      .of_heap rfl fun _ => rfl⟩

omit [DecidableEq P] in
lemma owned_init (stub : Addr) : Owned (init P T stub) [stub] := by
  refine ⟨fun a ha => Or.inl ?_, fun _ => by simp [State.value, init], by simp [init]⟩
  by_contra hne
  simp [State.Live, init, Function.update_of_ne (by simpa using hne : a ≠ stub)] at ha

omit [DecidableEq P] in
lemma balanced_init (stub : Addr) :
    (recordInit stub).Balanced (init P T stub).Live (init P T stub).Full := by
  have hempty : (Ledger.empty : Ledger Addr).Balanced (fun _ => False) fun _ => False :=
    Ledger.balanced_empty
  refine hempty.new id (fun b => ?_) (fun b hb => ?_) ?_
  · by_cases hb : b = stub <;> simp [State.Live, init, hb]
  · simp [State.Full, State.value, init, hb]
  · simp [State.Full, State.value, init]

end step

end Scoro.AtomicQueue

import Scoro.Queue.Chain

/-!
# The invariant of the queue

`Inv s cs vs` holds with the chain `cs` from `m_head` and the values `vs` that it still
carries. It says which node belongs to whom: a node is on the chain, or held by one producer
that has not swung `m_tail` to it yet, or detached by the consumer that is about to delete it.
Every step keeps it, so no step ever touches a deleted node.
-/

namespace Scoro.AtomicQueue
open Scoro.Lib

variable {P T : Type*}

/-- The producer has a node at `n`, with value `v`, that nobody else can reach. -/
def EnqueuePc.Holds : EnqueuePc T → Addr → T → Prop
  | .loadTail n v, n', v' => n = n' ∧ v = v'
  | .cas n v _, n', v' => n = n' ∧ v = v'
  | _, _, _ => False

namespace State

def delivered (s : State P T) : List T := s.returned.filterMap id

/-- The value that the consumer has taken off the chain but not yet returned. -/
def handOf (s : State P T) : DequeuePc T → List T
  | .deleteHead _ n => (s.value n).toList
  | .moveValue n => (s.value n).toList
  | .ret r => r.toList
  | _ => []

def removed (s : State P T) : List T := s.delivered ++ s.handOf s.consumer

def acceptedValues (s : State P T) : List T := s.accepted.map Ticket.value

/-- What the consumer's local copies say about the queue. -/
def PcOk (s : State P T) (cs : List Addr) : DequeuePc T → Prop
  | .tryLoadNext head | .waitLoadTail head | .waitLoadNext head _ | .reloadNext head =>
    head = s.mHead
  | .waitTest head _ next | .reloadTail head next =>
    head = s.mHead ∧ ∀ n, next = some n → s.next head = some n
  | .storeHead head next => head = s.mHead ∧ s.next head = some next
  | .deleteHead head next =>
    next = s.mHead ∧ (∃ v, s.value next = some v) ∧ s.Live head ∧ head ∉ cs ∧
      ∀ p v, ¬(s.producers p).Holds head v
  | .moveValue next => next = s.mHead ∧ ∃ v, s.value next = some v
  | _ => True

end State

structure Inv (s : State P T) (cs : List Addr) (vs : List T) : Prop where
  shape : Shape s cs
  node : ∀ p n v, (s.producers p).Holds n v → s.heap n = some ⟨none, some v⟩ ∧ n ∉ cs
  node_inj : ∀ p q n v w, (s.producers p).Holds n v → (s.producers q).Holds n w → p = q
  consumer : s.PcOk cs s.consumer
  values : cs.tail.map s.value = vs.map some
  accepted : s.acceptedValues = s.removed ++ vs
  fault : s.fault = false

variable {s s' : State P T} {cs : List Addr} {vs : List T}

/-- What a step does to the values on the chain: nothing, the CAS appends one, or the head
store takes the first one off. -/
inductive Effect (s s' : State P T) : List T → List T → Prop
  | none (vs : List T) (h : s'.acceptedValues = s.acceptedValues) : Effect s s' vs vs
  | insert (vs : List T) (v : T) (h : s'.acceptedValues = s.acceptedValues ++ [v]) :
      Effect s s' vs (vs ++ [v])
  | remove (v : T) (vs : List T) (h : s'.acceptedValues = s.acceptedValues) :
      Effect s s' (v :: vs) vs

lemma Inv.live_head (h : Inv s cs vs) : s.Live s.mHead := h.shape.live _ h.shape.head_mem

/-- The histories of calls and results play no part in the invariant. -/
lemma Inv.history (h : Inv s cs vs) (calls : P → List T) (results : P → List Bool) :
    Inv { s with calls := calls, results := results } cs vs :=
  ⟨h.shape.congr rfl rfl (Or.inr rfl) rfl, h.node, h.node_inj, h.consumer, h.values,
    h.accepted, h.fault⟩

/-- An empty chain is the stub alone, and `m_tail` points to it unless the queue is stopped. -/
lemma Inv.of_nil (h : Inv s cs []) :
    s.next s.mHead = none ∧ (s.mTail = none ∨ s.mTail = some s.mHead) := by
  have htl : cs.tail = [] := List.map_eq_nil_iff.mp h.values
  have hcs : cs = [s.mHead] := by rw [h.shape.eq_cons, htl]
  have hlast : cs.getLast? = some s.mHead := by rw [hcs]; rfl
  exact ⟨h.shape.last _ hlast, h.shape.tail.imp_right fun ht => ht.trans hlast⟩

/-- While there is a value on the chain, the first gap is the only thing that can hide it. -/
lemma Inv.of_cons {v : T} (h : Inv s cs (v :: vs)) :
    s.mTail ≠ some s.mHead ∧ ∃ n, s.Edge s.mHead n := by
  obtain ⟨n, rest, htl⟩ : ∃ n rest, cs.tail = n :: rest := by
    cases htl : cs.tail with
    | nil =>
      have hval := h.values
      rw [htl] at hval
      cases hval
    | cons n rest => exact ⟨n, rest, rfl⟩
  have hcs : cs = s.mHead :: n :: rest := by rw [h.shape.eq_cons, htl]
  refine ⟨fun ht => ?_, n, ?_⟩
  · have hlast : cs.getLast? = some s.mHead := by
      rcases h.shape.tail with hnone | heq
      · rw [ht] at hnone
        cases hnone
      · exact heq.symm.trans ht
    rw [hcs, List.getLast?_cons_cons] at hlast
    have hnodup := h.shape.nodup
    rw [hcs] at hnodup
    exact (List.nodup_cons.mp hnodup).1 (List.mem_of_getLast? hlast)
  · have hedges := h.shape.edges
    rw [hcs] at hedges
    exact (List.isChain_cons_cons.mp hedges).1

/-- A step of the consumer that stores nothing. -/
lemma Inv.setConsumer (h : Inv s cs vs) {pc : DequeuePc T} (hpc : s.PcOk cs pc)
    (hhand : s.handOf pc = s.handOf s.consumer) : Inv (s.setConsumer pc) cs vs := by
  refine ⟨h.shape.congr rfl rfl (Or.inr rfl) rfl, h.node, h.node_inj, ?_, h.values, ?_, h.fault⟩
  · cases pc <;> exact hpc
  · have hnew : (s.setConsumer pc).removed = s.delivered ++ s.handOf pc := by
      cases pc <;> rfl
    rw [hnew, hhand]
    exact h.accepted

lemma loadNext_of_live {a : Addr} (h : s.Live a) (k : Option Addr → DequeuePc T) :
    s.loadNext a k = s.setConsumer (k (s.next a)) := by
  obtain ⟨nd, hnd⟩ := Option.isSome_iff_exists.mp h
  simp [State.loadNext, State.next, hnd]

/-- The consumer's copies stay right while the node at `m_head` keeps its link and its value
and nobody takes the node that is about to be deleted. -/
lemma State.PcOk.mono {cs' : List Addr} {pc : DequeuePc T} (h : s.PcOk cs pc)
    (hhead : s'.mHead = s.mHead)
    (hnext : ∀ n, s.next s.mHead = some n → s'.next s.mHead = some n)
    (hval : s'.value s.mHead = s.value s.mHead)
    (hdet : ∀ a, s.Live a → a ∉ cs → (∀ p v, ¬(s.producers p).Holds a v) →
      s'.Live a ∧ a ∉ cs' ∧ ∀ p v, ¬(s'.producers p).Holds a v) : s'.PcOk cs' pc := by
  cases pc with
  | tryLoadNext head => exact h.trans hhead.symm
  | waitLoadTail head => exact h.trans hhead.symm
  | waitLoadNext head tail => exact h.trans hhead.symm
  | reloadNext head => exact h.trans hhead.symm
  | waitTest head tail next =>
    obtain ⟨rfl, hn⟩ := h
    exact ⟨hhead.symm, fun n hnn => hnext n (hn n hnn)⟩
  | reloadTail head next =>
    obtain ⟨rfl, hn⟩ := h
    exact ⟨hhead.symm, fun n hnn => hnext n (hn n hnn)⟩
  | storeHead head next =>
    obtain ⟨rfl, hn⟩ := h
    exact ⟨hhead.symm, hnext next hn⟩
  | deleteHead head next =>
    obtain ⟨rfl, ⟨v, hv⟩, hlive, hcs, hholds⟩ := h
    exact ⟨hhead.symm, ⟨v, hval.trans hv⟩, hdet head hlive hcs hholds⟩
  | moveValue next =>
    obtain ⟨rfl, v, hv⟩ := h
    exact ⟨hhead.symm, v, hval.trans hv⟩
  | _ => trivial

lemma handOf_congr {pc : DequeuePc T} (h : s.PcOk cs pc)
    (hval : s'.value s.mHead = s.value s.mHead) : s'.handOf pc = s.handOf pc := by
  cases pc with
  | deleteHead head next =>
    obtain ⟨rfl, -⟩ := h
    simp only [State.handOf, hval]
  | moveValue next =>
    obtain ⟨rfl, -⟩ := h
    simp only [State.handOf, hval]
  | _ => rfl

/-- What a step of a producer has to show. It leaves the consumer and `m_head` alone and
appends `new` to the accepted values. -/
lemma Inv.of_producer {cs' : List Addr} {new : List T} (h : Inv s cs vs)
    (shape : Shape s' cs')
    (node : ∀ p n v, (s'.producers p).Holds n v → s'.heap n = some ⟨none, some v⟩ ∧ n ∉ cs')
    (node_inj : ∀ p q n v w, (s'.producers p).Holds n v → (s'.producers q).Holds n w → p = q)
    (hconsumer : s'.consumer = s.consumer) (hhead : s'.mHead = s.mHead)
    (hnext : ∀ n, s.next s.mHead = some n → s'.next s.mHead = some n)
    (hval : s'.value s.mHead = s.value s.mHead)
    (hdet : ∀ a, s.Live a → a ∉ cs → (∀ p v, ¬(s.producers p).Holds a v) →
      s'.Live a ∧ a ∉ cs' ∧ ∀ p v, ¬(s'.producers p).Holds a v)
    (values : cs'.tail.map s'.value = (vs ++ new).map some)
    (haccepted : s'.acceptedValues = s.acceptedValues ++ new)
    (hreturned : s'.returned = s.returned) (hfault : s'.fault = s.fault) :
    Inv s' cs' (vs ++ new) := by
  refine ⟨shape, node, node_inj, ?_, values, ?_, hfault.trans h.fault⟩
  · rw [hconsumer]
    exact h.consumer.mono hhead hnext hval hdet
  · have hhand := handOf_congr h.consumer hval
    rw [haccepted, h.accepted, State.removed, State.removed, State.delivered, State.delivered,
      hconsumer, hreturned, hhand, List.append_assoc]

lemma next_setNode (s : State P T) (a b : Addr) (nd : Option (Node T)) :
    (s.setNode a nd).next b = if b = a then nd.bind Node.next else s.next b := by
  by_cases hb : b = a <;> simp [State.next, State.setNode, hb]

lemma value_setNode (s : State P T) (a b : Addr) (nd : Option (Node T)) :
    (s.setNode a nd).value b = if b = a then nd.bind Node.value else s.value b := by
  by_cases hb : b = a <;> simp [State.value, State.setNode, hb]

lemma live_setNode_of_ne {a b : Addr} (hb : b ≠ a) (nd : Option (Node T)) (h : s.Live b) :
    (s.setNode a nd).Live b := by
  simpa only [State.Live, State.setNode, Function.update_of_ne hb] using h

lemma map_value_setNode {cs : List Addr} {a : Addr} (h : a ∉ cs) (nd : Option (Node T)) :
    cs.map (s.setNode a nd).value = cs.map s.value := by
  refine List.map_congr_left fun b hb => ?_
  rw [value_setNode, if_neg (by rintro rfl; exact h hb)]

/-- The head store. The old stub is detached and the first value is in the consumer's hand. -/
lemma Inv.storeHead (h : Inv s cs vs) {head next : Addr}
    (hc : s.consumer = .storeHead head next) :
    ∃ cs' v vs', cs = s.mHead :: cs' ∧ vs = v :: vs' ∧
      Inv { s.setConsumer (.deleteHead head next) with mHead := next } cs' vs' := by
  have hpc := h.consumer
  rw [hc] at hpc
  obtain ⟨rfl, hnext⟩ := hpc
  have hpop : ∃ rest, cs = s.mHead :: next :: rest ∧
      Shape { s.setConsumer (.deleteHead s.mHead next) with mHead := next } (next :: rest) :=
    h.shape.pop hnext rfl rfl rfl rfl
  obtain ⟨rest, hcs, hshape⟩ := hpop
  have hvalues := h.values
  rw [hcs, List.tail_cons, List.map_cons] at hvalues
  obtain ⟨v, vs', rfl, hv, hvs⟩ := List.map_eq_cons_iff.mp hvalues.symm
  have hnotin : s.mHead ∉ next :: rest := by
    have hnodup := h.shape.nodup
    rw [hcs] at hnodup
    exact (List.nodup_cons.mp hnodup).1
  refine ⟨next :: rest, v, vs', hcs, rfl, hshape, ?_, h.node_inj, ?_, hvs.symm, ?_, h.fault⟩
  · intro p n w hp
    obtain ⟨hn, hncs⟩ := h.node p n w hp
    rw [hcs] at hncs
    exact ⟨hn, fun hmem => hncs (List.mem_cons_of_mem _ hmem)⟩
  · refine ⟨rfl, ⟨v, hv.symm⟩, h.live_head, hnotin, fun p w hp => ?_⟩
    exact (h.node p _ w hp).2 h.shape.head_mem
  · have hacc := h.accepted
    have hhand : s.handOf s.consumer = [] := by
      rw [hc]
      rfl
    have hhand' : ({ s.setConsumer (.deleteHead s.mHead next) with mHead := next } :
        State P T).removed = s.delivered ++ [v] := by
      change s.delivered ++ (s.value next).toList = _
      rw [← hv]
      rfl
    rw [State.removed, hhand, List.append_nil] at hacc
    rw [hhand', List.append_assoc]
    exact hacc

/-- `delete head`: nobody else refers to the detached node. -/
lemma Inv.deleteHead (h : Inv s cs vs) {head next : Addr}
    (hc : s.consumer = .deleteHead head next) :
    s.Live head ∧ Inv ((s.setNode head none).setConsumer (.moveValue next)) cs vs := by
  have hpc := h.consumer
  rw [hc] at hpc
  obtain ⟨rfl, hv, hlive, hhead, hfree⟩ := hpc
  have hmem : ∀ a ∈ cs, a ≠ head := by
    rintro a ha rfl
    exact hhead ha
  have hval : (s.setNode head none).value s.mHead = s.value s.mHead := by
    rw [value_setNode, if_neg (hmem _ h.shape.head_mem)]
  refine ⟨hlive, ?_, ?_, h.node_inj, ⟨rfl, ?_⟩, ?_, ?_, h.fault⟩
  · refine h.shape.frame rfl (Or.inr rfl) (fun a ha => ?_) (fun a ha => ?_) (fun _ _ _ => Iff.rfl)
    · exact (next_setNode s head a none).trans (if_neg (hmem a ha))
    · exact live_setNode_of_ne (hmem a ha) none (h.shape.live a ha)
  · intro p n w hp
    obtain ⟨hn, hncs⟩ := h.node p n w hp
    have hne : n ≠ head := by
      rintro rfl
      exact hfree p w hp
    exact ⟨(Function.update_of_ne hne ..).trans hn, hncs⟩
  · obtain ⟨v, hv⟩ := hv
    exact ⟨v, hval.trans hv⟩
  · rw [← h.values]
    exact map_value_setNode (fun hm => hhead (List.mem_of_mem_tail hm)) none
  · have hacc := h.accepted
    have hhand : ((s.setNode head none).setConsumer (.moveValue s.mHead)).removed = s.removed := by
      change s.delivered ++ ((s.setNode head none).value s.mHead).toList =
        s.delivered ++ s.handOf s.consumer
      rw [hval, hc]
      rfl
    rw [hhand]
    exact hacc

/-- The value moves from the node at `m_head` into the result. -/
lemma Inv.moveValue (h : Inv s cs vs) {next : Addr} (hc : s.consumer = .moveValue next) :
    ∃ v, s.value s.mHead = some v ∧ (moveValue s next).consumer = .ret (some v) ∧
      Inv (moveValue s next) cs vs := by
  have hpc := h.consumer
  rw [hc] at hpc
  obtain ⟨rfl, v, hv⟩ := hpc
  obtain ⟨⟨nx, w⟩, hnd⟩ := Option.isSome_iff_exists.mp h.live_head
  have hw : w = some v := by simpa [State.value, hnd] using hv
  subst hw
  have heq : AtomicQueue.moveValue s s.mHead =
      (s.setNode s.mHead (some ⟨nx, none⟩)).setConsumer (.ret (some v)) := by
    simp [AtomicQueue.moveValue, hnd]
  have hnext : ∀ a, (s.setNode s.mHead (some ⟨nx, none⟩)).next a = s.next a := by
    intro a
    rw [next_setNode]
    split
    · rename_i ha
      simp [State.next, ha, hnd]
    · rfl
  refine ⟨v, hv, by rw [heq]; rfl, ?_⟩
  rw [heq]
  refine ⟨?_, ?_, h.node_inj, trivial, ?_, ?_, h.fault⟩
  · refine h.shape.frame rfl (Or.inr rfl) (fun a _ => hnext a) (fun a ha => ?_)
      (fun _ _ _ => Iff.rfl)
    by_cases ham : a = s.mHead
    · simp [State.Live, State.setNode, State.setConsumer, ham]
    · exact live_setNode_of_ne ham _ (h.shape.live a ha)
  · intro p n w hp
    obtain ⟨hn, hncs⟩ := h.node p n w hp
    have hne : n ≠ s.mHead := by
      rintro rfl
      exact hncs h.shape.head_mem
    exact ⟨(Function.update_of_ne hne ..).trans hn, hncs⟩
  · have hnotin : s.mHead ∉ cs.tail := by
      have hnodup := h.shape.nodup
      rw [h.shape.eq_cons] at hnodup
      exact (List.nodup_cons.mp hnodup).1
    rw [← h.values]
    exact map_value_setNode hnotin _
  · have hacc := h.accepted
    have hhand : ((s.setNode s.mHead (some ⟨nx, none⟩)).setConsumer (.ret (some v))).removed =
        s.removed := by
      change s.delivered ++ [v] = s.delivered ++ s.handOf s.consumer
      rw [hc]
      change _ = s.delivered ++ (s.value s.mHead).toList
      rw [hv]
      rfl
    rw [hhand]
    exact hacc

/-- The call returns and its result enters the history. -/
lemma Inv.ret (h : Inv s cs vs) {r : Option T} (hc : s.consumer = .ret r) :
    Inv { s.setConsumer .idle with returned := s.returned ++ [r] } cs vs := by
  refine ⟨h.shape.congr rfl rfl (Or.inr rfl) rfl, h.node, h.node_inj, trivial, h.values, ?_,
    h.fault⟩
  have hacc := h.accepted
  have hremoved : ({ s.setConsumer .idle with returned := s.returned ++ [r] } :
      State P T).removed = s.removed := by
    simp only [State.removed, State.delivered, State.setConsumer, hc, List.filterMap_append]
    cases r <;> simp [State.handOf]
  rw [hremoved]
  exact hacc

/-- `stop` clears `m_tail`. -/
lemma Inv.stop (h : Inv s cs vs) : Inv { s with mTail := none } cs vs := by
  have hhand : ({ s with mTail := none } : State P T).handOf s.consumer = s.handOf s.consumer :=
    handOf_congr h.consumer rfl
  refine ⟨h.shape.congr rfl rfl (Or.inl rfl) rfl, h.node, h.node_inj, ?_, h.values, ?_, h.fault⟩
  · exact h.consumer.mono rfl (fun _ hn => hn) rfl fun a hl hcs hno => ⟨hl, hcs, hno⟩
  · change s.acceptedValues = s.delivered ++ _ ++ vs
    rw [hhand]
    exact h.accepted

/-- The steps of the consumer. Its copy of `head` is `m_head`, and the nodes it looks at are
live. -/
inductive ConsumerMove (s : State P T) : State P T → Prop
  | tryLoadHead (hc : s.consumer = .tryLoadHead) :
      ConsumerMove s (s.setConsumer (.tryLoadNext s.mHead))
  | tryEmpty (hc : s.consumer = .tryLoadNext s.mHead) (hn : s.next s.mHead = none) :
      ConsumerMove s (s.setConsumer (.ret none))
  | tryFound {n} (hc : s.consumer = .tryLoadNext s.mHead) (hn : s.next s.mHead = some n) :
      ConsumerMove s (s.setConsumer (.storeHead s.mHead n))
  | waitLoadHead (hc : s.consumer = .waitLoadHead) :
      ConsumerMove s (s.setConsumer (.waitLoadTail s.mHead))
  | waitLoadTail (hc : s.consumer = .waitLoadTail s.mHead) :
      ConsumerMove s (s.setConsumer (.waitLoadNext s.mHead s.mTail))
  | waitLoadNext {tail} (hc : s.consumer = .waitLoadNext s.mHead tail) :
      ConsumerMove s (s.setConsumer (.waitTest s.mHead tail (s.next s.mHead)))
  | found {tail n} (hc : s.consumer = .waitTest s.mHead tail (some n))
      (hn : s.next s.mHead = some n) : ConsumerMove s (s.setConsumer (.storeHead s.mHead n))
  | stopped (hc : s.consumer = .waitTest s.mHead none none) :
      ConsumerMove s (s.setConsumer (.ret none))
  | stub (hc : s.consumer = .waitTest s.mHead (some s.mHead) none) :
      ConsumerMove s (s.setConsumer (.wait s.mHead))
  | unlinked {tail} (hc : s.consumer = .waitTest s.mHead (some tail) none) (hne : tail ≠ s.mHead) :
      ConsumerMove s (s.setConsumer (.reloadTail s.mHead none))
  | wake {tail} (hc : s.consumer = .wait tail) (hne : s.mTail ≠ some tail) :
      ConsumerMove s (s.setConsumer .reloadHead)
  | reloadHead (hc : s.consumer = .reloadHead) :
      ConsumerMove s (s.setConsumer (.reloadNext s.mHead))
  | reloadNext (hc : s.consumer = .reloadNext s.mHead) :
      ConsumerMove s (s.setConsumer (.reloadTail s.mHead (s.next s.mHead)))
  | reloadTail {next} (hc : s.consumer = .reloadTail s.mHead next)
      (hn : ∀ n, next = some n → s.next s.mHead = some n) :
      ConsumerMove s (s.setConsumer (.waitTest s.mHead s.mTail next))
  | storeHead {next} (hc : s.consumer = .storeHead s.mHead next) :
      ConsumerMove s { s.setConsumer (.deleteHead s.mHead next) with mHead := next }
  | deleteHead {head next} (hc : s.consumer = .deleteHead head next) :
      ConsumerMove s ((s.setNode head none).setConsumer (.moveValue next))
  | moveValue {next v} (hc : s.consumer = .moveValue next)
      (hret : (moveValue s next).consumer = .ret (some v)) : ConsumerMove s (moveValue s next)
  | ret {r} (hc : s.consumer = .ret r) :
      ConsumerMove s { s.setConsumer .idle with returned := s.returned ++ [r] }

lemma Inv.move (h : Inv s cs vs) (hs : consumerStep s = some s') : ConsumerMove s s' := by
  have hpc := h.consumer
  cases hc : s.consumer <;> rw [hc] at hpc <;>
    simp only [consumerStep, hc, Option.some.injEq] at hs
  case idle => cases hs
  case tryLoadHead =>
    subst hs
    exact .tryLoadHead hc
  case tryLoadNext head =>
    subst hpc hs
    rw [loadNext_of_live h.live_head]
    cases hn : s.next s.mHead with
    | none => exact .tryEmpty hc hn
    | some n => exact .tryFound hc hn
  case waitLoadHead =>
    subst hs
    exact .waitLoadHead hc
  case waitLoadTail head =>
    subst hpc hs
    exact .waitLoadTail hc
  case waitLoadNext head tail =>
    subst hpc hs
    rw [loadNext_of_live h.live_head]
    exact .waitLoadNext hc
  case waitTest head tail next =>
    obtain ⟨rfl, hn⟩ := hpc
    cases next with
    | some n =>
      cases hs
      exact .found hc (hn n rfl)
    | none =>
      cases tail with
      | none =>
        cases hs
        exact .stopped hc
      | some tail =>
        cases hs
        split
        · rename_i heq
          subst heq
          exact .stub hc
        · rename_i hne
          exact .unlinked hc (Ne.symm hne)
  case wait tail =>
    split at hs <;> cases hs
    rename_i hne
    exact .wake hc hne
  case reloadHead =>
    subst hs
    exact .reloadHead hc
  case reloadNext head =>
    subst hpc hs
    rw [loadNext_of_live h.live_head]
    exact .reloadNext hc
  case reloadTail head next =>
    obtain ⟨rfl, hn⟩ := hpc
    subst hs
    exact .reloadTail hc hn
  case storeHead head next =>
    obtain ⟨rfl, -⟩ := hpc
    subst hs
    exact .storeHead hc
  case deleteHead head next =>
    obtain ⟨nd, hnd⟩ := Option.isSome_iff_exists.mp (h.deleteHead hc).1
    rw [hnd] at hs
    cases hs
    exact .deleteHead hc
  case moveValue next =>
    obtain ⟨v, -, hret, -⟩ := h.moveValue hc
    subst hs
    exact .moveValue hc hret
  case ret r =>
    subst hs
    exact .ret hc

lemma moveValue_accepted (s : State P T) (a : Addr) :
    (moveValue s a).acceptedValues = s.acceptedValues := by
  unfold moveValue
  split <;> rfl

/-- Every step of the consumer keeps the invariant. -/
theorem Inv.consumerStep (h : Inv s cs vs) (hs : consumerStep s = some s') :
    ∃ cs' vs', Inv s' cs' vs' ∧ Effect s s' vs vs' := by
  have hgoto : ∀ pc, s.PcOk cs pc → s.handOf pc = s.handOf s.consumer →
      ∃ cs' vs', Inv (s.setConsumer pc) cs' vs' ∧ Effect s (s.setConsumer pc) vs vs' :=
    fun pc hpc hhand => ⟨cs, vs, h.setConsumer hpc hhand, .none vs rfl⟩
  cases h.move hs with
  | tryLoadHead hc => exact hgoto _ rfl (by rw [hc]; rfl)
  | tryEmpty hc _ => exact hgoto _ trivial (by rw [hc]; rfl)
  | tryFound hc hn => exact hgoto _ ⟨rfl, hn⟩ (by rw [hc]; rfl)
  | waitLoadHead hc => exact hgoto _ rfl (by rw [hc]; rfl)
  | waitLoadTail hc => exact hgoto _ rfl (by rw [hc]; rfl)
  | waitLoadNext hc => exact hgoto _ ⟨rfl, fun _ hn => hn⟩ (by rw [hc]; rfl)
  | found hc hn => exact hgoto _ ⟨rfl, hn⟩ (by rw [hc]; rfl)
  | stopped hc => exact hgoto _ trivial (by rw [hc]; rfl)
  | stub hc => exact hgoto _ trivial (by rw [hc]; rfl)
  | unlinked hc _ => exact hgoto _ ⟨rfl, by simp⟩ (by rw [hc]; rfl)
  | wake hc _ => exact hgoto _ trivial (by rw [hc]; rfl)
  | reloadHead hc => exact hgoto _ rfl (by rw [hc]; rfl)
  | reloadNext hc => exact hgoto _ ⟨rfl, fun _ hn => hn⟩ (by rw [hc]; rfl)
  | reloadTail hc hn => exact hgoto _ ⟨rfl, hn⟩ (by rw [hc]; rfl)
  | storeHead hc =>
    obtain ⟨cs', v, vs', -, rfl, hinv⟩ := h.storeHead hc
    exact ⟨cs', vs', hinv, .remove v vs' rfl⟩
  | deleteHead hc => exact ⟨cs, vs, (h.deleteHead hc).2, .none vs rfl⟩
  | moveValue hc _ =>
    obtain ⟨v, -, -, hinv⟩ := h.moveValue hc
    exact ⟨cs, vs, hinv, .none vs (moveValue_accepted ..)⟩
  | ret hc => exact ⟨cs, vs, h.ret hc, .none vs rfl⟩

section step
variable [DecidableEq P] {p : P}

lemma holds_update {s : State P T} {pc : EnqueuePc T} {q : P} {n : Addr} {v : T}
    (h : (Function.update s.producers p pc q).Holds n v) :
    q = p ∧ pc.Holds n v ∨ q ≠ p ∧ (s.producers q).Holds n v := by
  by_cases hqp : q = p
  · subst q
    rw [Function.update_self] at h
    exact Or.inl ⟨rfl, h⟩
  · rw [Function.update_of_ne hqp] at h
    exact Or.inr ⟨hqp, h⟩

/-- A producer's step that stores nothing. -/
lemma Inv.setProducer (h : Inv s cs vs) {pc : EnqueuePc T}
    (hold : ∀ t n, s.producers p ≠ .link t n) (hnew : ∀ t n, pc ≠ .link t n)
    (hsub : ∀ n v, pc.Holds n v → (s.producers p).Holds n v) :
    Inv (s.setProducer p pc) cs vs := by
  have hholds : ∀ q n v, ((s.setProducer p pc).producers q).Holds n v →
      (s.producers q).Holds n v := by
    intro q n v hq
    rcases holds_update hq with ⟨rfl, hpc⟩ | ⟨-, hq⟩
    · exact hsub n v hpc
    · exact hq
  have hinv : Inv (s.setProducer p pc) cs (vs ++ []) := h.of_producer
    (h.shape.frame rfl (Or.inr rfl) (fun _ _ => rfl) h.shape.live (link_setProducer_iff hold hnew))
    (fun q n v hq => h.node q n v (hholds q n v hq))
    (fun q r n v w hq hr => h.node_inj q r n v w (hholds q n v hq) (hholds r n w hr))
    rfl rfl (fun _ hn => hn) rfl
    (fun a hlive hcs hno => ⟨hlive, hcs, fun q v hq => hno q v (hholds q a v hq)⟩)
    (by rw [List.append_nil]; exact h.values)
    (by simp [State.acceptedValues, State.setProducer]) rfl rfl
  simpa using hinv

/-- A producer's step on a node `n` that is off the chain and that nobody else can reach. -/
lemma Inv.setHeld (h : Inv s cs vs) {pc : EnqueuePc T} {n : Addr} {nd : Option (Node T)}
    (hold : ∀ t n, s.producers p ≠ .link t n) (hnew : ∀ t n, pc ≠ .link t n) (hn : n ∉ cs)
    (hother : ∀ q w, q ≠ p → ¬(s.producers q).Holds n w)
    (hdet : s.Live n → ∃ w, (s.producers p).Holds n w)
    (hpc : ∀ m w, pc.Holds m w → m = n ∧ nd = some ⟨none, some w⟩) :
    Inv ((s.setNode n nd).setProducer p pc) cs vs := by
  have hmem : ∀ a ∈ cs, a ≠ n := by
    rintro a ha rfl
    exact hn ha
  have hmhead : s.mHead ≠ n := hmem _ h.shape.head_mem
  have hinv : Inv ((s.setNode n nd).setProducer p pc) cs (vs ++ []) :=
    h.of_producer ?_ ?_ ?_ rfl rfl
    ?_ ?_ ?_ ?_ (by simp [State.acceptedValues, State.setProducer, State.setNode]) rfl rfl
  · simpa using hinv
  · refine h.shape.frame rfl (Or.inr rfl) (fun a ha => ?_) (fun a ha => ?_)
      (link_setProducer_iff hold hnew)
    · exact (next_setNode s n a _).trans (if_neg (hmem a ha))
    · exact live_setNode_of_ne (hmem a ha) _ (h.shape.live a ha)
  · intro q m w hq
    rcases holds_update hq with ⟨rfl, hself⟩ | ⟨hqp, hq⟩
    · obtain ⟨rfl, rfl⟩ := hpc m w hself
      exact ⟨Function.update_self .., hn⟩
    · obtain ⟨hm, hmcs⟩ := h.node q m w hq
      have hmn : m ≠ n := by
        rintro rfl
        exact hother q w hqp hq
      exact ⟨(Function.update_of_ne hmn ..).trans hm, hmcs⟩
  · intro q r m w x hq hr
    rcases holds_update hq with ⟨hqp, hq⟩ | ⟨hqp, hq⟩ <;>
      rcases holds_update hr with ⟨hrp, hr⟩ | ⟨hrp, hr⟩
    · exact hqp.trans hrp.symm
    · rw [(hpc m w hq).1] at hr
      exact absurd hr (hother r x hrp)
    · rw [(hpc m x hr).1] at hq
      exact absurd hq (hother q w hqp)
    · exact h.node_inj q r m w x hq hr
  · intro m hm
    exact (next_setNode s n _ _).trans ((if_neg hmhead).trans hm)
  · exact (value_setNode s n _ _).trans (if_neg hmhead)
  · intro a hlive hacs hno
    have han : a ≠ n := by
      rintro rfl
      obtain ⟨w, hw⟩ := hdet hlive
      exact hno p w hw
    refine ⟨live_setNode_of_ne han _ hlive, hacs, fun q w hq => ?_⟩
    rcases holds_update hq with ⟨-, hq⟩ | ⟨-, hq⟩
    · exact han (hpc a w hq).1
    · exact hno q w hq
  · rw [List.append_nil, ← h.values]
    exact map_value_setNode (fun hm => hn (List.mem_of_mem_tail hm)) _

/-- `new` gives out an address that is not in use. -/
lemma Inv.alloc (h : Inv s cs vs) {n : Addr} {v : T} (hp : s.producers p = .alloc v)
    (hn : s.heap n = none) :
    Inv ((s.setNode n (some ⟨none, some v⟩)).setProducer p (.loadTail n v)) cs vs := by
  have hdead : ¬s.Live n := by simp [State.Live, hn]
  refine h.setHeld (by simp [hp]) (by simp) (fun hmem => hdead (h.shape.live n hmem)) ?_
    (fun hlive => absurd hlive hdead) ?_
  · intro q w _ hq
    have := (h.node q n w hq).1
    rw [hn] at this
    cases this
  · rintro m w ⟨rfl, rfl⟩
    exact ⟨rfl, rfl⟩

/-- The queue has been stopped and the producer deletes its own node. -/
lemma Inv.reject (h : Inv s cs vs) {n : Addr} {v : T} {tail : Option Addr}
    (hp : s.producers p = .cas n v tail) : Inv (rejectNode s p n) cs vs := by
  have hholds : (s.producers p).Holds n v := by
    rw [hp]
    exact ⟨rfl, rfl⟩
  obtain ⟨hnode, hn⟩ := h.node p n v hholds
  have heq : rejectNode s p n = (s.setNode n none).setProducer p (.ret false) := by
    simp [rejectNode, hnode]
  rw [heq]
  refine h.setHeld (by simp [hp]) (by simp) hn ?_ (fun _ => ⟨v, hholds⟩) ?_
  · exact fun q w hqp hq => hqp (h.node_inj q p n w v hq hholds)
  · rintro m w ⟨⟩

/-- The successful CAS appends the producer's value. -/
lemma Inv.push (h : Inv s cs vs) {t n : Addr} {v : T} {tail : Option Addr} {ticket : Ticket P T}
    (hp : s.producers p = .cas n v tail) (ht : s.mTail = some t) (hv : ticket.value = v) :
    Inv { s.setProducer p (.link t n) with
      mTail := some n, accepted := s.accepted ++ [ticket] } (cs ++ [n]) (vs ++ [v]) := by
  have hholds : (s.producers p).Holds n v := by
    rw [hp]
    exact ⟨rfl, rfl⟩
  obtain ⟨hnode, hn⟩ := h.node p n v hholds
  have hlive : s.Live n := by simp [State.Live, hnode]
  have hother : ∀ q m w, (Function.update s.producers p (.link t n) q).Holds m w →
      q ≠ p ∧ (s.producers q).Holds m w := by
    intro q m w hq
    rcases holds_update hq with ⟨-, ⟨⟩⟩ | hq
    exact hq
  refine h.of_producer ?_ ?_ ?_ rfl rfl (fun _ hm => hm) rfl ?_ ?_ ?_ rfl rfl
  · exact h.shape.push ht hn hlive (by simp [State.next, hnode]) (by simp [hp]) rfl rfl rfl rfl
  · intro q m w hq
    obtain ⟨hqp, hq⟩ := hother q m w hq
    obtain ⟨hm, hmcs⟩ := h.node q m w hq
    refine ⟨hm, fun hmem => ?_⟩
    rcases List.mem_append.mp hmem with hmem | hmem
    · exact hmcs hmem
    · rw [List.mem_singleton.mp hmem] at hq
      exact hqp (h.node_inj q p n w v hq hholds)
  · exact fun q r m w x hq hr => h.node_inj q r m w x (hother q m w hq).2 (hother r m x hr).2
  · intro a hlive hacs hno
    refine ⟨hlive, fun hmem => ?_, fun q w hq => hno q w (hother q a w hq).2⟩
    rcases List.mem_append.mp hmem with hmem | hmem
    · exact hacs hmem
    · rw [List.mem_singleton.mp hmem] at hno
      exact hno p v hholds
  · have htl : (cs ++ [n]).tail = cs.tail ++ [n] := by
      rw [h.shape.eq_cons, List.cons_append, List.tail_cons, List.tail_cons]
    have hval : s.value n = some v := by simp [State.value, hnode]
    rw [htl, List.map_append, List.map_append]
    exact congrArg₂ _ h.values (by simp [← hval, State.value, State.setProducer])
  · simp [State.acceptedValues, hv]

/-- The link store. The node it writes to is still on the chain, hence alive. -/
lemma Inv.link (h : Inv s cs vs) {t n : Addr} (hp : s.producers p = .link t n) :
    Inv (linkTail s p t n) cs vs := by
  obtain ⟨htcs, htnone, -⟩ := h.shape.pending p t n hp
  obtain ⟨nd, hnd⟩ := Option.isSome_iff_exists.mp (h.shape.live t htcs)
  have heq : linkTail s p t n =
      (s.setNode t (some { nd with next := some n })).setProducer p (.ret true) := by
    simp [linkTail, hnd]
  have hvalue : ∀ a, (linkTail s p t n).value a = s.value a := by
    intro a
    rw [heq]
    refine (value_setNode s t a _).trans ?_
    split
    · rename_i ha
      simp [State.value, ha, hnd]
    · rfl
  have hnext : ∀ a, (linkTail s p t n).next a = if a = t then some n else s.next a := by
    intro a
    rw [heq]
    exact next_setNode s t a _
  have hlive : ∀ a, s.Live a → (linkTail s p t n).Live a := by
    intro a ha
    rw [heq]
    by_cases hat : a = t
    · simp [State.Live, State.setProducer, State.setNode, hat]
    · exact live_setNode_of_ne hat _ ha
  have hprod : (linkTail s p t n).producers = Function.update s.producers p (.ret true) := by
    rw [heq]
    rfl
  have hother : ∀ q m w, ((linkTail s p t n).producers q).Holds m w →
      (s.producers q).Holds m w := by
    intro q m w hq
    rw [hprod] at hq
    rcases holds_update hq with ⟨-, ⟨⟩⟩ | ⟨-, hq⟩
    exact hq
  have hinv : Inv (linkTail s p t n) cs (vs ++ []) := h.of_producer ?_ ?_ ?_
    (by rw [heq]; rfl) (by rw [heq]; rfl) ?_ (hvalue _) ?_ ?_
    (by rw [heq]; simp [State.acceptedValues, State.setProducer, State.setNode])
    (by rw [heq]; rfl) (by rw [heq]; rfl)
  · simpa using hinv
  · exact h.shape.link hp (by simp) (by rw [heq]; rfl) (by rw [heq]; rfl) hnext
      (fun a ha => hlive a (h.shape.live a ha)) hprod
  · intro q m w hq
    obtain ⟨hm, hmcs⟩ := h.node q m w (hother q m w hq)
    have hmt : m ≠ t := by
      rintro rfl
      exact hmcs htcs
    refine ⟨?_, hmcs⟩
    rw [heq]
    exact (Function.update_of_ne hmt ..).trans hm
  · exact fun q r m w x hq hr => h.node_inj q r m w x (hother q m w hq) (hother r m x hr)
  · intro m hm
    rw [hnext, if_neg, hm]
    intro heq
    rw [heq, htnone] at hm
    cases hm
  · exact fun a ha hacs hno => ⟨hlive a ha, hacs, fun q w hq => hno q w (hother q a w hq)⟩
  · rw [List.append_nil, ← h.values]
    exact List.map_congr_left fun a _ => hvalue a

omit [DecidableEq P] in
/-- The invariant fixes the values taken off by those accepted and those still there. -/
lemma Inv.removed_eq {cs' : List Addr} {vs' rem : List T} (h : Inv s' cs' vs')
    (hacc : s'.acceptedValues = rem ++ vs') : s'.removed = rem :=
  List.append_cancel_right (h.accepted.symm.trans hacc)

lemma rejectNode_accepted (s : State P T) (p : P) (n : Addr) :
    (rejectNode s p n).acceptedValues = s.acceptedValues := by
  unfold rejectNode
  split <;> rfl

lemma linkTail_accepted (s : State P T) (p : P) (t n : Addr) :
    (linkTail s p t n).acceptedValues = s.acceptedValues := by
  unfold linkTail
  split <;> rfl

/-- Every step keeps the invariant. -/
theorem Inv.step (h : Inv s cs vs) {a : Action P T} (hs : step s a = some s') :
    ∃ cs' vs', Inv s' cs' vs' ∧ Effect s s' vs vs' := by
  cases step_move hs with
  | @enqueue p v hp =>
    have hinv : Inv (s.setProducer p (.alloc v)) cs vs :=
      h.setProducer (by simp [hp]) (by simp) (by rintro n w ⟨⟩)
    exact ⟨cs, vs, hinv.history _ _, .none vs rfl⟩
  | noMemory hp =>
    refine ⟨cs, vs, h.setProducer (by simp [hp]) (by simp) ?_, .none vs rfl⟩
    rintro n w ⟨⟩
  | alloc hp hn => exact ⟨cs, vs, h.alloc hp hn, .none vs rfl⟩
  | loadTail hp =>
    refine ⟨cs, vs, h.setProducer (by simp [hp]) (by simp) ?_, .none vs rfl⟩
    rw [hp]
    exact fun m w hm => hm
  | reject hp => exact ⟨cs, vs, h.reject hp, .none vs (rejectNode_accepted ..)⟩
  | @push p n t v hp ht =>
    exact ⟨cs ++ [n], vs ++ [v], h.push hp ht rfl, .insert vs v (by simp [State.acceptedValues])⟩
  | retry hp _ =>
    refine ⟨cs, vs, h.setProducer (by simp [hp]) (by simp) ?_, .none vs rfl⟩
    rw [hp]
    exact fun m w hm => hm
  | link hp => exact ⟨cs, vs, h.link hp, .none vs (linkTail_accepted ..)⟩
  | @enqueueRet p ok hp =>
    have hinv : Inv (s.setProducer p .idle) cs vs :=
      h.setProducer (by simp [hp]) (by simp) (by rintro n w ⟨⟩)
    exact ⟨cs, vs, hinv.history _ _, .none vs rfl⟩
  | tryDequeue hc | waitDequeue hc =>
    exact ⟨cs, vs, h.setConsumer trivial (by rw [hc]; rfl), .none vs rfl⟩
  | consumer hs => exact h.consumerStep hs
  | stop => exact ⟨cs, vs, h.stop, .none vs rfl⟩

variable {stub : Addr} {C : State P T → Action P T → Prop}

omit [DecidableEq P] in
lemma inv_init : Inv (init P T stub) [stub] [] := by
  refine ⟨⟨rfl, List.nodup_singleton stub, ?_, List.isChain_singleton stub, ?_, Or.inr rfl, ?_, ?_⟩,
    ?_, ?_, trivial, rfl, rfl, rfl⟩
  · intro a ha
    simp [State.Live, init, List.mem_singleton.mp ha]
  · intro a ha
    simp only [List.getLast?_singleton, Option.some.injEq] at ha
    simp [State.next, init, ← ha]
  all_goals simp [init, EnqueuePc.Holds]

/-- The invariant holds in every reachable state. -/
theorem reaches_inv (h : (system P T stub).Reaches C s) : ∃ cs vs, Inv s cs vs := by
  refine h.invariant (I := fun s => ∃ cs vs, Inv s cs vs) ⟨[stub], [], inv_init⟩ ?_
  rintro s a s' - ⟨cs, vs, hinv⟩ - hs
  obtain ⟨cs', vs', hinv', -⟩ := hinv.step hs
  exact ⟨cs', vs', hinv'⟩

/-- No step reads or writes a deleted node, deletes one twice or moves out a value twice. -/
theorem reaches_no_fault (h : (system P T stub).Reaches C s) : s.fault = false := by
  obtain ⟨cs, vs, hinv⟩ := reaches_inv h
  exact hinv.fault

end step

end Scoro.AtomicQueue

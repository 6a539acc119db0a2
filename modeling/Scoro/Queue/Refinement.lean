import Scoro.Queue.History

/-!
# The queue refines a FIFO queue

The successful CAS on `m_tail` is the insertion and the head store is the removal. Every other
step leaves the abstract queue as it is. Without open links the consumer alone can take out
all that has been accepted.
-/

namespace Scoro.AtomicQueue
open Scoro.Lib

variable {P T : Type*} {s s' : State P T} {cs : List Addr} {vs : List T}

namespace State

/-- The abstract queue of a state. -/
def fifo (s : State P T) : Fifo T :=
  ⟨s.acceptedValues, s.removed, s.acceptedValues.drop s.removed.length⟩

/-- No producer stands between its CAS and its link store. -/
def NoPending (s : State P T) : Prop := ∀ p t n, s.producers p ≠ .link t n

end State

lemma Inv.fifo_eq (h : Inv s cs vs) : s.fifo = ⟨s.acceptedValues, s.removed, vs⟩ := by
  simp [State.fifo, h.accepted]

lemma Inv.delivered_prefix (h : Inv s cs vs) : s.delivered <+: s.acceptedValues := by
  rw [h.accepted, State.removed, List.append_assoc]
  exact List.prefix_append _ _

/-- Without open links the first value on the chain can be taken. -/
lemma Inv.next_head {v : T} (h : Inv s cs (v :: vs)) (hno : s.NoPending) :
    ∃ n, s.next s.mHead = some n := by
  obtain ⟨-, n, hn | ⟨-, p, hp⟩⟩ := h.of_cons
  · exact ⟨n, hn⟩
  · exact absurd hp (hno p _ n)

section run
variable [DecidableEq P] {stub : Addr}

/-- Every step of the queue is a step of the abstract queue or no step of it. -/
theorem refines_fifo (C : State P T → Action P T → Prop) :
    System.Refines (system P T stub) C (Fifo.system T) (fun _ _ => True) State.fifo where
  init := rfl
  step := by
    intro s a s' run _ hstep
    obtain ⟨cs, vs, hinv⟩ := reaches_inv run
    obtain ⟨cs', vs', hinv', heff⟩ := hinv.step hstep
    rw [hinv.fifo_eq, hinv'.fifo_eq]
    have hacc := hinv.accepted
    cases heff with
    | none _ h =>
      left
      rw [h, hinv'.removed_eq (h.trans hacc)]
    | insert _ v h =>
      right
      refine ⟨.insert v, trivial, ?_⟩
      have hrem : s'.removed = s.removed :=
        hinv'.removed_eq (by rw [h, hacc, List.append_assoc])
      rw [h, hrem]
      rfl
    | remove v _ h =>
      right
      refine ⟨.remove, trivial, ?_⟩
      have hrem : s'.removed = s.removed ++ [v] :=
        hinv'.removed_eq (by rw [h, hacc, List.append_assoc]; rfl)
      rw [h, hrem]
      rfl

/-- The consumer alone calls `try_dequeue` until a call returns `nullopt`. -/
def drain : ℕ → State P T → Option (State P T)
  | 0, _ => none
  | fuel + 1, s =>
    match s.consumer with
    | .idle => (step s .tryDequeue).bind (drain fuel)
    | .ret none => consumerStep s
    | _ => (consumerStep s).bind (drain fuel)

lemma drain_step {t : State P T} (hidle : s.consumer ≠ .idle) (hret : s.consumer ≠ .ret none)
    (hs : consumerStep s = some t) (fuel : ℕ) : drain (fuel + 1) s = drain fuel t := by
  rw [drain]
  split
  · exact absurd ‹_› hidle
  · exact absurd ‹_› hret
  · rw [hs, Option.bind_some]

/-- The first two steps of a call, up to the test `next == nullptr`. -/
lemma drain_call (h : Inv s cs vs) (hc : s.consumer = .idle) (fuel : ℕ) :
    drain (fuel + 3) s = drain fuel (s.setConsumer (match s.next s.mHead with
      | none => .ret none
      | some next => .storeHead s.mHead next)) := by
  have hcall : step s .tryDequeue = some (s.setConsumer .tryLoadHead) := by simp [step, hc]
  rw [drain, hc]
  simp only [hcall, Option.bind_some]
  rw [drain_step (t := s.setConsumer (.tryLoadNext s.mHead)) (by simp [State.setConsumer])
    (by simp [State.setConsumer]) rfl]
  refine drain_step (by simp [State.setConsumer]) (by simp [State.setConsumer]) ?_ fuel
  exact congrArg some (loadNext_of_live (s := s.setConsumer (.tryLoadNext s.mHead)) h.live_head _)

/-- On an empty queue the call returns `nullopt`. -/
lemma drain_nil (h : Inv s cs []) (hc : s.consumer = .idle) :
    drain 4 s = some { s with returned := s.returned ++ [none] } := by
  rw [drain_call h hc 1, h.of_nil.1]
  simp [drain, consumerStep, State.setConsumer, hc]

/-- One call takes the first value off the chain. -/
lemma drain_cons {v : T} (h : Inv s cs (v :: vs)) (hc : s.consumer = .idle)
    (hno : s.NoPending) : ∃ s' cs', (∀ fuel, drain (fuel + 7) s = drain fuel s') ∧
      Inv s' cs' vs ∧ s'.consumer = .idle ∧ s'.NoPending ∧
      s'.returned = s.returned ++ [some v] ∧ s'.acceptedValues = s.acceptedValues := by
  obtain ⟨n, hn⟩ := h.next_head hno
  have hstart : Inv (s.setConsumer (.storeHead s.mHead n)) cs (v :: vs) :=
    h.setConsumer ⟨rfl, hn⟩ (by rw [hc]; rfl)
  obtain ⟨cs₁, w, vs', -, hvs, hstore⟩ := hstart.storeHead rfl
  obtain ⟨rfl, rfl⟩ := List.cons.inj hvs
  obtain ⟨hlive, hdelete⟩ := hstore.deleteHead rfl
  obtain ⟨u, -, hret, hmove⟩ := hdelete.moveValue rfl
  obtain ⟨nd, hnd⟩ := Option.isSome_iff_exists.mp hlive
  set s₁ := { (s.setConsumer (.storeHead s.mHead n)).setConsumer (.deleteHead s.mHead n) with
    mHead := n } with hs₁
  set s₂ := (s₁.setNode s.mHead none).setConsumer (.moveValue n) with hs₂
  have hfields : (moveValue s₂ n).producers = s.producers ∧
      (moveValue s₂ n).returned = s.returned := by
    unfold moveValue
    split <;> exact ⟨rfl, rfl⟩
  have hlast := hmove.ret hret
  refine ⟨_, _, fun fuel => ?_, hlast, rfl, ?_, ?_, ?_⟩
  · have hdel : consumerStep s₁ = some s₂ := by
      have hnd₁ : s₁.heap s.mHead = some nd := hnd
      have hc₁ : s₁.consumer = .deleteHead s.mHead n := rfl
      rw [consumerStep, hc₁]
      simp only [hnd₁, hs₂]
    rw [drain_call h hc (fuel + 4), hn]
    rw [drain_step (t := s₁) (by simp [State.setConsumer]) (by simp [State.setConsumer]) rfl]
    rw [drain_step (t := s₂) (by simp [hs₁, State.setConsumer]) (by simp [hs₁, State.setConsumer])
      hdel]
    rw [drain_step (t := moveValue s₂ n) (by simp [hs₂, State.setConsumer])
      (by simp [hs₂, State.setConsumer]) rfl]
    exact drain_step (by simp [hret]) (by simp [hret]) (by rw [consumerStep, hret]) fuel
  · intro p t m
    change (moveValue s₂ n).producers p ≠ _
    rw [hfields.1]
    exact hno p t m
  · -- the invariant before and after fixes the value that came out
    have hbefore : s.acceptedValues = s.delivered ++ v :: vs := by
      rw [h.accepted, State.removed, hc]
      simp [State.handOf]
    have hafter : s.acceptedValues = s.delivered ++ u :: vs := by
      have hacc : s.acceptedValues = (moveValue s₂ n).removed ++ vs :=
        (moveValue_accepted s₂ n).symm.trans hmove.accepted
      rw [hacc, State.removed, State.delivered, hfields.2, hret]
      simp [State.handOf, State.delivered]
    have huv : u = v := by
      have := List.append_cancel_left (hbefore.symm.trans hafter)
      exact (List.cons.inj this).1.symm
    change (moveValue s₂ n).returned ++ [some u] = _
    rw [hfields.2, huv]
  · exact moveValue_accepted s₂ n

/-- The consumer alone takes out everything that is on the chain. -/
lemma drain_all (h : Inv s cs vs) (hc : s.consumer = .idle) (hno : s.NoPending) :
    ∃ fuel s', drain fuel s = some s' ∧ s'.returned = s.returned ++ vs.map some ++ [none] ∧
      s'.acceptedValues = s.acceptedValues := by
  induction vs generalizing s cs with
  | nil => exact ⟨4, _, drain_nil h hc, by simp, rfl⟩
  | cons v vs ih =>
    obtain ⟨s₁, cs₁, hdrain, hinv, hidle, hno₁, hret, hacc⟩ := drain_cons h hc hno
    obtain ⟨fuel, s', hs', hret', hacc'⟩ := ih hinv hidle hno₁
    refine ⟨fuel + 7, s', (hdrain fuel).trans hs', ?_, hacc'.trans hacc⟩
    rw [hret', hret]
    simp

/-- What comes out is a prefix of what the CASes on `m_tail` put in, in their order. Each call
of `enqueue` puts in at most one value, its argument; one that has returned did so just if it
returned `true`; and the calls of one producer do so in their order. Without open links the
consumer alone gets exactly the remaining values before its first `nullopt`, stopped or not. -/
theorem atomic_queue_delivers_fifo (h : (system P T stub).Reachable s) :
    (Fifo.system T).Reachable s.fifo ∧
    s.delivered <+: s.acceptedValues ∧
    s.accepted.Pairwise (fun x y => x.producer = y.producer → x.call < y.call) ∧
    (∀ x ∈ s.accepted, (s.calls x.producer)[x.call]? = some x.value) ∧
    (∀ p k ok, (s.results p)[k]? = some ok →
      ((∃ x ∈ s.accepted, x.producer = p ∧ x.call = k) ↔ ok = true)) ∧
    (s.NoPending → s.consumer = .idle → ∃ fuel s' rest, drain fuel s = some s' ∧
      s'.returned = s.returned ++ rest.map some ++ [none] ∧
      s'.acceptedValues = s.acceptedValues ∧ s.acceptedValues = s.delivered ++ rest) := by
  obtain ⟨cs, vs, hinv⟩ := reaches_inv h
  have hhist := reaches_history h
  have hfifo : (Fifo.system T).Reachable s.fifo := (refines_fifo _).reaches h
  -- the order comes from the abstract queue, whose `removed` has the value in hand as well
  have hprefix : s.delivered <+: s.acceptedValues := by
    have heq : s.acceptedValues = s.removed ++ s.fifo.contents := Fifo.inserted_eq hfifo
    rw [heq, State.removed, List.append_assoc]
    exact List.prefix_append _ _
  refine ⟨hfifo, hprefix, hhist.order, hhist.tickets, ?_, ?_⟩
  · exact fun p k ok hk => hhist.returned_iff hk
  · intro hno hc
    obtain ⟨fuel, s', hs', hret, hacc⟩ := drain_all hinv hc hno
    refine ⟨fuel, s', vs, hs', hret, hacc, ?_⟩
    rw [hinv.accepted, State.removed, hc]
    simp [State.handOf]

end run

/-- Producer 1 swings `m_tail` second but stores its link first. One value is out. -/
def overtaking : List (Action (Fin 2) ℕ) :=
  [.enqueue 0 5, .enqueue 1 7, .alloc 0 (some 1), .alloc 1 (some 2), .loadTail 0, .loadTail 1,
    .cas 0 false, .cas 1 false, .cas 1 true, .cas 1 false, .link 1, .enqueueRet 1, .link 0,
    .enqueueRet 0, .tryDequeue, .consumer, .consumer, .consumer, .consumer, .consumer,
    .consumer]

theorem overtaking_delivers_fifo :
    ∃ s : State (Fin 2) ℕ, s.acceptedValues = [5, 7] ∧ s.delivered = [5] ∧
      (Fifo.system ℕ).Reachable s.fifo ∧ ∃ fuel s' rest, drain fuel s = some s' ∧
        s'.returned = s.returned ++ rest.map some ++ [none] ∧
        s.acceptedValues = s.delivered ++ rest := by
  obtain ⟨s, hs, hacc, hdel, hidle, hc⟩ := System.exists_reaches (S := system (Fin 2) ℕ 0)
    (fun _ _ => True) (fun s => s.acceptedValues = [5, 7] ∧ s.delivered = [5] ∧
      (∀ p, s.producers p = .idle) ∧ s.consumer = .idle) overtaking (by decide)
  obtain ⟨hfifo, -, -, -, -, hdrain⟩ := atomic_queue_delivers_fifo hs
  have hno : s.NoPending := by
    intro p t n
    rw [hidle p]
    exact fun h => by cases h
  obtain ⟨fuel, s', rest, hs', hret, -, hrest⟩ := hdrain hno hc
  exact ⟨s, hacc, hdel, hfifo, fuel, s', rest, hs', hret, hrest⟩

end Scoro.AtomicQueue

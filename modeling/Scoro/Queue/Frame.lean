import Scoro.Queue.History

/-!
# What the consumer can notice of the other threads

A step of a producer, or `stop`, leaves the consumer, `m_head` and the results alone. It does
not take back a link from `m_head`, and it changes `m_tail` only by a CAS that appends a node
or by clearing it.
-/

namespace Scoro.AtomicQueue
open Scoro.Lib

variable {P T : Type*} {s s' : State P T} {cs : List Addr} {vs : List T}

/-- What a step of another thread does to `m_tail`. -/
inductive TailEffect (s s' : State P T) (a : Action P T) : Prop
  | keep (tail : s'.mTail = s.mTail) (accepted : s'.accepted = s.accepted)
      (link : ∀ p t n, s'.producers p = .link t n → s.producers p = .link t n)
  | stop (hstop : a = .stop) (tail : s'.mTail = none) (accepted : s'.accepted = s.accepted)
      (producers : s'.producers = s.producers)
  | swing (t n : Addr) (old : s.mTail = some t) (new : s'.mTail = some n) (hn : n ≠ s.mHead)

structure OtherStep (s s' : State P T) (a : Action P T) : Prop where
  consumer : s'.consumer = s.consumer
  head : s'.mHead = s.mHead
  returned : s'.returned = s.returned
  next : ∀ n, s.next s.mHead = some n → s'.next s.mHead = some n
  tail : TailEffect s s' a

variable [DecidableEq P]

/-- A step of a producer that does not swing `m_tail`. -/
lemma OtherStep.of_producer {a : Action P T} {p : P} {pc : EnqueuePc T}
    (hpc : ∀ t n, pc ≠ .link t n) (hconsumer : s'.consumer = s.consumer)
    (hhead : s'.mHead = s.mHead) (hreturned : s'.returned = s.returned)
    (hnext : ∀ n, s.next s.mHead = some n → s'.next s.mHead = some n)
    (htail : s'.mTail = s.mTail) (haccepted : s'.accepted = s.accepted)
    (hprod : s'.producers = Function.update s.producers p pc) : OtherStep s s' a := by
  refine ⟨hconsumer, hhead, hreturned, hnext, .keep htail haccepted fun q t n hq => ?_⟩
  rw [hprod] at hq
  by_cases hqp : q = p
  · subst q
    rw [Function.update_self] at hq
    exact absurd hq (hpc t n)
  · rwa [Function.update_of_ne hqp] at hq

omit [DecidableEq P] in
/-- A node other than the one at `m_head` is written. -/
lemma next_head_setNode {b n : Addr} {nd : Option (Node T)} (hb : b ≠ s.mHead)
    (hn : s.next s.mHead = some n) : (s.setNode b nd).next s.mHead = some n := by
  rw [next_setNode, if_neg (Ne.symm hb)]
  exact hn

/-- The steps of all threads but the consumer. -/
lemma step_other (h : Inv s cs vs) {a : Action P T} (hs : step s a = some s')
    (hc : a ≠ .consumer) (htry : a ≠ .tryDequeue) (hwait : a ≠ .waitDequeue) :
    OtherStep s s' a := by
  have hself : ∀ n, s.next s.mHead = some n → s.next s.mHead = some n := fun _ hn => hn
  cases step_move hs with
  | enqueue v hp =>
    exact .of_producer (show ∀ t n, EnqueuePc.alloc v ≠ .link t n by simp) rfl rfl rfl hself rfl
      rfl rfl
  | noMemory hp | loadTail hp | retry hp _ =>
    exact .of_producer (by simp) rfl rfl rfl hself rfl rfl rfl
  | alloc hp hn =>
    refine .of_producer (by simp) rfl rfl rfl (fun m hm => ?_) rfl rfl rfl
    apply next_head_setNode _ hm
    rintro rfl
    simpa [State.Live, hn] using h.live_head
  | @reject p spurious n v hp =>
    obtain ⟨hnode, hn⟩ := h.node p n v (by rw [hp]; exact ⟨rfl, rfl⟩)
    simp only [rejectNode, hnode]
    refine .of_producer (by simp) rfl rfl rfl (fun m hm => next_head_setNode ?_ hm) rfl rfl rfl
    rintro rfl
    exact hn h.shape.head_mem
  | @push p n t v hp ht =>
    obtain ⟨-, hn⟩ := h.node p n v (by rw [hp]; exact ⟨rfl, rfl⟩)
    refine ⟨rfl, rfl, rfl, hself, .swing t n ht rfl ?_⟩
    rintro rfl
    exact hn h.shape.head_mem
  | @link p t n hp =>
    obtain ⟨htcs, htnone, -⟩ := h.shape.pending p t n hp
    obtain ⟨nd, hnd⟩ := Option.isSome_iff_exists.mp (h.shape.live t htcs)
    simp only [linkTail, hnd]
    refine .of_producer (by simp) rfl rfl rfl (fun m hm => ?_) rfl rfl rfl
    apply next_head_setNode _ hm
    -- the link that is stored was not there before
    rintro rfl
    rw [htnone] at hm
    cases hm
  | enqueueRet hp =>
    exact .of_producer (show ∀ t n, (EnqueuePc.idle : EnqueuePc T) ≠ .link t n by simp) rfl rfl
      rfl hself rfl rfl rfl
  | tryDequeue _ => exact absurd rfl htry
  | waitDequeue _ => exact absurd rfl hwait
  | consumer _ => exact absurd rfl hc
  | stop => exact ⟨rfl, rfl, rfl, hself, .stop rfl rfl rfl rfl⟩

/-- Only `stop` clears `m_tail`. -/
lemma reaches_mTail {stub : Addr} {C : State P T → Action P T → Prop}
    (hC : ∀ s a, C s a → a ≠ .stop) (h : (system P T stub).Reaches C s) : s.mTail ≠ none := by
  refine h.invariant (I := fun s => s.mTail ≠ none) (by simp [system, init]) ?_
  intro s a s' run ih hCa hs
  obtain ⟨cs, vs, hinv⟩ := reaches_inv run
  by_cases hc : a = .consumer
  · subst hc
    rwa [(consumerStep_frame hs).2.2.2.2]
  by_cases hcall : a = .tryDequeue ∨ a = .waitDequeue
  · rcases hcall with rfl | rfl <;>
    · simp only [system, step] at hs
      split at hs <;> cases hs
      exact ih
  · rw [not_or] at hcall
    cases (step_other hinv hs hc hcall.1 hcall.2).tail with
    | keep tail _ _ => rwa [tail]
    | stop hstop _ _ _ => exact absurd hstop (hC s a hCa)
    | swing t n _ new _ => simp [new]

/-- The producer whose step it is. -/
def Action.producer : Action P T → Option P
  | .enqueue p _ | .alloc p _ | .loadTail p | .cas p _ | .link p | .enqueueRet p => some p
  | _ => none

lemma step_other_of_producer (h : Inv s cs vs) {a : Action P T} (hs : step s a = some s')
    (ha : a.producer ≠ none) : OtherStep s s' a := by
  apply step_other h hs
  all_goals
    rintro rfl
    exact ha rfl

/-- A step leaves the other producers and their histories alone. -/
lemma step_producer_ne {a : Action P T} {q : P} (hs : step s a = some s')
    (hq : a.producer ≠ some q) : s'.producers q = s.producers q ∧ s'.calls q = s.calls q ∧
      s'.results q = s.results q := by
  have hne : ∀ {p : P}, some p ≠ some q → q ≠ p := by
    rintro p hp rfl
    exact hp rfl
  cases step_move hs with
  | enqueue v _ =>
    exact ⟨Function.update_of_ne (hne hq) .., Function.update_of_ne (hne hq) .., rfl⟩
  | noMemory _ | alloc _ _ | loadTail _ | push _ _ | retry _ _ =>
    exact ⟨Function.update_of_ne (hne hq) .., rfl, rfl⟩
  | reject _ =>
    unfold rejectNode
    split
    · exact ⟨Function.update_of_ne (hne hq) .., rfl, rfl⟩
    · exact ⟨rfl, rfl, rfl⟩
  | link _ =>
    unfold linkTail
    split
    · exact ⟨rfl, rfl, rfl⟩
    · exact ⟨Function.update_of_ne (hne hq) .., rfl, rfl⟩
  | enqueueRet _ =>
    exact ⟨Function.update_of_ne (hne hq) .., rfl, Function.update_of_ne (hne hq) ..⟩
  | tryDequeue _ | waitDequeue _ | stop => exact ⟨rfl, rfl, rfl⟩
  | consumer hs =>
    obtain ⟨hprod, hcalls, hresults, -⟩ := consumerStep_frame hs
    rw [hprod, hcalls, hresults]
    exact ⟨rfl, rfl, rfl⟩

/-- A step of a producer inside its call, which either goes on or returns. -/
lemma step_producer_self {a : Action P T} {p : P} (hs : step s a = some s')
    (hp : a.producer = some p) (hcall : ∀ v, a ≠ .enqueue p v) :
    s'.calls p = s.calls p ∧ (s'.producers p ≠ .idle ∧ s'.results p = s.results p ∨
      s'.producers p = .idle ∧ ∃ ok, s'.results p = s.results p ++ [ok]) := by
  cases step_move hs <;> cases hp
  case enqueue v hpc => exact absurd rfl (hcall v)
  case noMemory | alloc | loadTail | push | retry =>
    exact ⟨rfl, Or.inl ⟨by simp [State.setProducer], rfl⟩⟩
  case reject hpc =>
    unfold rejectNode
    split
    · exact ⟨rfl, Or.inl ⟨by simp [State.setProducer], rfl⟩⟩
    · exact ⟨rfl, Or.inl ⟨by simp [State.crash, hpc], rfl⟩⟩
  case link hpc =>
    unfold linkTail
    split
    · exact ⟨rfl, Or.inl ⟨by simp [State.crash, hpc], rfl⟩⟩
    · exact ⟨rfl, Or.inl ⟨by simp [State.setProducer], rfl⟩⟩
  case enqueueRet ok hpc => exact ⟨rfl, Or.inr ⟨by simp [State.setProducer], ok, by simp⟩⟩

/-- The call has met a null `m_tail` or a failed allocation. -/
def EnqueuePc.refused : EnqueuePc T → Bool
  | .cas _ _ none => true
  | .ret ok => !ok
  | _ => false

/-- Without `stop` and without a failing allocation every call of `enqueue` returns `true`. -/
theorem reaches_accepts {stub : Addr} {C : State P T → Action P T → Prop}
    (hC : ∀ s a, C s a → a ≠ .stop ∧ ∀ p, a ≠ .alloc p none)
    (h : (system P T stub).Reaches C s) (p : P) :
    (s.producers p).refused = false ∧ ∀ ok ∈ s.results p, ok = true := by
  refine h.invariant (I := fun s => (s.producers p).refused = false ∧ ∀ ok ∈ s.results p, ok = true)
    ⟨rfl, by simp [system, init]⟩ ?_
  rintro s a s' run ⟨ih, hres⟩ hCa hs
  have htail := reaches_mTail (fun s a ha => (hC s a ha).1) run
  by_cases hp : a.producer = some p
  · obtain ⟨t, ht⟩ := Option.ne_none_iff_exists'.mp htail
    cases step_move hs <;> cases hp
    case noMemory.refl => exact absurd rfl ((hC _ _ hCa).2 p)
    case enqueue.refl | alloc.refl | push.refl =>
      exact ⟨by simp [State.setProducer, EnqueuePc.refused], hres⟩
    case loadTail.refl | retry.refl =>
      exact ⟨by simp [State.setProducer, EnqueuePc.refused, ht], hres⟩
    case reject.refl hpc =>
      rw [hpc] at ih
      cases ih
    case link.refl =>
      unfold linkTail
      split
      · exact ⟨ih, hres⟩
      · exact ⟨by simp [State.setProducer, EnqueuePc.refused], hres⟩
    case enqueueRet.refl ok hpc =>
      rw [hpc] at ih
      refine ⟨by simp [State.setProducer, EnqueuePc.refused], fun b hb => ?_⟩
      simp only [Function.update_self, List.mem_append, List.mem_singleton] at hb
      rcases hb with hb | rfl
      · exact hres b hb
      · simpa [EnqueuePc.refused] using ih
  · obtain ⟨hprod, -, hresults⟩ := step_producer_ne hs hp
    rw [hprod, hresults]
    exact ⟨ih, hres⟩

/-- A call of `enqueue` by `p` has failed, and has returned or is about to. -/
def State.Failed (s : State P T) (p : P) : Prop :=
  s.producers p = .ret false ∨ false ∈ s.results p

omit [DecidableEq P] in
lemma eq_true_of_not_failed {p : P} {ok : Bool} (h : ¬s.Failed p) (hok : ok ∈ s.results p) :
    ok = true := by
  cases ok with
  | true => rfl
  | false => exact absurd (Or.inr hok) h

lemma Failed.step {a : Action P T} {p : P} (h : s.Failed p) (hs : step s a = some s') :
    s'.Failed p := by
  by_cases hp : a.producer = some p
  · cases step_move hs <;> cases hp
    case enqueue.refl hpc =>
      exact Or.inr (h.resolve_left (by simp [hpc]))
    case noMemory.refl => exact Or.inl (by simp [State.setProducer])
    case alloc.refl hpc | loadTail.refl hpc | push.refl hpc | retry.refl hpc =>
      exact Or.inr (h.resolve_left (by simp [hpc]))
    case reject.refl hpc =>
      have hold := h.resolve_left (by simp [hpc])
      unfold rejectNode
      split <;> exact Or.inr hold
    case link.refl hpc =>
      have hold := h.resolve_left (by simp [hpc])
      unfold linkTail
      split <;> exact Or.inr hold
    case enqueueRet.refl ok hpc =>
      refine Or.inr ?_
      simp only [Function.update_self, List.mem_append, List.mem_singleton]
      rcases h with hret | hold
      · rw [hpc] at hret
        cases hret
        exact Or.inr rfl
      · exact Or.inl hold
  · obtain ⟨hprod, -, hresults⟩ := step_producer_ne hs hp
    unfold State.Failed at h ⊢
    rwa [hprod, hresults]

end Scoro.AtomicQueue

import Scoro.Queue.Invariant

/-!
# The histories of the producers' calls

Each call of `enqueue` is named by its producer and its number among that producer's calls. A
call that swung `m_tail` has exactly one ticket, and it is the calls with a ticket that return
`true`. Tickets of one producer stand in the order of its calls.
-/

namespace Scoro.AtomicQueue
open Scoro.Lib

variable {P T : Type*}

namespace EnqueuePc

def calling : EnqueuePc T → ℕ
  | .idle => 0
  | _ => 1

/-- The argument of the call, as long as the value has not been published. -/
def arg : EnqueuePc T → Option T
  | .alloc v | .loadTail _ v | .cas _ v _ => some v
  | _ => none

/-- The call has swung `m_tail` to its node. -/
def swung : EnqueuePc T → Bool
  | .link _ _ => true
  | .ret ok => ok
  | _ => false

end EnqueuePc

structure History (s : State P T) : Prop where
  calls : ∀ p, (s.calls p).length = (s.results p).length + (s.producers p).calling
  arg : ∀ p v, (s.producers p).arg = some v → (s.calls p)[(s.results p).length]? = some v
  tickets : ∀ x ∈ s.accepted, (s.calls x.producer)[x.call]? = some x.value
  order : s.accepted.Pairwise fun x y => x.producer = y.producer → x.call < y.call
  accepted_iff : ∀ p k, (∃ x ∈ s.accepted, x.producer = p ∧ x.call = k) ↔
    (s.results p)[k]? = some true ∨ k = (s.results p).length ∧ (s.producers p).swung = true

variable {s s' : State P T}

/-- A ticket of a producer that has not swung `m_tail` belongs to a call that has returned. -/
lemma History.call_lt (h : History s) {x : Ticket P T} (hx : x ∈ s.accepted)
    (hp : (s.producers x.producer).swung = false) : x.call < (s.results x.producer).length := by
  rcases (h.accepted_iff x.producer x.call).mp ⟨x, hx, rfl, rfl⟩ with hk | ⟨-, hk⟩
  · exact (List.getElem?_eq_some_iff.mp hk).1
  · rw [hp] at hk
    cases hk

/-- A call that has returned has a ticket just if it returned `true`. -/
lemma History.returned_iff (h : History s) {p : P} {k : ℕ} {ok : Bool}
    (hk : (s.results p)[k]? = some ok) :
    (∃ x ∈ s.accepted, x.producer = p ∧ x.call = k) ↔ ok = true := by
  have hlt : k < (s.results p).length := (List.getElem?_eq_some_iff.mp hk).1
  rw [h.accepted_iff p k, hk, or_iff_left fun hlen => hlt.ne hlen.1, Option.some.injEq]

/-- A step that touches neither the producers nor their histories. -/
lemma History.congr (h : History s) (hprod : s'.producers = s.producers)
    (hcalls : s'.calls = s.calls) (hresults : s'.results = s.results)
    (haccepted : s'.accepted = s.accepted) : History s' := by
  constructor
  · simpa only [hprod, hcalls, hresults] using h.calls
  · simpa only [hprod, hcalls, hresults] using h.arg
  · simpa only [hcalls, haccepted] using h.tickets
  · simpa only [haccepted] using h.order
  · simpa only [hprod, hresults, haccepted] using h.accepted_iff

section step
variable [DecidableEq P] {p : P} {pc : EnqueuePc T}

/-- A step inside a call that neither swings `m_tail` nor returns. -/
lemma History.move (h : History s) (hprod : s'.producers = Function.update s.producers p pc)
    (hcalls : s'.calls = s.calls) (hresults : s'.results = s.results)
    (haccepted : s'.accepted = s.accepted) (hcalling : pc.calling = (s.producers p).calling)
    (harg : ∀ v, pc.arg = some v → (s.producers p).arg = some v)
    (hswung : pc.swung = (s.producers p).swung) : History s' := by
  have hupd : ∀ {α : Type _} (f : EnqueuePc T → α), f pc = f (s.producers p) →
      ∀ q, f (s'.producers q) = f (s.producers q) := by
    intro α f hf q
    rw [hprod]
    by_cases hq : q = p
    · subst q
      rw [Function.update_self, hf]
    · rw [Function.update_of_ne hq]
  constructor
  · intro q
    rw [hcalls, hresults, hupd _ hcalling]
    exact h.calls q
  · intro q v hv
    rw [hcalls, hresults]
    rw [hprod] at hv
    by_cases hq : q = p
    · subst q
      rw [Function.update_self] at hv
      exact h.arg _ v (harg v hv)
    · rw [Function.update_of_ne hq] at hv
      exact h.arg q v hv
  · simpa only [hcalls, haccepted] using h.tickets
  · simpa only [haccepted] using h.order
  · intro q k
    rw [haccepted, hresults, hupd _ hswung]
    exact h.accepted_iff q k

/-- The successful CAS hands out the next ticket of its producer. -/
lemma History.push (h : History s) {n t : Addr} {v : T} {tail : Option Addr}
    (hp : s.producers p = .cas n v tail)
    (hprod : s'.producers = Function.update s.producers p (.link t n))
    (hcalls : s'.calls = s.calls) (hresults : s'.results = s.results)
    (haccepted : s'.accepted = s.accepted ++ [⟨p, (s.results p).length, v⟩]) : History s' := by
  have hself : (s'.producers p).swung = true := by
    rw [hprod, Function.update_self]
    rfl
  have hother : ∀ q, q ≠ p → s'.producers q = s.producers q := by
    intro q hq
    rw [hprod, Function.update_of_ne hq]
  constructor
  · intro q
    rw [hcalls, hresults, h.calls q]
    by_cases hq : q = p
    · subst q
      rw [hprod, Function.update_self, hp]
      rfl
    · rw [hother q hq]
  · intro q w hw
    rw [hcalls, hresults]
    by_cases hq : q = p
    · subst q
      rw [hprod, Function.update_self] at hw
      cases hw
    · rw [hother q hq] at hw
      exact h.arg q w hw
  · intro x hx
    rw [haccepted] at hx
    rw [hcalls]
    rcases List.mem_append.mp hx with hx | hx
    · exact h.tickets x hx
    · rw [List.mem_singleton.mp hx]
      exact h.arg p v (by rw [hp]; rfl)
  · rw [haccepted, List.pairwise_append]
    refine ⟨h.order, List.pairwise_singleton _ _, ?_⟩
    intro x hx y hy hxy
    rw [List.mem_singleton.mp hy] at hxy ⊢
    have hlt := h.call_lt hx (by rw [hxy, hp]; rfl)
    rwa [hxy] at hlt
  · intro q k
    rw [haccepted, hresults]
    by_cases hq : q = p
    · subst q
      have hold := h.accepted_iff p k
      rw [hp] at hold
      simp only [EnqueuePc.swung, Bool.false_eq_true, and_false, or_false] at hold
      simp only [hself, and_true, ← hold, List.mem_append, List.mem_singleton]
      constructor
      · rintro ⟨x, hx | rfl, hxq, hxk⟩
        · exact Or.inl ⟨x, hx, hxq, hxk⟩
        · exact Or.inr hxk.symm
      · rintro (⟨x, hx, hxq, hxk⟩ | hk)
        · exact ⟨x, Or.inl hx, hxq, hxk⟩
        · exact ⟨_, Or.inr rfl, rfl, hk.symm⟩
    · rw [hother q hq, ← h.accepted_iff q k]
      simp only [List.mem_append, List.mem_singleton]
      constructor
      · rintro ⟨x, hx | rfl, hxq, hxk⟩
        · exact ⟨x, hx, hxq, hxk⟩
        · exact absurd hxq.symm hq
      · rintro ⟨x, hx, hxq, hxk⟩
        exact ⟨x, Or.inl hx, hxq, hxk⟩

/-- A new call of `enqueue`. -/
lemma History.call (h : History s) {v : T} (hp : s.producers p = .idle) :
    History { s.setProducer p (.alloc v) with
      calls := Function.update s.calls p (s.calls p ++ [v]) } := by
  have hlen : (s.calls p).length = (s.results p).length := by
    rw [h.calls p, hp]
    rfl
  constructor
  · intro q
    by_cases hq : q = p
    · subst q
      simp [State.setProducer, hlen, EnqueuePc.calling]
    · simpa [State.setProducer, Function.update_of_ne hq] using h.calls q
  · intro q w hw
    by_cases hq : q = p
    · subst q
      simp only [State.setProducer, Function.update_self, EnqueuePc.arg, Option.some.injEq] at hw
      simp [State.setProducer, hlen.symm, hw]
    · simp only [State.setProducer, Function.update_of_ne hq] at hw ⊢
      exact h.arg q w hw
  · intro x hx
    have hold := h.tickets x hx
    change (Function.update s.calls p (s.calls p ++ [v]) x.producer)[x.call]? = some x.value
    by_cases hq : x.producer = p
    · rw [hq] at hold ⊢
      rw [Function.update_self, List.getElem?_append_left (List.getElem?_eq_some_iff.mp hold).1]
      exact hold
    · rw [Function.update_of_ne hq]
      exact hold
  · exact h.order
  · intro q k
    have hold := h.accepted_iff q k
    by_cases hq : q = p
    · subst q
      rw [hp] at hold
      simpa [State.setProducer, EnqueuePc.swung] using hold
    · simpa [State.setProducer, Function.update_of_ne hq] using hold

/-- A call of `enqueue` returns. -/
lemma History.ret (h : History s) {ok : Bool} (hp : s.producers p = .ret ok) :
    History { s.setProducer p .idle with
      results := Function.update s.results p (s.results p ++ [ok]) } := by
  constructor
  · intro q
    have hold := h.calls q
    by_cases hq : q = p
    · subst q
      rw [hp] at hold
      simpa [State.setProducer, EnqueuePc.calling] using hold
    · simpa [State.setProducer, Function.update_of_ne hq] using hold
  · intro q w hw
    by_cases hq : q = p
    · subst q
      simp [State.setProducer, EnqueuePc.arg] at hw
    · simp only [State.setProducer, Function.update_of_ne hq] at hw ⊢
      exact h.arg q w hw
  · exact h.tickets
  · exact h.order
  · intro q k
    have hold := h.accepted_iff q k
    by_cases hq : q = p
    · subst q
      rw [hp] at hold
      simp only [State.setProducer, Function.update_self, EnqueuePc.swung, Bool.false_eq_true,
        and_false, or_false]
      rw [hold, List.getElem?_append]
      simp only [EnqueuePc.swung]
      -- the result that is appended is the one at position `k = results.length`
      rcases lt_trichotomy k (s.results p).length with hk | hk | hk
      · simp [hk, hk.ne]
      · subst hk
        simp
      · have hsub : k - (s.results p).length = (k - (s.results p).length - 1) + 1 := by omega
        rw [if_neg (by omega), hsub, List.getElem?_eq_none (by omega)]
        simp [hk.ne']
    · simpa [State.setProducer, Function.update_of_ne hq] using hold

end step

/-- The consumer leaves the producers and their histories alone. -/
lemma consumerStep_frame (hs : consumerStep s = some s') :
    s'.producers = s.producers ∧ s'.calls = s.calls ∧ s'.results = s.results ∧
      s'.accepted = s.accepted ∧ s'.mTail = s.mTail := by
  cases hc : s.consumer <;> simp only [consumerStep, hc] at hs
  case waitTest head tail next =>
    cases next <;> cases tail <;> cases hs <;> exact ⟨rfl, rfl, rfl, rfl, rfl⟩
  case tryLoadNext head | waitLoadNext head tail | reloadNext head =>
    cases hs
    unfold State.loadNext
    split <;> exact ⟨rfl, rfl, rfl, rfl, rfl⟩
  case moveValue next =>
    cases hs
    unfold moveValue
    split <;> exact ⟨rfl, rfl, rfl, rfl, rfl⟩
  case wait tail | deleteHead head next =>
    split at hs <;> cases hs <;> exact ⟨rfl, rfl, rfl, rfl, rfl⟩
  all_goals
    cases hs <;> exact ⟨rfl, rfl, rfl, rfl, rfl⟩

section run
variable [DecidableEq P]

theorem History.step (h : History s) {a : Action P T} (hs : step s a = some s') :
    History s' := by
  cases step_move hs with
  | enqueue v hp => exact h.call hp
  | noMemory hp =>
    exact h.move rfl rfl rfl rfl (by rw [hp]; rfl) (by rintro w ⟨⟩) (by rw [hp]; rfl)
  | alloc hp _ | loadTail hp | retry hp _ =>
    exact h.move rfl rfl rfl rfl (by rw [hp]; rfl) (by rw [hp]; exact fun w hw => hw)
      (by rw [hp]; rfl)
  | reject hp =>
    unfold rejectNode
    split
    · exact h.move rfl rfl rfl rfl (by rw [hp]; rfl) (by rintro w ⟨⟩) (by rw [hp]; rfl)
    · exact h.congr rfl rfl rfl rfl
  | push hp _ => exact h.push hp rfl rfl rfl rfl
  | link hp =>
    unfold linkTail
    split
    · exact h.congr rfl rfl rfl rfl
    · exact h.move rfl rfl rfl rfl (by rw [hp]; rfl) (by rintro w ⟨⟩) (by rw [hp]; rfl)
  | enqueueRet hp => exact h.ret hp
  | tryDequeue _ | waitDequeue _ | stop => exact h.congr rfl rfl rfl rfl
  | consumer hs =>
    obtain ⟨hprod, hcalls, hresults, haccepted, -⟩ := consumerStep_frame hs
    exact h.congr hprod hcalls hresults haccepted

theorem reaches_history {stub : Addr} {C : State P T → Action P T → Prop}
    (h : (system P T stub).Reaches C s) : History s := by
  refine h.invariant ?_ fun s a s' _ ih _ hs => ih.step hs
  constructor <;> simp [system, init, EnqueuePc.calling, EnqueuePc.arg, EnqueuePc.swung]

end run

end Scoro.AtomicQueue

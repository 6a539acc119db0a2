import Scoro.Queue.Frame
import Scoro.Queue.Refinement

/-!
# `wait_dequeue_helper`

The loop loads `head->next` on entry and after `m_tail.wait`, and nowhere else. A load that
falls between a producer's CAS on `m_tail` and its link store leaves `next == nullptr` and
`tail != head` in the local copies, and the loop then only reloads `tail`. With such stale
copies the consumer alone spins for ever, and once `stop` has cleared `m_tail` it returns
`nullopt` with the value still on the chain. Without them it takes the next value, and it
returns `nullopt` only from a stopped and empty queue.
-/

namespace Scoro.AtomicQueue
open Scoro.Lib

variable {P T : Type*}

/-- The node whose link store this producer is about to make. -/
def EnqueuePc.pendingAt : EnqueuePc T → Option Addr
  | .link tail _ => some tail
  | _ => none

/-- The consumer is inside `wait_dequeue_helper` and has not decided for `nullopt`. -/
def DequeuePc.Waiting : DequeuePc T → Prop
  | .idle | .tryLoadHead | .tryLoadNext _ | .ret none => False
  | _ => True

namespace State

/-- The copy of `next` is null although `head` is not the last node any more. -/
def Stale (s : State P T) : Prop :=
  match s.consumer with
  | .waitTest head tail none => tail ≠ some head
  | .reloadTail _ none => True
  | _ => False

/-- The next step loads `head->next` inside a producer's window between CAS and link store.
On entry the load does no harm if the copy of `tail` is `head`, for then `m_tail.wait`
follows. -/
def StaleLoad (s : State P T) : Prop :=
  match s.consumer with
  | .waitLoadNext head tail => tail ≠ some head ∧ ∃ p, (s.producers p).pendingAt = some head
  | .reloadNext head => ∃ p, (s.producers p).pendingAt = some head
  | _ => False

instance (s : State P T) [Fintype P] : Decidable s.StaleLoad :=
  match hc : s.consumer with
  | .waitLoadNext head tail => decidable_of_iff
      (tail ≠ some head ∧ ∃ p, (s.producers p).pendingAt = some head) (by simp [StaleLoad, hc])
  | .reloadNext head => decidable_of_iff
      (∃ p, (s.producers p).pendingAt = some head) (by simp [StaleLoad, hc])
  | .idle | .tryLoadHead | .tryLoadNext _ | .waitLoadHead | .waitLoadTail _ | .waitTest ..
  | .wait _ | .reloadHead | .reloadTail .. | .storeHead .. | .deleteHead .. | .moveValue _
  | .ret _ => isFalse (by simp [StaleLoad, hc])

/-- The consumer alone gets to the return of a value. -/
def Takes (s : State P T) : Prop :=
  ∃ k s' v, solo consumerStep k s = some s' ∧ s'.consumer = .ret (some v)

/-- The queue is stopped and everything accepted has been returned. -/
def Drained (s : State P T) : Prop := s.mTail = none ∧ s.delivered = s.acceptedValues

/-- Where the copy of `tail` comes from. -/
def TailOk (s : State P T) : Prop :=
  match s.consumer with
  | .waitLoadNext _ tail | .waitTest _ tail _ => tail = none → s.mTail = none
  | .wait tail => tail = s.mHead
  | _ => True

/-- What the consumer knows if no load was stale. If it calls `wait_dequeue` only, it also
knows that the queue is empty when it returns `nullopt`. -/
def Fresh (waitOnly : Prop) (s : State P T) : Prop :=
  match s.consumer with
  | .tryLoadHead | .tryLoadNext _ => ¬waitOnly
  | .waitLoadNext head tail => tail = some head ∨ s.mTail ≠ some s.mHead
  | .waitTest head tail none => tail = some head ∨ s.Drained
  | .reloadHead | .reloadNext _ => s.mTail ≠ some s.mHead
  | .reloadTail _ none => s.Drained
  | .ret none => waitOnly → s.Drained
  | _ => True

end State

/-! ### Progress of the consumer alone -/

section solo
variable {s s' : State P T} {cs : List Addr} {vs : List T}

lemma State.Takes.of_step (hs : consumerStep s = some s') (h : s'.Takes) : s.Takes := by
  obtain ⟨k, t, v, hk, ht⟩ := h
  exact ⟨k + 1, t, v, (solo_succ hs k).trans hk, ht⟩

lemma takes_moveValue (h : Inv s cs vs) {next : Addr} (hc : s.consumer = .moveValue next) :
    s.Takes := by
  obtain ⟨v, -, hret, -⟩ := h.moveValue hc
  refine ⟨1, moveValue s next, v, ?_, hret⟩
  simp [solo, consumerStep, hc]

lemma takes_deleteHead (h : Inv s cs vs) {head next : Addr}
    (hc : s.consumer = .deleteHead head next) : s.Takes := by
  obtain ⟨hlive, hinv⟩ := h.deleteHead hc
  obtain ⟨nd, hnd⟩ := Option.isSome_iff_exists.mp hlive
  have hs : consumerStep s = some ((s.setNode head none).setConsumer (.moveValue next)) := by
    simp [consumerStep, hc, hnd]
  exact .of_step hs (takes_moveValue hinv rfl)

lemma takes_storeHead (h : Inv s cs vs) {head next : Addr}
    (hc : s.consumer = .storeHead head next) : s.Takes := by
  obtain ⟨cs', v, vs', -, -, hinv⟩ := h.storeHead hc
  have hs : consumerStep s =
      some { s.setConsumer (.deleteHead head next) with mHead := next } := by
    simp [consumerStep, hc]
  exact .of_step hs (takes_deleteHead hinv rfl)

lemma takes_waitTest (h : Inv s cs vs) {head next : Addr} {tail : Option Addr}
    (hc : s.consumer = .waitTest head tail (some next)) : s.Takes := by
  have hpc := h.consumer
  rw [hc] at hpc
  have hinv : Inv (s.setConsumer (.storeHead head next)) cs vs :=
    h.setConsumer ⟨hpc.1, hpc.2 next rfl⟩ (by rw [hc]; rfl)
  have hs : consumerStep s = some (s.setConsumer (.storeHead head next)) := by
    simp [consumerStep, hc]
  exact .of_step hs (takes_storeHead hinv rfl)

lemma takes_reloadTail (h : Inv s cs vs) {head next : Addr}
    (hc : s.consumer = .reloadTail head (some next)) : s.Takes := by
  have hpc := h.consumer
  rw [hc] at hpc
  have hinv : Inv (s.setConsumer (.waitTest head s.mTail (some next))) cs vs :=
    h.setConsumer hpc (by rw [hc]; rfl)
  have hs : consumerStep s = some (s.setConsumer (.waitTest head s.mTail (some next))) := by
    simp [consumerStep, hc]
  exact .of_step hs (takes_waitTest hinv rfl)

lemma takes_reloadNext {v : T} (h : Inv s cs (v :: vs)) (hno : s.NoPending) {head : Addr}
    (hc : s.consumer = .reloadNext head) : s.Takes := by
  have hpc := h.consumer
  rw [hc] at hpc
  subst hpc
  obtain ⟨n, hn⟩ := h.next_head hno
  have hinv : Inv (s.setConsumer (.reloadTail s.mHead (some n))) cs (v :: vs) :=
    h.setConsumer ⟨rfl, fun m hm => by rw [hn, hm]⟩ (by rw [hc]; rfl)
  have hs : consumerStep s = some (s.setConsumer (.reloadTail s.mHead (some n))) := by
    simp [consumerStep, hc, loadNext_of_live h.live_head, hn]
  exact .of_step hs (takes_reloadTail hinv rfl)

lemma takes_reloadHead {v : T} (h : Inv s cs (v :: vs)) (hno : s.NoPending)
    (hc : s.consumer = .reloadHead) : s.Takes := by
  have hinv : Inv (s.setConsumer (.reloadNext s.mHead)) cs (v :: vs) :=
    h.setConsumer rfl (by rw [hc]; rfl)
  have hs : consumerStep s = some (s.setConsumer (.reloadNext s.mHead)) := by
    simp [consumerStep, hc]
  exact .of_step hs (takes_reloadNext hinv hno rfl)

/-- A value on the chain means that `m_tail` is not the stub, so `m_tail.wait` passes. -/
lemma takes_wait {v : T} (h : Inv s cs (v :: vs)) (hno : s.NoPending) {tail : Addr}
    (hc : s.consumer = .wait tail) (htail : tail = s.mHead) : s.Takes := by
  have hne : s.mTail ≠ some tail := by
    rw [htail]
    exact h.of_cons.1
  have hinv : Inv (s.setConsumer .reloadHead) cs (v :: vs) :=
    h.setConsumer trivial (by rw [hc]; rfl)
  have hs : consumerStep s = some (s.setConsumer .reloadHead) := by
    simp [consumerStep, hc, hne]
  exact .of_step hs (takes_reloadHead hinv hno rfl)

lemma takes_waitTest_head {v : T} (h : Inv s cs (v :: vs)) (hno : s.NoPending) {head : Addr}
    (hc : s.consumer = .waitTest head (some head) none) : s.Takes := by
  have hpc := h.consumer
  rw [hc] at hpc
  have hinv : Inv (s.setConsumer (.wait head)) cs (v :: vs) :=
    h.setConsumer trivial (by rw [hc]; rfl)
  have hs : consumerStep s = some (s.setConsumer (.wait head)) := by
    simp [consumerStep, hc]
  exact .of_step hs (takes_wait hinv hno rfl hpc.1)

lemma takes_waitLoadNext {v : T} (h : Inv s cs (v :: vs)) (hno : s.NoPending) {head : Addr}
    {tail : Option Addr} (hc : s.consumer = .waitLoadNext head tail) : s.Takes := by
  have hpc := h.consumer
  rw [hc] at hpc
  subst hpc
  obtain ⟨n, hn⟩ := h.next_head hno
  have hinv : Inv (s.setConsumer (.waitTest s.mHead tail (some n))) cs (v :: vs) :=
    h.setConsumer ⟨rfl, fun m hm => by rw [hn, hm]⟩ (by rw [hc]; rfl)
  have hs : consumerStep s = some (s.setConsumer (.waitTest s.mHead tail (some n))) := by
    simp [consumerStep, hc, loadNext_of_live h.live_head, hn]
  exact .of_step hs (takes_waitTest hinv rfl)

lemma takes_waitLoadTail {v : T} (h : Inv s cs (v :: vs)) (hno : s.NoPending) {head : Addr}
    (hc : s.consumer = .waitLoadTail head) : s.Takes := by
  have hpc := h.consumer
  rw [hc] at hpc
  have hinv : Inv (s.setConsumer (.waitLoadNext head s.mTail)) cs (v :: vs) :=
    h.setConsumer hpc (by rw [hc]; rfl)
  have hs : consumerStep s = some (s.setConsumer (.waitLoadNext head s.mTail)) := by
    simp [consumerStep, hc]
  exact .of_step hs (takes_waitLoadNext hinv hno rfl)

lemma takes_waitLoadHead {v : T} (h : Inv s cs (v :: vs)) (hno : s.NoPending)
    (hc : s.consumer = .waitLoadHead) : s.Takes := by
  have hinv : Inv (s.setConsumer (.waitLoadTail s.mHead)) cs (v :: vs) :=
    h.setConsumer rfl (by rw [hc]; rfl)
  have hs : consumerStep s = some (s.setConsumer (.waitLoadTail s.mHead)) := by
    simp [consumerStep, hc]
  exact .of_step hs (takes_waitLoadTail hinv hno rfl)

/-- While the consumer has nothing in its hand, a value not yet returned is on the chain. -/
lemma Inv.exists_cons (h : Inv s cs vs) (hand : s.handOf s.consumer = [])
    (hlt : s.delivered.length < s.acceptedValues.length) : ∃ v vs', vs = v :: vs' := by
  cases vs with
  | cons v vs' => exact ⟨v, vs', rfl⟩
  | nil =>
    have hacc := h.accepted
    rw [State.removed, hand, List.append_nil, List.append_nil] at hacc
    rw [hacc] at hlt
    exact absurd hlt (lt_irrefl _)

/-- Wherever it stands without stale copies, the consumer alone takes the next value. -/
lemma takes_of_not_stale (h : Inv s cs vs) (hno : s.NoPending) (htail : s.TailOk)
    (hwait : s.consumer.Waiting) (hlt : s.delivered.length < s.acceptedValues.length)
    (hfresh : ¬s.Stale) : s.Takes := by
  have hvs : s.handOf s.consumer = [] → ∃ v vs', vs = v :: vs' := fun hh => h.exists_cons hh hlt
  cases hc : s.consumer with
  | idle | tryLoadHead | tryLoadNext head =>
    rw [hc] at hwait
    exact hwait.elim
  | waitLoadHead =>
    obtain ⟨v, vs', rfl⟩ := hvs (by rw [hc]; rfl)
    exact takes_waitLoadHead h hno hc
  | waitLoadTail head =>
    obtain ⟨v, vs', rfl⟩ := hvs (by rw [hc]; rfl)
    exact takes_waitLoadTail h hno hc
  | waitLoadNext head tail =>
    obtain ⟨v, vs', rfl⟩ := hvs (by rw [hc]; rfl)
    exact takes_waitLoadNext h hno hc
  | waitTest head tail next =>
    cases next with
    | some next => exact takes_waitTest h hc
    | none =>
      obtain ⟨v, vs', rfl⟩ := hvs (by rw [hc]; rfl)
      have heq : tail = some head := by simpa [State.Stale, hc] using hfresh
      subst heq
      exact takes_waitTest_head h hno hc
  | wait tail =>
    obtain ⟨v, vs', rfl⟩ := hvs (by rw [hc]; rfl)
    exact takes_wait h hno hc (by simpa [State.TailOk, hc] using htail)
  | reloadHead =>
    obtain ⟨v, vs', rfl⟩ := hvs (by rw [hc]; rfl)
    exact takes_reloadHead h hno hc
  | reloadNext head =>
    obtain ⟨v, vs', rfl⟩ := hvs (by rw [hc]; rfl)
    exact takes_reloadNext h hno hc
  | reloadTail head next =>
    cases next with
    | some next => exact takes_reloadTail h hc
    | none => exact absurd (by simp [State.Stale, hc]) hfresh
  | storeHead head next => exact takes_storeHead h hc
  | deleteHead head next => exact takes_deleteHead h hc
  | moveValue next => exact takes_moveValue h hc
  | ret r =>
    cases r with
    | some v => exact ⟨0, s, v, rfl, hc⟩
    | none =>
      rw [hc] at hwait
      exact hwait.elim

/-- The loop with stale copies: it reloads `tail` and tests, and no step leaves it. -/
def State.Spinning (s : State P T) : Prop :=
  ∃ head t, s.mTail = some t ∧ t ≠ head ∧
    (s.consumer = .reloadTail head none ∨
      ∃ t', s.consumer = .waitTest head (some t') none ∧ t' ≠ head)

lemma State.Spinning.step (h : s.Spinning) (hs : consumerStep s = some s') : s'.Spinning := by
  obtain ⟨head, t, ht, hne, hc | ⟨t', hc, hne'⟩⟩ := h
  · simp only [consumerStep, hc, Option.some.injEq] at hs
    subst hs
    refine ⟨head, t, ht, hne, Or.inr ⟨t, ?_, hne⟩⟩
    rw [← ht]
    rfl
  · simp only [consumerStep, hc, Option.some.injEq, if_neg hne'.symm] at hs
    subst hs
    exact ⟨head, t, ht, hne, Or.inl rfl⟩

lemma State.Spinning.not_takes (h : s.Spinning) : ¬s.Takes := by
  rintro ⟨k, t, v, hk, hret⟩
  have hspin : t.Spinning := solo_invariant (I := State.Spinning) (fun _ _ => .step) h hk
  obtain ⟨head, u, -, -, hc | ⟨t', hc, -⟩⟩ := hspin
  all_goals
    rw [hret] at hc
    cases hc

/-- Stale copies make the consumer spin if there is a value for it and no `stop`. -/
lemma State.Stale.spinning (hstale : s.Stale) (h : Inv s cs vs) (htail : s.TailOk)
    (hstop : s.mTail ≠ none) (hlt : s.delivered.length < s.acceptedValues.length) :
    s.Spinning := by
  obtain ⟨t, ht⟩ := Option.ne_none_iff_exists'.mp hstop
  have hhead : s.handOf s.consumer = [] → t ≠ s.mHead := by
    intro hhand
    obtain ⟨v, vs', rfl⟩ := h.exists_cons hhand hlt
    rintro rfl
    exact h.of_cons.1 ht
  have hpc := h.consumer
  unfold State.Stale at hstale
  split at hstale
  · rename_i head tail hc
    rw [hc] at hpc
    obtain ⟨rfl, -⟩ := hpc
    cases tail with
    | none => exact absurd (by simpa [State.TailOk, hc] using htail) hstop
    | some t' =>
      refine ⟨s.mHead, t, ht, hhead (by rw [hc]; rfl), Or.inr ⟨t', hc, ?_⟩⟩
      simpa using hstale
  · rename_i head hc
    rw [hc] at hpc
    obtain ⟨rfl, -⟩ := hpc
    exact ⟨s.mHead, t, ht, hhead (by rw [hc]; rfl), Or.inl hc⟩
  · exact hstale.elim

end solo

/-! ### What the consumer knows -/

section copies
variable {s s' : State P T} {cs : List Addr} {vs : List T} {a : Action P T} {waitOnly : Prop}

/-- A null `m_tail` stays null, and `m_tail` does not get back to the stub. -/
lemma OtherStep.mTail (h : OtherStep s s' a) : (s.mTail = none → s'.mTail = none) ∧
    (s.mTail ≠ some s.mHead → s'.mTail ≠ some s'.mHead) := by
  rw [h.head]
  cases h.tail with
  | keep tail _ _ => simp [tail]
  | stop _ tail _ _ => simp [tail]
  | swing t n old new hn => simp [old, new, hn]

lemma OtherStep.drained (h : OtherStep s s' a) (hd : s.Drained) : s'.Drained := by
  obtain ⟨htail, hdel⟩ := hd
  have hacc : s'.accepted = s.accepted → s'.delivered = s'.acceptedValues := by
    intro hacc
    unfold State.delivered State.acceptedValues at hdel ⊢
    rw [h.returned, hacc]
    exact hdel
  cases h.tail with
  | keep tail accepted _ => exact ⟨tail.trans htail, hacc accepted⟩
  | stop _ tail accepted _ => exact ⟨tail, hacc accepted⟩
  | swing t n old _ _ =>
    rw [htail] at old
    cases old

lemma tailOk_of_other (hother : OtherStep s s' a) (h : s.TailOk) : s'.TailOk := by
  have hmono := hother.mTail.1
  unfold State.TailOk at h ⊢
  rw [hother.consumer, hother.head]
  cases hc : s.consumer with
  | waitLoadNext head tail | waitTest head tail next =>
    rw [hc] at h
    exact fun ht => hmono (h ht)
  | wait tail =>
    rw [hc] at h
    exact h
  | _ => trivial

/-- Steps of other threads keep what the consumer knows. -/
lemma fresh_of_other (hother : OtherStep s s' a) (h : s.Fresh waitOnly) :
    s'.Fresh waitOnly := by
  have hmono := hother.mTail.2
  have hdrained : s.Drained → s'.Drained := hother.drained
  unfold State.Fresh at h ⊢
  rw [hother.consumer]
  cases hc : s.consumer with
  | waitLoadNext head tail =>
    rw [hc] at h
    exact h.imp_right hmono
  | waitTest head tail next =>
    rw [hc] at h
    cases next with
    | none => exact h.imp_right hdrained
    | some n => trivial
  | reloadTail head next =>
    rw [hc] at h
    cases next with
    | none => exact hdrained h
    | some n => trivial
  | ret r =>
    rw [hc] at h
    cases r with
    | none => exact fun hw => hdrained (h hw)
    | some v => trivial
  | reloadHead | reloadNext head =>
    rw [hc] at h
    exact hmono h
  | tryLoadHead | tryLoadNext head =>
    rw [hc] at h
    exact h
  | idle | waitLoadHead | waitLoadTail head | wait tail | storeHead head n | deleteHead head n
  | moveValue n => trivial

/-- A load of null outside every window, after `m_tail` has left the stub, means that the
queue is stopped and empty. -/
lemma Inv.drained (h : Inv s cs vs) (hnext : s.next s.mHead = none)
    (hno : ¬∃ p, (s.producers p).pendingAt = some s.mHead) (htail : s.mTail ≠ some s.mHead)
    (hhand : s.handOf s.consumer = []) : s.Drained := by
  cases vs with
  | nil =>
    refine ⟨h.of_nil.2.resolve_right htail, ?_⟩
    rw [h.accepted, State.removed, hhand, List.append_nil, List.append_nil]
  | cons v vs' =>
    obtain ⟨-, n, hn | ⟨-, p, hp⟩⟩ := h.of_cons
    · rw [hnext] at hn
      cases hn
    · exact absurd ⟨p, by rw [hp]; rfl⟩ hno

/-- The consumer's copies of `tail` after its own step. -/
lemma tailOk_consumerStep (h : Inv s cs vs) (htail : s.TailOk) (hs : consumerStep s = some s') :
    s'.TailOk := by
  unfold State.TailOk at htail
  cases h.move hs with
  | waitLoadTail hc => exact fun ht => ht
  | waitLoadNext hc =>
    rw [hc] at htail
    exact htail
  | reloadTail hc _ => exact fun ht => ht
  | stub hc => exact rfl
  | moveValue hc hret => simp [State.TailOk, hret]
  | _ => trivial

/-- What the consumer knows after its own step, unless the step is a stale load. -/
lemma fresh_consumerStep (h : Inv s cs vs) (htail : s.TailOk) (hfresh : s.Fresh waitOnly)
    (hload : ¬s.StaleLoad) (hs : consumerStep s = some s') : s'.Fresh waitOnly := by
  unfold State.Fresh at hfresh
  cases h.move hs with
  | tryLoadHead hc =>
    rw [hc] at hfresh
    exact hfresh
  | tryEmpty hc _ =>
    rw [hc] at hfresh
    exact fun hw => absurd hw hfresh
  | waitLoadTail hc => exact em _
  | @waitLoadNext tail hc =>
    rw [hc] at hfresh
    cases hn : s.next s.mHead with
    | some n => trivial
    | none =>
      by_cases heq : tail = some s.mHead
      · exact Or.inl heq
      · refine Or.inr (h.drained hn ?_ (hfresh.resolve_left heq) (by rw [hc]; rfl))
        intro hp
        exact hload (by simpa only [State.StaleLoad, hc] using ⟨heq, hp⟩)
  | stopped hc =>
    rw [hc] at hfresh
    exact fun _ => hfresh.resolve_left (by simp)
  | unlinked hc hne =>
    rw [hc] at hfresh
    exact hfresh.resolve_left fun heq => hne (Option.some.inj heq)
  | @wake tail hc hne =>
    have heq : tail = s.mHead := by simpa only [State.TailOk, hc] using htail
    rw [heq] at hne
    exact hne
  | reloadHead hc =>
    rw [hc] at hfresh
    exact hfresh
  | reloadNext hc =>
    rw [hc] at hfresh
    cases hn : s.next s.mHead with
    | some n => trivial
    | none =>
      refine h.drained hn ?_ hfresh (by rw [hc]; rfl)
      intro hp
      exact hload (by simpa only [State.StaleLoad, hc] using hp)
  | @reloadTail next hc _ =>
    rw [hc] at hfresh
    cases next with
    | some n => trivial
    | none => exact Or.inr hfresh
  | moveValue hc hret => simp [State.Fresh, hret]
  | _ => trivial

end copies

/-! ### What a stale load costs -/

section loses
variable {s s' : State P T} {cs : List Addr} {vs : List T} {a : Action P T}

/-- The call has stale copies or has given up, although there is a value that has not been
returned. -/
def State.Loses (s : State P T) : Prop :=
  (s.Stale ∨ s.consumer = .ret none) ∧ s.delivered.length < s.acceptedValues.length

lemma State.Loses.hand (h : s.Loses) : s.handOf s.consumer = [] := by
  rcases h.1 with hstale | hret
  · unfold State.Stale at hstale
    split at hstale
    · rename_i hc
      rw [hc]
      rfl
    · rename_i hc
      rw [hc]
      rfl
    · exact hstale.elim
  · rw [hret]
    rfl

/-- The value whose link store is pending at `m_head` has not been returned. -/
lemma Inv.lt_of_pending (h : Inv s cs vs) (hhand : s.handOf s.consumer = [])
    (hp : ∃ p, (s.producers p).pendingAt = some s.mHead) :
    s.next s.mHead = none ∧ s.delivered.length < s.acceptedValues.length := by
  obtain ⟨p, hp⟩ := hp
  obtain ⟨n, hlink⟩ : ∃ n, s.producers p = .link s.mHead n := by
    cases hpc : s.producers p <;> rw [hpc] at hp <;> cases hp
    exact ⟨_, rfl⟩
  obtain ⟨-, hnext, hlast⟩ := h.shape.pending p s.mHead n hlink
  refine ⟨hnext, ?_⟩
  rw [h.accepted, State.removed, hhand, List.append_nil, List.length_append]
  cases vs with
  | nil =>
    have htl : cs.tail = [] := List.map_eq_nil_iff.mp h.values
    rw [h.shape.eq_cons, htl] at hlast
    exact absurd rfl hlast
  | cons v vs' => simp

lemma loses_of_load (h : Inv s cs vs) (hload : s.StaleLoad) (hs : consumerStep s = some s') :
    s'.Loses := by
  unfold State.StaleLoad at hload
  cases h.move hs with
  | @waitLoadNext tail hc =>
    rw [hc] at hload
    obtain ⟨hne, hp⟩ := hload
    obtain ⟨hnext, hlt⟩ := h.lt_of_pending (by rw [hc]; rfl) hp
    rw [hnext]
    exact ⟨Or.inl hne, hlt⟩
  | reloadNext hc =>
    rw [hc] at hload
    obtain ⟨hnext, hlt⟩ := h.lt_of_pending (by rw [hc]; rfl) hload
    rw [hnext]
    exact ⟨Or.inl trivial, hlt⟩
  | tryLoadHead hc | tryEmpty hc | tryFound hc | waitLoadHead hc | waitLoadTail hc | found hc
  | stopped hc | stub hc | unlinked hc | wake hc | reloadHead hc | reloadTail hc | storeHead hc
  | deleteHead hc | moveValue hc | ret hc =>
    rw [hc] at hload
    exact hload.elim

/-- A step of another thread leaves the copies as they are and takes no value back. -/
lemma loses_of_other (hother : OtherStep s s' a)
    (haccepted : s.acceptedValues.length ≤ s'.acceptedValues.length) (h : s.Loses) :
    s'.Loses := by
  obtain ⟨hcopies, hlt⟩ := h
  constructor
  · unfold State.Stale at hcopies ⊢
    rw [hother.consumer]
    exact hcopies
  · unfold State.delivered at hlt ⊢
    rw [hother.returned]
    omega

/-- The consumer goes round the loop with its copies, or `nullopt` is returned. -/
lemma loses_of_consumerStep (h : s.Loses) (hinv : Inv s cs vs)
    (hs : consumerStep s = some s') :
    s'.Loses ∧ s'.returned = s.returned ∨ s'.returned = s.returned ++ [none] := by
  obtain ⟨v, vs', rfl⟩ := hinv.exists_cons h.hand h.2
  obtain ⟨hcopies, hlt⟩ := h
  unfold State.Stale at hcopies
  cases hinv.move hs with
  | stopped hc => exact Or.inl ⟨⟨Or.inr rfl, hlt⟩, rfl⟩
  | unlinked hc hne => exact Or.inl ⟨⟨Or.inl trivial, hlt⟩, rfl⟩
  | @reloadTail next hc hnext =>
    cases next with
    | some n => simp [hc] at hcopies
    | none => exact Or.inl ⟨⟨Or.inl hinv.of_cons.1, hlt⟩, rfl⟩
  | @ret r hc =>
    cases r with
    | some w => simp [hc] at hcopies
    | none => exact Or.inr rfl
  | tryLoadHead hc | tryEmpty hc | tryFound hc | waitLoadHead hc | waitLoadTail hc
  | waitLoadNext hc | found hc | stub hc | wake hc | reloadHead hc | reloadNext hc | storeHead hc
  | deleteHead hc | moveValue hc => simp [hc] at hcopies

lemma solo_waitTest_none {head : Addr} (hc : s.consumer = .waitTest head none none) :
    consumerStep s = some (s.setConsumer (.ret none)) := by
  simp [consumerStep, hc]

lemma solo_reloadTail_none {head : Addr} (hc : s.consumer = .reloadTail head none)
    (hstop : s.mTail = none) : solo consumerStep 2 s = some (s.setConsumer (.ret none)) := by
  have hs : consumerStep s = some (s.setConsumer (.waitTest head none none)) := by
    simp [consumerStep, hc, hstop]
  rw [solo_succ hs, solo_succ (solo_waitTest_none rfl)]
  rfl

/-- After `stop` the stale copies make the consumer give up. -/
lemma State.Loses.gives_up (h : s.Loses) (hstop : s.mTail = none) :
    ∃ k u, solo consumerStep k s = some u ∧ u.consumer = .ret none ∧
      u.delivered = s.delivered ∧ u.acceptedValues = s.acceptedValues := by
  rcases h.1 with hstale | hret
  · unfold State.Stale at hstale
    split at hstale
    · rename_i head tail hc
      cases tail with
      | none => exact ⟨1, _, solo_succ (solo_waitTest_none hc) 0, rfl, rfl, rfl⟩
      | some t =>
        have hs : consumerStep s = some (s.setConsumer (.reloadTail head none)) := by
          have hne : head ≠ t := fun heq => hstale (congrArg some heq.symm)
          simp [consumerStep, hc, hne]
        exact ⟨3, _, (solo_succ hs 2).trans (solo_reloadTail_none rfl hstop), rfl, rfl, rfl⟩
    · rename_i head hc
      exact ⟨2, _, solo_reloadTail_none hc hstop, rfl, rfl, rfl⟩
    · exact hstale.elim
  · exact ⟨0, s, rfl, hret, rfl, rfl⟩

variable [DecidableEq P]

/-- As long as the call has not returned, every step keeps that it loses a value. -/
lemma loses_of_step (h : s.Loses) (hinv : Inv s cs vs) (hs : step s a = some s') :
    s'.Loses ∧ s'.returned = s.returned ∨ s'.returned = s.returned ++ [none] := by
  by_cases hc : a = .consumer
  · subst hc
    exact loses_of_consumerStep h hinv hs
  by_cases hcall : a = .tryDequeue ∨ a = .waitDequeue
  · have hidle : s.consumer = .idle := by
      rcases hcall with rfl | rfl <;> simp only [step] at hs <;> split at hs <;>
        first | assumption | cases hs
    rcases h.1 with hstale | hret
    · simp [State.Stale, hidle] at hstale
    · rw [hidle] at hret
      cases hret
  · rw [not_or] at hcall
    have hother := step_other hinv hs hc hcall.1 hcall.2
    obtain ⟨cs', vs', -, heffect⟩ := hinv.step hs
    refine Or.inl ⟨loses_of_other hother ?_ h, hother.returned⟩
    cases heffect with
    | none _ hacc | remove _ _ hacc => rw [hacc]
    | insert _ v hacc => simp [hacc]

/-- Calls that have returned stay so. -/
lemma returned_length_le (hinv : Inv s cs vs) (hs : step s a = some s') :
    s.returned.length ≤ s'.returned.length := by
  by_cases hc : a = .consumer
  · subst hc
    cases hinv.move hs with
    | @moveValue next v hc hret =>
      unfold moveValue
      split <;> exact le_rfl
    | ret hc => simp
    | _ => exact le_rfl
  by_cases hcall : a = .tryDequeue ∨ a = .waitDequeue
  · rcases hcall with rfl | rfl <;> simp only [step] at hs <;> split at hs <;>
      cases hs <;> exact le_rfl
  · rw [not_or] at hcall
    exact (congrArg List.length (step_other hinv hs hc hcall.1 hcall.2).returned).ge

end loses

/-! ### Runs -/

section run
variable [DecidableEq P] {s s' : State P T} {cs : List Addr} {vs : List T} {stub : Addr}

/-- `stop` is not called. -/
def NoStop (_ : State P T) (a : Action P T) : Prop := a ≠ .stop

/-- The consumer calls `wait_dequeue` only, and `stop` is called when no `enqueue` is running. -/
def StopLast (s : State P T) (a : Action P T) : Prop :=
  a ≠ .tryDequeue ∧ (a = .stop → ∀ p, s.producers p = .idle)

/-- The consumer does not load `head->next` in a producer's window. -/
def NoStaleLoad (s : State P T) (a : Action P T) : Prop := a = .consumer → ¬s.StaleLoad

instance [DecidableEq T] (s : State P T) (a : Action P T) : Decidable (NoStop s a) :=
  inferInstanceAs (Decidable (a ≠ .stop))

instance [DecidableEq T] [Fintype P] (s : State P T) (a : Action P T) :
    Decidable (StopLast s a) :=
  inferInstanceAs (Decidable (_ ∧ _))

instance [DecidableEq T] [Fintype P] (s : State P T) (a : Action P T) :
    Decidable (NoStaleLoad s a) :=
  inferInstanceAs (Decidable (_ → _))

lemma reaches_tailOk {C : State P T → Action P T → Prop} (h : (system P T stub).Reaches C s) :
    s.TailOk := by
  refine h.invariant trivial ?_
  intro s a s' run ih _ hs
  obtain ⟨cs, vs, hinv⟩ := reaches_inv run
  by_cases hc : a = .consumer
  · subst hc
    exact tailOk_consumerStep hinv ih hs
  by_cases hcall : a = .tryDequeue ∨ a = .waitDequeue
  · rcases hcall with rfl | rfl <;>
    · simp only [system, step] at hs
      split at hs <;> cases hs
      trivial
  · rw [not_or] at hcall
    have hother := step_other hinv hs hc hcall.1 hcall.2
    exact tailOk_of_other hother ih

/-- If `stop` comes last and no load is stale, the consumer's copies are right. -/
lemma reaches_fresh {waitOnly : Prop} {C : State P T → Action P T → Prop}
    (hC : ∀ s a, C s a → (waitOnly → a ≠ .tryDequeue) ∧
      (a = .stop → ∀ p, s.producers p = .idle) ∧ NoStaleLoad s a)
    (h : (system P T stub).Reaches C s) :
    s.Fresh waitOnly ∧ (s.mTail = none → s.NoPending) := by
  refine h.invariant (I := fun s => s.Fresh waitOnly ∧ (s.mTail = none → s.NoPending))
    ⟨trivial, by simp [system, init]⟩ ?_
  rintro s a s' run ⟨ih, hno⟩ hCa hs
  obtain ⟨htry, hstop, hload⟩ := hC s a hCa
  obtain ⟨cs, vs, hinv⟩ := reaches_inv run
  by_cases hc : a = .consumer
  · subst hc
    refine ⟨fresh_consumerStep hinv (reaches_tailOk run) ih (hload rfl) hs, ?_⟩
    obtain ⟨hprod, -, -, -, htail⟩ := consumerStep_frame hs
    intro ht p
    rw [hprod]
    exact hno (htail ▸ ht) p
  by_cases hcall : a = .tryDequeue ∨ a = .waitDequeue
  · rcases hcall with rfl | rfl <;> simp only [system, step] at hs <;> split at hs <;> cases hs
    · exact ⟨fun hw => htry hw rfl, hno⟩
    · exact ⟨trivial, hno⟩
  · rw [not_or] at hcall
    have hother := step_other hinv hs hc hcall.1 hcall.2
    refine ⟨fresh_of_other hother ih, ?_⟩
    cases hother.tail with
    | keep tail _ link =>
      intro ht p t n hp
      exact hno (tail ▸ ht) p t n (link p t n hp)
    | stop ha _ _ producers =>
      intro _ p t n
      rw [producers, hstop ha p]
      exact fun hp => by cases hp
    | swing t n _ new _ => simp [new]

/-- Without `stop`, the consumer alone takes the next value from wherever it stands in
`wait_dequeue_helper` if and only if its copies are not stale, and they are not if no load
was. -/
theorem wait_dequeue_progress_iff (h : (system P T stub).Reaches NoStop s)
    (hidle : ∀ p, s.producers p = .idle) (hwait : s.consumer.Waiting)
    (hlt : s.delivered.length < s.acceptedValues.length) :
    (s.Takes ↔ ¬s.Stale) ∧
      ((system P T stub).Reaches (fun s a => NoStop s a ∧ NoStaleLoad s a) s → s.Takes) := by
  obtain ⟨cs, vs, hinv⟩ := reaches_inv h
  have htail := reaches_tailOk h
  have hstop : s.mTail ≠ none := reaches_mTail (fun _ _ hC => hC) h
  have hno : s.NoPending := by
    intro p t n
    rw [hidle p]
    exact fun hp => by cases hp
  have htakes : ¬s.Stale → s.Takes := takes_of_not_stale hinv hno htail hwait hlt
  refine ⟨⟨fun ht hstale => ?_, htakes⟩, fun hrun => htakes ?_⟩
  · exact (hstale.spinning hinv htail hstop hlt).not_takes ht
  · have hfresh : s.Fresh False :=
      (reaches_fresh (fun s a hC => ⟨False.elim, fun ha => absurd ha hC.1, hC.2⟩) hrun).1
    intro hstale
    unfold State.Stale at hstale
    unfold State.Fresh at hfresh
    split at hstale <;> rename_i hc
    · rw [hc] at hfresh
      exact hstop (hfresh.resolve_left hstale).1
    · rw [hc] at hfresh
      exact hstop hfresh.1
    · exact hstale

/-- The consumer waits on the empty queue and passes `m_tail.wait` in the producer's window. -/
def windowRun : List (Action (Fin 1) ℕ) :=
  [.waitDequeue, .consumer, .consumer, .consumer, .consumer, .enqueue 0 5, .alloc 0 (some 1),
    .loadTail 0, .cas 0 false, .consumer, .consumer, .consumer, .link 0, .enqueueRet 0]

/-- All calls have returned, a value is on the chain, and the consumer spins for ever. -/
theorem wait_dequeue_spins :
    ∃ s : State (Fin 1) ℕ, (system (Fin 1) ℕ 0).Reaches NoStop s ∧
      (∀ p, s.producers p = .idle) ∧ s.consumer.Waiting ∧
      s.delivered.length < s.acceptedValues.length ∧ ¬s.Takes := by
  obtain ⟨s, hs, hidle, hc, hlt, ht⟩ := System.exists_reaches (S := system (Fin 1) ℕ 0)
    NoStop (fun s => (∀ p, s.producers p = .idle) ∧ s.consumer = .reloadTail 0 none ∧
      s.delivered.length < s.acceptedValues.length ∧ s.mTail = some 1) windowRun (by decide)
  refine ⟨s, hs, hidle, by rw [hc]; trivial, hlt, ?_⟩
  apply State.Spinning.not_takes
  exact ⟨0, 1, ht, by decide, Or.inl hc⟩

/-- The consumer starts in the window but loads `head->next` after it. -/
def lateRun : List (Action (Fin 1) ℕ) :=
  [.enqueue 0 5, .alloc 0 (some 1), .loadTail 0, .cas 0 false, .waitDequeue, .consumer, .consumer,
    .link 0, .enqueueRet 0]

theorem wait_dequeue_progress_late : ∃ s : State (Fin 1) ℕ, s.delivered = [] ∧ s.Takes := by
  obtain ⟨s, hs, hidle, hc, hdel, hacc⟩ := System.exists_reaches (S := system (Fin 1) ℕ 0)
    NoStop (fun s => (∀ p, s.producers p = .idle) ∧ s.consumer = .waitLoadNext 0 (some 1) ∧
      s.delivered = [] ∧ s.acceptedValues = [5]) lateRun (by decide)
  refine ⟨s, hdel, ?_⟩
  apply (wait_dequeue_progress_iff hs hidle (by rw [hc]; trivial)
    (by rw [hdel, hacc]; decide)).1.mpr
  simp [State.Stale, hc]

/-- `nullopt` is returned only from a stopped queue all of whose accepted values have been
returned, if `stop` comes last and no load was stale. By `stale_load_loses_value` a stale load
makes that very call return `nullopt` instead of a value. -/
theorem wait_dequeue_none_drained
    (h : (system P T stub).Reaches (fun s a => StopLast s a ∧ NoStaleLoad s a) s)
    (hret : s.consumer = .ret none) :
    s.mTail = none ∧ s.delivered = s.acceptedValues ∧
      ∀ p k, (s.results p)[k]? = some true →
        ∃ x ∈ s.accepted, x.producer = p ∧ x.call = k ∧ (s.calls p)[k]? = some x.value := by
  have hfresh : s.Fresh True :=
    (reaches_fresh (fun s a hC => ⟨fun _ => hC.1.1, hC.1.2, hC.2⟩) h).1
  have hhist := reaches_history h
  unfold State.Fresh at hfresh
  rw [hret] at hfresh
  obtain ⟨htail, hdel⟩ := hfresh trivial
  refine ⟨htail, hdel, fun p k hk => ?_⟩
  obtain ⟨x, hx, rfl, rfl⟩ := (hhist.accepted_iff p k).mpr (Or.inl hk)
  exact ⟨x, hx, rfl, rfl, hhist.tickets x hx⟩

/-- After the window `stop` makes the call return `nullopt`. The value is lost. -/
theorem wait_dequeue_loses_value :
    ∃ s : State (Fin 1) ℕ, (system (Fin 1) ℕ 0).Reaches StopLast s ∧
      s.consumer = .ret none ∧ (s.results 0)[0]? = some true ∧ s.delivered = [] :=
  System.exists_reaches StopLast _ (windowRun.append [.stop, .consumer, .consumer])
    (by decide)

theorem wait_dequeue_drained_late :
    ∃ s : State (Fin 1) ℕ, s.delivered = [5] ∧ s.consumer = .ret none ∧
      s.delivered = s.acceptedValues := by
  obtain ⟨s, hs, hdel, hc⟩ := System.exists_reaches (S := system (Fin 1) ℕ 0)
    (fun s a => StopLast s a ∧ NoStaleLoad s a)
    (fun s => s.delivered = [5] ∧ s.consumer = .ret none)
    (lateRun.append [.consumer, .consumer, .consumer, .consumer, .consumer, .consumer, .stop,
      .waitDequeue, .consumer, .consumer, .consumer, .consumer]) (by decide)
  exact ⟨s, hdel, hc, (wait_dequeue_none_drained hs hc).2.1⟩

/-- Every load that `NoStaleLoad` excludes costs a value. Whatever the threads do after it, until
the call returns there is a value that has not been returned, and once `stop` has been called the
consumer alone comes to the return of `nullopt`. -/
theorem stale_load_loses_value (h : (system P T stub).Reachable s) (hload : s.StaleLoad)
    (hs : step s .consumer = some s') {as : List (Action P T)} {t : State P T}
    (ht : (system P T stub).exec (fun _ _ => True) s' as = some t)
    (hcall : t.returned = s'.returned) :
    t.delivered ≠ t.acceptedValues ∧ (∀ v, t.consumer ≠ .ret (some v)) ∧
      (t.mTail = none → ∃ k u, solo consumerStep k t = some u ∧ u.consumer = .ret none ∧
        u.delivered ≠ u.acceptedValues) := by
  obtain ⟨cs, vs, hinv⟩ := reaches_inv h
  have hreach : (system P T stub).Reachable s' := h.step (a := Action.consumer) trivial hs
  have hrun := System.exec_invariant (S := system P T stub) (I := fun t =>
    (system P T stub).Reachable t ∧ (t.Loses ∧ t.returned = s'.returned ∨
      s'.returned.length < t.returned.length))
    ?_ ⟨hreach, Or.inl ⟨loses_of_load hinv hload hs, rfl⟩⟩ ht
  · obtain ⟨-, ⟨hloses, -⟩ | hlt⟩ := hrun
    · have hne : t.delivered ≠ t.acceptedValues := fun heq =>
        absurd (congrArg List.length heq) hloses.2.ne
      refine ⟨hne, fun v hv => ?_, fun hstop => ?_⟩
      · have hhand := hloses.hand
        rw [hv] at hhand
        cases hhand
      · obtain ⟨k, u, hk, hret, hdelivered, haccepted⟩ := hloses.gives_up hstop
        exact ⟨k, u, hk, hret, by rwa [hdelivered, haccepted]⟩
    · rw [hcall] at hlt
      exact absurd hlt (lt_irrefl _)
  · rintro t a t' ⟨htr, hstate⟩ - ha
    refine ⟨htr.step trivial ha, ?_⟩
    obtain ⟨cs, vs, hinv'⟩ := reaches_inv htr
    rcases hstate with ⟨hloses, hret⟩ | hlt
    · rcases loses_of_step hloses hinv' ha with ⟨hloses', hret'⟩ | hret'
      · exact Or.inl ⟨hloses', hret'.trans hret⟩
      · right
        rw [hret', hret, List.length_append]
        exact Nat.lt_succ_self _
    · exact Or.inr (hlt.trans_le (returned_length_le hinv' ha))

end run

end Scoro.AtomicQueue

import Scoro.Lib.Temporary
import Scoro.Combinators.WaitAll
import Scoro.Combinators.WaitAny
import Scoro.Combinators.WaitEach.Invariant

/-!
# The awaiter as a temporary

The awaiter of a `co_await` expression, with its pointer `m_state`, is destroyed after the consumer
has left the expression. `await_suspend` goes through that pointer to the state in each of its
steps but `head->next`, and a runner may have resumed the consumer before `await_suspend` is done.
-/

namespace Scoro.Combinators
open Scoro.Lib System

/-- `await_suspend` is going to access `m_state`. -/
def Awaiter.accesses (w : Awaiter) : Bool :=
  match w.suspend with
  | .store | .recheck | .exchange => true
  | .idle | .returned => false

lemma Awaiter.exchange_suspend (w : Awaiter) : w.exchange.suspend = w.suspend := by
  unfold exchange
  split <;> rfl

lemma Awaiter.accesses_of_step {w w' : Awaiter} {ready : Bool}
    (hs : w.awaitSuspend ready = some w') : w.accesses = true := by
  unfold awaitSuspend at hs
  split at hs
  · rename_i hpc
    simp [accesses, hpc]
  · rename_i hpc
    simp [accesses, hpc]
  · rename_i hpc
    simp [accesses, hpc]
  · cases hs

section awaiter
variable {σ α : Type*} {S : System σ α} {U : Usage σ α} {w : σ → Awaiter} {s : Temporary σ}

/-- The awaiter is not destroyed while `await_suspend` has an access ahead. -/
def EndsAfter (w : σ → Awaiter) (s : Temporary σ) : TemporaryAction α → Prop
  | .destroy => (w s.state).accesses = false
  | .step _ => True

instance (s : Temporary σ) : (a : TemporaryAction α) → Decidable (EndsAfter w s a)
  | .destroy => inferInstanceAs (Decidable ((w s.state).accesses = false))
  | .step _ => .isTrue trivial

/-- A step of `await_suspend` accesses the awaiter, and the other ones leave `await_suspend` where
it is. -/
lemma endsAfter_iff
    (hstep : ∀ s a t, U.owner a = false → S.step s a = some t →
      U.uses s a = true ∧ (w s).accesses = true ∨
      U.uses s a = false ∧ (w t).accesses = (w s).accesses)
    (h : (S.temporary U).Reaches (EndsAfter w) s) :
    s.fault = false ∧
    ∀ a s', (S.temporary U).step s a = some s' → ¬EndsAfter w s a →
      ∀ as t, (S.temporary U).exec (fun _ _ => True) s' as = some t →
        t.fault = true ∨ (w t.state).accesses = true := by
  have heq : EndsAfter w = DestroysAfter (α := α) fun s => (w s).accesses := by
    funext s a
    cases a <;> rfl
  rw [heq] at h ⊢
  exact destroysAfter_iff (fun s a t _ => hstep s a t) h

end awaiter

end Scoro.Combinators

namespace Scoro.WaitAny
open Scoro.Lib Scoro.Combinators

variable {n : ℕ} {V E : Type*}

/-- How the awaiter is used: its owner is the consumer, who leaves after `await_resume`. -/
def usage (n : ℕ) (V E : Type*) : Usage (State n V E) (Action n V E) where
  left s := match s.resume with
    | .returned .. => true
    | _ => false
  owner a := match a with
    | .awaitReady | .awaitResume => true
    | _ => false
  uses _ a := match a with
    | .awaitSuspend => true
    | _ => false

lemma usage_step (s : State n V E) (a : Action n V E) (t : State n V E)
    (howner : (usage n V E).owner a = false) (hs : (system n V E).step s a = some t) :
    (usage n V E).uses s a = true ∧ s.awaiter.accesses = true ∨
      (usage n V E).uses s a = false ∧ t.awaiter.accesses = s.awaiter.accesses := by
  cases a with
  | awaitReady | awaitResume => cases howner
  | complete i o =>
    cases hi : s.runners i <;>
      simp only [system, step, hi, reduceCtorEq, Option.some.injEq] at hs
    subst hs
    exact Or.inr ⟨rfl, rfl⟩
  | runner i =>
    cases hi : s.runners i <;>
      simp only [system, step, runnerStep, hi, reduceCtorEq, Option.some.injEq] at hs
    case cas o => split at hs <;> cases hs <;> exact Or.inr ⟨rfl, rfl⟩
    case emplace o =>
      subst hs
      exact Or.inr ⟨rfl, rfl⟩
    case exchange =>
      subst hs
      refine Or.inr ⟨rfl, ?_⟩
      simp only [Awaiter.accesses, Awaiter.exchange_suspend]
  | awaitSuspend =>
    obtain ⟨w, hw, -⟩ := Option.map_eq_some_iff.mp hs
    exact Or.inl ⟨rfl, Awaiter.accesses_of_step hw⟩

end Scoro.WaitAny

namespace Scoro.WaitAll
open Scoro.Lib Scoro.Combinators

variable {n : ℕ} {V E : Type*}

/-- How the awaiter is used: its owner is the consumer, who leaves after `await_resume`. -/
def usage (n : ℕ) (V E : Type*) : Usage (State n V E) (Action n V E) where
  left s := s.returned.isSome
  owner a := match a with
    | .awaitReady | .awaitResume => true
    | _ => false
  uses _ a := match a with
    | .awaitSuspend => true
    | _ => false

lemma usage_step (s : State n V E) (a : Action n V E) (t : State n V E)
    (howner : (usage n V E).owner a = false) (hs : (system n V E).step s a = some t) :
    (usage n V E).uses s a = true ∧ s.awaiter.accesses = true ∨
      (usage n V E).uses s a = false ∧ t.awaiter.accesses = s.awaiter.accesses := by
  cases a with
  | awaitReady | awaitResume => cases howner
  | complete i o =>
    cases hi : s.runners i <;>
      simp only [system, step, hi, reduceCtorEq, Option.some.injEq] at hs
    subst hs
    exact Or.inr ⟨rfl, rfl⟩
  | runner i =>
    cases hi : s.runners i <;>
      simp only [system, step, runnerStep, hi, reduceCtorEq, Option.some.injEq] at hs
    case emplace o =>
      subst hs
      cases o <;> exact Or.inr ⟨rfl, rfl⟩
    case fetchSub =>
      subst hs
      exact Or.inr ⟨rfl, rfl⟩
    case exchange =>
      subst hs
      refine Or.inr ⟨rfl, ?_⟩
      simp only [Awaiter.accesses, Awaiter.exchange_suspend]
  | awaitSuspend =>
    obtain ⟨w, hw, -⟩ := Option.map_eq_some_iff.mp hs
    exact Or.inl ⟨rfl, Awaiter.accesses_of_step hw⟩

end Scoro.WaitAll

namespace Scoro.WaitEach
open Scoro.Lib Scoro.Combinators System

variable {n : ℕ} {V E : Type*}

/-- The call of `await_suspend` is going to access `m_state`. After `m_head` is loaded this depends
on the answer of `maybe_empty`. -/
def SuspendPc.accesses : SuspendPc → Bool
  | .store | .loadHead | .exchange => true
  | .idle | .loadNext _ | .returned => false

/-- How the awaiter is used: its owner is the consumer, who leaves after `await_resume`. -/
def usage (n : ℕ) (V E : Type*) : Usage (State n V E) (Action n V E) where
  left s := decide (s.consumer = .ready) && !s.queue.returned.isEmpty
  owner a := match a with
    | .consumer => true
    | _ => false
  uses s a := match a with
    | .suspend k _ => (s.suspends k).accesses
    | _ => false

/-- The step of call `k` is `head->next`, and it does not find the queue empty. -/
def goesOn (s : State n V E) (k : ℕ) (guess : Bool) : Bool :=
  match s.suspends k with
  | .loadNext head => nonEmpty s head guess
  | _ => false

/-- The awaiter is not destroyed while a call of `await_suspend` has an access ahead, and no call
finds the queue non-empty after that. -/
def EndsAfter (s : Temporary (State n V E)) : TemporaryAction (Action n V E) → Prop
  | .destroy => ∀ k < s.state.calls, (s.state.suspends k).accesses = false
  | .step (.suspend k guess) => s.alive = true ∨ goesOn s.state k guess = false
  | .step _ => True

instance (s : Temporary (State n V E)) :
    (a : TemporaryAction (Action n V E)) → Decidable (EndsAfter s a)
  | .destroy => inferInstanceAs
      (Decidable (∀ k < s.state.calls, (s.state.suspends k).accesses = false))
  | .step (.suspend k guess) => inferInstanceAs
      (Decidable (s.alive = true ∨ goesOn s.state k guess = false))
  | .step (.complete _ _) | .step (.enqueue _ _ _) | .step (.runner _) | .step .consumer =>
    .isTrue trivial

/-- Only `await_suspend` moves its calls, and each step that starts at an access is one. -/
lemma usage_step {s t : State n V E} {a : Action n V E} (howner : (usage n V E).owner a = false)
    (hs : step s a = some t) (j : ℕ) :
    t.suspends j = s.suspends j ∨ ∃ guess, a = .suspend j guess ∧
      ((s.suspends j).accesses = true ∨
        (t.suspends j).accesses = goesOn s j guess ∧ ∃ head, s.suspends j = .loadNext head) := by
  cases a with
  | consumer => cases howner
  | complete i o =>
    cases hi : s.runners i <;> simp only [step, hi, reduceCtorEq] at hs
    obtain ⟨q, -, rfl⟩ := Option.map_eq_some_iff.mp hs
    exact Or.inl rfl
  | enqueue i addr spurious =>
    cases hi : s.runners i <;> simp only [step, enqueueStep, hi, reduceCtorEq] at hs
    obtain ⟨b, -, hb⟩ := Option.bind_eq_some_iff.mp hs
    obtain ⟨q, -, rfl⟩ := Option.map_eq_some_iff.mp hb
    exact Or.inl rfl
  | runner i =>
    cases hi : s.runners i <;>
      simp only [step, runnerStep, hi, reduceCtorEq, Option.some.injEq] at hs
    case fetchSub =>
      subst hs
      exact Or.inl rfl
    case exchange =>
      subst hs
      exact Or.inl (congrFun (exchange_suspends s) j)
  | suspend k guess =>
    by_cases hjk : j = k
    · subst hjk
      refine Or.inr ⟨guess, rfl, ?_⟩
      cases hpc : s.suspends j <;>
        simp only [step, suspendStep, hpc, reduceCtorEq, Option.some.injEq] at hs
      case loadNext head =>
        refine Or.inr ⟨?_, head, rfl⟩
        subst hs
        simp only [State.setSuspend, Function.update_self, goesOn, hpc]
        cases nonEmpty s head guess <;> rfl
      case store | loadHead | exchange => exact Or.inl rfl
    · left
      cases hpc : s.suspends k <;>
        simp only [step, suspendStep, hpc, reduceCtorEq, Option.some.injEq] at hs
      case exchange =>
        subst hs
        simp only [State.setSuspend, Function.update_of_ne hjk, exchange_suspends]
      all_goals
        subst hs
        simp only [State.setSuspend, Function.update_of_ne hjk]

variable {stub : AtomicQueue.Addr} {s : Temporary (State n V E)}

lemma endsAfter_iff (h : ((system n V E stub).temporary (usage n V E)).Reaches EndsAfter s) :
    s.fault = false ∧
    ∀ a s', ((system n V E stub).temporary (usage n V E)).step s a = some s' → ¬EndsAfter s a →
      ∃ k, ∀ as t,
        ((system n V E stub).temporary (usage n V E)).exec (fun _ _ => True) s' as = some t →
          t.fault = true ∨ (t.state.suspends k).accesses = true := by
  have hfated : ∀ k (s t : Temporary (State n V E)) as, s.alive = false →
      (s.state.suspends k).accesses = true →
      ((system n V E stub).temporary (usage n V E)).exec (fun _ _ => True) s as = some t →
      t.fault = true ∨ (t.state.suspends k).accesses = true := by
    intro k s t as hdead hacc ht
    refine temporary_fated (P := fun s => (s.suspends k).accesses = true) ?_ hdead hacc ht
    intro s a t hP howner hs
    rcases usage_step howner hs k with hsame | ⟨guess, rfl, -⟩
    · exact Or.inr (hsame ▸ hP)
    · exact Or.inl hP
  refine ⟨?_, fun a s' hs ha => ?_⟩
  · refine h.temporary_safe (Q := fun s => ∀ k, (s.suspends k).accesses = false) ?_ ?_
    · intro s run hC _ k
      by_cases hk : k < s.state.calls
      · exact hC k hk
      · have hidle := (reaches_inv run.underlying).handover.later k (not_lt.mp hk)
        rw [hidle]
        rfl
    · intro s a t _ hdead hQ hC howner hs
      refine ⟨?_, fun k => ?_⟩
      · cases a with
        | suspend k guess => exact hQ k
        | _ => rfl
      · rcases usage_step howner hs k with hsame | ⟨guess, rfl, hacc | ⟨hnew, -⟩⟩
        · rw [hsame]
          exact hQ k
        · rw [hQ k] at hacc
          cases hacc
        · rw [hnew]
          exact hC.resolve_left (by simp [hdead])
  · cases a with
    | destroy =>
      obtain ⟨-, -, rfl⟩ := temporary_destroy hs
      simp only [EndsAfter, not_forall, Bool.not_eq_false] at ha
      obtain ⟨k, -, hacc⟩ := ha
      exact ⟨k, fun as t ht => hfated k { s with alive := false } t as rfl hacc ht⟩
    | step a =>
      cases a with
      | suspend k guess =>
        obtain ⟨hstate, -, halive, -⟩ := temporary_step hs
        simp only [EndsAfter, not_or, Bool.not_eq_true, Bool.not_eq_false] at ha
        obtain ⟨hdead, hgoes⟩ := ha
        have hloads : ∃ head, s.state.suspends k = .loadNext head := by
          unfold goesOn at hgoes
          split at hgoes
          · exact ⟨_, ‹_›⟩
          · cases hgoes
        obtain ⟨head, hpc⟩ := hloads
        refine ⟨k, fun as t ht => hfated k _ t as (halive.trans hdead) ?_ ht⟩
        have hnew : s'.state = s.state.setSuspend k .exchange := by
          have hnon : nonEmpty s.state head guess = true := by simpa [goesOn, hpc] using hgoes
          simpa [system, step, suspendStep, hpc, hnon] using hstate.symm
        rw [hnew]
        simp [State.setSuspend, SuspendPc.accesses]
      | _ => exact absurd trivial ha

end Scoro.WaitEach

namespace Scoro.Combinators
open Scoro.Lib System

/-- In all three combinators a runner resumes the consumer after `coroutine_addr.store`, and the
consumer leaves the expression before the next access of `await_suspend`. -/
theorem await_suspend_outlives_awaiter :
    (∃ s, ((WaitAny.system 1 ℕ ℕ).temporary (WaitAny.usage 1 ℕ ℕ)).Reachable s ∧
      s.fault = true) ∧
    (∃ s, ((WaitAll.system 1 ℕ ℕ).temporary (WaitAll.usage 1 ℕ ℕ)).Reachable s ∧
      s.fault = true) ∧
    ∃ s, ((WaitEach.system 1 ℕ ℕ 0).temporary (WaitEach.usage 1 ℕ ℕ)).Reachable s ∧
      s.fault = true := by
  refine ⟨?_, ?_, ?_⟩
  · exact exists_reaches _ _ [.step .awaitReady, .step .awaitSuspend,
      .step (.complete 0 (.value 7)), .step (.runner 0), .step (.runner 0), .step (.runner 0),
      .step .awaitResume, .step .awaitResume, .destroy, .step .awaitSuspend] (by decide)
  · exact exists_reaches _ _ [.step .awaitReady, .step .awaitSuspend,
      .step (.complete 0 (.value 7)), .step (.runner 0), .step (.runner 0), .step (.runner 0),
      .step .awaitResume, .destroy, .step .awaitSuspend] (by decide)
  · exact exists_reaches _ _ [.step .consumer, .step .consumer, .step .consumer,
      .step (.suspend 0 false), .step (.complete 0 (.value 7)), .step (.enqueue 0 (some 1) false),
      .step (.enqueue 0 none false), .step (.enqueue 0 none false), .step (.enqueue 0 none false),
      .step (.enqueue 0 none false), .step (.runner 0), .step (.runner 0), .step .consumer,
      .step .consumer, .step .consumer, .step .consumer, .step .consumer, .step .consumer,
      .step .consumer, .destroy, .step (.suspend 0 false)] (by decide)

variable {n m k : ℕ} {V E : Type*} {stub : AtomicQueue.Addr}

/-- `await_suspend` does not outlive the awaiter as long as the awaiter is not destroyed while
`await_suspend` has an access ahead. Otherwise the call can only go on with that access. -/
theorem await_suspend_lifetime_iff {s : Temporary (WaitAny.State n V E)}
    {t : Temporary (WaitAll.State m V E)} {u : Temporary (WaitEach.State k V E)}
    (hany : ((WaitAny.system n V E).temporary (WaitAny.usage n V E)).Reaches
      (EndsAfter WaitAny.State.awaiter) s)
    (hall : ((WaitAll.system m V E).temporary (WaitAll.usage m V E)).Reaches
      (EndsAfter WaitAll.State.awaiter) t)
    (heach : ((WaitEach.system k V E stub).temporary (WaitEach.usage k V E)).Reaches
      WaitEach.EndsAfter u) :
    (s.fault = false ∧ t.fault = false ∧ u.fault = false) ∧
    (∀ a s', ((WaitAny.system n V E).temporary (WaitAny.usage n V E)).step s a = some s' →
      ¬EndsAfter WaitAny.State.awaiter s a → ∀ as r,
      ((WaitAny.system n V E).temporary (WaitAny.usage n V E)).exec (fun _ _ => True) s' as =
        some r → r.fault = true ∨ r.state.awaiter.accesses = true) ∧
    (∀ a t', ((WaitAll.system m V E).temporary (WaitAll.usage m V E)).step t a = some t' →
      ¬EndsAfter WaitAll.State.awaiter t a → ∀ as r,
      ((WaitAll.system m V E).temporary (WaitAll.usage m V E)).exec (fun _ _ => True) t' as =
        some r → r.fault = true ∨ r.state.awaiter.accesses = true) ∧
    ∀ a u', ((WaitEach.system k V E stub).temporary (WaitEach.usage k V E)).step u a = some u' →
      ¬WaitEach.EndsAfter u a → ∃ j, ∀ as r,
      ((WaitEach.system k V E stub).temporary (WaitEach.usage k V E)).exec (fun _ _ => True) u' as =
          some r →
        r.fault = true ∨ (r.state.suspends j).accesses = true := by
  obtain ⟨hs, hsafter⟩ := endsAfter_iff WaitAny.usage_step hany
  obtain ⟨ht, htafter⟩ := endsAfter_iff WaitAll.usage_step hall
  obtain ⟨hu, huafter⟩ := WaitEach.endsAfter_iff heach
  exact ⟨⟨hs, ht, hu⟩, hsafter, htafter, huafter⟩

/-- `await_suspend` returns before the runner resumes the consumer. -/
theorem await_suspend_lifetime_run :
    ∃ (s : Temporary (WaitAny.State 1 ℕ ℕ)) (t : Temporary (WaitAll.State 1 ℕ ℕ))
      (u : Temporary (WaitEach.State 1 ℕ ℕ)),
      s.alive = false ∧ t.alive = false ∧ u.alive = false ∧
      s.fault = false ∧ t.fault = false ∧ u.fault = false := by
  obtain ⟨s, hs, hsalive⟩ := exists_reaches
    (S := (WaitAny.system 1 ℕ ℕ).temporary (WaitAny.usage 1 ℕ ℕ)) (EndsAfter WaitAny.State.awaiter)
    (fun s => s.alive = false) [.step .awaitReady, .step .awaitSuspend, .step .awaitSuspend,
      .step (.complete 0 (.value 7)), .step (.runner 0), .step (.runner 0), .step (.runner 0),
      .step .awaitResume, .step .awaitResume, .destroy] (by decide)
  obtain ⟨t, ht, htalive⟩ := exists_reaches
    (S := (WaitAll.system 1 ℕ ℕ).temporary (WaitAll.usage 1 ℕ ℕ)) (EndsAfter WaitAll.State.awaiter)
    (fun s => s.alive = false) [.step .awaitReady, .step .awaitSuspend, .step .awaitSuspend,
      .step (.complete 0 (.value 7)), .step (.runner 0), .step (.runner 0), .step (.runner 0),
      .step .awaitResume, .destroy] (by decide)
  obtain ⟨u, hu, hualive⟩ := exists_reaches
    (S := (WaitEach.system 1 ℕ ℕ 0).temporary (WaitEach.usage 1 ℕ ℕ)) WaitEach.EndsAfter
    (fun s => s.alive = false) [.step .consumer, .step .consumer, .step .consumer,
      .step (.suspend 0 false), .step (.suspend 0 false), .step (.suspend 0 false),
      .step (.complete 0 (.value 7)), .step (.enqueue 0 (some 1) false),
      .step (.enqueue 0 none false), .step (.enqueue 0 none false), .step (.enqueue 0 none false),
      .step (.enqueue 0 none false), .step (.runner 0), .step (.runner 0), .step .consumer,
      .step .consumer, .step .consumer, .step .consumer, .step .consumer, .step .consumer,
      .step .consumer, .destroy] (by decide)
  exact ⟨s, t, u, hsalive, htalive, hualive, (await_suspend_lifetime_iff hs ht hu).1⟩

end Scoro.Combinators

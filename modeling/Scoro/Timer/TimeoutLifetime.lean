import Scoro.Lib.Temporary
import Scoro.Timer.Timeout

/-!
# The lifetime of a `TimeoutAwaitable`

The awaiter is a temporary of `with_timeout_until`, which is destroyed when the caller has left the
`co_await`. `await_suspend` resumes the inner coroutine first and then reads `m_timer`, `m_timeout`
and `m_state` for the call of `add_task`. The inner coroutine may complete in between, on this
thread or on another one, and the caller may go on to the end of the expression.
-/

namespace Scoro.Timeout
open Scoro.Lib System

section usage
variable {Time V E : Type*}

/-- The position is followed by an access of the awaiter, now or after the inner coroutine. -/
def SuspendPc.accessAhead : SuspendPc → Bool
  | .setCaller | .resumeInner | .resuming | .addTask => true
  | .idle | .returned => false

/-- The next step of `await_suspend` reads `m_state`, `m_future`, or the arguments of `add_task`. -/
def SuspendPc.accesses : SuspendPc → Bool
  | .setCaller | .resumeInner | .addTask => true
  | .idle | .resuming | .returned => false

def State.accessAhead (s : State V E) : Bool := s.suspend.accessAhead

/-- How the awaiter is used: its owner is the caller, who leaves after `await_resume`. -/
def usage (Time V E : Type*) : Usage (State V E) (Action Time V E) where
  left s := match s.coroutine with
    | .continued _ => true
    | _ => false
  owner a := match a with
    | .awaitReady _ | .awaitResume => true
    | _ => false
  uses s a := match a with
    | .awaitSuspend => s.suspend.accesses
    | _ => false

end usage

variable {Time V E : Type*} [LinearOrder Time] {timeout : Time}

/-- Only `await_suspend` moves itself, apart from the caller. -/
lemma suspend_of_ne {s t : State V E} {a : Action Time V E}
    (howner : (usage Time V E).owner a = false) (ha : a ≠ .awaitSuspend)
    (hs : step timeout s a = some t) : t.suspend = s.suspend := by
  cases step_actionMove hs with
  | expired | suspend | continued | unreachable => cases howner
  | setCaller | resumeInner | resumed | addTask => exact absurd rfl ha
  | resume | resumeTask => exact s.resume_suspend
  | produced | threw | moveThrows | construct | handler | claim | lose | complete | fire | cancel
  | claimTask | loseTask | resumedTask | delete => rfl

/-- An access is ahead of each step of `await_suspend`, and one that is no access leaves it
there. -/
lemma usage_step {s t : State V E} {a : Action Time V E}
    (howner : (usage Time V E).owner a = false) (hs : step timeout s a = some t) :
    (usage Time V E).uses s a = true ∧ s.accessAhead = true ∨
      (usage Time V E).uses s a = false ∧ t.accessAhead = s.accessAhead := by
  by_cases ha : a = .awaitSuspend
  · subst ha
    simp only [step, awaitSuspend] at hs
    split at hs
    case h_3 hpc =>
      right
      split at hs <;> cases hs <;> exact ⟨by simp [usage, hpc, SuspendPc.accesses],
        by simp [State.accessAhead, hpc, SuspendPc.accessAhead]⟩
    case h_1 hpc | h_2 hpc | h_4 hpc =>
      exact Or.inl ⟨by simp [usage, hpc, SuspendPc.accesses],
        by simp [State.accessAhead, hpc, SuspendPc.accessAhead]⟩
    all_goals cases hs
  · right
    refine ⟨?_, ?_⟩
    · cases a <;> first | rfl | exact absurd rfl ha
    · rw [State.accessAhead, suspend_of_ne howner ha hs]
      rfl

end Scoro.Timeout

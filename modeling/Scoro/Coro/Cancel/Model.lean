import Scoro.Lib.Transition

/-!
# `CancelablePromiseBase`

Coroutines `C` that await `wait_cancel` and threads `K` that call `cancel`, each any number of
times. `m_waiter` is a plain field, written before the CAS of `m_state` that registers the waiter,
read after the exchange that claims it, and taken after the CAS that withdraws it. A resumed
coroutine goes on by itself, next to the call that has resumed it. Each action is one atomic step,
and the promise is not used after its destructor.
-/

namespace Scoro.Cancel
open Scoro.Lib

/-- `CancelablePromiseBase::CancelState`. -/
inductive CancelState where
  | ePending
  | eCanceled
  | eWaiting
  deriving DecidableEq

/-- A coroutine in `wait_cancel`: `CAS` and `exchange` of `reset_waiter`, the resume of the old
waiter, `store` and `CAS` of `set_cancel_waiter`. It is `running` outside of it, and `suspended`
from the CAS that registers it until it is resumed. -/
inductive WaitPc (C : Type*) where
  | running
  | resetCas
  | exchangeWaiter
  | resumeOld (oldWaiter : C)
  | storeWaiter
  | setCas
  | suspended
  deriving DecidableEq

/-- A call of `cancel`, with the handle it has read and with what it returns. -/
inductive CancelPc (C : Type*) where
  | idle
  | exchangeState
  | readWaiter
  | resume (waiter : Option C)
  | ret (canceled : Bool)
  deriving DecidableEq

/-- `fault` is set when a null handle or a coroutine that is not suspended in `wait_cancel` is
resumed. `canceled`, some call of `cancel` has returned true, and the counts of suspensions and of
resumes through `m_waiter` are history. -/
structure State (C K : Type*) where
  mState : CancelState
  mWaiter : Option C
  waits : C → WaitPc C
  cancels : K → CancelPc C
  fault : Bool
  canceled : Bool
  suspensions : C → ℕ
  resumes : C → ℕ

/-- `waitCancel` and `callCancel` begin a call, `wait` and `cancel` are its next steps. -/
inductive Action (C K : Type*) where
  | waitCancel (c : C)
  | wait (c : C)
  | callCancel (k : K)
  | cancel (k : K)

section step
variable {C K : Type*} [DecidableEq C] [DecidableEq K]

def init (C K : Type*) : State C K where
  mState := .ePending
  mWaiter := none
  waits := fun _ => .running
  cancels := fun _ => .idle
  fault := false
  canceled := false
  suspensions := fun _ => 0
  resumes := fun _ => 0

namespace State

def setWait (s : State C K) (c : C) (pc : WaitPc C) : State C K :=
  { s with waits := Function.update s.waits c pc }

def setCancel (s : State C K) (k : K) (pc : CancelPc C) : State C K :=
  { s with cancels := Function.update s.cancels k pc }

/-- The CAS of `set_cancel_waiter` has registered `c`. -/
def suspend (s : State C K) (c : C) : State C K :=
  { s.setWait c .suspended with
    mState := .eWaiting
    suspensions := Function.update s.suspensions c (s.suspensions c + 1) }

/-- `resume()` of a handle. -/
def resume (s : State C K) (waiter : Option C) : State C K :=
  match waiter with
  | none => { s with fault := true }
  | some c =>
    let s := { s with resumes := Function.update s.resumes c (s.resumes c + 1) }
    if s.waits c = .suspended then s.setWait c .running else { s with fault := true }

end State

/-- `await_ready`, before `await_suspend`. -/
def waitCancel (s : State C K) (c : C) : Option (State C K) :=
  match s.waits c with
  | .running => some (if s.mState = .eCanceled then s else s.setWait c .resetCas)
  | _ => none

def waitStep (s : State C K) (c : C) : Option (State C K) :=
  match s.waits c with
  | .resetCas => some (if s.mState = .eWaiting then
      { s.setWait c .exchangeWaiter with mState := .ePending } else s.setWait c .storeWaiter)
  | .exchangeWaiter => some (match s.mWaiter with
    | none => s.setWait c .storeWaiter
    | some oldWaiter => { s.setWait c (.resumeOld oldWaiter) with mWaiter := none })
  | .resumeOld oldWaiter => some ((s.resume (some oldWaiter)).setWait c .storeWaiter)
  | .storeWaiter => some { s.setWait c .setCas with mWaiter := some c }
  | .setCas => some (if s.mState = .ePending then s.suspend c else s.setWait c .running)
  | .running | .suspended => none

def callCancel (s : State C K) (k : K) : Option (State C K) :=
  match s.cancels k with
  | .idle => some (s.setCancel k .exchangeState)
  | _ => none

def cancelStep (s : State C K) (k : K) : Option (State C K) :=
  match s.cancels k with
  | .exchangeState => some
      { s.setCancel k (match s.mState with
          | .ePending => .ret true
          | .eCanceled => .ret false
          | .eWaiting => .readWaiter) with mState := .eCanceled }
  | .readWaiter => some (s.setCancel k (.resume s.mWaiter))
  | .resume waiter => some ((s.resume waiter).setCancel k (.ret true))
  | .ret canceled => some { s.setCancel k .idle with canceled := s.canceled || canceled }
  | .idle => none

def step (s : State C K) : Action C K → Option (State C K)
  | .waitCancel c => waitCancel s c
  | .wait c => waitStep s c
  | .callCancel k => callCancel s k
  | .cancel k => cancelStep s k

def system (C K : Type*) [DecidableEq C] [DecidableEq K] : System (State C K) (Action C K) where
  init := init C K
  step := step

end step

variable {C K : Type*} {s s' : State C K} {c d : C} {k l : K}

section cancels
variable [DecidableEq K] {pc : CancelPc C}

@[simp] lemma setCancel_cancels :
    (s.setCancel k pc).cancels l = if l = k then pc else s.cancels l := by
  simp only [State.setCancel, Function.update_apply]

@[simp] lemma setCancel_mState : (s.setCancel k pc).mState = s.mState := rfl

@[simp] lemma setCancel_mWaiter : (s.setCancel k pc).mWaiter = s.mWaiter := rfl

@[simp] lemma setCancel_waits : (s.setCancel k pc).waits = s.waits := rfl

end cancels

section waits
variable [DecidableEq C] {pc : WaitPc C}

@[simp] lemma setWait_waits : (s.setWait c pc).waits d = if d = c then pc else s.waits d := by
  simp only [State.setWait, Function.update_apply]

@[simp] lemma setWait_mState : (s.setWait c pc).mState = s.mState := rfl

@[simp] lemma setWait_mWaiter : (s.setWait c pc).mWaiter = s.mWaiter := rfl

@[simp] lemma setWait_cancels : (s.setWait c pc).cancels = s.cancels := rfl

@[simp] lemma suspend_waits : (s.suspend c).waits d = if d = c then .suspended else s.waits d := by
  simp only [State.suspend, setWait_waits]

@[simp] lemma suspend_mState : (s.suspend c).mState = .eWaiting := rfl

@[simp] lemma suspend_mWaiter : (s.suspend c).mWaiter = s.mWaiter := rfl

@[simp] lemma suspend_cancels : (s.suspend c).cancels = s.cancels := rfl

lemma resume_some (h : s.waits c = .suspended) : s.resume (some c) =
    { s with resumes := Function.update s.resumes c (s.resumes c + 1) }.setWait c .running := by
  simp only [State.resume, h, if_true]

lemma resume_frame (waiter : Option C) : (s.resume waiter).cancels = s.cancels ∧
    (s.resume waiter).canceled = s.canceled ∧ (s.resume waiter).mState = s.mState := by
  cases waiter with
  | none => exact ⟨rfl, rfl, rfl⟩
  | some w =>
    simp only [State.resume]
    split_ifs <;> exact ⟨rfl, rfl, rfl⟩

/-- The coroutines leave the calls of `cancel` alone, and a canceled promise stays canceled. -/
lemma waitStep_frame (hs : waitStep s c = some s') : s'.cancels = s.cancels ∧
    s'.canceled = s.canceled ∧ (s.mState = .eCanceled → s'.mState = .eCanceled) := by
  cases hpc : s.waits c <;> simp only [waitStep, hpc, reduceCtorEq, Option.some.injEq] at hs <;>
    subst hs
  case resetCas =>
    split_ifs with hstate
    · exact ⟨rfl, rfl, by simp [hstate]⟩
    · exact ⟨rfl, rfl, id⟩
  case exchangeWaiter =>
    split <;> exact ⟨rfl, rfl, id⟩
  case resumeOld w =>
    obtain ⟨hcancels, hcanceled, hstate⟩ := resume_frame (s := s) (some w)
    exact ⟨hcancels, hcanceled, fun h => hstate.trans h⟩
  case storeWaiter => exact ⟨rfl, rfl, id⟩
  case setCas =>
    split_ifs with hstate
    · exact ⟨rfl, rfl, by simp [hstate]⟩
    · exact ⟨rfl, rfl, id⟩

end waits

end Scoro.Cancel

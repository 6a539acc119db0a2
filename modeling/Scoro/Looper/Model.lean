import Scoro.Lib.Lock
import Scoro.Lib.Transition

/-!
# `LooperSchedulerRunner`

The worker in `run`, one thread that calls `stop` once, and any number of calls of `submit`, made
by the threads `A` and by the coroutine that the worker resumes. A resumed coroutine may throw.
Destroying a coroutine does not call `submit`. Each action is one atomic step between the
operations on `m_mutex`, `m_stop`, `m_tasks` and `m_cv`.
-/

namespace Scoro.Looper
open Scoro.Lib

/-- The calls that lock `m_mutex`. `submit none` is made by a coroutine on the worker, which has
not locked the mutex there. -/
inductive Call (A : Type*) where
  | run
  | stop
  | submit (t : Option A)
  deriving DecidableEq

inductive SubmitPc (H : Type*) where
  | idle
  | lock (handle : H)
  | testStop (handle : H)
  | push (handle : H)
  | notify
  | unlock
  deriving DecidableEq

/-- `wait` is the wait on `m_cv`, from which the worker is `woken` before it has the mutex again.
`relock` is the `locker.lock()` after a resume. -/
inductive RunPc (H : Type*) where
  | lock
  | testStop
  | testEmpty
  | unlock (task : H)
  | resume (task : H)
  | relock
  | beginWait
  | wait
  | woken
  | leave
  | returned
  deriving DecidableEq

inductive StopPc where
  | lock
  | setStop
  | testEmpty
  | notify
  | unlock
  | returned
  deriving DecidableEq

/-- Whether a call in this position has the mutex. -/
def SubmitPc.holds {H : Type*} : SubmitPc H → Bool
  | .testStop _ | .push _ | .notify | .unlock => true
  | .idle | .lock _ => false

def RunPc.holds {H : Type*} : RunPc H → Bool
  | .testStop | .testEmpty | .unlock _ | .beginWait | .leave => true
  | .lock | .resume _ | .relock | .wait | .woken | .returned => false

def StopPc.holds : StopPc → Bool
  | .setStop | .testEmpty | .notify | .unlock => true
  | .lock | .returned => false

/-- The last three fields are history: the handles pushed, resumed and destroyed. -/
structure State (H A : Type*) where
  mTasks : List H
  mStop : Bool
  mMutex : Option (Call A)
  run : RunPc H
  stop : StopPc
  submits : Option A → SubmitPc H
  submitted : List H
  resumed : List H
  destroyed : List H

/-- `submit`, `run` and `stop` are the next steps of the three functions. `wake` ends a wait
spuriously, and `raise` throws out of a resumed coroutine. -/
inductive Action (H A : Type*) where
  | callSubmit (t : Option A) (handle : H)
  | submit (t : Option A)
  | run
  | stop
  | wake
  | raise

section step
variable {H A : Type*} [DecidableEq H] [DecidableEq A]

def init (H A : Type*) : State H A where
  mTasks := []
  mStop := false
  mMutex := none
  run := .lock
  stop := .lock
  submits := fun _ => .idle
  submitted := []
  resumed := []
  destroyed := []

namespace State

def setSubmit (s : State H A) (t : Option A) (pc : SubmitPc H) : State H A :=
  { s with submits := Function.update s.submits t pc }

/-- `m_cv.notify_one()` and `m_cv.notify_all()`: nobody but the worker waits. -/
def notify (s : State H A) : State H A :=
  match s.run with
  | .wait => { s with run := .woken }
  | _ => s

/-- Whether the caller runs code that may call `submit`. -/
def inUserCode (s : State H A) : Option A → Bool
  | none => match s.run with
    | .resume _ => true
    | _ => false
  | some _ => true

def holds (s : State H A) : Call A → Bool
  | .run => s.run.holds
  | .stop => s.stop.holds
  | .submit t => (s.submits t).holds

end State

def callSubmit (s : State H A) (t : Option A) (handle : H) : Option (State H A) :=
  if s.inUserCode t = true ∧ s.submits t = .idle then some (s.setSubmit t (.lock handle)) else none

def submitStep (s : State H A) (t : Option A) : Option (State H A) :=
  match s.submits t with
  | .idle => none
  | .lock handle =>
    if s.mMutex = none then
      some { s.setSubmit t (.testStop handle) with mMutex := some (.submit t) }
    else none
  | .testStop handle => some (s.setSubmit t (if s.mStop then .unlock else .push handle))
  | .push handle => some
      { s.setSubmit t .notify with
        mTasks := s.mTasks ++ [handle], submitted := s.submitted ++ [handle] }
  | .notify => some (s.notify.setSubmit t .unlock)
  | .unlock => some { s.setSubmit t .idle with mMutex := none }

def runStep (s : State H A) : Option (State H A) :=
  match s.run with
  | .lock | .woken =>
    if s.mMutex = none then some { s with mMutex := some .run, run := .testStop } else none
  | .testStop => some { s with run := if s.mStop then .leave else .testEmpty }
  | .testEmpty =>
    match s.mTasks with
    | [] => some { s with run := .beginWait }
    | task :: tasks => some { s with mTasks := tasks, run := .unlock task }
  | .unlock task => some
      { s with mMutex := none, run := .resume task, resumed := s.resumed ++ [task] }
  | .resume _ => if s.submits none = .idle then some { s with run := .relock } else none
  | .relock =>
    if s.mMutex = none then some { s with mMutex := some .run, run := .testEmpty } else none
  | .beginWait => some { s with mMutex := none, run := .wait }
  | .leave => some { s with mMutex := none, run := .returned }
  | .wait | .returned => none

def stopStep (s : State H A) : Option (State H A) :=
  match s.stop with
  | .lock =>
    if s.mMutex = none then some { s with mMutex := some .stop, stop := .setStop } else none
  | .setStop => some { s with mStop := true, stop := .testEmpty }
  | .testEmpty =>
    match s.mTasks with
    | [] => some { s with stop := .notify }
    | task :: tasks => some { s with mTasks := tasks, destroyed := s.destroyed ++ [task] }
  | .notify => some { s.notify with stop := .unlock }
  | .unlock => some { s with mMutex := none, stop := .returned }
  | .returned => none

/-- `run` catches what a resumed coroutine throws. -/
def raise (s : State H A) : Option (State H A) :=
  match s.run with
  | .resume _ => if s.submits none = .idle then some { s with run := .relock } else none
  | _ => none

def step (s : State H A) : Action H A → Option (State H A)
  | .callSubmit t handle => callSubmit s t handle
  | .submit t => submitStep s t
  | .run => runStep s
  | .stop => stopStep s
  | .wake => match s.run with
    | .wait => some { s with run := .woken }
    | _ => none
  | .raise => raise s

def system (H A : Type*) [DecidableEq H] [DecidableEq A] : System (State H A) (Action H A) where
  init := init H A
  step := step

end step

end Scoro.Looper

import Scoro.Lib.Lock
import Scoro.Lib.PriorityQueue
import Scoro.Lib.Transition

/-!
# `Timer`

One thread in `run`, one that calls `stop` once, and threads `A` that call `add_task` any number
of times. A callback runs on the runner and a cancel function on the stopper; both may call
`add_task` and may throw. The clock does not go back. Each action is one atomic step between the
operations on `m_mutex`, `m_stop`, `m_cv` and the clock. `Accounting` extends the system to calls of
`stop` one after the other, and `StopCalls` also to those that a cancel function makes.
-/

namespace Scoro.Timer
open Scoro.Lib

/-- `Timer::Task`. `id` stands for its `callback` and `arg`, and `cancel` says whether the
pointer of this name is set. -/
structure Task (Time : Type*) where
  executeTime : Time
  id : ℕ
  cancel : Bool
  deriving DecidableEq

/-- `Timer::TaskCompare`. -/
def taskCompare {Time : Type*} [LinearOrder Time] (lhs rhs : Task Time) : Bool :=
  lhs.executeTime > rhs.executeTime

inductive Thread (A : Type*) where
  | runner
  | stopper
  | adder (a : A)
  deriving DecidableEq, Fintype

/-- A call of `add_task`. -/
inductive AddPc (Time : Type*) where
  | idle
  | lock (task : Task Time)
  | push (task : Task Time)
  | notify
  | unlock
  deriving DecidableEq

/-- `wait` and `waitUntil` are the two waits on `m_cv`, from which a thread is `woken` before it
has the mutex again. `relock` is the `locker.lock()` after a callback. -/
inductive RunPc (Time : Type*) where
  | lock
  | testStop
  | testDue
  | unlock (task : Task Time)
  | callback (task : Task Time)
  | relock
  | testEmpty
  | wait
  | waitUntil
  | woken
  | leave
  | returned
  deriving DecidableEq

inductive StopPc (Time : Type*) where
  | lock
  | testEmpty
  | cancel (task : Task Time)
  | pop
  | setStop
  | notify
  | unlock
  | returned
  | thrown
  deriving DecidableEq

def AddPc.holds {Time : Type*} : AddPc Time → Bool
  | .push _ | .notify | .unlock => true
  | .idle | .lock _ => false

lemma AddPc.ne_idle_of_holds {Time : Type*} {pc : AddPc Time} (h : pc.holds = true) :
    pc ≠ .idle := by
  rintro rfl
  cases h

def RunPc.holds {Time : Type*} : RunPc Time → Bool
  | .testStop | .testDue | .unlock _ | .testEmpty | .leave => true
  | .lock | .callback _ | .relock | .wait | .waitUntil | .woken | .returned => false

def StopPc.holds {Time : Type*} : StopPc Time → Bool
  | .testEmpty | .cancel _ | .pop | .setStop | .notify | .unlock => true
  | .lock | .returned | .thrown => false

/-- `fault` is set when a thread locks `m_mutex` while it holds it. The last four fields are
history: the number of calls of `add_task`, the tasks pushed, those whose callback was started
and those whose cancel function was called. -/
structure State (Time A : Type*) [LinearOrder Time] where
  mTasks : PriorityQueue (Task Time) taskCompare
  mStop : Bool
  mMutex : Option (Thread A)
  run : RunPc Time
  stop : StopPc Time
  adds : Thread A → AddPc Time
  clock : Time
  fault : Bool
  calls : ℕ
  added : List (Task Time)
  started : List (Task Time)
  cancelled : List (Task Time)

/-- `run`, `stop` and `add` are the next steps of the three functions, with the arrangement of
the queue after a push or a pop. `wake` ends a wait spuriously or by timeout, and `raise` throws
out of a callback or a cancel function. -/
inductive Action (Time A : Type*) where
  | tick (now : Time)
  | addTask (t : Thread A) (executeTime : Time) (cancel : Bool)
  | add (t : Thread A) (items : List (Task Time))
  | run (items : List (Task Time))
  | stop (items : List (Task Time))
  | wake
  | raise (t : Thread A)

section step
variable {Time A : Type*} [LinearOrder Time] [DecidableEq A]

def init (A : Type*) (now : Time) : State Time A where
  mTasks := PriorityQueue.empty
  mStop := false
  mMutex := none
  run := .lock
  stop := .lock
  adds := fun _ => .idle
  clock := now
  fault := false
  calls := 0
  added := []
  started := []
  cancelled := []

namespace State

def setAdd (s : State Time A) (t : Thread A) (pc : AddPc Time) : State Time A :=
  { s with adds := Function.update s.adds t pc }

/-- `m_cv.notify_one()` and `m_cv.notify_all()`: nobody but the runner waits. -/
def notify (s : State Time A) : State Time A :=
  match s.run with
  | .wait | .waitUntil => { s with run := .woken }
  | _ => s

/-- Whether `t` runs code of the user, which may call `add_task`. -/
def inUserCode (s : State Time A) : Thread A → Bool
  | .runner => match s.run with
    | .callback _ => true
    | _ => false
  | .stopper => match s.stop with
    | .cancel _ => true
    | _ => false
  | .adder _ => true

/-- Whether `t` holds `m_mutex`. -/
def holds (s : State Time A) : Thread A → Bool
  | .runner => s.run.holds || (s.adds .runner).holds
  | .stopper => s.stop.holds || (s.adds .stopper).holds
  | .adder a => (s.adds (.adder a)).holds

end State

def addTask (s : State Time A) (t : Thread A) (executeTime : Time) (cancel : Bool) :
    Option (State Time A) :=
  if s.inUserCode t = true ∧ s.adds t = .idle then
    some { s.setAdd t (.lock ⟨executeTime, s.calls, cancel⟩) with calls := s.calls + 1 }
  else none

def addStep (s : State Time A) (t : Thread A) (items : List (Task Time)) :
    Option (State Time A) :=
  match s.adds t with
  | .idle => none
  | .lock task =>
    match s.mMutex with
    | none => some { s.setAdd t (.push task) with mMutex := some t }
    | some owner => if owner = t then some { s with fault := true } else none
  | .push task => (s.mTasks.push task items).map fun q =>
      { s.setAdd t .notify with mTasks := q, added := s.added ++ [task] }
  | .notify => some (s.notify.setAdd t .unlock)
  | .unlock => some { s.setAdd t .idle with mMutex := none }

def runStep (s : State Time A) (items : List (Task Time)) : Option (State Time A) :=
  match s.run with
  | .lock | .woken =>
    if s.mMutex = none then some { s with mMutex := some .runner, run := .testStop } else none
  | .testStop => some { s with run := if s.mStop then .leave else .testDue }
  | .testDue =>
    match s.mTasks.top with
    | none => some { s with run := .testEmpty }
    | some task =>
      if task.executeTime ≤ s.clock then
        (s.mTasks.pop items).map fun q => { s with mTasks := q, run := .unlock task }
      else some { s with run := .testEmpty }
  | .unlock task => some
      { s with mMutex := none, run := .callback task, started := s.started ++ [task] }
  | .callback _ => if s.adds .runner = .idle then some { s with run := .relock } else none
  | .relock =>
    if s.mMutex = none then some { s with mMutex := some .runner, run := .testDue } else none
  | .testEmpty =>
    match s.mTasks.top with
    | none => some { s with mMutex := none, run := .wait }
    | some task =>
      if task.executeTime > s.clock then some { s with mMutex := none, run := .waitUntil }
      else some { s with run := .testStop }
  | .leave => some { s with mMutex := none, run := .returned }
  | .wait | .waitUntil | .returned => none

def stopStep (s : State Time A) (items : List (Task Time)) : Option (State Time A) :=
  match s.stop with
  | .lock =>
    if s.mMutex = none then some { s with mMutex := some .stopper, stop := .testEmpty } else none
  | .testEmpty =>
    match s.mTasks.top with
    | none => some { s with stop := .setStop }
    | some task =>
      if task.cancel then some { s with stop := .cancel task, cancelled := s.cancelled ++ [task] }
      else some { s with stop := .pop }
  | .cancel _ => if s.adds .stopper = .idle then some { s with stop := .pop } else none
  | .pop => (s.mTasks.pop items).map fun q => { s with mTasks := q, stop := .testEmpty }
  | .setStop => some { s with mStop := true, stop := .notify }
  | .notify => some { s.notify with stop := .unlock }
  | .unlock => some { s with mMutex := none, stop := .returned }
  | .returned | .thrown => none

/-- `run` catches what a callback throws. What a cancel function throws leaves `stop`, and the
destructor of its `lock_guard` unlocks `m_mutex`. -/
def raise (s : State Time A) (t : Thread A) : Option (State Time A) :=
  if s.inUserCode t = true ∧ s.adds t = .idle then
    match t with
    | .runner => some { s with run := .relock }
    | .stopper => some { s with mMutex := none, stop := .thrown }
    | .adder _ => none
  else none

def step (s : State Time A) : Action Time A → Option (State Time A)
  | .tick now => if s.clock ≤ now then some { s with clock := now } else none
  | .addTask t executeTime cancel => addTask s t executeTime cancel
  | .add t items => addStep s t items
  | .run items => runStep s items
  | .stop items => stopStep s items
  | .wake => match s.run with
    | .wait | .waitUntil => some { s with run := .woken }
    | _ => none
  | .raise t => raise s t

/-- A timer with no task, at the clock reading `now`. -/
def system (A : Type*) [DecidableEq A] (now : Time) : System (State Time A) (Action Time A) where
  init := init A now
  step := step

end step

end Scoro.Timer

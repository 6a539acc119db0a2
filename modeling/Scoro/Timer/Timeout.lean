import Scoro.Lib.Transition

/-!
# `TimeoutAwaitable`

One coroutine awaits a `TimeoutAwaitable`. The inner coroutine, which awaits the awaitable itself,
and the task of the timer claim `state` by a CAS, and the one that wins resumes the caller. The
timer runs the callback or the cancel function of the task, or none of them. Each action is one
atomic step, and the awaiter is not destroyed before the `co_await` is over.
-/

namespace Scoro.Timeout
open Scoro.Lib

/-- `TimeoutAwaitableState::state`. -/
inductive Phase where
  | ePending
  | eValid
  | eError
  | eTimeout
  deriving DecidableEq

/-- `TimeoutAwaitableState`. The handle `caller` is the awaiting coroutine's or null. -/
structure Shared (V E : Type*) where
  buf : Option V
  exception : Option E
  state : Phase
  caller : Bool
  deriving DecidableEq

/-- What `await_resume` ends with: `nullopt` or `false`, or the value or the exception of the
awaitable. For `void` the type `V` has one value. -/
inductive Yield (V E : Type*) where
  | timeout
  | finished (o : Except E V)
  deriving DecidableEq

/-- The awaiting coroutine. -/
inductive CoroutinePc (V E : Type*) where
  | ready
  | suspended
  | awaitResume
  | continued (r : Yield V E)
  deriving DecidableEq

/-- The call of `await_suspend`. At `resuming` the inner coroutine runs on its thread, until it
suspends or completes. -/
inductive SuspendPc where
  | idle
  | setCaller
  | resumeInner
  | resuming
  | addTask
  | returned
  deriving DecidableEq

/-- The inner coroutine. It is at `construct` with a value that is not in `buf` yet, and at
`handler` in its catch block. -/
inductive InnerPc (V E : Type*) where
  | initial
  | awaiting
  | construct (v : V)
  | handler (e : E)
  | cas (nextState : Phase)
  | resume
  | resuming
  | completed
  deriving DecidableEq

/-- The task of the timer. Its cancel function does no more than the `delete`. -/
inductive TaskPc where
  | unregistered
  | pending
  | cas
  | resume
  | resuming
  | delete
  | returned
  deriving DecidableEq

inductive Claimer where
  | inner
  | timer
  deriving DecidableEq

/-- `fault` is set when a null handle or a coroutine that is not suspended is resumed, and at
`std::unreachable`. The last four fields are history: how often the caller was resumed, whether
`await_ready` found the timeout passed, how the `try` block of the inner coroutine ended, and
whose CAS has won. -/
structure State (V E : Type*) where
  shared : Shared V E
  coroutine : CoroutinePc V E
  suspend : SuspendPc
  inner : InnerPc V E
  task : TaskPc
  fault : Bool
  resumes : ℕ
  passed : Bool
  outcome : Option (Except E V)
  winner : Option Claimer

/-- `endAwait` ends the `co_await` of the inner coroutine, and `moveThrows` the construction of the
value in `buf` by an exception. `fire` and `cancel` are the timer's calls. -/
inductive Action (Time V E : Type*) where
  | awaitReady (now : Time)
  | awaitSuspend
  | awaitResume
  | endAwait (o : Except E V)
  | moveThrows (e : E)
  | inner
  | fire
  | cancel
  | task

section step
variable {Time V E : Type*} [LinearOrder Time]

def init (V E : Type*) : State V E where
  shared := ⟨none, none, .ePending, false⟩
  coroutine := .ready
  suspend := .idle
  inner := .initial
  task := .unregistered
  fault := false
  resumes := 0
  passed := false
  outcome := none
  winner := none

namespace State

/-- `caller.resume()`. -/
def resume (s : State V E) : State V E :=
  match s.shared.caller, s.coroutine with
  | true, .suspended => { s with coroutine := .awaitResume, resumes := s.resumes + 1 }
  | _, _ => { s with fault := true }

section resume
variable (s : State V E)

@[simp]
lemma resume_suspend : s.resume.suspend = s.suspend := by
  unfold resume
  split <;> rfl

@[simp]
lemma resume_inner : s.resume.inner = s.inner := by
  unfold resume
  split <;> rfl

@[simp]
lemma resume_task : s.resume.task = s.task := by
  unfold resume
  split <;> rfl

@[simp]
lemma resume_shared : s.resume.shared = s.shared := by
  unfold resume
  split <;> rfl

@[simp]
lemma resume_outcome : s.resume.outcome = s.outcome := by
  unfold resume
  split <;> rfl

@[simp]
lemma resume_passed : s.resume.passed = s.passed := by
  unfold resume
  split <;> rfl

end resume

def setState (s : State V E) (phase : Phase) : State V E :=
  { s with shared := { s.shared with state := phase } }

end State

def awaitReady (timeout : Time) (s : State V E) (now : Time) : Option (State V E) :=
  match s.coroutine with
  | .ready => some (if now ≥ timeout then
      { s.setState .eTimeout with coroutine := .awaitResume, passed := true } else
      { s with coroutine := .suspended, suspend := .setCaller })
  | _ => none

def awaitSuspend (s : State V E) : Option (State V E) :=
  match s.suspend with
  | .setCaller =>
    some { s with shared := { s.shared with caller := true }, suspend := .resumeInner }
  | .resumeInner => some { s with inner := .awaiting, suspend := .resuming }
  | .resuming => match s.inner with
    | .awaiting | .completed => some { s with suspend := .addTask }
    | _ => none
  | .addTask => some { s with task := .pending, suspend := .returned }
  | .idle | .returned => none

/-- What `await_resume` returns or throws, and nothing where it has no defined result. -/
def Shared.yield (p : Shared V E) : Option (Yield V E) :=
  match p.state with
  | .ePending => none
  | .eTimeout => some .timeout
  | .eValid => p.buf.map fun v => .finished (.ok v)
  | .eError => p.exception.map fun e => .finished (.error e)

def awaitResume (s : State V E) : Option (State V E) :=
  match s.coroutine with
  | .awaitResume => some (match s.shared.yield with
    | some r => { s with coroutine := .continued r }
    | none => { s with fault := true })
  | _ => none

def endAwait (s : State V E) (o : Except E V) : Option (State V E) :=
  match s.inner with
  | .awaiting => some (match o with
    | .ok v => { s with inner := .construct v }
    | .error e => { s with inner := .handler e })
  | _ => none

def moveThrows (s : State V E) (e : E) : Option (State V E) :=
  match s.inner with
  | .construct _ => some { s with inner := .handler e }
  | _ => none

def innerStep (s : State V E) : Option (State V E) :=
  match s.inner with
  | .construct v => some { s with
      shared := { s.shared with buf := some v }, inner := .cas .eValid, outcome := some (.ok v) }
  | .handler e => some { s with
      shared := { s.shared with exception := some e }, inner := .cas .eError,
      outcome := some (.error e) }
  | .cas nextState => some (if s.shared.state = .ePending then
      { s.setState nextState with inner := .resume, winner := some .inner } else
      { s with inner := .completed })
  | .resume => some { s.resume with inner := .resuming }
  | .resuming => some { s with inner := .completed }
  | .initial | .awaiting | .completed => none

def fire (s : State V E) : Option (State V E) :=
  if s.task = .pending then some { s with task := .cas } else none

def cancel (s : State V E) : Option (State V E) :=
  if s.task = .pending then some { s with task := .delete } else none

def taskStep (s : State V E) : Option (State V E) :=
  match s.task with
  | .cas => some (if s.shared.state = .ePending then
      { s.setState .eTimeout with task := .resume, winner := some .timer } else
      { s with task := .delete })
  | .resume => some { s.resume with task := .resuming }
  | .resuming => some { s with task := .delete }
  | .delete => some { s with task := .returned }
  | .unregistered | .pending | .returned => none

def step (timeout : Time) (s : State V E) : Action Time V E → Option (State V E)
  | .awaitReady now => awaitReady timeout s now
  | .awaitSuspend => awaitSuspend s
  | .awaitResume => awaitResume s
  | .endAwait o => endAwait s o
  | .moveThrows e => moveThrows s e
  | .inner => innerStep s
  | .fire => fire s
  | .cancel => cancel s
  | .task => taskStep s

def system (V E : Type*) (timeout : Time) : System (State V E) (Action Time V E) where
  init := init V E
  step := step timeout

end step

/-! ### What the steps do -/

section moves
variable {Time V E : Type*} [LinearOrder Time] {timeout : Time} {s s' : State V E}

inductive Move (s : State V E) : State V E → Prop
  | expired (hpc : s.coroutine = .ready) :
      Move s { s.setState .eTimeout with coroutine := .awaitResume, passed := true }
  | suspend (hpc : s.coroutine = .ready) :
      Move s { s with coroutine := .suspended, suspend := .setCaller }
  | setCaller (hpc : s.suspend = .setCaller) :
      Move s { s with shared := { s.shared with caller := true }, suspend := .resumeInner }
  | resumeInner (hpc : s.suspend = .resumeInner) :
      Move s { s with inner := .awaiting, suspend := .resuming }
  | resumed (hpc : s.suspend = .resuming) : Move s { s with suspend := .addTask }
  | addTask (hpc : s.suspend = .addTask) : Move s { s with task := .pending, suspend := .returned }
  | continued {r} (hpc : s.coroutine = .awaitResume) (hr : s.shared.yield = some r) :
      Move s { s with coroutine := .continued r }
  | unreachable (hpc : s.coroutine = .awaitResume) (hr : s.shared.yield = none) :
      Move s { s with fault := true }
  | produced {v} (hpc : s.inner = .awaiting) : Move s { s with inner := .construct v }
  | threw {e} (hpc : s.inner = .awaiting ∨ ∃ v, s.inner = .construct v) :
      Move s { s with inner := .handler e }
  | construct {v} (hpc : s.inner = .construct v) :
      Move s { s with
        shared := { s.shared with buf := some v }, inner := .cas .eValid, outcome := some (.ok v) }
  | handler {e} (hpc : s.inner = .handler e) :
      Move s { s with
        shared := { s.shared with exception := some e }, inner := .cas .eError,
        outcome := some (.error e) }
  | claim {nextState} (hpc : s.inner = .cas nextState) (hstate : s.shared.state = .ePending) :
      Move s { s.setState nextState with inner := .resume, winner := some .inner }
  | lose {nextState} (hpc : s.inner = .cas nextState) (hstate : s.shared.state ≠ .ePending) :
      Move s { s with inner := .completed }
  | resume (hpc : s.inner = .resume) : Move s { s.resume with inner := .resuming }
  | complete (hpc : s.inner = .resuming) : Move s { s with inner := .completed }
  | fire (hpc : s.task = .pending) : Move s { s with task := .cas }
  | cancel (hpc : s.task = .pending) : Move s { s with task := .delete }
  | claimTask (hpc : s.task = .cas) (hstate : s.shared.state = .ePending) :
      Move s { s.setState .eTimeout with task := .resume, winner := some .timer }
  | loseTask (hpc : s.task = .cas) (hstate : s.shared.state ≠ .ePending) :
      Move s { s with task := .delete }
  | resumeTask (hpc : s.task = .resume) : Move s { s.resume with task := .resuming }
  | resumedTask (hpc : s.task = .resuming) : Move s { s with task := .delete }
  | delete (hpc : s.task = .delete) : Move s { s with task := .returned }

/-- What a step does, with all that it has checked. -/
inductive ActionMove (timeout : Time) (s : State V E) : Action Time V E → State V E → Prop
  | expired {now} (hpc : s.coroutine = .ready) (hnow : timeout ≤ now) :
      ActionMove timeout s (.awaitReady now)
        { s.setState .eTimeout with coroutine := .awaitResume, passed := true }
  | suspend {now} (hpc : s.coroutine = .ready) (hnow : now < timeout) :
      ActionMove timeout s (.awaitReady now)
        { s with coroutine := .suspended, suspend := .setCaller }
  | setCaller (hpc : s.suspend = .setCaller) :
      ActionMove timeout s .awaitSuspend
        { s with shared := { s.shared with caller := true }, suspend := .resumeInner }
  | resumeInner (hpc : s.suspend = .resumeInner) :
      ActionMove timeout s .awaitSuspend { s with inner := .awaiting, suspend := .resuming }
  | resumed (hpc : s.suspend = .resuming) (hinner : s.inner = .awaiting ∨ s.inner = .completed) :
      ActionMove timeout s .awaitSuspend { s with suspend := .addTask }
  | addTask (hpc : s.suspend = .addTask) :
      ActionMove timeout s .awaitSuspend { s with task := .pending, suspend := .returned }
  | continued {r} (hpc : s.coroutine = .awaitResume) (hr : s.shared.yield = some r) :
      ActionMove timeout s .awaitResume { s with coroutine := .continued r }
  | unreachable (hpc : s.coroutine = .awaitResume) (hr : s.shared.yield = none) :
      ActionMove timeout s .awaitResume { s with fault := true }
  | produced {v} (hpc : s.inner = .awaiting) :
      ActionMove timeout s (.endAwait (.ok v)) { s with inner := .construct v }
  | threw {e} (hpc : s.inner = .awaiting) :
      ActionMove timeout s (.endAwait (.error e)) { s with inner := .handler e }
  | moveThrows {v e} (hpc : s.inner = .construct v) :
      ActionMove timeout s (.moveThrows e) { s with inner := .handler e }
  | construct {v} (hpc : s.inner = .construct v) :
      ActionMove timeout s .inner { s with
        shared := { s.shared with buf := some v }, inner := .cas .eValid, outcome := some (.ok v) }
  | handler {e} (hpc : s.inner = .handler e) :
      ActionMove timeout s .inner { s with
        shared := { s.shared with exception := some e }, inner := .cas .eError,
        outcome := some (.error e) }
  | claim {nextState} (hpc : s.inner = .cas nextState) (hstate : s.shared.state = .ePending) :
      ActionMove timeout s .inner
        { s.setState nextState with inner := .resume, winner := some .inner }
  | lose {nextState} (hpc : s.inner = .cas nextState) (hstate : s.shared.state ≠ .ePending) :
      ActionMove timeout s .inner { s with inner := .completed }
  | resume (hpc : s.inner = .resume) :
      ActionMove timeout s .inner { s.resume with inner := .resuming }
  | complete (hpc : s.inner = .resuming) :
      ActionMove timeout s .inner { s with inner := .completed }
  | fire (hpc : s.task = .pending) : ActionMove timeout s .fire { s with task := .cas }
  | cancel (hpc : s.task = .pending) : ActionMove timeout s .cancel { s with task := .delete }
  | claimTask (hpc : s.task = .cas) (hstate : s.shared.state = .ePending) :
      ActionMove timeout s .task
        { s.setState .eTimeout with task := .resume, winner := some .timer }
  | loseTask (hpc : s.task = .cas) (hstate : s.shared.state ≠ .ePending) :
      ActionMove timeout s .task { s with task := .delete }
  | resumeTask (hpc : s.task = .resume) :
      ActionMove timeout s .task { s.resume with task := .resuming }
  | resumedTask (hpc : s.task = .resuming) : ActionMove timeout s .task { s with task := .delete }
  | delete (hpc : s.task = .delete) : ActionMove timeout s .task { s with task := .returned }

lemma awaitReady_actionMove {now : Time} (hs : awaitReady timeout s now = some s') :
    ActionMove timeout s (.awaitReady now) s' := by
  unfold awaitReady at hs
  split at hs
  · rename_i hpc
    cases hs
    split
    · rename_i hnow
      exact .expired hpc hnow
    · rename_i hnow
      exact .suspend hpc (not_le.mp hnow)
  · cases hs

lemma awaitSuspend_actionMove (hs : awaitSuspend s = some s') :
    ActionMove timeout s .awaitSuspend s' := by
  unfold awaitSuspend at hs
  split at hs
  case h_1 hpc =>
    cases hs
    exact .setCaller hpc
  case h_2 hpc =>
    cases hs
    exact .resumeInner hpc
  case h_3 hpc =>
    split at hs <;> cases hs
    case h_1.refl hinner => exact .resumed hpc (Or.inl hinner)
    case h_2.refl hinner => exact .resumed hpc (Or.inr hinner)
  case h_4 hpc =>
    cases hs
    exact .addTask hpc
  all_goals cases hs

lemma awaitResume_actionMove (hs : awaitResume s = some s') :
    ActionMove timeout s .awaitResume s' := by
  unfold awaitResume at hs
  split at hs
  · rename_i hpc
    cases hs
    split
    · rename_i r hr
      exact .continued hpc hr
    · rename_i hr
      exact .unreachable hpc hr
  · cases hs

lemma endAwait_actionMove {o : Except E V} (hs : endAwait s o = some s') :
    ActionMove timeout s (.endAwait o) s' := by
  unfold endAwait at hs
  split at hs
  · rename_i hpc
    cases hs
    cases o with
    | ok v => exact .produced hpc
    | error e => exact .threw hpc
  · cases hs

lemma moveThrows_actionMove {e : E} (hs : moveThrows s e = some s') :
    ActionMove timeout s (.moveThrows e) s' := by
  unfold moveThrows at hs
  split at hs
  · rename_i v hpc
    cases hs
    exact .moveThrows hpc
  · cases hs

lemma innerStep_actionMove (hs : innerStep s = some s') : ActionMove timeout s .inner s' := by
  unfold innerStep at hs
  split at hs
  case h_1 hpc =>
    cases hs
    exact .construct hpc
  case h_2 hpc =>
    cases hs
    exact .handler hpc
  case h_3 hpc =>
    cases hs
    split
    · rename_i hstate
      exact .claim hpc hstate
    · rename_i hstate
      exact .lose hpc hstate
  case h_4 hpc =>
    cases hs
    exact .resume hpc
  case h_5 hpc =>
    cases hs
    exact .complete hpc
  all_goals cases hs

lemma taskStep_actionMove (hs : taskStep s = some s') : ActionMove timeout s .task s' := by
  unfold taskStep at hs
  split at hs
  case h_1 hpc =>
    cases hs
    split
    · rename_i hstate
      exact .claimTask hpc hstate
    · rename_i hstate
      exact .loseTask hpc hstate
  case h_2 hpc =>
    cases hs
    exact .resumeTask hpc
  case h_3 hpc =>
    cases hs
    exact .resumedTask hpc
  case h_4 hpc =>
    cases hs
    exact .delete hpc
  all_goals cases hs

lemma step_actionMove {a : Action Time V E} (hs : step timeout s a = some s') :
    ActionMove timeout s a s' := by
  cases a with
  | awaitReady now => exact awaitReady_actionMove hs
  | awaitSuspend => exact awaitSuspend_actionMove hs
  | awaitResume => exact awaitResume_actionMove hs
  | endAwait o => exact endAwait_actionMove hs
  | moveThrows e => exact moveThrows_actionMove hs
  | inner => exact innerStep_actionMove hs
  | fire =>
    simp only [step, fire] at hs
    split at hs <;> cases hs
    rename_i hpc
    exact .fire hpc
  | cancel =>
    simp only [step, cancel] at hs
    split at hs <;> cases hs
    rename_i hpc
    exact .cancel hpc
  | task => exact taskStep_actionMove hs

/-- A step moves the state as `Move` says. -/
lemma ActionMove.move {a : Action Time V E} (hm : ActionMove timeout s a s') : Move s s' := by
  cases hm with
  | expired hpc => exact .expired hpc
  | suspend hpc => exact .suspend hpc
  | setCaller hpc => exact .setCaller hpc
  | resumeInner hpc => exact .resumeInner hpc
  | resumed hpc => exact .resumed hpc
  | addTask hpc => exact .addTask hpc
  | continued hpc hr => exact .continued hpc hr
  | unreachable hpc hr => exact .unreachable hpc hr
  | produced hpc => exact .produced hpc
  | threw hpc => exact .threw (Or.inl hpc)
  | moveThrows hpc => exact .threw (Or.inr ⟨_, hpc⟩)
  | construct hpc => exact .construct hpc
  | handler hpc => exact .handler hpc
  | claim hpc hstate => exact .claim hpc hstate
  | lose hpc hstate => exact .lose hpc hstate
  | resume hpc => exact .resume hpc
  | complete hpc => exact .complete hpc
  | fire hpc => exact .fire hpc
  | cancel hpc => exact .cancel hpc
  | claimTask hpc hstate => exact .claimTask hpc hstate
  | loseTask hpc hstate => exact .loseTask hpc hstate
  | resumeTask hpc => exact .resumeTask hpc
  | resumedTask hpc => exact .resumedTask hpc
  | delete hpc => exact .delete hpc

lemma step_move {a : Action Time V E} (hs : step timeout s a = some s') : Move s s' :=
  (step_actionMove hs).move

end moves

/-! ### Where the parties are -/

section invariant
variable {Time V E : Type*} [LinearOrder Time] {timeout : Time} {s s' : State V E}
  {a : Action Time V E}

def CoroutinePc.resumed : CoroutinePc V E → Bool
  | .awaitResume | .continued _ => true
  | .ready | .suspended => false

/-- The inner coroutine has not made its CAS yet. -/
def InnerPc.early : InnerPc V E → Bool
  | .initial | .awaiting | .construct _ | .handler _ | .cas _ => true
  | .resume | .resuming | .completed => false

/-- The callback has not made its CAS yet. -/
def TaskPc.early : TaskPc → Bool
  | .unregistered | .pending | .cas => true
  | .resume | .resuming | .delete | .returned => false

/-- The order of the calls, and who is about to resume the caller. -/
structure Placed (s : State V E) : Prop where
  fault : s.fault = false
  ready : s.coroutine = .ready → s.suspend = .idle
  idle : s.suspend = .idle → s.coroutine ≠ .suspended ∧ s.winner = none
  caller : s.shared.caller = true ↔ s.suspend ≠ .idle ∧ s.suspend ≠ .setCaller
  inner : s.suspend = .idle ∨ s.suspend = .setCaller ∨ s.suspend = .resumeInner →
    s.inner = .initial
  task : s.task ≠ .unregistered → s.suspend = .returned
  innerEarly : s.inner.early = true → s.winner ≠ some .inner
  taskEarly : s.task.early = true → s.winner ≠ some .timer
  innerResume : s.inner = .resume → s.winner = some .inner ∧ s.coroutine = .suspended
  taskResume : s.task = .resume → s.winner = some .timer ∧ s.coroutine = .suspended
  innerLate : s.inner.early = false → s.winner ≠ none
  suspended : s.coroutine = .suspended →
    s.winner = none ∨ s.inner = .resume ∨ s.task = .resume
  resumes : s.resumes ≤ 1 ∧ (s.coroutine.resumed = false → s.resumes = 0)

/-- The state `phase` tells how the `try` block ended. -/
def Shared.Tells (p : Shared V E) (phase : Phase) : Except E V → Prop
  | .ok v => phase = .eValid ∧ p.buf = some v
  | .error e => phase = .eError ∧ p.exception = some e

/-- What `await_resume` ends with is what the winner has left. -/
def State.Explains (s : State V E) : Yield V E → Prop
  | .timeout => s.winner = some .timer ∨ s.passed = true
  | .finished o => s.winner = some .inner ∧ s.outcome = some o

/-- What `state` says about the winner. -/
structure Recorded (s : State V E) : Prop where
  pending : s.shared.state = .ePending ↔ s.winner = none ∧ s.passed = false
  passed : s.passed = true →
    s.shared.state = .eTimeout ∧ s.suspend = .idle ∧ s.coroutine.resumed = true
  timer : s.winner = some .timer → s.shared.state = .eTimeout
  inner : s.winner = some .inner → ∃ o, s.outcome = some o ∧ s.shared.Tells s.shared.state o
  cas : ∀ nextState, s.inner = .cas nextState →
    ∃ o, s.outcome = some o ∧ s.shared.Tells nextState o
  resumed : s.coroutine.resumed = true → s.shared.state ≠ .ePending
  continued : ∀ r, s.coroutine = .continued r → s.Explains r

lemma placed_init : Placed (init V E) := by
  constructor <;> simp [init, CoroutinePc.resumed, InnerPc.early]

lemma recorded_init : Recorded (init V E) := by
  constructor <;> simp [init, CoroutinePc.resumed]

/-- `caller.resume()` by the winner. -/
lemma resume_eq (hcaller : s.shared.caller = true) (hpc : s.coroutine = .suspended) :
    s.resume = { s with coroutine := .awaitResume, resumes := s.resumes + 1 } := by
  simp [State.resume, hcaller, hpc]

/-- Nobody is about to resume a caller that is not suspended. -/
lemma Placed.not_resume (h : Placed s) (hpc : s.coroutine ≠ .suspended) :
    s.inner ≠ .resume ∧ s.task ≠ .resume :=
  ⟨fun hinner => hpc (h.innerResume hinner).2, fun htask => hpc (h.taskResume htask).2⟩

lemma Placed.unregistered (h : Placed s) (hpc : s.suspend ≠ .returned) :
    s.task = .unregistered := by
  by_contra htask
  exact hpc (h.task htask)

lemma Placed.not_ready (h : Placed s) (hpc : s.suspend ≠ .idle) : s.coroutine ≠ .ready :=
  fun hready => hpc (h.ready hready)

lemma Placed.expired (h : Placed s) (hpc : s.coroutine = .ready) :
    Placed { s.setState .eTimeout with coroutine := .awaitResume, passed := true } := by
  have hwinner := (h.idle (h.ready hpc)).2
  have hnot := h.not_resume (by simp [hpc])
  exact { h with
    ready := by simp
    idle := fun _ => ⟨by simp, hwinner⟩
    innerResume := fun hr => absurd hr hnot.1
    taskResume := fun hr => absurd hr hnot.2
    suspended := by simp
    resumes := ⟨h.resumes.1, by simp [CoroutinePc.resumed]⟩ }

lemma Placed.suspend (h : Placed s) (hpc : s.coroutine = .ready) :
    Placed { s with coroutine := .suspended, suspend := .setCaller } := by
  have hidle := h.ready hpc
  have hnot := h.not_resume (by simp [hpc])
  have htask := h.unregistered (by simp [hidle])
  have hcaller := h.caller
  exact { h with
    ready := by simp
    idle := by simp
    caller := by simpa [hidle] using hcaller
    inner := fun _ => h.inner (Or.inl hidle)
    task := fun ht => absurd htask ht
    innerResume := fun hr => absurd hr hnot.1
    taskResume := fun hr => absurd hr hnot.2
    suspended := fun _ => Or.inl (h.idle hidle).2
    resumes := ⟨h.resumes.1, fun _ => h.resumes.2 (by rw [hpc]; rfl)⟩ }

/-- A step of `await_suspend` inside the function. -/
lemma Placed.await_suspend (h : Placed s) {pc : SuspendPc} {p : Shared V E}
    (hpc : s.suspend ≠ .idle) (hold : s.suspend ≠ .returned)
    (hnew : pc ≠ .idle ∧ pc ≠ .setCaller) (hinner : pc = .resumeInner → s.inner = .initial)
    (hp : p.caller = true) : Placed { s with shared := p, suspend := pc } :=
  { h with
    ready := fun hr => absurd hr (h.not_ready hpc)
    idle := fun hidle => absurd hidle hnew.1
    caller := by simp [hnew, hp]
    inner := by
      rintro (hidle | hset | hresume)
      · exact absurd hidle hnew.1
      · exact absurd hset hnew.2
      · exact hinner hresume
    task := fun ht => absurd (h.task ht) hold }

lemma Placed.resumeInner (h : Placed s) (hpc : s.suspend = .resumeInner) :
    Placed { s with inner := .awaiting, suspend := .resuming } := by
  have hinit := h.inner (Or.inr (Or.inr hpc))
  exact { h with
    ready := fun hr => absurd hr (h.not_ready (by simp [hpc]))
    idle := by simp
    caller := by simpa [hpc] using h.caller
    inner := by simp
    task := fun ht => absurd (h.task ht) (by simp [hpc])
    innerEarly := fun _ => h.innerEarly (by rw [hinit]; rfl)
    innerResume := by simp
    innerLate := by simp [InnerPc.early]
    suspended := fun hs => by simpa [hinit] using h.suspended hs }

lemma Placed.addTask (h : Placed s) (hpc : s.suspend = .addTask) :
    Placed { s with task := .pending, suspend := .returned } := by
  have htask := h.unregistered (by simp [hpc])
  exact { h with
    ready := fun hr => absurd hr (h.not_ready (by simp [hpc]))
    idle := by simp
    caller := by simpa [hpc] using h.caller
    inner := by simp
    task := fun _ => rfl
    taskEarly := fun _ => h.taskEarly (by rw [htask]; rfl)
    taskResume := by simp
    suspended := fun hs => by simpa [htask] using h.suspended hs }

/-- A step of the inner coroutine before its CAS. -/
lemma Placed.inner_early (h : Placed s) {pc : InnerPc V E} {p : Shared V E}
    {outcome : Option (Except E V)} (hold : s.inner.early = true) (hinit : s.inner ≠ .initial)
    (hnew : pc.early = true) (hp : p.caller = s.shared.caller) :
    Placed { s with shared := p, inner := pc, outcome := outcome } :=
  { h with
    caller := by
      rw [hp]
      exact h.caller
    inner := fun hs => absurd (h.inner hs) hinit
    innerEarly := fun _ => h.innerEarly hold
    innerResume := by
      rintro rfl
      cases hnew
    innerLate := fun hp => by
      rw [hnew] at hp
      cases hp
    suspended := fun hs => by
      rcases h.suspended hs with hw | hr | ht
      · exact Or.inl hw
      · rw [hr] at hold
        cases hold
      · exact Or.inr (Or.inr ht) }

/-- A step of the task that neither registers it nor resumes the caller. -/
lemma Placed.task_move (h : Placed s) {pc : TaskPc} (hold : s.task ≠ .unregistered)
    (hresume : s.task ≠ .resume) (hnew : pc ≠ .resume)
    (hearly : pc.early = true → s.task.early = true) : Placed { s with task := pc } :=
  { h with
    task := fun _ => h.task hold
    taskEarly := fun hp => h.taskEarly (hearly hp)
    taskResume := fun hp => absurd hp hnew
    suspended := fun hs => by
      rcases h.suspended hs with hw | hr | ht
      · exact Or.inl hw
      · exact Or.inr (Or.inl hr)
      · exact absurd ht hresume }

lemma Placed.caller_of_inner (h : Placed s) (hpc : s.inner ≠ .initial) :
    s.shared.caller = true :=
  h.caller.mpr ⟨fun hs => hpc (h.inner (Or.inl hs)), fun hs => hpc (h.inner (Or.inr (Or.inl hs)))⟩

lemma Placed.suspend_ne_idle (h : Placed s) (hpc : s.inner ≠ .initial) : s.suspend ≠ .idle :=
  fun hs => hpc (h.inner (Or.inl hs))

/-- While `state` is pending the caller is suspended, once it has called `await_suspend`. -/
lemma Recorded.suspended (h : Recorded s) (hplaced : Placed s)
    (hstate : s.shared.state = .ePending) (hidle : s.suspend ≠ .idle) :
    s.coroutine = .suspended := by
  cases hpc : s.coroutine with
  | ready => exact absurd (hplaced.ready hpc) hidle
  | suspended => rfl
  | awaitResume | continued => exact absurd hstate (h.resumed (by rw [hpc]; rfl))

/-- The CAS of the inner coroutine succeeds. -/
lemma Placed.claim (h : Placed s) (hrec : Recorded s) {nextState : Phase}
    (hpc : s.inner = .cas nextState) (hstate : s.shared.state = .ePending) :
    Placed { s.setState nextState with inner := .resume, winner := some .inner } := by
  have hinit : s.inner ≠ .initial := by simp [hpc]
  have hidle := h.suspend_ne_idle hinit
  have hsuspended := hrec.suspended h hstate hidle
  have hwinner := (hrec.pending.mp hstate).1
  exact { h with
    idle := fun hs => absurd hs hidle
    inner := fun hs => absurd (h.inner hs) hinit
    innerEarly := by simp [InnerPc.early]
    taskEarly := by simp
    innerResume := fun _ => ⟨rfl, hsuspended⟩
    taskResume := fun ht => by
      have hw := (h.taskResume ht).1
      simp [hwinner] at hw
    innerLate := by simp
    suspended := fun _ => Or.inr (Or.inl rfl) }

/-- The CAS of the callback succeeds. -/
lemma Placed.claimTask (h : Placed s) (hrec : Recorded s) (hpc : s.task = .cas)
    (hstate : s.shared.state = .ePending) :
    Placed { s.setState .eTimeout with task := .resume, winner := some .timer } := by
  have hsuspend := h.task (by simp [hpc])
  have hsuspended := hrec.suspended h hstate (by simp [hsuspend])
  have hwinner := (hrec.pending.mp hstate).1
  exact { h with
    idle := fun hs => by
      change s.suspend = .idle at hs
      simp [hsuspend] at hs
    task := fun _ => hsuspend
    innerEarly := by simp
    taskEarly := by simp [TaskPc.early]
    innerResume := fun hr => by
      have hw := (h.innerResume hr).1
      simp [hwinner] at hw
    taskResume := fun _ => ⟨rfl, hsuspended⟩
    innerLate := by simp
    suspended := fun _ => Or.inr (Or.inr rfl) }

/-- The inner coroutine resumes the caller. -/
lemma Placed.resume (h : Placed s) (hpc : s.inner = .resume) :
    Placed { s.resume with inner := .resuming } := by
  have hinit : s.inner ≠ .initial := by simp [hpc]
  obtain ⟨hwinner, hsuspended⟩ := h.innerResume hpc
  have hresumes := h.resumes.2 (by rw [hsuspended]; rfl)
  rw [resume_eq (h.caller_of_inner hinit) hsuspended]
  exact { h with
    ready := by simp
    idle := fun hs => absurd hs (h.suspend_ne_idle hinit)
    inner := fun hs => absurd (h.inner hs) hinit
    innerEarly := by simp [InnerPc.early]
    innerResume := by simp
    taskResume := fun ht => by
      have hw := (h.taskResume ht).1
      simp [hwinner] at hw
    innerLate := by simp [hwinner]
    suspended := by simp
    resumes := ⟨by simp [hresumes], by simp [CoroutinePc.resumed]⟩ }

/-- The callback resumes the caller. -/
lemma Placed.resumeTask (h : Placed s) (hpc : s.task = .resume) :
    Placed { s.resume with task := .resuming } := by
  have hsuspend := h.task (by simp [hpc])
  obtain ⟨hwinner, hsuspended⟩ := h.taskResume hpc
  have hresumes := h.resumes.2 (by rw [hsuspended]; rfl)
  have hcaller := h.caller.mpr (by simp [hsuspend])
  rw [resume_eq hcaller hsuspended]
  exact { h with
    ready := by simp
    idle := by simp [hsuspend]
    task := fun _ => hsuspend
    taskEarly := by simp [TaskPc.early]
    innerResume := fun hr => by
      have hw := (h.innerResume hr).1
      simp [hwinner] at hw
    taskResume := by simp
    suspended := by simp
    resumes := ⟨by simp [hresumes], by simp [CoroutinePc.resumed]⟩ }

/-- The inner coroutine is past its CAS and ends. -/
lemma Placed.complete (h : Placed s) (hrec : Recorded s) (hinit : s.inner ≠ .initial)
    (hresume : s.inner ≠ .resume) (hstate : s.shared.state ≠ .ePending) :
    Placed { s with inner := .completed } :=
  { h with
    inner := fun hs => absurd (h.inner hs) hinit
    innerEarly := by simp [InnerPc.early]
    innerResume := by simp
    innerLate := fun _ hwinner => by
      have hidle := h.suspend_ne_idle hinit
      have hpassed : s.passed = false := by
        by_contra hpassed
        exact hidle (hrec.passed (by simpa using hpassed)).2.1
      exact hstate (hrec.pending.mpr ⟨hwinner, hpassed⟩)
    suspended := fun hs => by
      rcases h.suspended hs with hw | hr | ht
      · exact Or.inl hw
      · exact absurd hr hresume
      · exact Or.inr (Or.inr ht) }

/-- What the winner has left is enough for `await_resume`. -/
lemma Recorded.yield_ne_none (h : Recorded s) (hpc : s.coroutine = .awaitResume) :
    ∃ r, s.shared.yield = some r ∧ s.Explains r := by
  have hstate := h.resumed (by rw [hpc]; rfl)
  by_cases hpassed : s.passed = true
  · refine ⟨.timeout, ?_, Or.inr hpassed⟩
    simp [Shared.yield, (h.passed hpassed).1]
  · cases hwinner : s.winner with
    | none => exact absurd (h.pending.mpr ⟨hwinner, by simpa using hpassed⟩) hstate
    | some c =>
      cases c with
      | inner =>
        obtain ⟨o, ho, htells⟩ := h.inner hwinner
        refine ⟨.finished o, ?_, hwinner, ho⟩
        cases o with
        | ok v =>
          obtain ⟨hs, hbuf⟩ := htells
          simp [Shared.yield, hs, hbuf]
        | error e =>
          obtain ⟨hs, hexception⟩ := htells
          simp [Shared.yield, hs, hexception]
      | timer =>
        refine ⟨.timeout, ?_, Or.inl hwinner⟩
        simp [Shared.yield, h.timer hwinner]

lemma Placed.move (h : Placed s) (hrec : Recorded s) (hm : Move s s') : Placed s' := by
  cases hm with
  | expired hpc => exact h.expired hpc
  | suspend hpc => exact h.suspend hpc
  | setCaller hpc =>
    exact h.await_suspend (by simp [hpc]) (by simp [hpc]) (by simp)
      (fun _ => h.inner (Or.inr (Or.inl hpc))) rfl
  | resumeInner hpc => exact h.resumeInner hpc
  | resumed hpc =>
    exact h.await_suspend (by simp [hpc]) (by simp [hpc]) (by simp) (by simp)
      (h.caller.mpr (by simp [hpc]))
  | addTask hpc => exact h.addTask hpc
  | continued hpc _ =>
    have hnot := h.not_resume (by simp [hpc])
    exact { h with
      ready := by simp
      idle := fun hs => ⟨by simp, (h.idle hs).2⟩
      innerResume := fun hr => absurd hr hnot.1
      taskResume := fun hr => absurd hr hnot.2
      suspended := by simp
      resumes := ⟨h.resumes.1, by simp [CoroutinePc.resumed]⟩ }
  | unreachable hpc hr =>
    obtain ⟨r, hyield, -⟩ := hrec.yield_ne_none hpc
    rw [hr] at hyield
    cases hyield
  | produced hpc => exact h.inner_early (by rw [hpc]; rfl) (by simp [hpc]) rfl rfl
  | threw hpc =>
    have hold : s.inner.early = true ∧ s.inner ≠ .initial := by
      rcases hpc with hpc | ⟨v, hpc⟩ <;> simp [hpc, InnerPc.early]
    exact h.inner_early hold.1 hold.2 rfl rfl
  | construct hpc => exact h.inner_early (by rw [hpc]; rfl) (by simp [hpc]) rfl rfl
  | handler hpc => exact h.inner_early (by rw [hpc]; rfl) (by simp [hpc]) rfl rfl
  | claim hpc hstate => exact h.claim hrec hpc hstate
  | lose hpc hstate => exact h.complete hrec (by simp [hpc]) (by simp [hpc]) hstate
  | resume hpc => exact h.resume hpc
  | complete hpc =>
    have hwinner := h.innerLate (by rw [hpc]; rfl)
    have hstate : s.shared.state ≠ .ePending := fun hs => hwinner (hrec.pending.mp hs).1
    exact h.complete hrec (by simp [hpc]) (by simp [hpc]) hstate
  | fire hpc | cancel hpc | loseTask hpc _ | resumedTask hpc | delete hpc =>
    exact h.task_move (by simp [hpc]) (by simp [hpc]) (by simp) (by simp [hpc, TaskPc.early])
  | claimTask hpc hstate => exact h.claimTask hrec hpc hstate
  | resumeTask hpc => exact h.resumeTask hpc

/-! ### What `state` reports -/

/-- A step that leaves the shared state and the history alone. -/
lemma Recorded.frame (h : Recorded s) (hshared : s'.shared = s.shared)
    (hpassed : s'.passed = s.passed) (houtcome : s'.outcome = s.outcome)
    (hwinner : s'.winner = s.winner) (hcoroutine : s'.coroutine = s.coroutine)
    (hidle : s.suspend = .idle → s'.suspend = .idle)
    (hcas : ∀ nextState, s'.inner = .cas nextState → s.inner = .cas nextState) :
    Recorded s' := by
  refine ⟨?_, ?_, ?_, ?_, ?_, ?_, ?_⟩
  · rw [hshared, hwinner, hpassed]
    exact h.pending
  · rw [hpassed, hshared, hcoroutine]
    intro hp
    obtain ⟨hstate, hs, hresumed⟩ := h.passed hp
    exact ⟨hstate, hidle hs, hresumed⟩
  · rw [hwinner, hshared]
    exact h.timer
  · rw [hwinner, houtcome, hshared]
    exact h.inner
  · rw [houtcome, hshared]
    exact fun nextState hpc => h.cas nextState (hcas nextState hpc)
  · rw [hcoroutine, hshared]
    exact h.resumed
  · rw [hcoroutine]
    intro r hr
    have hexplains := h.continued r hr
    cases r with
    | timeout =>
      rw [State.Explains, hwinner, hpassed]
      exact hexplains
    | finished o =>
      rw [State.Explains, hwinner, houtcome]
      exact hexplains

/-- The `try` block of the inner coroutine ends. -/
lemma Recorded.endTry (h : Recorded s) {p : Shared V E} {phase : Phase} {o : Except E V}
    (hwinner : s.winner ≠ some .inner) (hstate : p.state = s.shared.state)
    (htells : p.Tells phase o) :
    Recorded { s with shared := p, inner := .cas phase, outcome := some o } := by
  refine ⟨?_, ?_, ?_, fun hw => absurd hw hwinner, ?_, ?_, fun r hr => ?_⟩
  · rw [hstate]
    exact h.pending
  · rw [hstate]
    exact h.passed
  · rw [hstate]
    exact h.timer
  · rintro nextState ⟨⟩
    exact ⟨o, rfl, htells⟩
  · rw [hstate]
    exact h.resumed
  · have hexplains := h.continued r hr
    cases r with
    | timeout => exact hexplains
    | finished o => exact absurd hexplains.1 hwinner

lemma Shared.Tells.ne_pending {p : Shared V E} {phase : Phase} {o : Except E V}
    (h : p.Tells phase o) : phase ≠ .ePending := by
  cases o <;> simp [h.1]

/-- A CAS succeeds. -/
lemma Recorded.claim (h : Recorded s) (hplaced : Placed s) {phase : Phase} {c : Claimer}
    {inner : InnerPc V E} {task : TaskPc} (hstate : s.shared.state = .ePending)
    (hidle : s.suspend ≠ .idle) (hphase : phase ≠ .ePending)
    (htimer : c = .timer → phase = .eTimeout)
    (hinner : c = .inner → ∃ o, s.outcome = some o ∧ s.shared.Tells phase o)
    (hcas : ∀ nextState, inner = .cas nextState → s.inner = .cas nextState) :
    Recorded { s.setState phase with inner := inner, task := task, winner := some c } := by
  have hsuspended := h.suspended hplaced hstate hidle
  have hpassed := (h.pending.mp hstate).2
  have htells : ∀ o, s.shared.Tells phase o → (s.setState phase).shared.Tells phase o := by
    intro o ho
    cases o <;> exact ho
  refine ⟨?_, ?_, ?_, ?_, ?_, ?_, ?_⟩
  · simp [State.setState, hphase]
  · simp [State.setState, hpassed]
  · rintro ⟨⟩
    exact htimer rfl
  · rintro ⟨⟩
    obtain ⟨o, ho, ht⟩ := hinner rfl
    exact ⟨o, ho, htells o ht⟩
  · intro nextState hpc
    obtain ⟨o, ho, ht⟩ := h.cas nextState (hcas nextState hpc)
    refine ⟨o, ho, ?_⟩
    cases o <;> exact ht
  · simp [State.setState, hsuspended, CoroutinePc.resumed]
  · simp [State.setState, hsuspended]

/-- The winner resumes the caller. -/
lemma Recorded.resume (h : Recorded s) (hcaller : s.shared.caller = true)
    (hpc : s.coroutine = .suspended) (hwinner : s.winner ≠ none) : Recorded s.resume := by
  rw [resume_eq hcaller hpc]
  refine ⟨h.pending, fun hp => ?_, h.timer, h.inner, h.cas, fun _ hstate => ?_, by simp⟩
  · obtain ⟨-, -, hresumed⟩ := h.passed hp
    rw [hpc] at hresumed
    cases hresumed
  · exact hwinner (h.pending.mp hstate).1

/-- `await_ready` has found the timeout passed. -/
lemma Placed.recorded_expired (hplaced : Placed s) (hpc : s.coroutine = .ready) :
    Recorded { s.setState .eTimeout with coroutine := .awaitResume, passed := true } := by
  have hidle := hplaced.ready hpc
  have hwinner := (hplaced.idle hidle).2
  have hinner := hplaced.inner (Or.inl hidle)
  refine ⟨by simp [State.setState], fun _ => ⟨rfl, hidle, rfl⟩, fun _ => rfl, ?_, ?_,
    by simp [State.setState], by simp⟩
  · intro hw
    change s.winner = some .inner at hw
    simp [hwinner] at hw
  · intro nextState hcas
    change s.inner = .cas nextState at hcas
    simp [hinner] at hcas

/-- `await_ready` has found the timeout in the future. -/
lemma Recorded.suspend (h : Recorded s) (hpc : s.coroutine = .ready) :
    Recorded { s with coroutine := .suspended, suspend := .setCaller } := by
  refine ⟨h.pending, fun hp => ?_, h.timer, h.inner, h.cas, by simp [CoroutinePc.resumed],
    by simp⟩
  obtain ⟨-, -, hresumed⟩ := h.passed hp
  rw [hpc] at hresumed
  cases hresumed

lemma Recorded.setCaller (h : Recorded s) (hpc : s.suspend = .setCaller) :
    Recorded { s with shared := { s.shared with caller := true }, suspend := .resumeInner } := by
  have htells : ∀ phase o, s.shared.Tells phase o →
      Shared.Tells { s.shared with caller := true } phase o := by
    intro phase o ho
    cases o <;> exact ho
  refine ⟨h.pending, fun hp => ?_, h.timer, fun hw => ?_, fun nextState hcas => ?_, h.resumed,
    h.continued⟩
  · obtain ⟨-, hidle, -⟩ := h.passed hp
    simp [hpc] at hidle
  · obtain ⟨o, ho, ht⟩ := h.inner hw
    exact ⟨o, ho, htells _ o ht⟩
  · obtain ⟨o, ho, ht⟩ := h.cas nextState hcas
    exact ⟨o, ho, htells _ o ht⟩

lemma Recorded.move (h : Recorded s) (hplaced : Placed s) (hm : Move s s') : Recorded s' := by
  cases hm with
  | expired hpc => exact hplaced.recorded_expired hpc
  | suspend hpc => exact h.suspend hpc
  | setCaller hpc => exact h.setCaller hpc
  | resumeInner hpc | resumed hpc | addTask hpc =>
    exact h.frame rfl rfl rfl rfl rfl (by simp [hpc]) (by simp)
  | continued hpc hr =>
    obtain ⟨r, hyield, hexplains⟩ := h.yield_ne_none hpc
    rw [hr] at hyield
    cases hyield
    have hresumed : s.coroutine.resumed = true := by
      rw [hpc]
      rfl
    refine ⟨h.pending, ?_, h.timer, h.inner, h.cas, fun _ => h.resumed hresumed, ?_⟩
    · exact fun hp => ⟨(h.passed hp).1, (h.passed hp).2.1, rfl⟩
    · rintro _ ⟨⟩
      exact hexplains
  | unreachable hpc hr =>
    obtain ⟨r, hyield, -⟩ := h.yield_ne_none hpc
    rw [hr] at hyield
    cases hyield
  | produced | threw | lose | complete =>
    exact h.frame rfl rfl rfl rfl rfl id (by simp)
  | construct hpc =>
    exact h.endTry (hplaced.innerEarly (by rw [hpc]; rfl)) rfl ⟨rfl, rfl⟩
  | handler hpc =>
    exact h.endTry (hplaced.innerEarly (by rw [hpc]; rfl)) rfl ⟨rfl, rfl⟩
  | claim hpc hstate =>
    obtain ⟨o, ho, htells⟩ := h.cas _ hpc
    exact h.claim hplaced hstate (hplaced.suspend_ne_idle (by simp [hpc])) htells.ne_pending
      (by simp) (fun _ => ⟨o, ho, htells⟩) (by simp)
  | resume hpc =>
    have hinit : s.inner ≠ .initial := by simp [hpc]
    obtain ⟨hwinner, hsuspended⟩ := hplaced.innerResume hpc
    have hresume := h.resume (hplaced.caller_of_inner hinit) hsuspended (by simp [hwinner])
    exact hresume.frame rfl rfl rfl rfl rfl id (by simp)
  | fire | cancel | loseTask | resumedTask | delete =>
    exact h.frame rfl rfl rfl rfl rfl id fun _ hcas => hcas
  | claimTask hpc hstate =>
    have hsuspend := hplaced.task (by simp [hpc])
    exact h.claim hplaced hstate (by simp [hsuspend]) (by simp) (fun _ => rfl) (by simp)
      fun _ hcas => hcas
  | resumeTask hpc =>
    have hsuspend := hplaced.task (by simp [hpc])
    obtain ⟨hwinner, hsuspended⟩ := hplaced.taskResume hpc
    have hresume := h.resume (hplaced.caller.mpr (by simp [hsuspend])) hsuspended
      (by simp [hwinner])
    exact hresume.frame rfl rfl rfl rfl rfl id fun _ hcas => hcas

theorem reaches_inv {C : State V E → Action Time V E → Prop}
    (h : (system V E timeout).Reaches C s) : Placed s ∧ Recorded s :=
  h.invariant (I := fun s => Placed s ∧ Recorded s) ⟨placed_init, recorded_init⟩
    fun _ _ _ _ hinv _ hs =>
      ⟨hinv.1.move hinv.2 (step_move hs), hinv.2.move hinv.1 (step_move hs)⟩

/-- What `await_resume` has ended with says who has won. -/
lemma explains_iff (hplaced : Placed s) (h : Recorded s) {r : Yield V E}
    (hr : s.coroutine = .continued r) :
    (r = .timeout ↔ s.winner = some .timer ∨ s.passed = true) ∧
      ∀ o, r = .finished o ↔ s.winner = some .inner ∧ s.outcome = some o := by
  have hexplains := h.continued r hr
  cases r with
  | timeout =>
    refine ⟨⟨fun _ => hexplains, fun _ => rfl⟩, fun o => ⟨by rintro ⟨⟩, ?_⟩⟩
    rintro ⟨hw, -⟩
    rcases hexplains with hw' | hpassed
    · rw [hw'] at hw
      cases hw
    · rw [(hplaced.idle (h.passed hpassed).2.1).2] at hw
      cases hw
  | finished o' =>
    obtain ⟨hw, ho⟩ := hexplains
    refine ⟨⟨by rintro ⟨⟩, ?_⟩, fun o => ⟨?_, ?_⟩⟩
    · rintro (hw' | hpassed)
      · rw [hw'] at hw
        cases hw
      · rw [(hplaced.idle (h.passed hpassed).2.1).2] at hw
        cases hw
    · rintro ⟨⟩
      exact ⟨hw, ho⟩
    · rintro ⟨-, ho'⟩
      rw [ho] at ho'
      cases ho'
      rfl

/-- The caller is resumed at most once, `await_resume` runs after `state` has been decided and
reports the winner, and a caller is not left suspended when the inner coroutine and the task of
the timer are over. -/
theorem with_timeout_one_winner (h : (system V E timeout).Reachable s) :
    s.fault = false ∧ s.resumes ≤ 1 ∧
      (s.coroutine = .awaitResume → s.shared.state ≠ .ePending) ∧
      (∀ r, s.coroutine = .continued r →
        (∀ v, r = .finished (.ok v) ↔ s.outcome = some (.ok v) ∧ s.winner = some .inner) ∧
        (∀ e, r = .finished (.error e) ↔ s.outcome = some (.error e) ∧ s.winner = some .inner) ∧
        (r = .timeout ↔ s.winner = some .timer ∨ s.passed = true)) ∧
      ¬(s.inner = .completed ∧ s.task = .returned ∧ s.suspend = .returned ∧
        s.coroutine = .suspended) := by
  obtain ⟨hplaced, hrec⟩ := reaches_inv h
  refine ⟨hplaced.fault, hplaced.resumes.1, fun hpc => hrec.resumed (by rw [hpc]; rfl), ?_, ?_⟩
  · intro r hr
    obtain ⟨htimeout, hfinished⟩ := explains_iff hplaced hrec hr
    refine ⟨fun v => ?_, fun e => ?_, htimeout⟩
    · rw [hfinished, and_comm]
    · rw [hfinished, and_comm]
  · rintro ⟨hinner, htask, -, hpc⟩
    rcases hplaced.suspended hpc with hwinner | hresume | hresume
    · exact hplaced.innerLate (by rw [hinner]; rfl) hwinner
    · rw [hinner] at hresume
      cases hresume
    · rw [htask] at hresume
      cases hresume

end invariant

/-- The inner coroutine has its value when the timeout wins. -/
theorem with_timeout_one_winner_late : ∃ s : State ℕ ℕ, s.coroutine = .continued .timeout ∧
    s.inner = .completed ∧ s.outcome = some (.ok 7) ∧ s.winner = some .timer ∧ s.resumes ≤ 1 := by
  obtain ⟨s, hs, hpc, hinner, houtcome, hwinner⟩ :=
    System.exists_reaches (S := system ℕ ℕ (5 : ℕ)) (fun _ _ => True)
    (fun s => s.coroutine = .continued .timeout ∧ s.inner = .completed ∧
      s.outcome = some (.ok 7) ∧ s.winner = some .timer)
    [.awaitReady 3, .awaitSuspend, .awaitSuspend, .awaitSuspend, .awaitSuspend,
      .endAwait (.ok 7), .inner, .fire, .task, .inner, .task, .awaitResume] (by decide)
  exact ⟨s, hpc, hinner, houtcome, hwinner, (with_timeout_one_winner hs).2.1⟩

end Scoro.Timeout

import Scoro.Ptr.IntrusivePtr
import Scoro.Timer.CancelableSleep

/-!
# Copies of a `CancelableSleepAwaitable`

Awaitables `A` that are copied and moved and share their control boxes `B`, the executions `C` of a
`co_await` on one of them, and threads `K` that call `cancel`. The count of a box is raised for each
awaitable that holds it, for the task of each `await_suspend`, by hand, and for the handle `cb` of
the function that the timer calls for the task, which gives the count of the task back. What the
timer calls, and when, is up to the timer, but for each task it is one call.
-/

namespace Scoro.SharedSleep
open Scoro.Lib
open Scoro.CancelableSleep (Phase)

/-- What a box is counted for: the awaitable's `m_cb`, the argument of the task, and the handle of
the function that is called for it. -/
inductive Holder (A C : Type*) where
  | mCb (a : A)
  | arg (c : C)
  | cb (c : C)
  deriving DecidableEq

/-- `ControlBox` without the count. -/
structure ControlBox (C : Type*) where
  waiter : Option C
  state : Phase

/-- The call of `await_suspend` on the awaitable `a`, and of `add_task` with the box of `a`. -/
inductive SuspendPc (A B : Type*) where
  | idle
  | storeWaiter (a : A)
  | addRef (a : A)
  | addTask (a : A)
  | push (address : B)
  | returned

/-- The coroutine that awaits `a`. -/
inductive CoroutinePc (A : Type*) where
  | idle
  | ready (a : A)
  | suspended (a : A)
  | awaitResume (a : A)
  | continued (consumed : Bool)
  | destroyed

/-- A call of `cancel` on thread `k`, or the function that the timer calls for the task of `c`. -/
inductive Claimer (K C : Type*) where
  | call (k : K)
  | task (c : C)
  deriving DecidableEq

/-- The common body of the claimers, which find the box through `cb`. -/
inductive ClaimPc (X : Type*) where
  | cas (cb : X) (next : Phase)
  | testWaiter (cb : X)
  | resume (cb : X)
  | clearWaiter (cb : X)
  | returned (canceled : Bool)

/-- The task, with its argument `address`, and the function that is called for it. -/
inductive TaskPc (B : Type*) where
  | unregistered
  | pending (address : B)
  | construct (address : B) (next : Phase)
  | release (next : Phase)
  | claiming
  | finished

/-- The `fault` of `ptrs` is also set when a box is accessed that is not live, or through an
awaitable that has no box any more, and when a null handle is resumed. An awaitable that is `used`
has been constructed. -/
structure State (A C K B : Type*) where
  ptrs : IntrusivePtr.State (Holder A C) B
  boxes : B → ControlBox C
  used : A → Bool
  suspend : C → SuspendPc A B
  coroutine : C → CoroutinePc A
  task : C → TaskPc B
  claims : Claimer K C → ClaimPc (Holder A C)

/-- `abandon` is the destruction of a suspended coroutine, `fire` and `cancelTask` are the timer's
calls, and `task` and `claim` are the next steps of the calls. -/
inductive Action (Time A C K B : Type*) where
  | make (a : A) (b : B)
  | copy (a oth : A)
  | move (a oth : A)
  | destroy (a : A)
  | coAwait (c : C) (a : A)
  | awaitReady (c : C) (now : Time)
  | awaitSuspend (c : C)
  | awaitResume (c : C)
  | abandon (c : C)
  | cancel (k : K) (a : A)
  | fire (c : C)
  | cancelTask (c : C)
  | task (c : C)
  | claim (p : Claimer K C)

def init (A C K B : Type*) : State A C K B where
  ptrs := IntrusivePtr.init (Holder A C) B
  boxes := fun _ => ⟨none, .ePending⟩
  used := fun _ => false
  suspend := fun _ => .idle
  coroutine := fun _ => .idle
  task := fun _ => .unregistered
  claims := fun _ => .returned false

section step
variable {Time A C K B : Type*} [LinearOrder Time]
  [DecidableEq A] [DecidableEq C] [DecidableEq K] [DecidableEq B]

namespace State

def setFault (s : State A C K B) : State A C K B :=
  { s with ptrs := { s.ptrs with fault := true } }

def setBox (s : State A C K B) (b : B) (box : ControlBox C) : State A C K B :=
  { s with boxes := Function.update s.boxes b box }

def setSuspend (s : State A C K B) (c : C) (pc : SuspendPc A B) : State A C K B :=
  { s with suspend := Function.update s.suspend c pc }

def setCoroutine (s : State A C K B) (c : C) (pc : CoroutinePc A) : State A C K B :=
  { s with coroutine := Function.update s.coroutine c pc }

def setTask (s : State A C K B) (c : C) (pc : TaskPc B) : State A C K B :=
  { s with task := Function.update s.task c pc }

def setClaim (s : State A C K B) (p : Claimer K C) (pc : ClaimPc (Holder A C)) : State A C K B :=
  { s with claims := Function.update s.claims p pc }

/-- The construction of an awaitable. -/
def construct (s : State A C K B) (a : A) (ptrs : IntrusivePtr.State (Holder A C) B) :
    State A C K B :=
  { s with ptrs := ptrs, used := Function.update s.used a true }

/-- The box that `x` points to is accessed, and `f` goes on with it. -/
def access (s : State A C K B) (x : Holder A C) (f : B → State A C K B) : State A C K B :=
  match s.ptrs.mPtr x with
  | some b => if (s.ptrs.objs b).isLive then f b else s.setFault
  | none => s.setFault

/-- `waiter.resume()`. What a coroutine does that has been destroyed is not followed. -/
def resume (s : State A C K B) : Option C → State A C K B
  | some c => match s.coroutine c with
    | .suspended a => s.setCoroutine c (.awaitResume a)
    | _ => s
  | none => s.setFault

end State

def awaitReady (wakeTime : A → Time) (s : State A C K B) (c : C) (now : Time) :
    Option (State A C K B) :=
  match s.coroutine c with
  | .ready a => some (if now ≥ wakeTime a then s.setCoroutine c (.awaitResume a) else
      s.access (.mCb a) fun b =>
        if (s.boxes b).state ≠ .ePending then s.setCoroutine c (.awaitResume a) else
          (s.setCoroutine c (.suspended a)).setSuspend c (.storeWaiter a))
  | _ => none

def awaitSuspend (s : State A C K B) (c : C) : Option (State A C K B) :=
  match s.suspend c with
  | .storeWaiter a => some (s.access (.mCb a) fun b =>
      (s.setBox b { s.boxes b with waiter := some c }).setSuspend c (.addRef a))
  | .addRef a => some (s.access (.mCb a) fun b =>
      { s.setSuspend c (.addTask a) with ptrs := s.ptrs.fromRaw (.arg c) (some b) })
  | .addTask a => some (s.access (.mCb a) fun b => s.setSuspend c (.push b))
  | .push address => some ((s.setTask c (.pending address)).setSuspend c .returned)
  | .idle | .returned => none

def awaitResume (s : State A C K B) (c : C) : Option (State A C K B) :=
  match s.coroutine c with
  | .awaitResume a => some (s.access (.mCb a) fun b =>
      s.setCoroutine c (.continued ((s.boxes b).state = .eConsumed)))
  | _ => none

def abandon (s : State A C K B) (c : C) : Option (State A C K B) :=
  match s.coroutine c with
  | .suspended _ => some (s.setCoroutine c .destroyed)
  | _ => none

/-- The timer calls a function of the task, whose CAS stores `next`. -/
def take (s : State A C K B) (c : C) (next : Phase) : Option (State A C K B) :=
  match s.task c with
  | .pending address => some (s.setTask c (.construct address next))
  | _ => none

/-- `intrusive_ptr_release(cb.get())` gives up the count of the argument. -/
def releaseArg (s : State A C K B) (c : C) : IntrusivePtr.State (Holder A C) B :=
  ((s.ptrs.release (s.ptrs.mPtr (.cb c))).setPtr (.arg c) none).setAlive (.arg c) false

/-- The function that the timer calls, around its CAS. -/
def taskStep (s : State A C K B) (c : C) : Option (State A C K B) :=
  match s.task c with
  | .construct address next => some
      { s.setTask c (.release next) with ptrs := s.ptrs.fromRaw (.cb c) (some address) }
  | .release next => some
      { (s.setTask c .claiming).setClaim (.task c) (.cas (.cb c) next) with
        ptrs := releaseArg s c }
  | .claiming => match s.claims (.task c) with
    | .returned _ => some { s.setTask c .finished with ptrs := s.ptrs.destroy (.cb c) }
    | _ => none
  | .unregistered | .pending _ | .finished => none

def claimStep (s : State A C K B) (p : Claimer K C) : Option (State A C K B) :=
  match s.claims p with
  | .cas x next => some (s.access x fun b =>
      if (s.boxes b).state = .ePending then
        (s.setBox b { s.boxes b with state := next }).setClaim p (.testWaiter x) else
        s.setClaim p (.returned false))
  | .testWaiter x => some (s.access x fun b =>
      s.setClaim p (if (s.boxes b).waiter.isSome then .resume x else .returned true))
  | .resume x => some (s.access x fun b =>
      (s.resume (s.boxes b).waiter).setClaim p (.clearWaiter x))
  | .clearWaiter x => some (s.access x fun b =>
      (s.setBox b { s.boxes b with waiter := none }).setClaim p (.returned true))
  | .returned _ => none

/-- `new T`, with a count of zero. -/
def newBox (s : State A C K B) (b : B) : IntrusivePtr.State (Holder A C) B :=
  { s.ptrs with objs := Function.update s.ptrs.objs b (.live 0) }

/-- The calls are made on awaitables that have a box, which one that has been moved from has not. -/
def step (wakeTime : A → Time) (s : State A C K B) :
    Action Time A C K B → Option (State A C K B)
  | .make a b => if s.used a = false ∧ s.ptrs.objs b = .fresh then
      some (s.construct a (newBox s b |>.fromRaw (.mCb a) (some b))) else none
  | .copy a oth => if s.used a = false ∧ s.ptrs.alive (.mCb oth) then
      some (s.construct a (s.ptrs.fromRaw (.mCb a) (s.ptrs.mPtr (.mCb oth)))) else none
  | .move a oth => if s.used a = false ∧ s.ptrs.alive (.mCb oth) then
      some (s.construct a (s.ptrs.move (.mCb a) (.mCb oth))) else none
  | .destroy a => if s.ptrs.alive (.mCb a) then
      some { s with ptrs := s.ptrs.destroy (.mCb a) } else none
  | .coAwait c a => match s.coroutine c, s.ptrs.mPtr (.mCb a) with
    | .idle, some _ => some (s.setCoroutine c (.ready a))
    | _, _ => none
  | .awaitReady c now => awaitReady wakeTime s c now
  | .awaitSuspend c => awaitSuspend s c
  | .awaitResume c => awaitResume s c
  | .abandon c => abandon s c
  | .cancel k a => match s.claims (.call k), s.ptrs.mPtr (.mCb a) with
    | .returned _, some _ => some (s.setClaim (.call k) (.cas (.mCb a) .eCanceled))
    | _, _ => none
  | .fire c => take s c .eConsumed
  | .cancelTask c => take s c .eCanceled
  | .task c => taskStep s c
  | .claim p => claimStep s p

def system (C K B : Type*) [DecidableEq C] [DecidableEq K] [DecidableEq B] (wakeTime : A → Time) :
    System (State A C K B) (Action Time A C K B) where
  init := init A C K B
  step := step wakeTime

end step

variable {Time A C K B : Type*}

namespace State
variable {s : State A C K B} {b : B} {box : ControlBox C} {c : C}

@[simp] lemma setBox_ptrs [DecidableEq B] : (s.setBox b box).ptrs = s.ptrs := rfl

variable [DecidableEq C]

@[simp] lemma setCoroutine_ptrs {pc : CoroutinePc A} : (s.setCoroutine c pc).ptrs = s.ptrs := rfl

@[simp] lemma setSuspend_suspend {pc : SuspendPc A B} :
    (s.setSuspend c pc).suspend = Function.update s.suspend c pc := rfl

@[simp] lemma setSuspend_task {pc : SuspendPc A B} : (s.setSuspend c pc).task = s.task := rfl

@[simp] lemma setTask_ptrs {pc : TaskPc B} : (s.setTask c pc).ptrs = s.ptrs := rfl

@[simp] lemma setTask_suspend {pc : TaskPc B} : (s.setTask c pc).suspend = s.suspend := rfl

@[simp] lemma setTask_task {pc : TaskPc B} :
    (s.setTask c pc).task = Function.update s.task c pc := rfl

end State

/-! ### What a box is counted for -/

/-- The awaitable that the next access of `await_suspend` goes through. -/
def SuspendPc.reads : SuspendPc A B → Option A
  | .storeWaiter a | .addRef a | .addTask a => some a
  | .idle | .push _ | .returned => none

/-- The awaitable that the coroutine has not done with. -/
def CoroutinePc.awaits : CoroutinePc A → Option A
  | .ready a | .suspended a | .awaitResume a => some a
  | .idle | .continued _ | .destroyed => none

def ClaimPc.reads {X : Type*} : ClaimPc X → Option X
  | .cas x _ | .testWaiter x | .resume x | .clearWaiter x => some x
  | .returned _ => none

/-- The pointer of a claimer whose CAS has succeeded. -/
def ClaimPc.won {X : Type*} : ClaimPc X → Option X
  | .testWaiter x | .resume x | .clearWaiter x => some x
  | .cas _ _ | .returned _ => none

/-- The function that is called for the task has its handle. -/
def TaskPc.constructed : TaskPc B → Bool
  | .release _ | .claiming => true
  | .unregistered | .pending _ | .construct _ _ | .finished => false

/-- The box that the task is counted for, when the function that is called for it has `cb`. -/
def TaskPc.counts (cb : Option B) : TaskPc B → Option B
  | .pending address | .construct address _ => some address
  | .release _ => cb
  | .unregistered | .claiming | .finished => none

namespace State

/-- The box that the task of `c` is counted for, from `intrusive_ptr_add_ref` on and until the
function that is called for it has given its count back. -/
def registered (s : State A C K B) (c : C) : Option B :=
  match s.suspend c with
  | .addTask a => s.ptrs.mPtr (.mCb a)
  | .push address => some address
  | .idle | .storeWaiter _ | .addRef _ | .returned => (s.task c).counts (s.ptrs.mPtr (.cb c))

/-- The awaitables that hold the box. -/
noncomputable def handles (s : State A C K B) (b : B) : ℕ :=
  held (fun a => s.ptrs.mPtr (.mCb a)) b

noncomputable def registrations (s : State A C K B) (b : B) : ℕ := held s.registered b

/-- The functions of tasks that have their handle of the box. -/
noncomputable def temporaries (s : State A C K B) (b : B) : ℕ :=
  {c | (s.task c).constructed = true ∧ s.ptrs.mPtr (.cb c) = some b}.ncard

def Called (s : State A C K B) (a : A) : Prop := ∃ k, (s.claims (.call k)).reads = some (.mCb a)

def Awaited (s : State A C K B) (a : A) : Prop := ∃ c, (s.coroutine c).awaits = some a

def Suspending (s : State A C K B) (a : A) : Prop := ∃ c, (s.suspend c).reads = some a

end State

/-- The counts are right, a box is deleted once, when there is nothing left that it is counted for,
and it is not accessed after that. -/
structure FreedOnce (s : State A C K B) : Prop where
  fault : s.ptrs.fault = false
  finite : FinitelyHeld s.ptrs.mPtr
  count : ∀ b n, s.ptrs.objs b = .live n →
    n = s.handles b + s.registrations b + s.temporaries b
  deleted : ∀ b, s.ptrs.objs b = .deleted ↔ s.ptrs.objs b ≠ .fresh ∧
    s.handles b + s.registrations b + s.temporaries b = 0
  once : ∀ b, s.ptrs.deletions b = if s.ptrs.objs b = .deleted then 1 else 0

/-- An awaitable is kept alive for the calls of `cancel` on it and for the coroutines that await
it. -/
def KeptAlive (s : State A C K B) : Action Time A C K B → Prop
  | .destroy a | .move _ a => ¬s.Called a ∧ ¬s.Awaited a
  | .make _ _ | .copy _ _ | .coAwait _ _ | .awaitReady _ _ | .awaitSuspend _ | .awaitResume _
  | .abandon _ | .cancel _ _ | .fire _ | .cancelTask _ | .task _ | .claim _ => True

/-- An awaitable has its box for as long as an `await_suspend` on it has to read it, which may be
longer than the coroutine is suspended. -/
def InTime (s : State A C K B) : Action Time A C K B → Prop
  | .destroy a | .move _ a => ¬s.Suspending a
  | .make _ _ | .copy _ _ | .coAwait _ _ | .awaitReady _ _ | .awaitSuspend _ | .awaitResume _
  | .abandon _ | .cancel _ _ | .fire _ | .cancelTask _ | .task _ | .claim _ => True

/-- An awaitable ends, or loses its box, when nobody needs it any more. -/
def Careful (s : State A C K B) (act : Action Time A C K B) : Prop := KeptAlive s act ∧ InTime s act

end Scoro.SharedSleep

import Scoro.Lib.ControlStack
import Scoro.Lib.DirectStyle
import Scoro.Lib.Transition

/-!
# Coroutines that await each other's `Future`s

The coroutines of one thread: their bodies call further coroutines, whose `Future`s are local
variables, and await them, and they await other things (a timer, a semaphore, input), which are the
operations of the program. A coroutine starts when it is called (`suspend_never`), runs on top of
its caller until it suspends or ends, and a coroutine that ends transfers the control to the one
that awaits it. Each action is a step of the coroutine on top of the control stack, or comes from
outside: a call of a coroutine, the resumption of one that has suspended in an operation, and the
end of a `Future` that is held outside. They may come at any time, also while coroutines run.
-/

namespace Scoro.Composition
open Scoro.Lib

/-- Frames are numbered in the order of their allocation. -/
abbrev Frame := ℕ

/-- `PromiseBase` and `Promise`. -/
structure Promise (V E : Type*) where
  mCallerCoroutine : Option Frame
  mException : Option E
  mValue : Option V

namespace Promise
variable {V E : Type*}

def init : Promise V E := ⟨none, none, none⟩

def setCaller (p : Promise V E) (caller : Frame) : Promise V E :=
  { p with mCallerCoroutine := some caller }

def returnValue (p : Promise V E) (v : V) : Promise V E := { p with mValue := some v }

def unhandledException (p : Promise V E) (e : E) : Promise V E := { p with mException := some e }

/-- What `get` returns or throws. -/
def get (p : Promise V E) : Option (Except E V) :=
  match p.mException with
  | some e => some (.error e)
  | none => p.mValue.map .ok

/-- `get` moves the value out. -/
def moveOut (moved : V → V) (p : Promise V E) : Promise V E :=
  { p with mValue := p.mValue.map moved }

end Promise

/-- The coroutine of a `TrivialFuture`, or of a `Future` with its parameter `Nothrow`. -/
inductive Kind where
  | trivial
  | future (nothrow : Bool)
  deriving DecidableEq

/-- Where a coroutine is. It is suspended in the operation `l` or in a `co_await` on the `Future`
of `g`, and at `awaitResume` when that is over. It is `ending` from its `co_return`, or with the
exception that leaves its body, until its final suspension. -/
inductive FramePc (L V E κ : Type*) where
  | running (k : κ)
  | operation (l : L) (next : Except E V → κ)
  | awaiting (g : Frame) (next : Except E V → κ)
  | awaitResume (g : Frame) (next : Except E V → κ)
  | ending (e : Option E)
  | done
  | destroyed

/-- A coroutine frame. The `Future`s among its local variables are in the order of their
construction. `registered` says that somebody has its handle and will resume it. The last three
fields are history: the operations that its body has performed, how the body has ended, and how
often the frame has been destroyed. -/
structure Coroutine (L V E κ : Type*) where
  kind : Kind
  body : κ
  pc : FramePc L V E κ
  futures : List Frame
  promise : Promise V E
  registered : Bool
  operations : List L
  outcome : Option (Except E V)
  destroyed : ℕ

/-- What is going on in a call on the control stack: the coroutine runs, it is on its way to the
final suspension, or its frame is being destroyed. -/
inductive Role (E : Type*) where
  | body
  | final (e : Option E)
  | destroy

/-- `terminated` is set by `std::terminate`, and `fault` when a frame is used, resumed or
destroyed that has been destroyed, when a running one is destroyed, and when a coroutine is
resumed that is not suspended. -/
structure State (L V E κ : Type*) where
  count : ℕ
  frames : Frame → Option (Coroutine L V E κ)
  stack : List (Frame × Role E)
  roots : List Frame
  terminated : Bool
  fault : Bool

/-- `ready` says whether the operation that is performed goes on without suspending. -/
inductive Action (κ : Type*) where
  | call (kind : Kind) (body : κ)
  | run (ready : Bool)
  | resume (f : Frame)
  | release (f : Frame)

section step
variable {L V E κ : Type*}

def init (L V E κ : Type*) : State L V E κ where
  count := 0
  frames := fun _ => none
  stack := []
  roots := []
  terminated := false
  fault := false

def FramePc.isDone : FramePc L V E κ → Bool
  | .done => true
  | _ => false

namespace State

def setFrame (s : State L V E κ) (f : Frame) (c : Coroutine L V E κ) : State L V E κ :=
  { s with frames := Function.update s.frames f (some c) }

def setStack (s : State L V E κ) (stack : List (Frame × Role E)) : State L V E κ :=
  { s with stack := stack }

def raise (s : State L V E κ) : State L V E κ := { s with fault := true }

/-- A coroutine is called: its frame is allocated and its body starts. -/
def create (s : State L V E κ) (kind : Kind) (body : κ) : State L V E κ :=
  { s with
    count := s.count + 1
    frames := Function.update s.frames s.count (some
      { kind := kind, body := body, pc := .running body, futures := [], promise := .init,
        registered := false, operations := [], outcome := none, destroyed := 0 })
    stack := (s.count, .body) :: s.stack }

end State

section
variable (P : Program L V E κ) (world : L → Except E V) (moved : V → V)

/-- The next instruction of the coroutine `f`, which is on top of `rest`. -/
def execute (s : State L V E κ) (f : Frame) (c : Coroutine L V E κ) (rest : List (Frame × Role E))
    (ready : Bool) (k : κ) : Option (State L V E κ) :=
  match P.code k with
  | .ret v => some ((s.setFrame f { c with
      pc := .ending none, promise := c.promise.returnValue v, outcome := some (.ok v) }).setStack
        ((f, .final none) :: rest))
  | .throw e => some ((s.setFrame f { c with pc := .ending (some e) }).setStack
      ((f, .final (some e)) :: rest))
  | .call nothrow body next => some ((s.setFrame f { c with
      pc := .running next, futures := c.futures ++ [s.count] }).create (.future nothrow) body)
  | .await i next =>
    match c.futures[i]? with
    | none => none
    | some g =>
      match s.frames g with
      | none => none
      | some d =>
        match d.pc with
        -- `await_ready`, which reads `done()`
        | .destroyed => some s.raise
        | .done => some (s.setFrame f { c with pc := .awaitResume g next })
        | _ => some (((s.setFrame f { c with pc := .awaiting g next }).setFrame g
            { d with promise := d.promise.setCaller f }).setStack rest)
  | .perform l next =>
    if ready then
      some (s.setFrame f { c with
        pc := .running (next (world l)), operations := c.operations ++ [l] })
    else
      some ((s.setFrame f { c with
        pc := .operation l next, operations := c.operations ++ [l], registered := true }).setStack
          rest)
  | .drop next =>
    match c.futures.getLast? with
    | none => none
    | some g => some ((s.setFrame f { c with
        pc := .running next, futures := c.futures.dropLast }).setStack
          ((g, .destroy) :: (f, .body) :: rest))

/-- `await_resume` of the `Future` of `g` in the coroutine `f`. -/
def awaitResume (s : State L V E κ) (f : Frame) (c : Coroutine L V E κ) (g : Frame)
    (next : Except E V → κ) : Option (State L V E κ) :=
  match s.frames g with
  | none => none
  | some d =>
    match d.pc, d.promise.get with
    | .destroyed, _ | _, none => some s.raise
    | _, some o => some ((s.setFrame f { c with pc := .running (next o) }).setFrame g
        { d with promise := d.promise.moveOut moved })

/-- The coroutine `f` is at the end of its body: its local variables are destroyed, the exception
is handled, and `final_suspend` transfers the control to the caller, or ends the frame. -/
def finalStep (s : State L V E κ) (f : Frame) (c : Coroutine L V E κ)
    (rest : List (Frame × Role E)) (e : Option E) : Option (State L V E κ) :=
  match c.futures.getLast? with
  | some g => some ((s.setFrame f { c with futures := c.futures.dropLast }).setStack
      ((g, .destroy) :: s.stack))
  | none =>
    match e, c.kind with
    | some e, .future false => some ((s.setFrame f { c with
        pc := .ending none, promise := c.promise.unhandledException e,
        outcome := some (.error e) }).setStack ((f, .final none) :: rest))
    | some _, _ => some { s with terminated := true }
    | none, .trivial => some ((s.setFrame f { c with
        pc := .destroyed, destroyed := c.destroyed + 1 }).setStack rest)
    | none, .future _ =>
      match c.promise.mCallerCoroutine with
      | none => some ((s.setFrame f { c with pc := .done }).setStack rest)
      | some p =>
        match s.frames p with
        | none => none
        | some d =>
          match d.pc with
          | .awaiting g next => some (((s.setFrame f { c with pc := .done }).setFrame p
              { d with pc := .awaitResume g next }).setStack ((p, .body) :: rest))
          | _ => some s.raise

/-- `destroy` of the coroutine `f`: its local variables first, if it is suspended in its body. -/
def destroyStep (s : State L V E κ) (f : Frame) (c : Coroutine L V E κ)
    (rest : List (Frame × Role E)) : Option (State L V E κ) :=
  match c.pc with
  | .running _ | .awaitResume .. | .ending _ | .destroyed => some s.raise
  | .operation .. | .awaiting .. | .done =>
    match c.futures.getLast? with
    | some g => some ((s.setFrame f { c with futures := c.futures.dropLast }).setStack
        ((g, .destroy) :: s.stack))
    | none => some ((s.setFrame f { c with
        pc := .destroyed, destroyed := c.destroyed + 1 }).setStack rest)

/-- A step of the call on top of the control stack. -/
def runStep (s : State L V E κ) (ready : Bool) : Option (State L V E κ) :=
  match s.stack with
  | [] => none
  | (f, role) :: rest =>
    match s.frames f with
    | none => none
    | some c =>
      match role, c.pc with
      | .body, .running k => execute P world s f c rest ready k
      | .body, .awaitResume g next => awaitResume moved s f c g next
      | .body, _ => some s.raise
      | .final e, _ => finalStep s f c rest e
      | .destroy, _ => destroyStep s f c rest

def step (s : State L V E κ) (a : Action κ) : Option (State L V E κ) :=
  if s.terminated || s.fault then none else
  match a with
  | .call kind body =>
    if P.scope body = 0 then
      some { s.create kind body with roots := match kind with
        | .trivial => s.roots
        | .future _ => s.roots ++ [s.count] }
    else none
  | .run ready => runStep P world moved s ready
  | .resume f =>
    match s.frames f with
    | none => none
    | some c =>
      if c.registered then
        match c.pc with
        | .operation l next => some ((s.setFrame f { c with
            pc := .running (next (world l)), registered := false }).setStack
              ((f, .body) :: s.stack))
        | _ => some s.raise
      else none
  | .release f =>
    if f ∈ s.roots then
      some ({ s with roots := s.roots.erase f }.setStack ((f, .destroy) :: s.stack))
    else none

def system : System (State L V E κ) (Action κ) where
  init := init L V E κ
  step := step P world moved

/-- The coroutine whose `Future` goes out of scope with the action. -/
def dropped (s : State L V E κ) : Action κ → Option Frame
  | .call .. | .resume _ => none
  | .release f => some f
  | .run _ =>
    match s.stack with
    | [] => none
    | (f, role) :: _ =>
      match s.frames f with
      | none => none
      | some c =>
        match role, c.pc with
        | .body, .running k =>
          match P.code k with
          | .drop _ => c.futures.getLast?
          | _ => none
        | .body, _ => none
        | .final _, _ | .destroy, _ => c.futures.getLast?

/-- A `Future` goes out of scope only after its coroutine is done. -/
def Joined (s : State L V E κ) (a : Action κ) : Prop :=
  ∀ g ∈ dropped P s a, ∀ c ∈ s.frames g, c.pc.isDone = true

instance (s : State L V E κ) (a : Action κ) : Decidable (Joined P s a) :=
  inferInstanceAs (Decidable (∀ g ∈ dropped P s a, ∀ c ∈ s.frames g, c.pc.isDone = true))

end

end step

/-- The points of `test_success` of `main.cpp`, before and after it has slept, and of a caller that
is not in the source: it calls it twice, awaits the second `Future`, which is a temporary, and then
the first one. -/
inductive TestPoint where
  | sleep
  | slept
  | entry
  | firstCalled
  | secondCalled
  | secondRead
  | secondDropped
  | firstRead (v : ℤ)
  deriving DecidableEq

def TestPoint.scope : TestPoint → ℕ
  | .sleep | .slept | .entry => 0
  | .firstCalled | .secondDropped | .firstRead _ => 1
  | .secondCalled | .secondRead => 2

def testCode : TestPoint → Instr Unit ℤ Empty TestPoint
  | .sleep => .perform () fun _ => .slept
  | .slept => .ret 42
  | .entry => .call true .sleep .firstCalled
  | .firstCalled => .call true .sleep .secondCalled
  | .secondCalled => .await 1 fun _ => .secondRead
  | .secondRead => .drop .secondDropped
  | .secondDropped => .await 0 fun
    | .ok v => .firstRead v
    | .error e => e.elim
  | .firstRead v => .ret v

def testSuccess : Program Unit ℤ Empty TestPoint where
  code := testCode
  scope := TestPoint.scope
  wellScoped k := by
    cases k with
    | sleep => exact fun _ => rfl
    | entry | firstCalled => exact ⟨rfl, rfl⟩
    | secondCalled => exact ⟨Nat.one_lt_two, fun _ => rfl⟩
    | secondRead => rfl
    | secondDropped =>
      refine ⟨Nat.one_pos, ?_⟩
      rintro (e | v)
      · exact e.elim
      · rfl
    | slept | firstRead => trivial

/-- What the caller has read when it gets to a point. -/
def TestPoint.read : TestPoint → Finset ℕ
  | .sleep | .slept | .entry | .firstCalled | .secondCalled | .secondDropped => ∅
  | .secondRead => {1}
  | .firstRead _ => {0}

lemma testSuccess_joins : testSuccess.Joins TestPoint.read where
  bound k := by cases k <;> simp [TestPoint.read, testSuccess, TestPoint.scope]
  code k := by
    have hnone : ∀ {q : ℕ → Prop}, ∀ i ∈ (∅ : Finset ℕ), q i := fun i hi =>
      absurd hi (Finset.notMem_empty i)
    cases k with
    | sleep => exact fun _ => hnone
    | slept => exact fun i hi => absurd hi (Nat.not_lt_zero i)
    | entry | firstCalled => exact hnone
    | secondCalled => exact fun _ j hj => Or.inl (Finset.mem_singleton.mp hj)
    | secondRead => exact ⟨Finset.mem_singleton_self 1, hnone⟩
    | secondDropped =>
      rintro (e | v)
      · exact e.elim
      · exact fun j hj => Or.inl (Finset.mem_singleton.mp hj)
    | firstRead v => exact fun i hi => Finset.mem_singleton.mpr (Nat.lt_one_iff.mp hi)

end Scoro.Composition

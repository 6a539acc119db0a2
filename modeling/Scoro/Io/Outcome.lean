import Scoro.Coro.Future
import Scoro.Io.Service

/-!
# What `run` makes of its future

`Service::run` is a function template with return type `T` that loops until its future is done.
There is no `return` after the loop and no look at the promise, so the value is dropped, and so is
the exception. A future may be of type `T`, `T&`, `T&&` or `void`, and its promise may be one that
stores no exception (`Nothrow`).
-/

namespace Scoro.Io.Outcome
open Scoro.Lib

/-- The type argument of a `Future`. -/
inductive ValueType where
  | object
  | lvalueRef
  | rvalueRef
  | void
  deriving DecidableEq

/-- How a call ends. It is `undefined` where a function that has to return a value runs off its
end, or where a promise has no value. -/
inductive Ending (V E : Type*) where
  | value (v : V)
  | nothing
  | thrown (e : E)
  | undefined
  deriving DecidableEq

/-- A future that is run: the service, and the future's coroutine. `ending` is how the call of
`run` has ended. -/
structure State (V E : Type*) where
  service : Io.State
  future : Future.State V E
  ending : Option (Ending V E)

/-- `service` is a step of the kernel or of a coroutine, `finish` and `final` are steps of the
future's coroutine, on any thread, and `run` is the next step of `Service::run`. -/
inductive Action (V E : Type*) where
  | service (a : Io.Action)
  | finish (o : Except E V)
  | final
  | run

variable {V E : Type*}

/-- `return` of a value, for `void` without one. -/
def ValueType.returned (T : ValueType) (v : V) : Ending V E :=
  if T = .void then .nothing else .value v

/-- The end of the body of `run`, after the loop. -/
def ValueType.runEnd : ValueType → Ending V E
  | .void => .nothing
  | .object | .lvalueRef | .rvalueRef => .undefined

/-- What a call produces that returns the value of the promise or rethrows its exception. -/
def ValueType.outcome (T : ValueType) : Except E V → Ending V E
  | .ok v => T.returned v
  | .error e => .thrown e

/-- A `co_await` on the future, which nobody else awaits: `await_ready`, then `await_resume`. -/
def coAwait (T : ValueType) (future : Future.State V E) : Ending V E :=
  match ((Future.awaitReady future).bind Future.awaitResume).map Future.State.coroutine with
  | some (.continued (some o)) => T.outcome o
  | _ => .undefined

def init (V E : Type*) : State V E where
  service := Io.init
  future := Future.init V E
  ending := none

/-- An exception leaves the body of a `Nothrow` coroutine by `std::terminate`. -/
def finish (nothrow : Bool) (s : State V E) (o : Except E V) : Option (State V E) :=
  match o, nothrow with
  | .error _, true => none
  | o, _ => (Future.finish s.future o).map fun future => { s with future := future }

def runStep (u : Liburing) (T : ValueType) (s : State V E) : Option (State V E) :=
  match s.ending, s.service.run with
  | some _, _ => none
  | none, .testDone =>
    let service := Io.runStep u s.service s.future.done
    some (if s.future.done then { s with service := service, ending := some T.runEnd } else
      { s with service := service })
  | none, _ => some { s with service := Io.runStep u s.service s.future.done }

def step (u : Liburing) (T : ValueType) (nothrow : Bool) (s : State V E) :
    Action V E → Option (State V E)
  | .service (.run _) => none
  | .service a => (Io.step u s.service a).map fun service => { s with service := service }
  | .finish o => finish nothrow s o
  | .final => (Future.finalStep false s.future).map fun future => { s with future := future }
  | .run => runStep u T s

def system (V E : Type*) (u : Liburing) (T : ValueType) (nothrow : Bool) :
    System (State V E) (Action V E) where
  init := init V E
  step := step u T nothrow

variable {u : Liburing} {T : ValueType} {nothrow : Bool} {s s' : State V E}

/-- The future is a `Future` in its own right, and `run` does not await it. -/
structure Inv (T : ValueType) (s : State V E) : Prop where
  future : (Future.system V E false).Reachable s.future
  ready : s.future.coroutine = .ready
  ended : ∀ r, s.ending = some r → s.future.done = true ∧ r = T.runEnd

lemma Inv.init : Inv T (init V E) := ⟨.init, rfl, by rintro _ ⟨⟩⟩

/-- A step of the future's coroutine, which nobody waits for. -/
lemma Inv.future_step (h : Inv T s) {a : Future.Action V E} {future : Future.State V E}
    (ha : (∃ o, a = .finish o) ∨ a = .final)
    (hs : (Future.system V E false).step s.future a = some future) :
    Inv T { s with future := future } := by
  have hinv := Future.reaches_inv h.future
  refine ⟨h.future.step trivial hs, ?_, fun r hr => ⟨?_, (h.ended r hr).2⟩⟩
  · cases hinv.move hs with
    | finish | done | setValid | notifyAll | noCaller | caller | readCaller => exact h.ready
    | resume _ hsuspended =>
      rw [h.ready] at hsuspended
      cases hsuspended
    | ready | suspend | setCaller | suspendRet | awaitResume => simp at ha
  · have hdone := (h.ended r hr).1
    cases hinv.move hs with
    | done => rfl
    | finish | setValid | notifyAll | noCaller | caller | readCaller | resume => exact hdone
    | ready | suspend | setCaller | suspendRet | awaitResume => simp at ha

lemma Inv.runStep (h : Inv T s) (hs : runStep u T s = some s') : Inv T s' := by
  unfold Outcome.runStep at hs
  split at hs
  · cases hs
  · split_ifs at hs with hdone <;> cases hs
    · exact ⟨h.future, h.ready, fun r hr => ⟨hdone, (Option.some.inj hr).symm⟩⟩
    · exact ⟨h.future, h.ready, h.ended⟩
  · cases hs
    exact ⟨h.future, h.ready, h.ended⟩

lemma Inv.step (h : Inv T s) {a : Action V E} (hs : step u T nothrow s a = some s') :
    Inv T s' := by
  cases a with
  | service a =>
    cases a with
    | run => cases hs
    | create | coAwait | setDeferred | setCallback | complete =>
      simp only [Outcome.step] at hs
      obtain ⟨service, -, rfl⟩ := Option.map_eq_some_iff.mp hs
      exact ⟨h.future, h.ready, h.ended⟩
  | finish o =>
    simp only [Outcome.step, finish] at hs
    split at hs
    · cases hs
    · obtain ⟨future, hfuture, rfl⟩ := Option.map_eq_some_iff.mp hs
      exact h.future_step (.inl ⟨_, rfl⟩) hfuture
  | final =>
    obtain ⟨future, hfuture, rfl⟩ := Option.map_eq_some_iff.mp hs
    exact h.future_step (.inr rfl) hfuture
  | run => exact h.runStep hs

lemma reaches_inv (h : (system V E u T nothrow).Reachable s) : Inv T s :=
  h.invariant .init fun _ _ _ _ hinv _ hs => hinv.step hs

/-- A future that is done yields its coroutine's outcome to a `co_await`. -/
lemma Inv.coAwait_eq (h : Inv T s) (hdone : s.future.done = true) :
    ∃ o, s.future.outcome = some o ∧ coAwait T s.future = T.outcome o := by
  have hready : Future.awaitReady s.future = some s.future.pass := by
    simp [Future.awaitReady, h.ready, hdone]
  have hresume : Future.awaitResume s.future.pass =
      some { s.future.pass with coroutine := .continued s.future.promise.get } := rfl
  have hrun : (Future.system V E false).Reachable s.future.pass :=
    h.future.step (a := Future.Action.awaitReady) trivial hready
  obtain ⟨o, hget, ho⟩ := Future.await_resume_outcome
    (hrun.step (a := Future.Action.awaitResume) trivial hresume) rfl
  refine ⟨o, ho, ?_⟩
  simp [coAwait, hready, hresume, hget]

/-- What comes of `run` is what a `co_await` would yield for `void` and a coroutine without an
exception, and only there. -/
lemma ValueType.runEnd_eq_iff {o : Except E V} :
    T.runEnd = T.outcome o ↔ T = .void ∧ ∃ v, o = .ok v := by
  cases o with
  | ok v => cases T <;> simp [ValueType.runEnd, ValueType.outcome, ValueType.returned]
  | error e => cases T <;> simp [ValueType.runEnd, ValueType.outcome]

/-- `run` leaves its loop when the future is done. It ends as a `co_await` on the future would if
the future is of type `void` and its coroutine has not thrown, and otherwise it does not. -/
theorem run_agrees_iff (h : (system V E u T nothrow).Reachable s) {r : Ending V E}
    (hr : s.ending = some r) : s.future.done = true ∧ ∃ o, s.future.outcome = some o ∧
      coAwait T s.future = T.outcome o ∧
      (r = coAwait T s.future ↔ T = .void ∧ ∃ v, o = .ok v) := by
  have hinv := reaches_inv h
  obtain ⟨hdone, rfl⟩ := hinv.ended r hr
  obtain ⟨o, ho, hawait⟩ := hinv.coAwait_eq hdone
  refine ⟨hdone, o, ho, hawait, ?_⟩
  rw [hawait]
  exact ValueType.runEnd_eq_iff

theorem run_agrees_iff_void : ∃ s : State Unit ℕ, s.ending = some .nothing ∧
    s.future.outcome = some (.ok ()) ∧ coAwait .void s.future = .nothing := by
  obtain ⟨s, hs, hend, houtcome⟩ := System.exists_reaches
    (S := system Unit ℕ ⟨1, true⟩ .void false) (fun _ _ => True)
    (fun s => s.ending = some .nothing ∧ s.future.outcome = some (.ok ()))
    [.run, .run, .run, .finish (.ok ()), .final, .run, .run, .run, .run] (by decide)
  obtain ⟨-, o, ho, -, hagrees⟩ := run_agrees_iff hs hend
  rw [houtcome] at ho
  cases ho
  exact ⟨s, hend, houtcome, (hagrees.mpr ⟨rfl, (), rfl⟩).symm⟩

/-- The coroutine of a `Future<int>` returns 7, and `run` runs off its end. The coroutine of a
`Future<void>` throws, and `run` returns. -/
theorem run_drops_outcome :
    (∃ s, (system ℕ ℕ ⟨1, true⟩ .object false).Reachable s ∧
      s.ending = some .undefined ∧ coAwait .object s.future = .value 7) ∧
    ∃ s, (system Unit ℕ ⟨1, true⟩ .void false).Reachable s ∧
      s.ending = some .nothing ∧ coAwait .void s.future = .thrown 3 := by
  constructor
  · exact System.exists_reaches (S := system ℕ ℕ ⟨1, true⟩ .object false) (fun _ _ => True)
      (fun s => s.ending = some .undefined ∧ coAwait .object s.future = .value 7)
      [.finish (.ok 7), .final, .run, .run] (by decide)
  · exact System.exists_reaches (S := system Unit ℕ ⟨1, true⟩ .void false) (fun _ _ => True)
      (fun s => s.ending = some .nothing ∧ coAwait .void s.future = .thrown 3)
      [.finish (.error 3), .final, .run, .run] (by decide)

end Scoro.Io.Outcome

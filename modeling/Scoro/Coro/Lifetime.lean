import Scoro.Lib.Transition

/-!
# The frame behind a `WaitableFuture`

A coroutine that finishes on its own thread, and the destructor of its `WaitableFuture`, which
waits for `m_state` and destroys the frame. The store that ends the wait is not the last access of
the finishing thread: `get_caller` is read after it.
-/

namespace Scoro.Lifetime
open Scoro.Lib

def SPIN_TIMES : ℕ := 1000

/-- The body of the coroutine, the steps of `FinalWaiter::await_suspend`, and the handle that it
has returned (`none` for the noop coroutine). -/
inductive FinishPc (H : Type*) where
  | body
  | storeState
  | notifyAll
  | testCaller
  | readCaller
  | suspended (ret : Option H)
  deriving DecidableEq

/-- `~WaitableFuture`: the loads of `wait`, with the spins left, the call of the futex, and the
destruction of the frame. -/
inductive OwnerPc where
  | future
  | spin (spins : ℕ)
  | load
  | futexWait
  | asleep
  | destroy
  | gone
  deriving DecidableEq

/-- `fault` is set when the finishing thread reads or writes the promise in a destroyed frame. -/
structure State (H : Type*) where
  mState : Bool
  mCallerCoroutine : Option H
  finish : FinishPc H
  owner : OwnerPc
  destroyed : Bool
  fault : Bool

/-- `body` is an access of the coroutine to its promise, `finish` and `owner` are the next steps of
the two threads, `wake` lets the futex return without a notify. -/
inductive Action where
  | body
  | finish
  | owner
  | wake

variable {H : Type*}

def init (caller : Option H) : State H where
  mState := false
  mCallerCoroutine := caller
  finish := .body
  owner := .future
  destroyed := false
  fault := false

/-- The finishing thread reads or writes the promise. -/
def State.access (s : State H) : State H :=
  { s with fault := s.fault || s.destroyed }

def bodyStep (s : State H) : Option (State H) :=
  match s.finish with
  | .body => some s.access
  | _ => none

/-- `futex_wake` takes the address of `m_state` and does not look at it. -/
def finishStep (s : State H) : Option (State H) :=
  match s.finish with
  | .body => some { s.access with finish := .storeState }
  | .storeState => some { s.access with mState := true, finish := .notifyAll }
  | .notifyAll => some
      { s with finish := .testCaller, owner := if s.owner = .asleep then .load else s.owner }
  | .testCaller => some
      { s.access with
        finish := if s.mCallerCoroutine = none then .suspended none else .readCaller }
  | .readCaller => some { s.access with finish := .suspended s.mCallerCoroutine }
  | .suspended _ => none

def ownerStep (s : State H) : Option (State H) :=
  match s.owner with
  | .future => some { s with owner := .spin SPIN_TIMES }
  | .spin 0 => some { s with owner := .load }
  | .spin (spins + 1) => some { s with owner := if s.mState then .destroy else .spin spins }
  | .load => some { s with owner := if s.mState then .destroy else .futexWait }
  | .futexWait => some { s with owner := if s.mState then .load else .asleep }
  | .destroy => some { s with owner := .gone, destroyed := true }
  | .asleep | .gone => none

def wakeStep (s : State H) : Option (State H) :=
  match s.owner with
  | .asleep => some { s with owner := .load }
  | _ => none

def step (s : State H) : Action → Option (State H)
  | .body => bodyStep s
  | .finish => finishStep s
  | .owner => ownerStep s
  | .wake => wakeStep s

def system (caller : Option H) : System (State H) Action where
  init := init caller
  step := step

/-- Between the store of `m_state` and the last read of `get_caller`. -/
def FinishPc.releasing : FinishPc H → Bool
  | .notifyAll | .testCaller | .readCaller => true
  | .body | .storeState | .suspended _ => false

/-- The frame is not destroyed under the finishing thread. -/
def Outlives (s : State H) : Action → Prop
  | .owner => s.owner = .destroy → s.finish.releasing = false
  | .body | .finish | .wake => True

instance (s : State H) : ∀ a : Action, Decidable (Outlives s a)
  | .owner => inferInstanceAs (Decidable (_ → _))
  | .body | .finish | .wake => inferInstanceAs (Decidable True)

/-! ### The frame while it is in use -/

variable {caller : Option H} {s s' : State H}

/-- `set_valid` has stored. -/
def FinishPc.valid : FinishPc H → Bool
  | .body | .storeState => false
  | .notifyAll | .testCaller | .readCaller | .suspended _ => true

structure Inv (s : State H) : Prop where
  state : s.mState = s.finish.valid
  owner : s.owner = .destroy → s.mState = true
  frame : s.destroyed = true → s.mState = true ∧ s.finish.releasing = false
  fault : s.fault = false

lemma init_inv : Inv (init caller) := by
  refine ⟨rfl, ?_, ?_, rfl⟩ <;> simp [init]

/-- The destroyed frame belongs to a coroutine that has come to its end. -/
lemma Inv.suspended (h : Inv s) (hdestroyed : s.destroyed = true) :
    ∃ ret, s.finish = .suspended ret := by
  obtain ⟨hstate, hreleasing⟩ := h.frame hdestroyed
  rw [h.state] at hstate
  cases hpc : s.finish <;> simp [hpc, FinishPc.valid, FinishPc.releasing] at hstate hreleasing
  exact ⟨_, rfl⟩

lemma Inv.not_destroyed (h : Inv s) (hne : ∀ ret, s.finish ≠ .suspended ret) :
    s.destroyed = false := by
  by_contra hdestroyed
  obtain ⟨ret, hret⟩ := h.suspended (Bool.eq_true_of_not_eq_false hdestroyed)
  exact hne ret hret

/-- A thread that has not come to its end finds the frame in place. -/
lemma Inv.access (h : Inv s) (hne : ∀ ret, s.finish ≠ .suspended ret) : s.access = s := by
  have hfault : (s.fault || s.destroyed) = s.fault := by rw [h.not_destroyed hne, Bool.or_false]
  rw [State.access, hfault]

/-- The finishing thread goes on in a frame that is in place. -/
lemma Inv.goOn (h : Inv s) (hne : ∀ ret, s.finish ≠ .suspended ret) {p : FinishPc H}
    (hp : p.valid = s.finish.valid) : Inv { s with finish := p } := by
  have hstate := h.state
  refine ⟨?_, h.owner, ?_, h.fault⟩
  · rw [hp]
    exact hstate
  · simp [h.not_destroyed hne]

lemma Inv.finish (h : Inv s) (hs : finishStep s = some s') : Inv s' := by
  have hstate := h.state
  cases hpc : s.finish with
  | body =>
    have hne : ∀ ret, s.finish ≠ .suspended ret := by simp [hpc]
    simp only [finishStep, hpc, h.access hne, Option.some.injEq] at hs
    exact hs ▸ h.goOn hne (by simp [hpc, FinishPc.valid])
  | storeState =>
    have hne : ∀ ret, s.finish ≠ .suspended ret := by simp [hpc]
    simp only [finishStep, hpc, h.access hne, Option.some.injEq] at hs
    subst hs
    exact ⟨rfl, fun _ => rfl, by simp [h.not_destroyed hne], h.fault⟩
  | notifyAll =>
    have hne : ∀ ret, s.finish ≠ .suspended ret := by simp [hpc]
    simp only [finishStep, hpc, Option.some.injEq] at hs
    subst hs
    rw [hpc] at hstate
    refine ⟨hstate, ?_, by simp [h.not_destroyed hne], h.fault⟩
    simp [hstate, FinishPc.valid]
  | testCaller =>
    have hne : ∀ ret, s.finish ≠ .suspended ret := by simp [hpc]
    simp only [finishStep, hpc, h.access hne, Option.some.injEq] at hs
    subst hs
    apply h.goOn hne
    split_ifs <;> simp [hpc, FinishPc.valid]
  | readCaller =>
    have hne : ∀ ret, s.finish ≠ .suspended ret := by simp [hpc]
    simp only [finishStep, hpc, h.access hne, Option.some.injEq] at hs
    exact hs ▸ h.goOn hne (by simp [hpc, FinishPc.valid])
  | suspended ret => simp [finishStep, hpc] at hs

/-- The owner goes on, to the destruction only if it has seen the state. -/
lemma Inv.wait (h : Inv s) {p : OwnerPc} (hp : p = .destroy → s.mState = true) :
    Inv { s with owner := p } :=
  ⟨h.state, hp, h.frame, h.fault⟩

lemma Inv.owner_step (h : Inv s) (ha : Outlives s .owner) (hs : ownerStep s = some s') :
    Inv s' := by
  cases hpc : s.owner with
  | future =>
    simp only [ownerStep, hpc, Option.some.injEq] at hs
    exact hs ▸ h.wait (by simp)
  | spin spins =>
    cases spins with
    | zero =>
      simp only [ownerStep, hpc, Option.some.injEq] at hs
      exact hs ▸ h.wait (by simp)
    | succ spins =>
      simp only [ownerStep, hpc, Option.some.injEq] at hs
      subst hs
      apply h.wait
      split_ifs with hstate <;> simp [hstate]
  | load =>
    simp only [ownerStep, hpc, Option.some.injEq] at hs
    subst hs
    apply h.wait
    split_ifs with hstate <;> simp [hstate]
  | futexWait =>
    simp only [ownerStep, hpc, Option.some.injEq] at hs
    subst hs
    apply h.wait
    split_ifs <;> simp
  | destroy =>
    simp only [ownerStep, hpc, Option.some.injEq] at hs
    subst hs
    exact ⟨h.state, by simp, fun _ => ⟨h.owner hpc, ha hpc⟩, h.fault⟩
  | asleep | gone => simp [ownerStep, hpc] at hs

lemma Inv.step (h : Inv s) {a : Action} (ha : Outlives s a) (hs : step s a = some s') :
    Inv s' := by
  cases a with
  | body =>
    cases hpc : s.finish <;>
      simp only [Lifetime.step, bodyStep, hpc, reduceCtorEq, Option.some.injEq] at hs
    rw [h.access (by simp [hpc])] at hs
    exact hs ▸ h
  | finish => exact h.finish hs
  | owner => exact h.owner_step ha hs
  | wake =>
    cases hpc : s.owner <;>
      simp only [Lifetime.step, wakeStep, hpc, reduceCtorEq, Option.some.injEq] at hs
    exact hs ▸ h.wait (by simp)

/-! ### A frame that is destroyed too early -/

/-- The frame is destroyed, and the finishing thread has read in it or is about to. -/
def State.Doomed (s : State H) : Prop :=
  s.destroyed = true ∧ (s.fault = true ∨ s.finish.releasing = true)

lemma doomed_of_not_outlives {a : Action} (ha : ¬Outlives s a) (hs : step s a = some s') :
    s'.Doomed := by
  cases a with
  | owner =>
    simp only [Outlives, Classical.not_imp, Bool.not_eq_false] at ha
    obtain ⟨hpc, hreleasing⟩ := ha
    simp only [step, ownerStep, hpc, Option.some.injEq] at hs
    subst hs
    exact ⟨rfl, Or.inr hreleasing⟩
  | body | finish | wake => simp [Outlives] at ha

/-- An access to the destroyed frame. -/
lemma State.Doomed.access (h : s.Doomed) : s.access.fault = true := by
  simp [State.access, h.1]

lemma State.Doomed.step (h : s.Doomed) {a : Action} (hs : step s a = some s') : s'.Doomed := by
  have hfault := h.access
  obtain ⟨hdestroyed, hreads⟩ := h
  cases a with
  | body =>
    cases hpc : s.finish <;>
      simp only [Lifetime.step, bodyStep, hpc, reduceCtorEq, Option.some.injEq] at hs
    subst hs
    exact ⟨hdestroyed, Or.inl hfault⟩
  | finish =>
    cases hpc : s.finish <;>
      simp only [Lifetime.step, finishStep, hpc, reduceCtorEq, Option.some.injEq] at hs <;> subst hs
    case notifyAll => exact ⟨hdestroyed, Or.inr rfl⟩
    all_goals exact ⟨hdestroyed, Or.inl hfault⟩
  | owner =>
    simp only [Lifetime.step] at hs
    unfold ownerStep at hs
    split at hs <;> simp only [reduceCtorEq, Option.some.injEq] at hs <;> subst hs
    case h_6 => exact ⟨rfl, hreads⟩
    all_goals exact ⟨hdestroyed, hreads⟩
  | wake =>
    cases hpc : s.owner <;>
      simp only [Lifetime.step, wakeStep, hpc, reduceCtorEq, Option.some.injEq] at hs
    subst hs
    exact ⟨hdestroyed, hreads⟩

lemma State.Doomed.fault_of_suspended (h : s.Doomed) {ret : Option H}
    (hret : s.finish = .suspended ret) : s.fault = true := by
  obtain ⟨-, hfault | hreleasing⟩ := h
  · exact hfault
  · simp [hret, FinishPc.releasing] at hreleasing

/-- If the owner does not destroy the frame between the store of `m_state` and the last read of
`get_caller`, the finishing thread has left a destroyed frame behind. If it does, the finishing
thread reads the promise in the destroyed frame. -/
theorem frame_outlives_iff (h : (system caller).Reaches Outlives s) :
    (s.fault = false ∧ (s.destroyed = true → ∃ ret, s.finish = .suspended ret)) ∧
      ∀ a s', step s a = some s' → ¬Outlives s a →
        ∀ as t, (system caller).exec (fun _ _ => True) s' as = some t →
          ∀ ret, t.finish = .suspended ret → t.fault = true := by
  have hinv : Inv s := h.invariant init_inv fun _ _ _ _ hinv ha hs => hinv.step ha hs
  refine ⟨⟨hinv.fault, hinv.suspended⟩, fun a s' hs ha as t ht ret hret => ?_⟩
  have hlast := System.exec_invariant (I := fun t : State H => t.Doomed)
    (fun _ _ _ hu _ hs => hu.step hs) (doomed_of_not_outlives ha hs) ht
  exact hlast.fault_of_suspended hret

/-- The owner sees the state in a spin and destroys the frame before `get_caller` is read. -/
theorem frame_outlives_fails : ∃ s : State ℕ, (system none).Reachable s ∧ s.fault = true :=
  System.exists_reaches (S := system (none : Option ℕ)) (fun _ _ => True) (fun s => s.fault = true)
    [.finish, .owner, .finish, .owner, .owner, .finish, .finish] (by decide)

/-- The owner sees the state once the finishing thread has read. -/
theorem frame_outlives_late : ∃ s : State ℕ, s.destroyed = true ∧ s.fault = false ∧
    s.finish = .suspended none := by
  obtain ⟨s, hs, hdestroyed, hfinish⟩ :=
    System.exists_reaches (S := system (none : Option ℕ)) Outlives
    (fun s => s.destroyed = true ∧ s.finish = .suspended none)
    [.body, .finish, .owner, .owner, .finish, .finish, .finish, .owner, .owner] (by decide)
  exact ⟨s, hdestroyed, (frame_outlives_iff hs).1.1, hfinish⟩

end Scoro.Lifetime

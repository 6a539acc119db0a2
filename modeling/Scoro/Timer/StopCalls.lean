import Scoro.Timer.Accounting
import Scoro.Timer.Shutdown

/-!
# The cancel functions that `stop` calls

`stop` calls the cancel functions of the pending tasks with `m_mutex` locked. What such a function
does is the user's: it may call `add_task` or `stop` on the same timer, it may throw, and it may
just return. `stop` may be called any number of times, one call after the other.
-/

namespace Scoro.Timer
open Scoro.Lib

/-- `relocking` is set when a cancel function has called `stop` and waits for `m_mutex`. The last
three fields are history of the last call of `stop`: the tasks pending when it locked `m_mutex`,
those whose cancel function it has called and those it has popped. -/
structure StopState (Time A : Type*) [LinearOrder Time] where
  timer : State Time A
  relocking : Bool
  pending : List (Task Time)
  called : List (Task Time)
  popped : List (Task Time)

/-- `stopInside` is a call of `stop` by a cancel function. -/
inductive StopAction (Time A : Type*) where
  | base (a : Action Time A)
  | callStop
  | stopInside

section step
variable {Time A : Type*} [LinearOrder Time] [DecidableEq A]

namespace StopState

/-- What the step of `stop` from `s` to `timer` adds to the history. -/
def recordStop (s : StopState Time A) (timer : State Time A) : StopState Time A :=
  match s.timer.stop with
  | .lock => { s with timer := timer, pending := s.timer.mTasks.items, called := [], popped := [] }
  | .testEmpty => match timer.stop with
    | .cancel task => { s with timer := timer, called := s.called ++ [task] }
    | _ => { s with timer := timer }
  | .pop => { s with timer := timer, popped := s.popped ++ s.timer.mTasks.top.toList }
  | _ => { s with timer := timer }

end StopState

/-- The steps of the thread that calls `stop`. -/
def Action.ofStopper : Action Time A → Bool
  | .stop _ | .addTask .stopper _ _ | .add .stopper _ | .raise .stopper => true
  | _ => false

def StopState.base (s : StopState Time A) (a : Action Time A) : Option (StopState Time A) :=
  if s.relocking = true ∧ a.ofStopper = true then none
  else (step s.timer a).map fun timer => match a with
    | .stop _ => s.recordStop timer
    | _ => { s with timer := timer }

/-- The mutex is locked by the thread that holds it. -/
def StopState.stopInside (s : StopState Time A) : Option (StopState Time A) :=
  if s.timer.inUserCode .stopper = true ∧ s.timer.adds .stopper = .idle ∧ s.relocking = false then
    some { s with timer := { s.timer with fault := true }, relocking := true }
  else none

def stopSystem (A : Type*) [DecidableEq A] (now : Time) :
    System (StopState Time A) (StopAction Time A) where
  init := ⟨init A now, false, [], [], []⟩
  step s
    | .base a => s.base a
    | .callStop => (callStop s.timer).map fun timer => { s with timer := timer }
    | .stopInside => s.stopInside

/-- A step that is not a call of `add_task` or `stop` by a cancel function, nor what it throws. -/
def StopAction.quiet : StopAction Time A → Bool
  | .base (.addTask .stopper _ _) | .base (.raise .stopper) | .stopInside => false
  | _ => true

/-- No cancel function calls `add_task` or `stop`, and none throws. -/
def Quiet (_ : StopState Time A) (a : StopAction Time A) : Prop := a.quiet = true

instance (s : StopState Time A) (a : StopAction Time A) : Decidable (Quiet s a) :=
  inferInstanceAs (Decidable (a.quiet = true))

end step

section
variable {Time A : Type*} [LinearOrder Time]

/-- The steps, apart from those of the timer that are not of `stop`. -/
inductive StopState.Move [DecidableEq A] (s : StopState Time A) :
    StopAction Time A → StopState Time A → Prop
  | stop {items timer} (hfree : s.relocking = false) (hm : StopMove s.timer timer) :
      Move s (.base (.stop items)) (s.recordStop timer)
  | other {a timer} (ha : ∀ items, a ≠ .stop items)
      (hfree : a.ofStopper = true → s.relocking = false) (hs : step s.timer a = some timer) :
      Move s (.base a) { s with timer := timer }
  | callStop (hpc : s.timer.stop = .returned) :
      Move s .callStop { s with timer := { s.timer with stop := .lock } }
  | stopInside (hpc : s.timer.inUserCode .stopper = true) (hadd : s.timer.adds .stopper = .idle) :
      Move s .stopInside { s with timer := { s.timer with fault := true }, relocking := true }

/-- The tasks popped by `stop` are those that were pending, and the cancel functions called are
theirs and that of the task on top. -/
structure Drain (s : StopState Time A) : Prop where
  idle : s.timer.adds .stopper = .idle
  free : s.relocking = false
  thrown : s.timer.stop ≠ .thrown
  fault : s.timer.fault = false
  pending : s.pending.Perm
    (s.popped ++ if s.timer.stop.holds = true then s.timer.mTasks.items else [])
  called : s.called =
    s.popped.filter (fun task => task.cancel) ++ s.timer.stop.cancelling s.timer.mTasks.top
  drained : s.timer.stop = .setStop ∨ s.timer.stop = .notify ∨ s.timer.stop = .unlock →
    s.timer.mTasks.items = []
  pop : s.timer.stop = .pop → s.timer.mTasks.top ≠ none
  mStop : s.timer.stop = .notify ∨ s.timer.stop = .unlock ∨ s.timer.stop = .returned →
    s.timer.mStop = true

/-- A step aside from `stop`. -/
structure Aside (s s' : State Time A) : Prop where
  stop : s'.stop = s.stop
  mStop : s'.mStop = s.mStop
  idle : s'.adds .stopper = .idle
  fault : s'.fault = s.fault
  mTasks : s.stop.holds = true → s'.mTasks = s.mTasks

end

section steps
variable {Time A : Type*} [LinearOrder Time] [DecidableEq A] {now : Time} {s s' : StopState Time A}
  {a : StopAction Time A}

lemma stopSystem_move (hs : (stopSystem A now).step s a = some s') : s.Move a s' := by
  cases a with
  | base a =>
    simp only [stopSystem, StopState.base] at hs
    split at hs
    · cases hs
    · rename_i hfree
      obtain ⟨timer, htimer, rfl⟩ := Option.map_eq_some_iff.mp hs
      cases a with
      | stop items => exact .stop (by simpa [Action.ofStopper] using hfree) (stopStep_move htimer)
      | tick | addTask | add | run | wake | raise =>
        exact .other (by simp) (fun ha => by simpa [ha] using hfree) htimer
  | callStop =>
    obtain ⟨timer, htimer, rfl⟩ := Option.map_eq_some_iff.mp hs
    obtain ⟨hpc, rfl⟩ := callStop_iff.mp htimer
    exact .callStop hpc
  | stopInside =>
    simp only [stopSystem, StopState.stopInside] at hs
    split at hs <;> cases hs
    rename_i hpc
    exact .stopInside hpc.1 hpc.2.1

lemma aside_setAdd {s : State Time A} {t : Thread A} {pc : AddPc Time} (ht : t ≠ .stopper)
    (hidle : s.adds .stopper = .idle) : (s.setAdd t pc).adds .stopper = .idle := by
  simp [State.setAdd, Function.update_of_ne ht.symm, hidle]

/-- A thread in `add_task` is not the stopper, and `stop` is not at work while it has the mutex. -/
lemma Owned.aside_addMove {s s' : State Time A} {t : Thread A} (h : Owned s)
    (hidle : s.adds .stopper = .idle) (hm : AddMove s t s') : Aside s s' := by
  have ht : t ≠ .stopper := by
    rintro rfl
    cases hm with
    | lock hpc | fault hpc | push hpc | notify hpc | unlock hpc => simp [hidle] at hpc
  cases hm with
  | lock => exact ⟨rfl, rfl, aside_setAdd ht hidle, rfl, fun _ => rfl⟩
  | fault hpc hmutex => exact absurd hmutex (h.not_relock hidle hpc)
  | push hpc hpush =>
    refine ⟨rfl, rfl, aside_setAdd ht hidle, rfl, fun hholds => ?_⟩
    have hother := h.stop_not_holds (t := t) ?_ ht
    · simp [hother] at hholds
    · cases t <;> simp [State.holds, hpc, AddPc.holds]
  | notify =>
    rw [notify_eq]
    exact ⟨rfl, rfl, aside_setAdd ht hidle, rfl, fun _ => rfl⟩
  | unlock => exact ⟨rfl, rfl, aside_setAdd ht hidle, rfl, fun _ => rfl⟩

omit [DecidableEq A] in
lemma Owned.aside_runMove {s s' : State Time A} (h : Owned s) (hidle : s.adds .stopper = .idle)
    (hm : RunMove s s') : Aside s s' := by
  cases hm with
  | pop hpc =>
    refine ⟨rfl, rfl, hidle, rfl, fun hholds => ?_⟩
    have hother := h.stop_not_holds (t := .runner) (by simp [State.holds, hpc, RunPc.holds])
      (by simp)
    simp [hother] at hholds
  | lock | stopped | testStop | notDue | unlock | callback | relock | wait | waitUntil | again
  | leave => exact ⟨rfl, rfl, hidle, rfl, fun _ => rfl⟩

lemma Owned.aside {s s' : State Time A} (h : Owned s) (hidle : s.adds .stopper = .idle)
    {a : Action Time A} (ha : ∀ items, a ≠ .stop items)
    (hquiet : (StopAction.base a).quiet = true) (hs : Timer.step s a = some s') : Aside s s' := by
  cases step_move hs with
  | tick | wake | raiseRun => exact ⟨rfl, rfl, hidle, rfl, fun _ => rfl⟩
  | @addTask t =>
    have ht : t ≠ .stopper := by
      rintro rfl
      cases hquiet
    exact ⟨rfl, rfl, aside_setAdd ht hidle, rfl, fun _ => rfl⟩
  | add hm => exact h.aside_addMove hidle hm
  | run hm => exact h.aside_runMove hidle hm
  | stop => exact absurd rfl (ha _)
  | raiseStop => cases hquiet

omit [DecidableEq A] in
lemma recordStop_timer (timer : State Time A) : (s.recordStop timer).timer = timer := by
  unfold StopState.recordStop
  split
  · rfl
  · split <;> rfl
  · rfl
  · rfl

omit [DecidableEq A] in
lemma Drain.aside (h : Drain s) {timer : State Time A} (ha : Aside s.timer timer) :
    Drain { s with timer := timer } := by
  obtain ⟨hstop, hmStop, hidle, hfault, htasks⟩ := ha
  refine ⟨hidle, h.free, ?_, hfault.trans h.fault, ?_, ?_, ?_, ?_, ?_⟩
  · rw [hstop]
    exact h.thrown
  · simp only [hstop]
    have hpending := h.pending
    split_ifs at hpending ⊢ with hholds
    · rwa [htasks hholds]
    · exact hpending
  · simp only [hstop]
    rw [h.called]
    congr 1
    by_cases hholds : s.timer.stop.holds = true
    · rw [htasks hholds]
    · have hfree : s.timer.stop.holds = false := by simpa using hholds
      rw [cancelling_of_not_holds hfree, cancelling_of_not_holds hfree]
  · simp only [hstop]
    intro hpc
    rw [htasks (by rcases hpc with hpc | hpc | hpc <;> rw [hpc] <;> rfl)]
    exact h.drained hpc
  · simp only [hstop]
    intro hpc
    rw [htasks (by rw [hpc]; rfl)]
    exact h.pop hpc
  · simp only [hstop, hmStop]
    exact h.mStop

omit [DecidableEq A] in
/-- One step of `stop`. -/
lemma Drain.stopMove (h : Drain s) (hacc : Accounted s.timer) {timer : State Time A}
    (hm : StopMove s.timer timer) : Drain (s.recordStop timer) := by
  have hpending := h.pending
  have hcalled := h.called
  cases hm with
  | lock hpc =>
    simp only [StopState.recordStop, hpc]
    refine ⟨h.idle, h.free, by simp, h.fault, ?_, ?_, by simp, by simp, by simp⟩
    · simp [StopPc.holds]
    · simp [StopPc.cancelling]
  | drained hpc htop =>
    simp only [hpc, StopPc.holds, StopPc.cancelling] at hpending hcalled
    simp only [StopState.recordStop, hpc]
    refine ⟨h.idle, h.free, by simp, h.fault, hpending, hcalled, ?_, by simp, by simp⟩
    exact fun _ => PriorityQueue.top_eq_none.mp htop
  | cancel hpc htop hcancel =>
    simp only [hpc, StopPc.holds, StopPc.cancelling, List.append_nil] at hpending hcalled
    simp only [StopState.recordStop, hpc]
    refine ⟨h.idle, h.free, by simp, h.fault, hpending, ?_, by simp, by simp, by simp⟩
    rw [hcalled]
    rfl
  | skip hpc htop hcancel =>
    simp only [hpc, StopPc.holds, StopPc.cancelling] at hpending hcalled
    simp only [StopState.recordStop, hpc]
    refine ⟨h.idle, h.free, by simp, h.fault, hpending, ?_, by simp, fun _ => by simp [htop],
      by simp⟩
    simp [hcalled, htop, StopPc.cancelling, Option.filter, hcancel]
  | @cancelRet task hpc =>
    obtain ⟨htop, hcancel⟩ := hacc.top task hpc
    simp only [hpc, StopPc.holds, StopPc.cancelling] at hpending hcalled
    simp only [StopState.recordStop, hpc]
    refine ⟨h.idle, h.free, by simp, h.fault, hpending, ?_, by simp, fun _ => by simp [htop],
      by simp⟩
    simp [hcalled, htop, StopPc.cancelling, Option.filter, hcancel]
  | @pop q items hpc hpop =>
    cases htop : s.timer.mTasks.top with
    | none =>
      rw [PriorityQueue.top_eq_none] at htop
      simp [PriorityQueue.pop, htop] at hpop
    | some task =>
      simp only [hpc, StopPc.holds, StopPc.cancelling, htop] at hpending hcalled
      simp only [StopState.recordStop, hpc, htop]
      refine ⟨h.idle, h.free, by simp, h.fault, ?_, ?_, by simp, by simp, by simp⟩
      · have hperm := PriorityQueue.pop_perm hpop htop
        simp only [StopPc.holds, if_true, Option.toList_some, List.append_assoc,
          List.singleton_append] at hpending ⊢
        exact hpending.trans (hperm.append_left _)
      · simp only [StopPc.cancelling, List.append_nil, Option.toList_some, List.filter_append]
        rw [hcalled]
        cases hcancel : task.cancel <;> simp [Option.filter, hcancel]
  | setStop hpc =>
    simp only [hpc, StopPc.holds, StopPc.cancelling] at hpending hcalled
    simp only [StopState.recordStop, hpc]
    exact ⟨h.idle, h.free, by simp, h.fault, hpending, hcalled, fun _ => h.drained (by simp [hpc]),
      by simp, fun _ => rfl⟩
  | notify hpc =>
    simp only [hpc, StopPc.holds, StopPc.cancelling] at hpending hcalled
    simp only [StopState.recordStop, hpc]
    rw [notify_eq]
    exact ⟨h.idle, h.free, by simp, h.fault, hpending, hcalled, fun _ => h.drained (by simp [hpc]),
      by simp, fun _ => h.mStop (by simp [hpc])⟩
  | unlock hpc =>
    have hempty := h.drained (by simp [hpc])
    simp only [hpc, StopPc.holds, StopPc.cancelling, hempty] at hpending hcalled
    simp only [StopState.recordStop, hpc]
    refine ⟨h.idle, h.free, by simp, h.fault, ?_, hcalled, by simp, by simp,
      fun _ => h.mStop (by simp [hpc])⟩
    simpa [StopPc.holds] using hpending

/-- The invariants of a timer in which `stop` is called again and again. -/
structure StopInv (s : StopState Time A) : Prop where
  owned : Owned s.timer
  accounted : Accounted s.timer

omit [DecidableEq A] in
lemma StopInv.init : StopInv (⟨Timer.init A now, false, [], [], []⟩ : StopState Time A) :=
  ⟨owned_init now, accounted_init now⟩

lemma StopInv.move (h : StopInv s) (hm : s.Move a s') : StopInv s' := by
  cases hm with
  | stop _ hm =>
    constructor
    · rw [recordStop_timer]
      exact h.owned.stopMove hm
    · rw [recordStop_timer]
      exact h.accounted.stopMove hm
  | other ha hfree hs => exact ⟨h.owned.step hs, h.accounted.step h.owned hs⟩
  | callStop hpc =>
    have hs := callStop_iff.mpr ⟨hpc, rfl⟩
    exact ⟨h.owned.callStop hs, h.accounted.callStop hs⟩
  | stopInside =>
    exact ⟨⟨h.owned.locked, h.owned.runner, h.owned.stopper⟩,
      h.accounted.congr rfl rfl rfl rfl rfl rfl⟩

lemma Drain.move (h : Drain s) (hinv : StopInv s) (hquiet : Quiet s a) (hm : s.Move a s') :
    Drain s' := by
  cases hm with
  | stop _ hm => exact h.stopMove hinv.accounted hm
  | other ha hfree hs => exact h.aside (hinv.owned.aside h.idle ha hquiet hs)
  | callStop hpc =>
    have hpending := h.pending
    have hcalled := h.called
    simp only [hpc, StopPc.holds, StopPc.cancelling] at hpending hcalled
    exact ⟨h.idle, h.free, by simp, h.fault, hpending, hcalled, by simp, by simp, by simp⟩
  | stopInside => cases hquiet

lemma reaches_stopInv {C : StopState Time A → StopAction Time A → Prop}
    (h : (stopSystem A now).Reaches C s) : StopInv s :=
  h.invariant .init fun _ _ _ _ hinv _ hs => hinv.move (stopSystem_move hs)

lemma reaches_drain (h : (stopSystem A now).Reaches Quiet s) : Drain s := by
  refine h.invariant ?_ fun _ _ _ run hdrain hquiet hs =>
    hdrain.move (reaches_stopInv run) hquiet (stopSystem_move hs)
  constructor <;> simp [stopSystem, Timer.init, StopPc.holds, StopPc.cancelling]

/-! ### `stop` returns, or never will -/

/-- The steps of `stop`. -/
def Stops (_ : StopState Time A) (a : StopAction Time A) : Prop := ∃ items, a = .base (.stop items)

def StopPc.weight : StopPc Time → ℕ
  | .testEmpty => 6
  | .cancel _ => 5
  | .pop => 4
  | .setStop => 3
  | .notify => 2
  | .unlock => 1
  | .lock | .returned | .thrown => 0

/-- A bound on the steps of `stop` left. -/
def StopState.left (s : StopState Time A) : ℕ :=
  4 * s.timer.mTasks.items.length + s.timer.stop.weight

omit [DecidableEq A] in
lemma left_stopMove {timer : State Time A} (hholds : s.timer.stop.holds = true)
    (hm : StopMove s.timer timer) :
    (s.recordStop timer).left < s.left ∧
      (timer.stop.holds = true ∨ timer.stop = .returned) := by
  unfold StopState.left
  rw [recordStop_timer]
  cases hm with
  | lock hpc => simp [hpc, StopPc.holds] at hholds
  | pop hpc hpop =>
    have hlen := PriorityQueue.pop_length hpop
    simp only [hpc, StopPc.weight, StopPc.holds, true_or, and_true]
    omega
  | notify hpc =>
    rw [notify_eq]
    simp [hpc, StopPc.weight, StopPc.holds]
  | drained hpc | cancel hpc | skip hpc | cancelRet hpc | setStop hpc | unlock hpc =>
    simp [hpc, StopPc.weight, StopPc.holds]

omit [DecidableEq A] in
/-- `stop` can go on. -/
lemma Drain.exists_stopStep (h : Drain s)
    (hholds : s.timer.stop.holds = true) : ∃ items timer, stopStep s.timer items = some timer := by
  cases hpc : s.timer.stop with
  | lock | returned | thrown => simp [hpc, StopPc.holds] at hholds
  | testEmpty =>
    cases htop : s.timer.mTasks.top with
    | none => exact ⟨[], by simp [stopStep, hpc, htop]⟩
    | some task =>
      cases hcancel : task.cancel with
      | true => exact ⟨[], by simp [stopStep, hpc, htop, hcancel]⟩
      | false => exact ⟨[], by simp [stopStep, hpc, htop, hcancel]⟩
  | cancel task => exact ⟨[], by simp [stopStep, hpc, h.idle]⟩
  | pop =>
    obtain ⟨task, htop⟩ := Option.ne_none_iff_exists'.mp (h.pop hpc)
    obtain ⟨items, q, hq⟩ :=
      PriorityQueue.exists_pop taskCompare_irrefl taskCompare_trans taskCompare_asymm htop
    exact ⟨items, by simp [stopStep, hpc, hq]⟩
  | setStop | notify | unlock => exact ⟨[], by simp [stopStep, hpc]⟩

/-- `stop` comes to its end if it is let go on. -/
lemma leads_returned (h : (stopSystem A now).Reaches Quiet s)
    (hholds : s.timer.stop.holds = true) : (stopSystem A now).Leads Stops (fun _ _ => True)
      (fun s => s.timer.stop = .returned) s := by
  apply System.leads_of_measure (I := fun s => (stopSystem A now).Reaches Quiet s ∧
    (s.timer.stop.holds = true ∨ s.timer.stop = .returned)) StopState.left
  · rintro s ⟨hs, hpc⟩ hreturned
    have hdrain := reaches_drain hs
    obtain ⟨items, timer, htimer⟩ := hdrain.exists_stopStep (hpc.resolve_right hreturned)
    refine ⟨.base (.stop items), s.recordStop timer, ⟨items, rfl⟩, ?_⟩
    simp [stopSystem, StopState.base, hdrain.free, Timer.step, htimer]
  · rintro s a s' ⟨hs, hpc⟩ hreturned ⟨items, rfl⟩ - hstep
    have hquiet : Quiet s (.base (.stop items) : StopAction Time A) := rfl
    cases stopSystem_move hstep with
    | other ha => exact absurd rfl (ha items)
    | stop _ hm =>
      obtain ⟨hlt, hpc'⟩ := left_stopMove (hpc.resolve_right hreturned) hm
      refine ⟨⟨hs.step hquiet hstep, ?_⟩, hlt⟩
      rwa [recordStop_timer]
  · exact ⟨h, Or.inl hholds⟩

/-- `stop` has been left by an exception, or a cancel function waits for `m_mutex`. -/
def StopState.Stuck (s : StopState Time A) : Prop :=
  s.timer.stop = .thrown ∨ (∃ task, s.timer.stop = .cancel task) ∧
    (s.relocking = true ∨ ∃ task, s.timer.adds .stopper = .lock task)

/-- `stop` has been entered and never returns, whatever comes. -/
def StopState.Doomed (now : Time) (s : StopState Time A) : Prop :=
  (s.timer.stop.holds = true ∨ s.timer.stop = .thrown) ∧
    ∀ as t, (stopSystem A now).exec (fun _ _ => True) s as = some t → t.timer.stop ≠ .returned

omit [DecidableEq A] in
lemma StopState.Stuck.frame (h : s.Stuck) (hstop : s'.timer.stop = s.timer.stop)
    (hrelocking : s'.relocking = s.relocking)
    (hadds : s'.timer.adds .stopper = s.timer.adds .stopper) : s'.Stuck := by
  unfold StopState.Stuck
  rw [hstop, hrelocking, hadds]
  exact h

lemma StopState.Stuck.addMove (h : s.Stuck) (hown : Owned s.timer) {t : Thread A}
    {timer : State Time A} (hm : AddMove s.timer t timer) :
    StopState.Stuck { s with timer := timer } := by
  by_cases ht : t = .stopper
  · subst ht
    -- only the lock of a mutex that its thread holds is left
    cases hm with
    | fault => exact h
    | lock hpc hmutex =>
      obtain ⟨⟨task, hcancel⟩, -⟩ := hown.stopper (by simp [hpc])
      have hheld := (hown.locked .stopper).mpr (by simp [State.holds, hcancel, StopPc.holds])
      simp [hmutex] at hheld
    | push hpc | notify hpc | unlock hpc =>
      obtain ⟨-, task, hlock⟩ := hown.stopper (by simp [hpc])
      simp [hpc] at hlock
  · have hother (pc : AddPc Time) :
        (s.timer.setAdd t pc).adds .stopper = s.timer.adds .stopper := by
      simp [State.setAdd, Function.update_of_ne (Ne.symm ht)]
    cases hm with
    | fault => exact h
    | lock | push | unlock => exact h.frame rfl rfl (hother _)
    | notify =>
      rw [notify_eq]
      exact h.frame rfl rfl (hother _)

/-- `stop` is stuck for good. -/
lemma StopState.Stuck.move (h : s.Stuck) (hown : Owned s.timer) (hm : s.Move a s') :
    s'.Stuck := by
  cases hm with
  | stop hfree hm =>
    obtain hthrown | ⟨⟨task, hcancel⟩, hwait⟩ := h
    · cases hm with
      | lock hpc | drained hpc | cancel hpc | skip hpc | cancelRet hpc | pop hpc | setStop hpc
      | notify hpc | unlock hpc => simp [hthrown] at hpc
    · cases hm with
      | cancelRet hpc hadd => simp [hfree, hadd] at hwait
      | lock hpc | drained hpc | cancel hpc | skip hpc | pop hpc | setStop hpc | notify hpc
      | unlock hpc => simp [hcancel] at hpc
  | other ha hfree hs =>
    cases step_move hs with
    | tick | wake | raiseRun => exact h.frame rfl rfl rfl
    | @addTask t _ _ huser hadd =>
      by_cases ht : t = .stopper
      · subst ht
        obtain ⟨task, hpc⟩ := cancel_of_inUserCode huser
        obtain hthrown | ⟨-, hwait⟩ := h
        · simp [hthrown] at hpc
        · simp [hfree rfl, hadd] at hwait
      · exact h.frame rfl rfl (by simp [State.setAdd, Function.update_of_ne (Ne.symm ht)])
    | add hm => exact h.addMove hown hm
    | run hm => cases hm <;> exact h.frame rfl rfl rfl
    | stop => exact absurd rfl (ha _)
    | raiseStop => exact Or.inl rfl
  | callStop hpc =>
    obtain hthrown | ⟨⟨task, hcancel⟩, -⟩ := h
    · simp [hthrown] at hpc
    · simp [hcancel] at hpc
  | stopInside hpc hadd =>
    obtain ⟨task, hcancel⟩ := cancel_of_inUserCode hpc
    exact Or.inr ⟨⟨task, hcancel⟩, Or.inl rfl⟩

lemma StopState.Stuck.doomed (h : s.Stuck) (hinv : StopInv s) : s.Doomed now := by
  refine ⟨?_, fun as t ht => ?_⟩
  · obtain hthrown | ⟨⟨task, hcancel⟩, -⟩ := h
    · exact Or.inr hthrown
    · exact Or.inl (by rw [hcancel]; rfl)
  · have hstuck := (System.exec_invariant (S := stopSystem A now)
      (I := fun s => StopInv s ∧ s.Stuck)
      (fun _ _ _ hu _ hs => ⟨hu.1.move (stopSystem_move hs),
        hu.2.move hu.1.owned (stopSystem_move hs)⟩) ⟨hinv, h⟩ ht).2
    obtain hthrown | ⟨⟨task, hcancel⟩, -⟩ := hstuck
    · simp [hthrown]
    · simp [hcancel]

/-- What a cancel function must not do leaves `stop` stuck. -/
lemma stuck_of_not_quiet (hquiet : ¬Quiet s a) (hm : s.Move a s') : s'.Stuck := by
  cases hm with
  | stop | callStop => exact absurd rfl hquiet
  | stopInside hpc =>
    obtain ⟨task, hcancel⟩ := cancel_of_inUserCode hpc
    exact Or.inr ⟨⟨task, hcancel⟩, Or.inl rfl⟩
  | other ha hfree hs =>
    cases step_move hs with
    | @addTask t executeTime cancel huser hadd =>
      cases t with
      | runner | adder => exact absurd rfl hquiet
      | stopper =>
        obtain ⟨task, hcancel⟩ := cancel_of_inUserCode huser
        refine Or.inr ⟨⟨task, hcancel⟩, Or.inr ⟨⟨executeTime, s.timer.calls, cancel⟩, ?_⟩⟩
        simp [State.setAdd]
    | raiseStop => exact Or.inl rfl
    | tick | wake | raiseRun | add | run | stop => exact absurd rfl hquiet

/-- If no cancel function calls `add_task` or `stop` on its timer, and none throws, the mutex is
not locked twice, each call of `stop` pops the tasks that were pending when it locked the mutex,
having called the cancel function of each before it pops it, and returns with `m_stop` set. What a
cancel function must not do is just what keeps a call of `stop` from returning. -/
theorem stop_survives_iff (h : (stopSystem A now).Reaches Quiet s) :
    s.timer.fault = false ∧
    s.called =
      s.popped.filter (fun task => task.cancel) ++ s.timer.stop.cancelling s.timer.mTasks.top ∧
    (s.timer.stop = .returned → s.timer.mStop = true ∧ s.pending.Perm s.popped ∧
      s.called.Perm (s.pending.filter fun task => task.cancel)) ∧
    (s.timer.stop.holds = true → (stopSystem A now).Leads Stops (fun _ _ => True)
      (fun s => s.timer.stop = .returned) s) ∧
    ∀ a s', (stopSystem A now).step s a = some s' → (s'.Doomed now ↔ ¬Quiet s a) := by
  have hdrain := reaches_drain h
  refine ⟨hdrain.fault, hdrain.called, fun hpc => ?_, leads_returned h,
    fun a s' hs => ⟨fun hdoomed hquiet => ?_, fun hquiet => ?_⟩⟩
  · have hperm : s.pending.Perm s.popped := by simpa [hpc, StopPc.holds] using hdrain.pending
    have hcalled : s.called = s.popped.filter fun task => task.cancel := by
      simpa [hpc, StopPc.cancelling] using hdrain.called
    refine ⟨hdrain.mStop (by simp [hpc]), hperm, ?_⟩
    rw [hcalled]
    exact (hperm.filter _).symm
  · have hs' := h.step hquiet hs
    obtain ⟨hin, hnever⟩ := hdoomed
    obtain ⟨as, t, ht, hreturned⟩ := (leads_returned hs'
      (hin.resolve_right (reaches_drain hs').thrown)).exists_exec
    exact hnever as t ht hreturned
  · have hm := stopSystem_move hs
    exact (stuck_of_not_quiet hquiet hm).doomed ((reaches_stopInv h).move hm)

end steps

/-- A cancel function calls `add_task`, and the mutex is locked by the thread that has it. A cancel
function throws, its task stays in the queue, and `m_stop` is not set. -/
theorem stop_calls_break :
    (∃ s : StopState ℕ (Fin 1), (stopSystem (Fin 1) 0).Reachable s ∧ s.timer.fault = true) ∧
    ∃ s : StopState ℕ (Fin 1), (stopSystem (Fin 1) 0).Reachable s ∧ s.timer.stop = .thrown ∧
      s.timer.mStop = false ∧ s.called = s.pending ∧ s.pending = [⟨5, 0, true⟩] ∧
      s.popped = [] := by
  constructor
  · exact System.exists_reaches (S := stopSystem (Fin 1) 0) (fun _ _ => True)
      (fun s => s.timer.fault = true)
      [.base (.addTask (.adder 0) 5 true), .base (.add (.adder 0) []),
        .base (.add (.adder 0) [⟨5, 0, true⟩]), .base (.add (.adder 0) []),
        .base (.add (.adder 0) []), .base (.stop []), .base (.stop []),
        .base (.addTask .stopper 7 true), .base (.add .stopper [])] (by decide)
  · exact System.exists_reaches (S := stopSystem (Fin 1) 0) (fun _ _ => True)
      (fun s => s.timer.stop = .thrown ∧ s.timer.mStop = false ∧ s.called = s.pending ∧
        s.pending = [⟨5, 0, true⟩] ∧ s.popped = [])
      [.base (.addTask (.adder 0) 5 true), .base (.add (.adder 0) []),
        .base (.add (.adder 0) [⟨5, 0, true⟩]), .base (.add (.adder 0) []),
        .base (.add (.adder 0) []), .base (.stop []), .base (.stop []), .base (.raise .stopper)]
      (by decide)

theorem stop_survives_iff_cancel : ∃ s : StopState ℕ (Fin 1), s.timer.stop = .returned ∧
    s.pending = [⟨5, 0, true⟩] ∧ s.timer.mStop = true ∧ s.called = s.pending := by
  obtain ⟨s, hs, hpc, hpending, hcalled⟩ := System.exists_reaches (S := stopSystem (Fin 1) 0) Quiet
    (fun s => s.timer.stop = .returned ∧ s.pending = [⟨5, 0, true⟩] ∧ s.called = s.pending)
    [.base (.addTask (.adder 0) 5 true), .base (.add (.adder 0) []),
      .base (.add (.adder 0) [⟨5, 0, true⟩]), .base (.add (.adder 0) []),
      .base (.add (.adder 0) []), .base (.stop []), .base (.stop []), .base (.stop []),
      .base (.stop []), .base (.stop []), .base (.stop []), .base (.stop []), .base (.stop [])]
    (by decide)
  exact ⟨s, hpc, hpending, ((stop_survives_iff hs).2.2.1 hpc).1, hcalled⟩

end Scoro.Timer

import Scoro.Looper.Invariant

/-!
# What becomes of a submission

`stop` may be called any number of times. It has the mutex from its first step to its last, so its
calls come one after the other. A handle may be submitted more than once, and a submission is the
position of its push among all pushes.
-/

namespace Scoro.Looper
open Scoro.Lib

/-- The steps of a looper whose `stop` is called again and again. -/
inductive RepeatAction (H A : Type*) where
  | base (a : Action H A)
  | callStop

/-- How a handle has left the queue. -/
inductive Fate where
  | resumed
  | destroyed
  deriving DecidableEq

/-- What an observer notes: the handles in the order in which they have left the queue, each with
its fate, and the number of calls of `stop` that have returned. -/
structure Notes (H : Type*) where
  taken : List (H × Fate)
  stops : ℕ
  deriving DecidableEq

section step
variable {H A : Type*} [DecidableEq H] [DecidableEq A]

/-- A further call of `stop`. -/
def callStop (s : State H A) : Option (State H A) :=
  match s.stop with
  | .returned => some { s with stop := .lock }
  | _ => none

def repeatSystem (H A : Type*) [DecidableEq H] [DecidableEq A] :
    System (State H A) (RepeatAction H A) where
  init := init H A
  step s
    | .base a => step s a
    | .callStop => callStop s

def note (s : State H A) (a : RepeatAction H A) (n : Notes H) : Notes H :=
  match a with
  | .base .run => match s.run with
    | .unlock task => { n with taken := n.taken ++ [(task, .resumed)] }
    | _ => n
  | .base .stop => match s.stop with
    | .testEmpty => match s.mTasks with
      | task :: _ => { n with taken := n.taken ++ [(task, .destroyed)] }
      | [] => n
    | .unlock => { n with stops := n.stops + 1 }
    | _ => n
  | _ => n

def discipline (H A : Type*) [DecidableEq H] [DecidableEq A] :
    System (System.Noted (State H A) (Notes H)) (RepeatAction H A) :=
  (repeatSystem H A).observe note ⟨[], 0⟩

end step

/-- The handle that the worker has popped and not resumed yet. -/
def RunPc.held {H : Type*} : RunPc H → List H
  | .unlock task => [task]
  | .lock | .testStop | .testEmpty | .resume _ | .relock | .beginWait | .wait | .woken | .leave
  | .returned => []

/-- The handles that have had a fate, in order. -/
def Notes.withFate {H : Type*} (n : Notes H) (fate : Fate) : List H :=
  (n.taken.filter fun p => p.2 = fate).map Prod.fst

/-- Every submission is taken in its turn, is held by the worker, or is in the queue. -/
structure Queued {H A : Type*} (s : State H A) (n : Notes H) : Prop where
  order : n.taken.map Prod.fst ++ s.run.held ++ s.mTasks = s.submitted
  resumed : s.resumed = n.withFate .resumed
  destroyed : s.destroyed = n.withFate .destroyed

/-- When `m_stop` is set, and that the queue is empty from the end of the first drain on. -/
structure Stopped {H A : Type*} (s : State H A) (n : Notes H) : Prop where
  accepted : ∀ t, (s.submits t).accepted = true → s.mStop = false
  set : s.stop = .testEmpty → s.mStop = true
  drained : 0 < n.stops ∨ s.stop = .notify ∨ s.stop = .unlock ∨ s.stop = .returned →
    s.mStop = true ∧ s.mTasks = []

section
variable {H A : Type*} {s s' : State H A} {n : Notes H}

/-- A step that takes nothing from the queue and adds nothing. -/
lemma Queued.frame (h : Queued s n) (hheld : s'.run.held = s.run.held)
    (htasks : s'.mTasks = s.mTasks) (hsubmitted : s'.submitted = s.submitted)
    (hresumed : s'.resumed = s.resumed) (hdestroyed : s'.destroyed = s.destroyed) :
    Queued s' n := by
  refine ⟨?_, hresumed.trans h.resumed, hdestroyed.trans h.destroyed⟩
  rw [hheld, htasks, hsubmitted]
  exact h.order

/-- The return of `stop` takes no handle. -/
lemma Queued.count (h : Queued s n) (stops : ℕ) : Queued s { n with stops := stops } :=
  ⟨h.order, h.resumed, h.destroyed⟩

lemma notify_held (s : State H A) : s.notify.run.held = s.run.held := by
  rcases notify_run s with ⟨heq, -⟩ | ⟨hpc, heq⟩
  · rw [heq]
  · rw [heq, hpc]
    rfl

lemma Queued.notify (h : Queued s n) : Queued s.notify n := by
  refine h.frame (notify_held s) ?_ ?_ ?_ ?_ <;> rw [notify_eq]

lemma withFate_append (n : Notes H) (task : H) (fate fate' : Fate) :
    Notes.withFate { n with taken := n.taken ++ [(task, fate')] } fate =
      n.withFate fate ++ if fate' = fate then [task] else [] := by
  by_cases h : fate' = fate <;> simp [Notes.withFate, List.filter_append, h]

/-- The handle that was first in line has left the queue. -/
lemma Queued.take (h : Queued s n) {task : H} {fate : Fate}
    (hline : s.run.held ++ s.mTasks = task :: (s'.run.held ++ s'.mTasks))
    (hsubmitted : s'.submitted = s.submitted)
    (hresumed : s'.resumed = s.resumed ++ if fate = .resumed then [task] else [])
    (hdestroyed : s'.destroyed = s.destroyed ++ if fate = .destroyed then [task] else []) :
    Queued s' { n with taken := n.taken ++ [(task, fate)] } := by
  refine ⟨?_, ?_, ?_⟩
  · rw [hsubmitted, ← h.order, List.append_assoc _ s.run.held, hline]
    simp
  · rw [withFate_append, hresumed, h.resumed]
  · rw [withFate_append, hdestroyed, h.destroyed]

lemma Stopped.frame (h : Stopped s n) (hsubmits : s'.submits = s.submits)
    (hmStop : s'.mStop = s.mStop) (hstop : s'.stop = s.stop)
    (htasks : s.mTasks = [] → s'.mTasks = []) {n' : Notes H} (hstops : n'.stops = n.stops) :
    Stopped s' n' := by
  refine ⟨?_, ?_, ?_⟩
  · rw [hsubmits, hmStop]
    exact h.accepted
  · rw [hstop, hmStop]
    exact h.set
  · rw [hstop, hmStop, hstops]
    exact fun hpc => ⟨(h.drained hpc).1, htasks (h.drained hpc).2⟩

end

section
variable {H A : Type*} [DecidableEq H] [DecidableEq A] {s s' : State H A} {n : Notes H}
  {t : Option A}

omit [DecidableEq H] [DecidableEq A] in
lemma callStop_iff : callStop s = some s' ↔ s.stop = .returned ∧ { s with stop := .lock } = s' := by
  cases hpc : s.stop <;> simp [callStop, hpc]

omit [DecidableEq H] [DecidableEq A] in
lemma Queued.runMove (h : Queued s n) (hm : RunMove s s') : Queued s' (note s (.base .run) n) := by
  cases hm with
  | unlock hpc =>
    simp only [note, hpc]
    exact h.take (by simp [hpc, RunPc.held]) rfl rfl (by simp)
  | pop hpc htasks =>
    simp only [note, hpc]
    refine ⟨?_, h.resumed, h.destroyed⟩
    have horder := h.order
    simpa [hpc, htasks, RunPc.held] using horder
  | lock hpc =>
    rcases hpc with hpc | hpc
    all_goals
      simp only [note, hpc]
      refine h.frame ?_ rfl rfl rfl rfl
      rw [hpc]
      rfl
  | stopped hpc | testStop hpc | empty hpc | resume hpc | relock hpc | wait hpc | leave hpc =>
    simp only [note, hpc]
    refine h.frame ?_ rfl rfl rfl rfl
    rw [hpc]
    rfl

omit [DecidableEq H] [DecidableEq A] in
lemma Queued.stopMove (h : Queued s n) (hown : Owned s) (hm : StopMove s s') :
    Queued s' (note s (.base .stop) n) := by
  cases hm with
  | destroy hpc htasks =>
    simp only [note, hpc, htasks]
    have hfree : s.run.held = [] := by
      cases hrun : s.run with
      | unlock task =>
        -- the worker has the mutex, and so has `stop`
        have hworker : s.holds .run = true := by simp [State.holds, hrun, RunPc.holds]
        have hstop : s.holds .stop = true := by simp [State.holds, hpc, StopPc.holds]
        cases hown.locked.unique hworker hstop
      | lock | testStop | testEmpty | resume | relock | beginWait | wait | woken | leave
      | returned => rfl
    exact h.take (by simp [hfree, htasks]) rfl (by simp) rfl
  | drained hpc htasks =>
    have hnote : note s (.base .stop) n = n := by simp only [note, hpc, htasks]
    rw [hnote]
    exact h.frame rfl rfl rfl rfl rfl
  | notify hpc =>
    simp only [note, hpc]
    exact h.notify.frame rfl rfl rfl rfl rfl
  | unlock hpc =>
    simp only [note, hpc]
    exact (h.count _).frame rfl rfl rfl rfl rfl
  | lock hpc | setStop hpc =>
    simp only [note, hpc]
    exact h.frame rfl rfl rfl rfl rfl

omit [DecidableEq H] in
lemma Queued.submitMove (h : Queued s n) (hm : SubmitMove s t s') : Queued s' n := by
  cases hm with
  | push =>
    refine ⟨?_, h.resumed, h.destroyed⟩
    have horder := h.order
    simp only [State.setSubmit, ← horder, List.append_assoc]
  | notify => exact h.notify.frame rfl rfl rfl rfl rfl
  | lock | stopped | testStop | unlock => exact h.frame rfl rfl rfl rfl rfl

omit [DecidableEq A] in
/-- A coroutine that throws ends its resume like one that does not. -/
lemma raise_eq (hs : raise s = some s') :
    runStep s = some s' ∧ note s (.base .run) n = n := by
  unfold raise at hs
  split at hs
  · rename_i hpc
    exact ⟨by simpa [runStep, hpc] using hs, by simp [note, hpc]⟩
  · cases hs

omit [DecidableEq H] [DecidableEq A] in
lemma note_run_stops (s : State H A) (n : Notes H) : (note s (.base .run) n).stops = n.stops := by
  simp only [note]
  split <;> rfl

omit [DecidableEq H] [DecidableEq A] in
lemma Stopped.runMove (h : Stopped s n) (hm : RunMove s s') :
    Stopped s' (note s (.base .run) n) := by
  obtain ⟨hstop, hsubmits, hmStop⟩ := hm.frame
  refine h.frame hsubmits hmStop hstop (fun htasks => ?_) (note_run_stops s n)
  cases hm with
  | pop _ hpop => simp [htasks] at hpop
  | lock | stopped | testStop | empty | unlock | resume | relock | wait | leave => exact htasks

omit [DecidableEq H] [DecidableEq A] in
lemma Stopped.stopMove (h : Stopped s n) (hown : Owned s) (hm : StopMove s s') :
    Stopped s' (note s (.base .stop) n) := by
  have hdrained := h.drained
  cases hm with
  | lock hpc =>
    simp only [note, hpc]
    simp only [hpc] at hdrained
    exact ⟨h.accepted, by simp, by simpa using hdrained⟩
  | setStop hpc =>
    simp only [note, hpc]
    simp only [hpc] at hdrained
    refine ⟨fun t ht => ?_, fun _ => rfl, ?_⟩
    · exact absurd ht (hown.not_accepted (by rw [hpc]; rfl) t)
    · simpa using fun hpos => (hdrained (Or.inl hpos)).2
  | drained hpc htasks =>
    have hnote : note s (.base .stop) n = n := by simp only [note, hpc, htasks]
    rw [hnote]
    exact ⟨h.accepted, by simp, fun _ => ⟨h.set hpc, htasks⟩⟩
  | destroy hpc htasks =>
    simp only [note, hpc, htasks]
    simp only [hpc, htasks] at hdrained
    refine ⟨h.accepted, fun _ => h.set hpc, fun hpos => ?_⟩
    have hempty := (hdrained (by simpa [hpc] using hpos)).2
    cases hempty
  | notify hpc =>
    simp only [note, hpc]
    rw [notify_eq]
    exact ⟨h.accepted, by simp, fun _ => hdrained (by simp [hpc])⟩
  | unlock hpc =>
    simp only [note, hpc]
    exact ⟨h.accepted, by simp, fun _ => hdrained (by simp [hpc])⟩

omit [DecidableEq H] in
lemma Stopped.submitMove (h : Stopped s n) (hm : SubmitMove s t s') : Stopped s' n := by
  obtain ⟨hstop, hmStop, -⟩ := hm.frame
  refine ⟨hm.accepted h.accepted, ?_, ?_⟩
  · rw [hstop, hmStop]
    exact h.set
  · rw [hstop, hmStop]
    intro hpc
    obtain ⟨hset, htasks⟩ := h.drained hpc
    exact ⟨hset, (hm.mTasks h.accepted hset).trans htasks⟩

/-- The looper with the notes about its submissions. -/
structure Kept (s : State H A) (n : Notes H) : Prop where
  owned : Owned s
  queued : Queued s n
  stopped : Stopped s n

omit [DecidableEq H] [DecidableEq A] in
lemma Kept.runMove (h : Kept s n) (hm : RunMove s s') : Kept s' (note s (.base .run) n) :=
  ⟨h.owned.runMove hm, h.queued.runMove hm, h.stopped.runMove hm⟩

lemma Kept.step (h : Kept s n) {a : RepeatAction H A} (hs : (repeatSystem H A).step s a = some s') :
    Kept s' (note s a n) := by
  cases a with
  | callStop =>
    have howned := h.owned
    obtain ⟨hpc, rfl⟩ := callStop_iff.mp hs
    refine ⟨⟨?_, h.owned.worker⟩, h.queued.frame rfl rfl rfl rfl rfl, h.stopped.accepted, by simp,
      fun _ => h.stopped.drained (by simp [hpc])⟩
    apply h.owned.locked.congr
    rintro (_ | _ | u)
    · rfl
    · simp [State.holds, hpc, StopPc.holds]
    · rfl
  | base a =>
    cases a with
    | callSubmit t handle =>
      have howned := h.owned.callSubmit hs
      have haccepted := accepted_callSubmit hs h.stopped.accepted
      obtain ⟨-, rfl⟩ := callSubmit_iff.mp hs
      exact ⟨howned, h.queued.frame rfl rfl rfl rfl rfl, haccepted, h.stopped.set,
        h.stopped.drained⟩
    | submit t =>
      have hm := submitStep_move hs
      exact ⟨h.owned.submitMove hm, h.queued.submitMove hm, h.stopped.submitMove hm⟩
    | run => exact h.runMove (runStep_move hs)
    | stop =>
      have hm := stopStep_move hs
      exact ⟨h.owned.stopMove hm, h.queued.stopMove h.owned hm, h.stopped.stopMove h.owned hm⟩
    | wake =>
      simp only [repeatSystem, Looper.step] at hs
      split at hs <;> cases hs
      rename_i hpc
      exact ⟨h.owned.wake hpc, h.queued.frame (by rw [hpc]; rfl) rfl rfl rfl rfl,
        h.stopped.accepted, h.stopped.set, h.stopped.drained⟩
    | raise =>
      obtain ⟨hrun, hnote⟩ := raise_eq (n := n) hs
      have hkept := h.runMove (runStep_move hrun)
      rw [hnote] at hkept
      exact hkept

omit [DecidableEq H] [DecidableEq A] in
lemma RunMove.resumed (hm : RunMove s s') : s'.resumed = s.resumed ∨
    ∃ task, s.run = .unlock task ∧ s'.run = .resume task ∧ s'.resumed = s.resumed ++ [task] := by
  cases hm with
  | unlock hpc => exact Or.inr ⟨_, hpc, rfl, rfl⟩
  | lock | stopped | testStop | empty | pop | resume | relock | wait | leave => exact Or.inl rfl

/-- A handle is resumed by a worker that has just popped it, and by nobody else. -/
lemma resumed_step {a : RepeatAction H A} (hs : (repeatSystem H A).step s a = some s') :
    s'.resumed = s.resumed ∨
      ∃ task, s.run = .unlock task ∧ s'.run = .resume task ∧ s'.resumed = s.resumed ++ [task] := by
  cases a with
  | callStop =>
    obtain ⟨-, rfl⟩ := callStop_iff.mp hs
    exact Or.inl rfl
  | base a =>
    cases a with
    | callSubmit t handle =>
      obtain ⟨-, rfl⟩ := callSubmit_iff.mp hs
      exact Or.inl rfl
    | submit t =>
      cases submitStep_move hs with
      | notify =>
        rw [notify_eq]
        exact Or.inl rfl
      | lock | stopped | testStop | push | unlock => exact Or.inl rfl
    | run => exact (runStep_move hs).resumed
    | stop =>
      cases stopStep_move hs with
      | notify =>
        rw [notify_eq]
        exact Or.inl rfl
      | lock | setStop | drained | destroy | unlock => exact Or.inl rfl
    | wake =>
      simp only [repeatSystem, Looper.step] at hs
      split at hs <;> cases hs
      exact Or.inl rfl
    | raise => exact (raise_move hs).resumed

/-- The handles leave the queue in the order of their pushes, each submission once, and it is
resumed or destroyed. A handle is resumed when the worker has come back from the one before. A
coroutine that throws leaves the looper as one that returns. When `run` and some call of `stop`
have returned, every submission has been resumed or destroyed. -/
theorem looper_discipline {s : System.Noted (State H A) (Notes H)}
    (h : (discipline H A).Reachable s) :
    Queued s.state s.notes ∧
    (∀ a t, (discipline H A).step s a = some t → t.state.resumed = s.state.resumed ∨
      ∃ task, s.state.run = .unlock task ∧ t.state.run = .resume task ∧
        t.state.resumed = s.state.resumed ++ [task]) ∧
    (∀ t, (discipline H A).step s (.base .raise) = some t →
      (discipline H A).step s (.base .run) = some t) ∧
    (s.state.run = .returned → 0 < s.notes.stops →
      s.notes.taken.map Prod.fst = s.state.submitted) := by
  have hkept : Kept s.state s.notes := by
    refine h.invariant (I := fun s => Kept s.state s.notes) ?_ ?_
    · refine ⟨owned_init, ⟨rfl, rfl, rfl⟩, ?_, ?_, ?_⟩ <;>
        simp [discipline, System.observe, repeatSystem, init, SubmitPc.accepted]
    · rintro s a t - hkept - hs
      obtain ⟨hs, hnotes⟩ := System.observe_step.mp hs
      rw [hnotes]
      exact hkept.step hs
  refine ⟨hkept.queued, fun a t hs => ?_, fun t hs => ?_, fun hrun hstops => ?_⟩
  · exact resumed_step (System.observe_step.mp hs).1
  · obtain ⟨hs, hnotes⟩ := System.observe_step.mp hs
    obtain ⟨hrun, hnote⟩ := raise_eq (n := s.notes) hs
    refine System.observe_step.mpr ⟨hrun, ?_⟩
    rw [hnotes, hnote]
    rfl
  · have horder := hkept.queued.order
    rw [hrun, (hkept.stopped.drained (Or.inl hstops)).2] at horder
    simpa [RunPc.held] using horder

end

/-- A resumed coroutine submits its handle again and throws. A first call of `stop` destroys it, and
a second one wakes the worker. -/
theorem looper_discipline_run : ∃ s : System.Noted (State ℕ (Fin 1)) (Notes ℕ),
    s.state.run = .returned ∧ s.notes = ⟨[(7, .resumed), (7, .destroyed)], 2⟩ ∧
      s.notes.taken.map Prod.fst = s.state.submitted := by
  obtain ⟨s, hs, hrun, hnotes⟩ := System.exists_reaches (S := discipline ℕ (Fin 1))
    (fun _ _ => True)
    (fun s => s.state.run = .returned ∧ s.notes = ⟨[(7, .resumed), (7, .destroyed)], 2⟩)
    [.base (.callSubmit (some 0) 7), .base (.submit (some 0)), .base (.submit (some 0)),
      .base (.submit (some 0)), .base (.submit (some 0)), .base (.submit (some 0)), .base .run,
      .base .run, .base .run, .base .run, .base (.callSubmit none 7), .base (.submit none),
      .base (.submit none), .base (.submit none), .base (.submit none), .base (.submit none),
      .base .raise, .base .stop, .base .stop, .base .stop, .base .stop, .base .stop, .base .stop,
      .base .run, .base .run, .base .run, .callStop, .base .stop, .base .stop, .base .stop,
      .base .stop, .base .stop, .base .run, .base .run, .base .run] (by decide)
  exact ⟨s, hrun, hnotes, (looper_discipline hs).2.2.2 hrun (by rw [hnotes]; decide)⟩

end Scoro.Looper

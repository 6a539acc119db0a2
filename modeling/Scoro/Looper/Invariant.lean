import Scoro.Looper.Model

/-!
# The steps of the looper and who holds the mutex

What each step can do is said once, by one inductive relation for each of the three functions.
The invariant says who holds `m_mutex`, when a resumed coroutine may be inside `submit`, and that
the queue stays empty once `stop` has emptied it.
-/

namespace Scoro.Looper
open Scoro.Lib

section
variable {H A : Type*} {s s' : State H A}

/-- The steps of `run`. -/
inductive RunMove (s : State H A) : State H A → Prop
  | lock (hpc : s.run = .lock ∨ s.run = .woken) (hmutex : s.mMutex = none) :
      RunMove s { s with mMutex := some .run, run := .testStop }
  | stopped (hpc : s.run = .testStop) (hstop : s.mStop = true) : RunMove s { s with run := .leave }
  | testStop (hpc : s.run = .testStop) (hstop : s.mStop = false) :
      RunMove s { s with run := .testEmpty }
  | empty (hpc : s.run = .testEmpty) (htasks : s.mTasks = []) :
      RunMove s { s with run := .beginWait }
  | pop {task tasks} (hpc : s.run = .testEmpty) (htasks : s.mTasks = task :: tasks) :
      RunMove s { s with mTasks := tasks, run := .unlock task }
  | unlock {task} (hpc : s.run = .unlock task) :
      RunMove s { s with mMutex := none, run := .resume task, resumed := s.resumed ++ [task] }
  | resume {task} (hpc : s.run = .resume task) (hidle : s.submits none = .idle) :
      RunMove s { s with run := .relock }
  | relock (hpc : s.run = .relock) (hmutex : s.mMutex = none) :
      RunMove s { s with mMutex := some .run, run := .testEmpty }
  | wait (hpc : s.run = .beginWait) : RunMove s { s with mMutex := none, run := .wait }
  | leave (hpc : s.run = .leave) : RunMove s { s with mMutex := none, run := .returned }

/-- The steps of `stop`. -/
inductive StopMove (s : State H A) : State H A → Prop
  | lock (hpc : s.stop = .lock) (hmutex : s.mMutex = none) :
      StopMove s { s with mMutex := some .stop, stop := .setStop }
  | setStop (hpc : s.stop = .setStop) : StopMove s { s with mStop := true, stop := .testEmpty }
  | drained (hpc : s.stop = .testEmpty) (htasks : s.mTasks = []) :
      StopMove s { s with stop := .notify }
  | destroy {task tasks} (hpc : s.stop = .testEmpty) (htasks : s.mTasks = task :: tasks) :
      StopMove s { s with mTasks := tasks, destroyed := s.destroyed ++ [task] }
  | notify (hpc : s.stop = .notify) : StopMove s { s.notify with stop := .unlock }
  | unlock (hpc : s.stop = .unlock) : StopMove s { s with mMutex := none, stop := .returned }

lemma stopStep_move (hs : stopStep s = some s') : StopMove s s' := by
  unfold stopStep at hs
  split at hs
  case h_1 hpc =>
    split at hs <;> cases hs
    rename_i hmutex
    exact .lock hpc hmutex
  case h_2 hpc =>
    cases hs
    exact .setStop hpc
  case h_3 hpc =>
    split at hs <;> cases hs
    · rename_i htasks
      exact .drained hpc htasks
    · rename_i task tasks htasks
      exact .destroy hpc htasks
  case h_4 hpc =>
    cases hs
    exact .notify hpc
  case h_5 hpc =>
    cases hs
    exact .unlock hpc
  case h_6 => cases hs

/-! ### What each function leaves unchanged -/

lemma RunMove.frame (hm : RunMove s s') :
    s'.stop = s.stop ∧ s'.submits = s.submits ∧ s'.mStop = s.mStop := by
  cases hm <;> exact ⟨rfl, rfl, rfl⟩

lemma RunMove.lockMove (hm : RunMove s s') :
    Locked.Move .run s.mMutex s.run.holds s'.mMutex s'.run.holds := by
  cases hm with
  | lock _ hmutex | relock _ hmutex => exact .acquire hmutex rfl rfl
  | unlock hpc | wait hpc | leave hpc => exact .release (by rw [hpc]; rfl) rfl rfl
  | stopped hpc | testStop hpc | empty hpc | pop hpc | resume hpc =>
    exact .keep rfl (by rw [hpc]; rfl)

/-- A notify ends a wait. -/
lemma notify_run (s : State H A) :
    s.notify.run = s.run ∧ s.run ≠ .wait ∨ s.run = .wait ∧ s.notify.run = .woken := by
  unfold State.notify
  split
  · rename_i hpc
    exact Or.inr ⟨hpc, rfl⟩
  · rename_i hpc
    exact Or.inl ⟨rfl, hpc⟩

/-- A notify changes nothing but the position of the worker. -/
lemma notify_eq (s : State H A) : s.notify = { s with run := s.notify.run } := by
  unfold State.notify
  split <;> rfl

lemma notify_holds (s : State H A) : s.notify.run.holds = s.run.holds := by
  rcases notify_run s with ⟨heq, -⟩ | ⟨hpc, heq⟩
  · rw [heq]
  · rw [heq, hpc]
    rfl

lemma StopMove.frame (hm : StopMove s s') :
    s'.run.holds = s.run.holds ∧ s'.submits = s.submits ∧ (s'.run = s.run ∨ s.run = .wait) := by
  cases hm with
  | notify =>
    refine ⟨notify_holds s, by rw [notify_eq], ?_⟩
    rcases notify_run s with ⟨heq, -⟩ | ⟨hpc, -⟩
    · exact Or.inl heq
    · exact Or.inr hpc
  | lock | setStop | drained | destroy | unlock => exact ⟨rfl, rfl, Or.inl rfl⟩

lemma StopMove.lockMove (hm : StopMove s s') :
    Locked.Move .stop s.mMutex s.stop.holds s'.mMutex s'.stop.holds := by
  cases hm with
  | lock _ hmutex => exact .acquire hmutex rfl rfl
  | unlock hpc => exact .release (by rw [hpc]; rfl) rfl rfl
  | notify hpc => exact .keep (by rw [notify_eq]) (by rw [hpc]; rfl)
  | destroy => exact .keep rfl rfl
  | setStop hpc | drained hpc => exact .keep rfl (by rw [hpc]; rfl)

/-- A call of `submit` that has read `m_stop` as false. -/
def SubmitPc.accepted : SubmitPc H → Bool
  | .push _ | .notify => true
  | .idle | .lock _ | .testStop _ | .unlock => false

lemma SubmitPc.holds_of_accepted {pc : SubmitPc H} (h : pc.accepted = true) :
    pc.holds = true := by
  cases pc <;> first | rfl | cases h

/-- Who holds the mutex, and where a resumed coroutine may be inside `submit`. -/
structure Owned (s : State H A) : Prop where
  locked : Locked s.mMutex fun c => s.holds c = true
  worker : s.submits none ≠ .idle → ∃ task, s.run = .resume task

structure Inv (s : State H A) : Prop where
  locked : Locked s.mMutex fun c => s.holds c = true
  worker : s.submits none ≠ .idle → ∃ task, s.run = .resume task
  mStop : s.mStop = true ↔ s.stop ≠ .lock ∧ s.stop ≠ .setStop
  accepted : ∀ t, (s.submits t).accepted = true → s.mStop = false
  drained : s.stop = .notify ∨ s.stop = .unlock ∨ s.stop = .returned → s.mTasks = []

lemma Inv.owned (h : Inv s) : Owned s := ⟨h.locked, h.worker⟩

lemma owned_init : Owned (init H A) := by
  refine ⟨fun c => ?_, by simp [init]⟩
  cases c <;> simp [init, State.holds, RunPc.holds, StopPc.holds, SubmitPc.holds]

lemma inv_init : Inv (init H A) :=
  ⟨owned_init.locked, owned_init.worker, by simp [init], by simp [init, SubmitPc.accepted],
    by simp [init]⟩

lemma Owned.runMove (h : Owned s) (hm : RunMove s s') : Owned s' := by
  obtain ⟨hstop, hsubmits, -⟩ := hm.frame
  refine ⟨?_, ?_⟩
  · apply h.locked.move hm.lockMove
    intro c hc
    cases c with
    | run => exact absurd rfl hc
    | stop => simp only [State.holds, hstop]
    | submit t => simp only [State.holds, hsubmits]
  · rw [hsubmits]
    intro hbusy
    obtain ⟨task, hrun⟩ := h.worker hbusy
    cases hm with
    | resume _ hidle => exact absurd hidle hbusy
    | lock hpc => rcases hpc with hpc | hpc <;> simp [hrun] at hpc
    | stopped hpc | testStop hpc | empty hpc | pop hpc | unlock hpc | relock hpc | wait hpc
    | leave hpc => simp [hrun] at hpc

lemma Inv.runMove (h : Inv s) (hm : RunMove s s') : Inv s' := by
  obtain ⟨hstop, hsubmits, hmStop⟩ := hm.frame
  have howned := h.owned.runMove hm
  refine ⟨howned.locked, howned.worker, ?_, ?_, ?_⟩
  · rw [hmStop, hstop]
    exact h.mStop
  · rw [hsubmits, hmStop]
    exact h.accepted
  · rw [hstop]
    intro hpc
    have htasks := h.drained hpc
    cases hm with
    | pop _ hpop => simp [htasks] at hpop
    | lock | stopped | testStop | empty | unlock | resume | relock | wait | leave => exact htasks

/-- While the worker may be inside `submit` it does not wait. -/
lemma Owned.worker_of_wait (h : Owned s) (hwait : s'.run = s.run ∨ s.run = .wait)
    (hbusy : s.submits none ≠ .idle) : ∃ task, s'.run = .resume task := by
  obtain ⟨task, htask⟩ := h.worker hbusy
  rcases hwait with heq | hwait
  · exact ⟨task, by rw [heq, htask]⟩
  · rw [htask] at hwait
    cases hwait

lemma Owned.stopMove (h : Owned s) (hm : StopMove s s') : Owned s' := by
  obtain ⟨hrun, hsubmits, hwait⟩ := hm.frame
  refine ⟨?_, ?_⟩
  · apply h.locked.move hm.lockMove
    intro c hc
    cases c with
    | run => exact hrun
    | stop => exact absurd rfl hc
    | submit t => simp only [State.holds, hsubmits]
  · rw [hsubmits]
    exact h.worker_of_wait hwait

/-- No call of `submit` that has read `m_stop` as false has the mutex while `stop` has it. -/
lemma Owned.not_accepted (h : Owned s) (hstop : s.stop.holds = true) (t : Option A) :
    (s.submits t).accepted ≠ true := by
  intro ht
  have hholds : s.holds .stop = true := hstop
  have hsubmit : s.holds (.submit t) = true := SubmitPc.holds_of_accepted ht
  cases h.locked.unique hholds hsubmit

lemma Inv.stopMove (h : Inv s) (hm : StopMove s s') : Inv s' := by
  obtain ⟨hrun, hsubmits, hwait⟩ := hm.frame
  have hmStop := h.mStop
  have howned := h.owned.stopMove hm
  refine ⟨howned.locked, howned.worker, ?_, ?_, ?_⟩
  · cases hm with
    | notify hpc =>
      rw [notify_eq]
      simp [hmStop, hpc]
    | lock hpc | setStop hpc | drained hpc | destroy hpc | unlock hpc =>
      simp [hmStop, hpc]
  · rw [hsubmits]
    intro t ht
    cases hm with
    | setStop hpc => exact absurd ht (h.owned.not_accepted (by rw [hpc]; rfl) t)
    | notify =>
      rw [notify_eq]
      exact h.accepted t ht
    | lock | drained | destroy | unlock => exact h.accepted t ht
  · cases hm with
    | drained _ htasks => exact fun _ => htasks
    | notify hpc =>
      rw [notify_eq]
      exact fun _ => h.drained (Or.inl hpc)
    | unlock hpc => exact fun _ => h.drained (Or.inr (Or.inl hpc))
    | destroy hpc => simp [hpc]
    | lock | setStop => simp

lemma Owned.wake (h : Owned s) (hpc : s.run = .wait) : Owned { s with run := .woken } := by
  refine ⟨?_, fun hbusy => ?_⟩
  · apply h.locked.congr
    rintro (_ | _ | u)
    · simp [State.holds, hpc, RunPc.holds]
    · rfl
    · rfl
  · obtain ⟨task, hrun⟩ := h.worker hbusy
    simp [hpc] at hrun

/-- A spurious wake-up. -/
lemma Inv.wake (h : Inv s) (hpc : s.run = .wait) : Inv { s with run := .woken } :=
  ⟨(h.owned.wake hpc).locked, (h.owned.wake hpc).worker, h.mStop, h.accepted, h.drained⟩

end

section
variable {H A : Type*} [DecidableEq H] {s s' : State H A}

lemma runStep_move (hs : runStep s = some s') : RunMove s s' := by
  unfold runStep at hs
  split at hs
  case h_1 hpc | h_2 hpc =>
    split at hs <;> cases hs
    rename_i hmutex
    exact .lock (by simp [hpc]) hmutex
  case h_3 hpc =>
    cases hs
    by_cases hstop : s.mStop = true
    · rw [if_pos hstop]
      exact .stopped hpc hstop
    · rw [if_neg hstop]
      exact .testStop hpc (by simpa using hstop)
  case h_4 hpc =>
    split at hs <;> cases hs
    · rename_i htasks
      exact .empty hpc htasks
    · rename_i task tasks htasks
      exact .pop hpc htasks
  case h_5 hpc =>
    cases hs
    exact .unlock hpc
  case h_6 hpc =>
    split at hs <;> cases hs
    rename_i hidle
    exact .resume hpc hidle
  case h_7 hpc =>
    split at hs <;> cases hs
    rename_i hmutex
    exact .relock hpc hmutex
  case h_8 hpc =>
    cases hs
    exact .wait hpc
  case h_9 hpc =>
    cases hs
    exact .leave hpc
  all_goals cases hs

/-- What a coroutine throws ends its resume. -/
lemma raise_move (hs : raise s = some s') : RunMove s s' := by
  unfold raise at hs
  split at hs
  · rename_i hpc
    split at hs <;> cases hs
    rename_i hidle
    exact .resume hpc hidle
  · cases hs

end

section
variable {H A : Type*} [DecidableEq A] {s s' : State H A} {t : Option A}

/-- The steps of `submit` by caller `t`. -/
inductive SubmitMove (s : State H A) (t : Option A) : State H A → Prop
  | lock {handle} (hpc : s.submits t = .lock handle) (hmutex : s.mMutex = none) :
      SubmitMove s t { s.setSubmit t (.testStop handle) with mMutex := some (.submit t) }
  | stopped {handle} (hpc : s.submits t = .testStop handle) (hstop : s.mStop = true) :
      SubmitMove s t (s.setSubmit t .unlock)
  | testStop {handle} (hpc : s.submits t = .testStop handle) (hstop : s.mStop = false) :
      SubmitMove s t (s.setSubmit t (.push handle))
  | push {handle} (hpc : s.submits t = .push handle) :
      SubmitMove s t { s.setSubmit t .notify with
        mTasks := s.mTasks ++ [handle], submitted := s.submitted ++ [handle] }
  | notify (hpc : s.submits t = .notify) : SubmitMove s t (s.notify.setSubmit t .unlock)
  | unlock (hpc : s.submits t = .unlock) :
      SubmitMove s t { s.setSubmit t .idle with mMutex := none }

lemma submitStep_move (hs : submitStep s t = some s') : SubmitMove s t s' := by
  unfold submitStep at hs
  split at hs
  case h_1 => cases hs
  case h_2 hpc =>
    split at hs <;> cases hs
    rename_i hmutex
    exact .lock hpc hmutex
  case h_3 hpc =>
    cases hs
    by_cases hstop : s.mStop = true
    · rw [if_pos hstop]
      exact .stopped hpc hstop
    · rw [if_neg hstop]
      exact .testStop hpc (by simpa using hstop)
  case h_4 hpc =>
    cases hs
    exact .push hpc
  case h_5 hpc =>
    cases hs
    exact .notify hpc
  case h_6 hpc =>
    cases hs
    exact .unlock hpc

lemma SubmitMove.frame (hm : SubmitMove s t s') : s'.stop = s.stop ∧ s'.mStop = s.mStop ∧
    s'.run.holds = s.run.holds ∧ (s'.run = s.run ∨ s.run = .wait) ∧
    ∀ u, u ≠ t → s'.submits u = s.submits u := by
  cases hm with
  | notify =>
    refine ⟨by rw [notify_eq]; rfl, by rw [notify_eq]; rfl, notify_holds s, ?_, fun u hu => ?_⟩
    · rcases notify_run s with ⟨heq, -⟩ | ⟨hpc, -⟩
      · exact Or.inl heq
      · exact Or.inr hpc
    · rw [notify_eq]
      simp [State.setSubmit, Function.update_of_ne hu]
  | lock | stopped | testStop | push | unlock =>
    refine ⟨rfl, rfl, rfl, Or.inl rfl, fun u hu => ?_⟩
    simp [State.setSubmit, Function.update_of_ne hu]

lemma SubmitMove.lockMove (hm : SubmitMove s t s') :
    Locked.Move (.submit t) s.mMutex (s.submits t).holds s'.mMutex (s'.submits t).holds := by
  cases hm with
  | lock _ hmutex => exact .acquire hmutex rfl (by simp [State.setSubmit, SubmitPc.holds])
  | unlock hpc =>
    exact .release (by rw [hpc]; rfl) rfl (by simp [State.setSubmit, SubmitPc.holds])
  | notify hpc =>
    exact .keep (by rw [notify_eq]; rfl) (by simp [State.setSubmit, hpc, SubmitPc.holds])
  | stopped hpc | testStop hpc | push hpc =>
    exact .keep rfl (by simp [State.setSubmit, hpc, SubmitPc.holds])

/-- A call of `submit` by a resumed coroutine goes on in that coroutine. -/
lemma SubmitMove.busy (hm : SubmitMove s t s') : s.submits t ≠ .idle := by
  cases hm with
  | lock hpc | stopped hpc | testStop hpc | push hpc | notify hpc | unlock hpc => simp [hpc]

lemma Owned.submitMove (h : Owned s) (hm : SubmitMove s t s') : Owned s' := by
  obtain ⟨hstop, -, hrun, hwait, hsubmits⟩ := hm.frame
  refine ⟨?_, ?_⟩
  · apply h.locked.move hm.lockMove
    intro c hc
    cases c with
    | run => exact hrun
    | stop => simp only [State.holds, hstop]
    | submit u =>
      have hu : u ≠ t := fun heq => hc (by rw [heq])
      simp only [State.holds, hsubmits u hu]
  · intro hbusy
    apply h.worker_of_wait hwait
    by_cases ht : none = t
    · rw [ht]
      exact hm.busy
    · rwa [hsubmits none ht] at hbusy

/-- What a call of `submit` has read from `m_stop` is still so. -/
lemma SubmitMove.accepted (hm : SubmitMove s t s')
    (h : ∀ t, (s.submits t).accepted = true → s.mStop = false) (u : Option A)
    (hu : (s'.submits u).accepted = true) : s'.mStop = false := by
  obtain ⟨-, hmStop, -, -, hsubmits⟩ := hm.frame
  rw [hmStop]
  by_cases hut : u = t
  · subst hut
    cases hm with
    | testStop _ hset => exact hset
    | push hpc => exact h u (by rw [hpc]; rfl)
    | lock | stopped | notify | unlock => simp [State.setSubmit, SubmitPc.accepted] at hu
  · rw [hsubmits u hut] at hu
    exact h u hu

/-- After `m_stop` has been set nothing is pushed. -/
lemma SubmitMove.mTasks (hm : SubmitMove s t s')
    (h : ∀ t, (s.submits t).accepted = true → s.mStop = false) (hset : s.mStop = true) :
    s'.mTasks = s.mTasks := by
  cases hm with
  | push hpc =>
    rw [h t (by rw [hpc]; rfl)] at hset
    cases hset
  | notify =>
    rw [notify_eq]
    rfl
  | lock | stopped | testStop | unlock => rfl

lemma Inv.submitMove (h : Inv s) (hm : SubmitMove s t s') : Inv s' := by
  obtain ⟨hstop, hmStop, -⟩ := hm.frame
  have howned := h.owned.submitMove hm
  refine ⟨howned.locked, howned.worker, ?_, hm.accepted h.accepted, ?_⟩
  · rw [hmStop, hstop]
    exact h.mStop
  · rw [hstop]
    intro hpc
    rw [hm.mTasks h.accepted (h.mStop.mpr (by rcases hpc with hpc | hpc | hpc <;> simp [hpc]))]
    exact h.drained hpc

end

section
variable {H A : Type*} [DecidableEq H] [DecidableEq A] {s s' : State H A} {t : Option A}

lemma callSubmit_iff {handle : H} : callSubmit s t handle = some s' ↔
    (s.inUserCode t = true ∧ s.submits t = .idle) ∧ s.setSubmit t (.lock handle) = s' := by
  simp [callSubmit]

/-- A new call of `submit`. -/
lemma Owned.callSubmit (h : Owned s) {handle : H} (hs : callSubmit s t handle = some s') :
    Owned s' := by
  obtain ⟨⟨huser, hidle⟩, rfl⟩ := callSubmit_iff.mp hs
  refine ⟨?_, ?_⟩
  · apply h.locked.congr
    rintro (_ | _ | u)
    · rfl
    · rfl
    · by_cases hut : u = t
      · subst hut
        simp [State.holds, State.setSubmit, hidle, SubmitPc.holds]
      · simp [State.holds, State.setSubmit, Function.update_of_ne hut]
  · intro hbusy
    by_cases ht : none = t
    · subst ht
      cases hpc : s.run <;> simp [State.inUserCode, hpc] at huser
      exact ⟨_, hpc⟩
    · apply h.worker
      simpa [State.setSubmit, Function.update_of_ne ht] using hbusy

/-- A new call of `submit` has not read `m_stop` yet. -/
lemma accepted_callSubmit {handle : H} (hs : callSubmit s t handle = some s')
    (h : ∀ t, (s.submits t).accepted = true → s.mStop = false) (u : Option A)
    (hu : (s'.submits u).accepted = true) : s'.mStop = false := by
  obtain ⟨-, rfl⟩ := callSubmit_iff.mp hs
  by_cases hut : u = t
  · subst hut
    simp [State.setSubmit, SubmitPc.accepted] at hu
  · apply h u
    simpa [State.setSubmit, Function.update_of_ne hut] using hu

lemma Inv.callSubmit (h : Inv s) {handle : H} (hs : callSubmit s t handle = some s') :
    Inv s' := by
  have howned := h.owned.callSubmit hs
  have haccepted := accepted_callSubmit hs h.accepted
  obtain ⟨-, rfl⟩ := callSubmit_iff.mp hs
  exact ⟨howned.locked, howned.worker, h.mStop, haccepted, h.drained⟩

theorem Inv.step (h : Inv s) {a : Action H A} (hs : step s a = some s') : Inv s' := by
  cases a with
  | callSubmit t handle => exact h.callSubmit hs
  | submit t => exact h.submitMove (submitStep_move hs)
  | run => exact h.runMove (runStep_move hs)
  | stop => exact h.stopMove (stopStep_move hs)
  | wake =>
    simp only [Looper.step] at hs
    split at hs <;> cases hs
    rename_i hpc
    exact h.wake hpc
  | raise => exact h.runMove (raise_move hs)

theorem reaches_inv {C : State H A → Action H A → Prop} (h : (system H A).Reaches C s) : Inv s :=
  h.invariant inv_init fun _ _ _ _ hinv _ hs => hinv.step hs

end

end Scoro.Looper

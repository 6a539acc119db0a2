import Scoro.Timer.Model

/-!
# The steps of `Timer` and who holds the mutex

What each step can do is said once, by one inductive relation for each of the three functions.
The invariant says who holds `m_mutex`, when a callback or a cancel function may be inside
`add_task`, and when `m_stop` is set.
-/

namespace Scoro.Timer
open Scoro.Lib

section
variable {Time A : Type*} [LinearOrder Time] {s s' : State Time A} {items : List (Task Time)}
  {t u : Thread A}

/-- The steps of `run`. -/
inductive RunMove (s : State Time A) : State Time A → Prop
  | lock (hpc : s.run = .lock ∨ s.run = .woken) (hmutex : s.mMutex = none) :
      RunMove s { s with mMutex := some .runner, run := .testStop }
  | stopped (hpc : s.run = .testStop) (hstop : s.mStop = true) :
      RunMove s { s with run := .leave }
  | testStop (hpc : s.run = .testStop) (hstop : s.mStop = false) :
      RunMove s { s with run := .testDue }
  | pop {task q items} (hpc : s.run = .testDue) (htop : s.mTasks.top = some task)
      (hdue : task.executeTime ≤ s.clock) (hpop : s.mTasks.pop items = some q) :
      RunMove s { s with mTasks := q, run := .unlock task }
  | notDue (hpc : s.run = .testDue) (hdue : ∀ task ∈ s.mTasks.top, s.clock < task.executeTime) :
      RunMove s { s with run := .testEmpty }
  | unlock {task} (hpc : s.run = .unlock task) :
      RunMove s { s with mMutex := none, run := .callback task, started := s.started ++ [task] }
  | callback {task} (hpc : s.run = .callback task) (hadd : s.adds .runner = .idle) :
      RunMove s { s with run := .relock }
  | relock (hpc : s.run = .relock) (hmutex : s.mMutex = none) :
      RunMove s { s with mMutex := some .runner, run := .testDue }
  | wait (hpc : s.run = .testEmpty) (htop : s.mTasks.top = none) :
      RunMove s { s with mMutex := none, run := .wait }
  | waitUntil {task} (hpc : s.run = .testEmpty) (htop : s.mTasks.top = some task)
      (hlater : s.clock < task.executeTime) :
      RunMove s { s with mMutex := none, run := .waitUntil }
  | again {task} (hpc : s.run = .testEmpty) (htop : s.mTasks.top = some task)
      (hdue : task.executeTime ≤ s.clock) :
      RunMove s { s with run := .testStop }
  | leave (hpc : s.run = .leave) : RunMove s { s with mMutex := none, run := .returned }

/-- The steps of `stop`. -/
inductive StopMove (s : State Time A) : State Time A → Prop
  | lock (hpc : s.stop = .lock) (hmutex : s.mMutex = none) :
      StopMove s { s with mMutex := some .stopper, stop := .testEmpty }
  | drained (hpc : s.stop = .testEmpty) (htop : s.mTasks.top = none) :
      StopMove s { s with stop := .setStop }
  | cancel {task} (hpc : s.stop = .testEmpty) (htop : s.mTasks.top = some task)
      (hcancel : task.cancel = true) :
      StopMove s { s with stop := .cancel task, cancelled := s.cancelled ++ [task] }
  | skip {task} (hpc : s.stop = .testEmpty) (htop : s.mTasks.top = some task)
      (hcancel : task.cancel = false) : StopMove s { s with stop := .pop }
  | cancelRet {task} (hpc : s.stop = .cancel task) (hadd : s.adds .stopper = .idle) :
      StopMove s { s with stop := .pop }
  | pop {q items} (hpc : s.stop = .pop) (hpop : s.mTasks.pop items = some q) :
      StopMove s { s with mTasks := q, stop := .testEmpty }
  | setStop (hpc : s.stop = .setStop) : StopMove s { s with mStop := true, stop := .notify }
  | notify (hpc : s.stop = .notify) : StopMove s { s.notify with stop := .unlock }
  | unlock (hpc : s.stop = .unlock) : StopMove s { s with mMutex := none, stop := .returned }

lemma runStep_move (hs : runStep s items = some s') : RunMove s s' := by
  unfold runStep at hs
  split at hs
  case h_1 hpc | h_2 hpc =>
    split at hs <;> cases hs
    rename_i hmutex
    exact .lock (by simp [hpc]) hmutex
  case h_3 hpc =>
    cases hs
    by_cases hstop : s.mStop = true
    · rw [if_pos hstop]
      exact .stopped hpc hstop
    · rw [if_neg hstop]
      exact .testStop hpc (by simpa using hstop)
  case h_4 hpc =>
    split at hs
    · rename_i htop
      cases hs
      exact .notDue hpc (by simp [htop])
    · rename_i task htop
      split at hs
      · rename_i hdue
        obtain ⟨q, hq, rfl⟩ := Option.map_eq_some_iff.mp hs
        exact .pop hpc htop hdue hq
      · rename_i hdue
        cases hs
        exact .notDue hpc (by simpa [htop] using hdue)
  case h_5 hpc =>
    cases hs
    exact .unlock hpc
  case h_6 hpc =>
    split at hs <;> cases hs
    rename_i hadd
    exact .callback hpc hadd
  case h_7 hpc =>
    split at hs <;> cases hs
    rename_i hmutex
    exact .relock hpc hmutex
  case h_8 hpc =>
    split at hs
    · rename_i htop
      cases hs
      exact .wait hpc htop
    · rename_i task htop
      split at hs <;> cases hs
      · rename_i hlater
        exact .waitUntil hpc htop hlater
      · rename_i hdue
        exact .again hpc htop (not_lt.mp hdue)
  case h_9 hpc =>
    cases hs
    exact .leave hpc
  all_goals cases hs

lemma stopStep_move (hs : stopStep s items = some s') : StopMove s s' := by
  unfold stopStep at hs
  split at hs
  case h_1 hpc =>
    split at hs <;> cases hs
    rename_i hmutex
    exact .lock hpc hmutex
  case h_2 hpc =>
    split at hs
    · rename_i htop
      cases hs
      exact .drained hpc htop
    · rename_i task htop
      split at hs <;> cases hs
      · rename_i hcancel
        exact .cancel hpc htop hcancel
      · rename_i hcancel
        exact .skip hpc htop (by simpa using hcancel)
  case h_3 hpc =>
    split at hs <;> cases hs
    rename_i hadd
    exact .cancelRet hpc hadd
  case h_4 hpc =>
    obtain ⟨q, hq, rfl⟩ := Option.map_eq_some_iff.mp hs
    exact .pop hpc hq
  case h_5 hpc =>
    cases hs
    exact .setStop hpc
  case h_6 hpc =>
    cases hs
    exact .notify hpc
  case h_7 hpc =>
    cases hs
    exact .unlock hpc
  all_goals cases hs

/-- Who holds the mutex, and where the user's code may be inside `add_task`. -/
structure Owned (s : State Time A) : Prop where
  locked : Locked s.mMutex fun t => s.holds t = true
  runner : s.adds .runner ≠ .idle → ∃ task, s.run = .callback task
  stopper : s.adds .stopper ≠ .idle →
    (∃ task, s.stop = .cancel task) ∧ ∃ task, s.adds .stopper = .lock task

/-- `m_stop` has been set by the one call of `stop`. -/
def State.StopSet (s : State Time A) : Prop :=
  s.mStop = true ↔ s.stop = .notify ∨ s.stop = .unlock ∨ s.stop = .returned

/-- Who holds the mutex, where the user's code may be inside `add_task`, and when `m_stop` is
set. -/
structure Inv (s : State Time A) : Prop extends owned : Owned s where
  mStop : s.StopSet

lemma owned_init (now : Time) : Owned (init A now) := by
  refine ⟨fun t => ?_, by simp [init], by simp [init]⟩
  cases t <;> simp [init, State.holds, RunPc.holds, StopPc.holds, AddPc.holds]

/-! ### Steps of the runner -/

lemma Owned.runner_idle (h : Owned s) (hrun : ∀ task, s.run ≠ .callback task) :
    s.adds .runner = .idle := by
  by_contra hadd
  obtain ⟨task, htask⟩ := h.runner hadd
  exact hrun task htask

lemma holds_ne_runner (hstop : s'.stop = s.stop) (hadds : s'.adds = s.adds)
    (hu : u ≠ .runner) : s'.holds u = s.holds u := by
  cases u with
  | runner => exact absurd rfl hu
  | stopper => simp [State.holds, hstop, hadds]
  | adder a => simp [State.holds, hadds]

/-- The runner, outside `add_task`, holds the mutex or not as its position in `run` says. -/
lemma holds_runner (hidle : s.adds .runner = .idle) : s.holds .runner = s.run.holds := by
  simp [State.holds, hidle, AddPc.holds]

/-- A step of `run`, once the mutex is settled. -/
lemma Owned.run (h : Owned s) (hidle : s.adds .runner = .idle)
    (hlocked : Locked s'.mMutex fun t => s'.holds t = true)
    (hstop : s'.stop = s.stop) (hadds : s'.adds = s.adds) :
    Owned s' := by
  refine ⟨hlocked, ?_, ?_⟩
  · rw [hadds]
    exact fun hadd => absurd hidle hadd
  · rw [hadds, hstop]
    exact h.stopper

/-- A step of `run` that does not touch the mutex. -/
lemma Owned.run_keep (h : Owned s) (hidle : s.adds .runner = .idle)
    (hrun : s'.run.holds = s.run.holds) (hmutex : s'.mMutex = s.mMutex)
    (hstop : s'.stop = s.stop) (hadds : s'.adds = s.adds) :
    Owned s' := by
  apply h.run hidle _ hstop hadds
  rw [hmutex]
  apply h.locked.keep (t := .runner)
  · rw [holds_runner hidle, holds_runner (by rw [hadds]; exact hidle), hrun]
  · intro u hu
    rw [holds_ne_runner hstop hadds hu]

/-- A step of `run` that locks the mutex. -/
lemma Owned.run_acquire (h : Owned s) (hidle : s.adds .runner = .idle) (hfree : s.mMutex = none)
    (hrun : s'.run.holds = true) (hmutex : s'.mMutex = some .runner)
    (hstop : s'.stop = s.stop) (hadds : s'.adds = s.adds) :
    Owned s' := by
  apply h.run hidle _ hstop hadds
  have hlocked := h.locked
  rw [hfree] at hlocked
  rw [hmutex]
  apply hlocked.acquire
  · rw [holds_runner (by rw [hadds]; exact hidle), hrun]
  · intro u hu
    rw [holds_ne_runner hstop hadds hu]

/-- A step of `run` that unlocks the mutex. -/
lemma Owned.run_release (h : Owned s) (hidle : s.adds .runner = .idle) (hpc : s.run.holds = true)
    (hrun : s'.run.holds = false) (hmutex : s'.mMutex = none)
    (hstop : s'.stop = s.stop) (hadds : s'.adds = s.adds) :
    Owned s' := by
  apply h.run hidle _ hstop hadds
  rw [hmutex]
  apply h.locked.release (t := .runner)
  · rw [holds_runner hidle, hpc]
  · rw [holds_runner (by rw [hadds]; exact hidle), hrun]
    simp
  · intro u hu
    rw [holds_ne_runner hstop hadds hu]

lemma Owned.runMove (h : Owned s) (hm : RunMove s s') : Owned s' := by
  have hidle (hrun : ∀ task, s.run ≠ .callback task) := h.runner_idle hrun
  cases hm with
  | lock hpc hmutex =>
    have hcb : ∀ task, s.run ≠ .callback task := by
      rcases hpc with hpc | hpc <;> simp [hpc]
    exact h.run_acquire (hidle hcb) hmutex rfl rfl rfl rfl
  | stopped hpc _ => exact h.run_keep (hidle (by simp [hpc])) (by rw [hpc]; rfl) rfl rfl rfl
  | testStop hpc _ => exact h.run_keep (hidle (by simp [hpc])) (by rw [hpc]; rfl) rfl rfl rfl
  | pop hpc _ _ _ => exact h.run_keep (hidle (by simp [hpc])) (by rw [hpc]; rfl) rfl rfl rfl
  | notDue hpc _ => exact h.run_keep (hidle (by simp [hpc])) (by rw [hpc]; rfl) rfl rfl rfl
  | unlock hpc =>
    exact h.run_release (hidle (by simp [hpc])) (by rw [hpc]; rfl) rfl rfl rfl rfl
  | callback hpc hadd => exact h.run_keep hadd (by rw [hpc]; rfl) rfl rfl rfl
  | relock hpc hmutex => exact h.run_acquire (hidle (by simp [hpc])) hmutex rfl rfl rfl rfl
  | wait hpc _ => exact h.run_release (hidle (by simp [hpc])) (by rw [hpc]; rfl) rfl rfl rfl rfl
  | waitUntil hpc _ _ =>
    exact h.run_release (hidle (by simp [hpc])) (by rw [hpc]; rfl) rfl rfl rfl rfl
  | again hpc _ _ => exact h.run_keep (hidle (by simp [hpc])) (by rw [hpc]; rfl) rfl rfl rfl
  | leave hpc =>
    exact h.run_release (hidle (by simp [hpc])) (by rw [hpc]; rfl) rfl rfl rfl rfl

/-! ### Steps of the stopper -/

lemma Owned.stopper_idle (h : Owned s) (hstop : ∀ task, s.stop ≠ .cancel task) :
    s.adds .stopper = .idle := by
  by_contra hadd
  obtain ⟨⟨task, htask⟩, -⟩ := h.stopper hadd
  exact hstop task htask

/-- The stopper, outside `add_task`, holds the mutex or not as its position in `stop` says. -/
lemma holds_stopper (hidle : s.adds .stopper = .idle) : s.holds .stopper = s.stop.holds := by
  simp [State.holds, hidle, AddPc.holds]

/-- A notify ends a wait, and neither a waiting nor a woken thread holds the mutex. -/
lemma notify_run (s : State Time A) : s.notify.run = s.run ∨
    ((s.run = .wait ∨ s.run = .waitUntil) ∧ s.notify.run = .woken) := by
  unfold State.notify
  split
  · rename_i hpc
    exact Or.inr ⟨Or.inl hpc, rfl⟩
  · rename_i hpc
    exact Or.inr ⟨Or.inr hpc, rfl⟩
  · exact Or.inl rfl

lemma notify_run_ne_wait (s : State Time A) : s.notify.run ≠ .wait := by
  unfold State.notify
  split
  · simp
  · simp
  · assumption

/-- A notify changes nothing but the position of the runner. -/
lemma notify_eq (s : State Time A) : s.notify = { s with run := s.notify.run } := by
  unfold State.notify
  split <;> rfl

lemma holds_notify (s : State Time A) (t : Thread A) : s.notify.holds t = s.holds t := by
  rw [notify_eq]
  rcases notify_run s with heq | ⟨hpc | hpc, heq⟩
  · rw [heq]
  · cases t <;> simp [State.holds, heq, hpc, RunPc.holds]
  · cases t <;> simp [State.holds, heq, hpc, RunPc.holds]

lemma notify_callback {task : Task Time} (hpc : s.run = .callback task) :
    s.notify.run = .callback task := by
  simp [State.notify, hpc]

lemma Owned.notify (h : Owned s) : Owned s.notify := by
  have heq := notify_eq s
  refine ⟨?_, fun hadd => ?_, ?_⟩
  · have hmutex : s.notify.mMutex = s.mMutex := by rw [heq]
    rw [hmutex]
    apply h.locked.congr
    intro u
    rw [holds_notify]
  · rw [heq] at hadd
    obtain ⟨task, htask⟩ := h.runner hadd
    exact ⟨task, notify_callback htask⟩
  · rw [heq]
    exact h.stopper

lemma holds_ne_stopper (hrun : s'.run = s.run) (hadds : s'.adds = s.adds)
    (hu : u ≠ .stopper) : s'.holds u = s.holds u := by
  cases u with
  | runner => simp [State.holds, hrun, hadds]
  | stopper => exact absurd rfl hu
  | adder a => simp [State.holds, hadds]

/-- A step of `stop`, once the mutex is settled. -/
lemma Owned.stop (h : Owned s) (hidle : s.adds .stopper = .idle)
    (hlocked : Locked s'.mMutex fun t => s'.holds t = true) (hrun : s'.run = s.run)
    (hadds : s'.adds = s.adds) :
    Owned s' := by
  refine ⟨hlocked, ?_, ?_⟩
  · rw [hadds, hrun]
    exact h.runner
  · rw [hadds]
    exact fun hadd => absurd hidle hadd

/-- A step of `stop` that does not touch the mutex. -/
lemma Owned.stop_keep (h : Owned s) (hidle : s.adds .stopper = .idle)
    (hstop : s'.stop.holds = s.stop.holds) (hmutex : s'.mMutex = s.mMutex)
    (hrun : s'.run = s.run) (hadds : s'.adds = s.adds) :
    Owned s' := by
  apply h.stop hidle _ hrun hadds
  rw [hmutex]
  apply h.locked.keep (t := .stopper)
  · rw [holds_stopper hidle, holds_stopper (by rw [hadds]; exact hidle), hstop]
  · intro u hu
    rw [holds_ne_stopper hrun hadds hu]

/-- A step of `stop` that locks the mutex. -/
lemma Owned.stop_acquire (h : Owned s) (hidle : s.adds .stopper = .idle) (hfree : s.mMutex = none)
    (hstop : s'.stop.holds = true) (hmutex : s'.mMutex = some .stopper)
    (hrun : s'.run = s.run) (hadds : s'.adds = s.adds) :
    Owned s' := by
  apply h.stop hidle _ hrun hadds
  have hlocked := h.locked
  rw [hfree] at hlocked
  rw [hmutex]
  apply hlocked.acquire
  · rw [holds_stopper (by rw [hadds]; exact hidle), hstop]
  · intro u hu
    rw [holds_ne_stopper hrun hadds hu]

/-- A step of `stop` that unlocks the mutex. -/
lemma Owned.stop_release (h : Owned s) (hidle : s.adds .stopper = .idle) (hpc : s.stop.holds = true)
    (hstop : s'.stop.holds = false) (hmutex : s'.mMutex = none)
    (hrun : s'.run = s.run) (hadds : s'.adds = s.adds) :
    Owned s' := by
  apply h.stop hidle _ hrun hadds
  rw [hmutex]
  apply h.locked.release (t := .stopper)
  · rw [holds_stopper hidle, hpc]
  · rw [holds_stopper (by rw [hadds]; exact hidle), hstop]
    simp
  · intro u hu
    rw [holds_ne_stopper hrun hadds hu]

lemma Owned.stopMove (h : Owned s) (hm : StopMove s s') : Owned s' := by
  have hidle (hstop : ∀ task, s.stop ≠ .cancel task) := h.stopper_idle hstop
  cases hm with
  | lock hpc hmutex => exact h.stop_acquire (hidle (by simp [hpc])) hmutex rfl rfl rfl rfl
  | drained hpc _ => exact h.stop_keep (hidle (by simp [hpc])) (by rw [hpc]; rfl) rfl rfl rfl
  | cancel hpc _ _ => exact h.stop_keep (hidle (by simp [hpc])) (by rw [hpc]; rfl) rfl rfl rfl
  | skip hpc _ _ => exact h.stop_keep (hidle (by simp [hpc])) (by rw [hpc]; rfl) rfl rfl rfl
  | cancelRet hpc hadd => exact h.stop_keep hadd (by rw [hpc]; rfl) rfl rfl rfl
  | pop hpc _ => exact h.stop_keep (hidle (by simp [hpc])) (by rw [hpc]; rfl) rfl rfl rfl
  | setStop hpc => exact h.stop_keep (hidle (by simp [hpc])) (by rw [hpc]; rfl) rfl rfl rfl
  | notify hpc =>
    have heq := notify_eq s
    have hpc' : s.notify.stop = .notify := by rw [heq]; exact hpc
    have hidle' : s.notify.adds .stopper = .idle := by rw [heq]; exact hidle (by simp [hpc])
    exact h.notify.stop_keep hidle' (by rw [hpc']; rfl) rfl rfl rfl
  | unlock hpc =>
    exact h.stop_release (hidle (by simp [hpc])) (by rw [hpc]; rfl) rfl rfl rfl rfl

/-! ### Steps of `add_task` and of the user's code -/

/-- Outside `stop`, a thread in `add_task` holds the mutex as its position there says. -/
lemma Owned.holds_adding (h : Owned s) (hadd : s.adds t ≠ .idle) (ht : t ≠ .stopper)
    (hrun : s'.run = s.run) : s'.holds t = (s'.adds t).holds := by
  cases t with
  | runner =>
    obtain ⟨task, htask⟩ := h.runner hadd
    rw [htask] at hrun
    simp [State.holds, hrun, RunPc.holds]
  | stopper => exact absurd rfl ht
  | adder a => rfl

/-- Outside a cancel function, no thread locks the mutex twice. -/
lemma Owned.not_relock (h : Owned s) (hidle : s.adds .stopper = .idle) {task : Task Time}
    (hpc : s.adds t = .lock task) : s.mMutex ≠ some t := by
  intro hmutex
  have hholds := (h.locked t).mp hmutex
  cases t with
  | runner =>
    obtain ⟨task, hrun⟩ := h.runner (by simp [hpc])
    simp [State.holds, hpc, hrun, RunPc.holds, AddPc.holds] at hholds
  | stopper => simp [hpc] at hidle
  | adder a => simp [State.holds, hpc, AddPc.holds] at hholds

/-- `add_task` does not get the mutex on the stopper. -/
lemma Owned.ne_stopper (h : Owned s) (hadd : (s.adds t).holds = true) : t ≠ .stopper := by
  rintro rfl
  obtain ⟨-, task, htask⟩ := h.stopper (AddPc.ne_idle_of_holds hadd)
  rw [htask] at hadd
  cases hadd

lemma callback_of_inUserCode (h : s.inUserCode .runner = true) :
    ∃ task, s.run = .callback task := by
  cases hpc : s.run <;> simp [State.inUserCode, hpc] at h
  exact ⟨_, rfl⟩

lemma cancel_of_inUserCode (h : s.inUserCode .stopper = true) :
    ∃ task, s.stop = .cancel task := by
  cases hpc : s.stop <;> simp [State.inUserCode, hpc] at h
  exact ⟨_, rfl⟩

/-! ### Where `m_stop` is set -/

lemma State.StopSet.congr (h : s.StopSet) (hmStop : s'.mStop = s.mStop)
    (hstop : s'.stop = s.stop) : s'.StopSet := by
  unfold State.StopSet
  rw [hmStop, hstop]
  exact h

lemma State.StopSet.notify (h : s.StopSet) : s.notify.StopSet := by
  rw [notify_eq]
  exact h.congr rfl rfl

lemma State.StopSet.stopMove (h : s.StopSet) (hm : StopMove s s') : s'.StopSet := by
  unfold State.StopSet at h
  cases hm with
  | setStop => simp [State.StopSet]
  | notify hpc =>
    have hmStop : s.notify.mStop = true := by
      rw [notify_eq]
      exact h.mpr (Or.inl hpc)
    simp [State.StopSet, hmStop]
  | lock hpc | drained hpc | cancel hpc | skip hpc | cancelRet hpc | pop hpc | unlock hpc =>
    simpa [State.StopSet, hpc] using h

lemma inv_init (now : Time) : Inv (init A now) :=
  ⟨owned_init now, by simp [State.StopSet, init]⟩

end

section
variable {Time A : Type*} [LinearOrder Time] [DecidableEq A] {s s' : State Time A}
  {items : List (Task Time)} {t u : Thread A}

/-- The steps of `add_task` on thread `t`. -/
inductive AddMove (s : State Time A) (t : Thread A) : State Time A → Prop
  | lock {task} (hpc : s.adds t = .lock task) (hmutex : s.mMutex = none) :
      AddMove s t { s.setAdd t (.push task) with mMutex := some t }
  | fault {task} (hpc : s.adds t = .lock task) (hmutex : s.mMutex = some t) :
      AddMove s t { s with fault := true }
  | push {task q items} (hpc : s.adds t = .push task) (hpush : s.mTasks.push task items = some q) :
      AddMove s t { s.setAdd t .notify with mTasks := q, added := s.added ++ [task] }
  | notify (hpc : s.adds t = .notify) : AddMove s t (s.notify.setAdd t .unlock)
  | unlock (hpc : s.adds t = .unlock) : AddMove s t { s.setAdd t .idle with mMutex := none }

lemma addStep_move (hs : addStep s t items = some s') : AddMove s t s' := by
  unfold addStep at hs
  split at hs
  case h_1 => cases hs
  case h_2 task hpc =>
    split at hs
    · rename_i hmutex
      cases hs
      exact .lock hpc hmutex
    · rename_i owner hmutex
      split at hs <;> cases hs
      rename_i howner
      exact .fault hpc (howner ▸ hmutex)
  case h_3 task hpc =>
    obtain ⟨q, hq, rfl⟩ := Option.map_eq_some_iff.mp hs
    exact .push hpc hq
  case h_4 hpc =>
    cases hs
    exact .notify hpc
  case h_5 hpc =>
    cases hs
    exact .unlock hpc

/-- The steps of a timer. -/
inductive Move (s : State Time A) : Action Time A → State Time A → Prop
  | tick {now : Time} (hle : s.clock ≤ now) : Move s (.tick now) { s with clock := now }
  | addTask {t : Thread A} (executeTime : Time) (cancel : Bool) (huser : s.inUserCode t = true)
      (hadd : s.adds t = .idle) : Move s (.addTask t executeTime cancel)
        { s.setAdd t (.lock ⟨executeTime, s.calls, cancel⟩) with calls := s.calls + 1 }
  | add {t : Thread A} {items : List (Task Time)} {s' : State Time A} (hm : AddMove s t s') :
      Move s (.add t items) s'
  | run {items : List (Task Time)} {s' : State Time A} (hm : RunMove s s') : Move s (.run items) s'
  | stop {items : List (Task Time)} {s' : State Time A} (hm : StopMove s s') :
      Move s (.stop items) s'
  | wake (hpc : s.run = .wait ∨ s.run = .waitUntil) : Move s .wake { s with run := .woken }
  | raiseRun {task} (hpc : s.run = .callback task) (hadd : s.adds .runner = .idle) :
      Move s (.raise .runner) { s with run := .relock }
  | raiseStop {task} (hpc : s.stop = .cancel task) (hadd : s.adds .stopper = .idle) :
      Move s (.raise .stopper) { s with mMutex := none, stop := .thrown }

lemma step_move {a : Action Time A} (hs : step s a = some s') : Move s a s' := by
  cases a with
  | tick now =>
    simp only [step] at hs
    split at hs <;> cases hs
    exact .tick ‹_›
  | addTask t executeTime cancel =>
    simp only [step, addTask] at hs
    split at hs <;> cases hs
    rename_i huser
    exact .addTask executeTime cancel huser.1 huser.2
  | add t items => exact .add (addStep_move hs)
  | run items => exact .run (runStep_move hs)
  | stop items => exact .stop (stopStep_move hs)
  | wake =>
    simp only [step] at hs
    split at hs <;> cases hs <;> rename_i hpc
    · exact .wake (Or.inl hpc)
    · exact .wake (Or.inr hpc)
  | raise t =>
    simp only [step, raise] at hs
    split at hs
    · rename_i huser
      obtain ⟨huser, hadd⟩ := huser
      cases t with
      | runner =>
        cases hs
        obtain ⟨task, hpc⟩ := callback_of_inUserCode huser
        exact .raiseRun hpc hadd
      | stopper =>
        cases hs
        obtain ⟨task, hpc⟩ := cancel_of_inUserCode huser
        exact .raiseStop hpc hadd
      | adder a => cases hs
    · cases hs

lemma holds_setAdd_ne {pc : AddPc Time} (hadds : s'.adds = (s.setAdd t pc).adds)
    (hrun : s'.run = s.run) (hstop : s'.stop = s.stop) (hu : u ≠ t) : s'.holds u = s.holds u := by
  cases u <;> simp [State.holds, hadds, hrun, hstop, State.setAdd, Function.update_of_ne hu]

/-- Thread `t` moves inside `add_task`, once the mutex is settled. -/
lemma Owned.setAdd (h : Owned s) {pc : AddPc Time}
    (hrunner : t = .runner → pc ≠ .idle → ∃ task, s.run = .callback task)
    (hstopper : t = .stopper → pc ≠ .idle →
      (∃ task, s.stop = .cancel task) ∧ ∃ task, pc = .lock task)
    (hadds : s'.adds = (s.setAdd t pc).adds) (hrun : s'.run = s.run) (hstop : s'.stop = s.stop)
    (hlocked : Locked s'.mMutex fun u => s'.holds u = true) :
    Owned s' := by
  refine ⟨hlocked, ?_, ?_⟩
  · rw [hadds, hrun]
    intro hadd
    by_cases ht : t = .runner
    · subst ht
      apply hrunner rfl
      simpa [State.setAdd] using hadd
    · simp only [State.setAdd, Function.update_of_ne (Ne.symm ht)] at hadd
      exact h.runner hadd
  · rw [hadds, hstop]
    intro hadd
    by_cases ht : t = .stopper
    · subst ht
      simp only [State.setAdd, Function.update_self] at hadd ⊢
      exact hstopper rfl hadd
    · simp only [State.setAdd, Function.update_of_ne (Ne.symm ht)] at hadd ⊢
      exact h.stopper hadd

/-- A step of `add_task` with the mutex. -/
lemma Owned.add (h : Owned s) {pc : AddPc Time} (hadd : s.adds t ≠ .idle) (ht : t ≠ .stopper)
    (hadds : s'.adds = (s.setAdd t pc).adds) (hrun : s'.run = s.run) (hstop : s'.stop = s.stop)
    (hlocked : Locked s'.mMutex fun u => s'.holds u = true) :
    Owned s' := by
  refine h.setAdd ?_ (fun hts => absurd hts ht) hadds hrun hstop hlocked
  rintro rfl -
  exact h.runner hadd

lemma Owned.add_keep (h : Owned s) {pc : AddPc Time} (hadd : (s.adds t).holds = true)
    (hpc : pc.holds = true) (hadds : s'.adds = (s.setAdd t pc).adds) (hrun : s'.run = s.run)
    (hstop : s'.stop = s.stop) (hmutex : s'.mMutex = s.mMutex) :
    Owned s' := by
  have ht := h.ne_stopper hadd
  have hbusy := AddPc.ne_idle_of_holds hadd
  have hself : s'.adds t = pc := by simp [hadds, State.setAdd]
  apply h.add hbusy ht hadds hrun hstop
  rw [hmutex]
  apply h.locked.keep (t := t)
  · rw [h.holds_adding hbusy ht hrun, h.holds_adding hbusy ht rfl, hself, hadd, hpc]
  · intro u hu
    rw [holds_setAdd_ne hadds hrun hstop hu]

lemma Owned.add_acquire (h : Owned s) {task : Task Time} (hpc : s.adds t = .lock task)
    (hfree : s.mMutex = none) (hadds : s'.adds = (s.setAdd t (.push task)).adds)
    (hrun : s'.run = s.run) (hstop : s'.stop = s.stop)
    (hmutex : s'.mMutex = some t) : Owned s' := by
  have hbusy : s.adds t ≠ .idle := by simp [hpc]
  have hlocked := h.locked
  rw [hfree] at hlocked
  -- a cancel function runs with the mutex held
  have ht : t ≠ .stopper := by
    rintro rfl
    obtain ⟨⟨task, htask⟩, -⟩ := h.stopper hbusy
    have hholds : s.holds .stopper = true := by simp [State.holds, htask, StopPc.holds]
    cases (hlocked .stopper).mpr hholds
  apply h.add hbusy ht hadds hrun hstop
  rw [hmutex]
  apply hlocked.acquire
  · rw [h.holds_adding hbusy ht hrun, hadds]
    simp [State.setAdd, AddPc.holds]
  · intro u hu
    rw [holds_setAdd_ne hadds hrun hstop hu]

lemma Owned.add_release (h : Owned s) (hpc : s.adds t = .unlock)
    (hadds : s'.adds = (s.setAdd t .idle).adds) (hrun : s'.run = s.run)
    (hstop : s'.stop = s.stop) (hmutex : s'.mMutex = none) :
    Owned s' := by
  have hbusy : s.adds t ≠ .idle := by simp [hpc]
  have ht : t ≠ .stopper := h.ne_stopper (by rw [hpc]; rfl)
  apply h.add hbusy ht hadds hrun hstop
  rw [hmutex]
  apply h.locked.release (t := t)
  · rw [h.holds_adding hbusy ht rfl, hpc]
    rfl
  · rw [h.holds_adding hbusy ht hrun, hadds]
    simp [State.setAdd, AddPc.holds]
  · intro u hu
    rw [holds_setAdd_ne hadds hrun hstop hu]

lemma Owned.addMove (h : Owned s) (hm : AddMove s t s') : Owned s' := by
  cases hm with
  | lock hpc hmutex => exact h.add_acquire hpc hmutex rfl rfl rfl rfl
  | fault => exact ⟨h.locked, h.runner, h.stopper⟩
  | push hpc _ => exact h.add_keep (by rw [hpc]; rfl) rfl rfl rfl rfl rfl
  | notify hpc =>
    have hpc' : s.notify.adds t = .notify := by rw [notify_eq]; exact hpc
    exact h.notify.add_keep (by rw [hpc']; rfl) rfl rfl rfl rfl rfl
  | unlock hpc => exact h.add_release hpc rfl rfl rfl rfl

/-- A new call of `add_task`. -/
lemma Owned.add_call (h : Owned s) {task : Task Time} (huser : s.inUserCode t = true)
    (hidle : s.adds t = .idle) (hadds : s'.adds = (s.setAdd t (.lock task)).adds)
    (hrun : s'.run = s.run) (hstop : s'.stop = s.stop)
    (hmutex : s'.mMutex = s.mMutex) : Owned s' := by
  have hself : (s'.adds t).holds = (s.adds t).holds := by
    simp [hadds, State.setAdd, hidle, AddPc.holds]
  refine h.setAdd ?_ ?_ hadds hrun hstop ?_
  · rintro rfl -
    exact callback_of_inUserCode huser
  · rintro rfl -
    exact ⟨cancel_of_inUserCode huser, task, rfl⟩
  · rw [hmutex]
    apply h.locked.keep (t := t)
    · cases t <;> simp only [State.holds, hself, hrun, hstop]
    · intro u hu
      rw [holds_setAdd_ne hadds hrun hstop hu]

theorem Owned.step (h : Owned s) {a : Action Time A} (hs : step s a = some s') : Owned s' := by
  cases step_move hs with
  | tick => exact ⟨h.locked, h.runner, h.stopper⟩
  | addTask _ _ huser hadd => exact h.add_call huser hadd rfl rfl rfl rfl
  | add hm => exact h.addMove hm
  | run hm => exact h.runMove hm
  | stop hm => exact h.stopMove hm
  | wake hpc =>
    have hidle : s.adds .runner = .idle := by
      rcases hpc with hpc | hpc <;> exact h.runner_idle (by simp [hpc])
    exact h.run_keep hidle (by rcases hpc with hpc | hpc <;> rw [hpc] <;> rfl) rfl rfl rfl
  | raiseRun hpc hadd => exact h.run_keep hadd (by rw [hpc]; rfl) rfl rfl rfl
  | raiseStop hpc hadd => exact h.stop_release hadd (by rw [hpc]; rfl) rfl rfl rfl rfl

lemma State.StopSet.step (h : s.StopSet) {a : Action Time A} (hs : step s a = some s') :
    s'.StopSet := by
  cases step_move hs with
  | tick | addTask | wake | raiseRun => exact h.congr rfl rfl
  | add hm =>
    cases hm with
    | notify => exact h.notify.congr rfl rfl
    | lock | fault | push | unlock => exact h.congr rfl rfl
  | run hm => cases hm <;> exact h.congr rfl rfl
  | stop hm => exact h.stopMove hm
  | raiseStop hpc =>
    unfold State.StopSet at h
    simpa [State.StopSet, hpc] using h

theorem Inv.step (h : Inv s) {a : Action Time A} (hs : step s a = some s') : Inv s' :=
  ⟨h.owned.step hs, h.mStop.step hs⟩

theorem reaches_inv {now : Time} {C : State Time A → Action Time A → Prop}
    (h : (system A now).Reaches C s) : Inv s :=
  h.invariant (inv_init now) fun _ _ _ _ hinv _ hs => hinv.step hs

end

end Scoro.Timer

import Scoro.Lib.Counting
import Scoro.Looper.Invariant

/-!
# Stopping a looper

`run` looks at `m_stop` only at the top of its outer loop, and `submit` does nothing once it is
set. If `stop` gets the mutex while a coroutine is being resumed, the worker finds an empty queue
after that and waits, and nobody notifies it any more. Otherwise `run` returns.
-/

namespace Scoro.Looper
open Scoro.Lib

/-- The worker is in a resumed coroutine, or has not locked the mutex again since. -/
def RunPc.resuming {H : Type*} : RunPc H → Bool
  | .resume _ | .relock => true
  | .lock | .testStop | .testEmpty | .unlock _ | .beginWait | .wait | .woken | .leave
  | .returned => false

/-- The worker tests `m_stop` before it waits again, or has done so. -/
def RunPc.leaving {H : Type*} : RunPc H → Bool
  | .lock | .woken | .testStop | .leave | .returned => true
  | .testEmpty | .unlock _ | .resume _ | .relock | .beginWait | .wait => false

section
variable {H A : Type*} {s s' : State H A} {t : Option A}

/-- `stop` has returned, no thread is in `submit`, and the worker waits. -/
def State.Hung (s : State H A) : Prop :=
  s.stop = .returned ∧ (∀ t, s.submits t = .idle) ∧ s.run = .wait

/-- `stop` has returned, no thread is in `submit`, and `run` has returned. -/
def State.Joined (s : State H A) : Prop :=
  s.stop = .returned ∧ (∀ t, s.submits t = .idle) ∧ s.run = .returned

/-- `stop` gets the mutex while the worker is in a resumed coroutine or comes back from it. -/
def StopsResume (s : State H A) : Action H A → Prop
  | .stop => s.stop = .lock ∧ s.run.resuming = true
  | .callSubmit _ _ | .submit _ | .run | .wake | .raise => False

def NoStopInResume (s : State H A) (a : Action H A) : Prop := ¬StopsResume s a

instance (a : Action H A) : Decidable (StopsResume s a) :=
  match a with
  | .stop => inferInstanceAs (Decidable (_ ∧ _))
  | .callSubmit _ _ | .submit _ | .run | .wake | .raise => .isFalse id

instance (a : Action H A) : Decidable (NoStopInResume s a) := inferInstanceAs (Decidable (¬_))

/-- The steps that are bound to come: those of calls in progress. -/
def Bound (_ : State H A) : Action H A → Prop
  | .submit _ | .run | .stop | .raise => True
  | .callSubmit _ _ | .wake => False

/-- The wait does not end spuriously. -/
def NoWake (_ : State H A) : Action H A → Prop
  | .wake => False
  | .callSubmit _ _ | .submit _ | .run | .stop | .raise => True

instance (a : Action H A) : Decidable (NoWake s a) :=
  match a with
  | .wake => .isFalse id
  | .callSubmit _ _ | .submit _ | .run | .stop | .raise => .isTrue trivial

lemma Bound.noWake {a : Action H A} (ha : Bound s a) : NoWake s a := by
  cases a <;> first | exact trivial | exact ha.elim

/-- Once `stop` has the mutex the worker is on its way out, or waits for the notify to come. -/
def State.Leaving (s : State H A) : Prop :=
  s.stop ≠ .lock → s.run.leaving = true ∨ s.run = .wait ∧ s.stop ≠ .unlock ∧ s.stop ≠ .returned

/-- `stop` has the mutex or has returned, and the worker does not test `m_stop` again. -/
def State.Doomed (s : State H A) : Prop :=
  s.stop ≠ .lock ∧ (s.run.resuming = true ∨
    s.stop = .returned ∧ (s.run = .testEmpty ∨ s.run = .beginWait ∨ s.run = .wait))

lemma State.Leaving.not_hung (h : s.Leaving) : ¬s.Hung := by
  rintro ⟨hstop, -, hrun⟩
  rcases h (by simp [hstop]) with hleaving | ⟨-, -, hnot⟩
  · simp [hrun, RunPc.leaving] at hleaving
  · exact hnot hstop

lemma State.Doomed.run_ne_returned (h : s.Doomed) : s.run ≠ .returned := by
  intro hrun
  rcases h.2 with hresuming | ⟨-, hpc⟩
  · simp [hrun, RunPc.resuming] at hresuming
  · simp [hrun] at hpc

/-- `stop` is at work on the looper only while it has the mutex. -/
lemma Inv.stop_returned (h : Inv s) (hstop : s.stop ≠ .lock)
    (hmutex : s.mMutex = none ∨ s.run.holds = true) : s.stop = .returned := by
  have hnot : s.stop.holds ≠ true := by
    intro hholds
    have howner : s.mMutex = some .stop := (h.locked .stop).mpr hholds
    rcases hmutex with hnone | hrun
    · rw [hnone] at howner
      cases howner
    · have hrun' : s.mMutex = some .run := (h.locked .run).mpr hrun
      rw [howner] at hrun'
      cases hrun'
  cases hpc : s.stop with
  | lock => exact absurd hpc hstop
  | returned => rfl
  | setStop | testEmpty | notify | unlock => simp [hpc, StopPc.holds] at hnot

lemma Inv.mStop_of_returned (h : Inv s) (hstop : s.stop = .returned) : s.mStop = true :=
  h.mStop.mpr (by simp [hstop])

/-! ### The worker leaves -/

lemma State.Leaving.runMove (h : s.Leaving) (hinv : Inv s) (hm : RunMove s s') : s'.Leaving := by
  intro hstop
  rw [hm.frame.1] at hstop ⊢
  have hold := h hstop
  cases hm with
  | lock | stopped | leave => exact Or.inl rfl
  | testStop hpc hset =>
    have hret := hinv.stop_returned hstop (Or.inr (by rw [hpc]; rfl))
    rw [hinv.mStop_of_returned hret] at hset
    cases hset
  | empty hpc | pop hpc | unlock hpc | resume hpc | relock hpc | wait hpc =>
    simp [hpc, RunPc.leaving] at hold

lemma State.Leaving.stopMove (h : s.Leaving) (hinv : Inv s) (hC : NoStopInResume s .stop)
    (hm : StopMove s s') : s'.Leaving := by
  intro _
  cases hm with
  | lock hpc hmutex =>
    have hholds : s.run.holds ≠ true := by
      intro hholds
      have howner : s.mMutex = some .run := (hinv.locked .run).mpr hholds
      rw [hmutex] at howner
      cases howner
    cases hrun : s.run with
    | lock | woken | returned => exact Or.inl rfl
    | wait => exact Or.inr ⟨rfl, by simp, by simp⟩
    | resume | relock => exact absurd ⟨hpc, by simp [hrun, RunPc.resuming]⟩ hC
    | testStop | testEmpty | unlock | beginWait | leave => simp [hrun, RunPc.holds] at hholds
  | setStop hpc | drained hpc | destroy hpc =>
    rcases h (by simp [hpc]) with hleaving | ⟨hwait, -, -⟩
    · exact Or.inl hleaving
    · exact Or.inr ⟨hwait, by simp [hpc], by simp [hpc]⟩
  | notify hpc =>
    left
    rcases notify_run s with ⟨heq, hne⟩ | ⟨-, heq⟩
    · rcases h (by simp [hpc]) with hleaving | ⟨hwait, -, -⟩
      · rw [heq]
        exact hleaving
      · exact absurd hwait hne
    · rw [heq]
      rfl
  | unlock hpc =>
    rcases h (by simp [hpc]) with hleaving | ⟨-, hnot, -⟩
    · exact Or.inl hleaving
    · exact absurd hpc hnot

/-! ### The worker waits for ever -/

lemma State.Doomed.runMove (h : s.Doomed) (hinv : Inv s) (hm : RunMove s s') : s'.Doomed := by
  obtain ⟨hstop, hrun⟩ := h
  refine ⟨by rwa [hm.frame.1], ?_⟩
  rw [hm.frame.1]
  cases hm with
  | resume => exact Or.inl rfl
  | relock hpc hmutex =>
    exact Or.inr ⟨hinv.stop_returned hstop (Or.inl hmutex), Or.inl rfl⟩
  | empty hpc htasks =>
    exact Or.inr ⟨hinv.stop_returned hstop (Or.inr (by rw [hpc]; rfl)), Or.inr (Or.inl rfl)⟩
  | wait hpc =>
    exact Or.inr ⟨hinv.stop_returned hstop (Or.inr (by rw [hpc]; rfl)), Or.inr (Or.inr rfl)⟩
  | pop hpc htasks =>
    have hret := hinv.stop_returned hstop (Or.inr (by rw [hpc]; rfl))
    rw [hinv.drained (Or.inr (Or.inr hret))] at htasks
    cases htasks
  | lock hpc => rcases hpc with hpc | hpc <;> simp [hpc, RunPc.resuming] at hrun
  | stopped hpc | testStop hpc | unlock hpc | leave hpc => simp [hpc, RunPc.resuming] at hrun

lemma State.Doomed.stopMove (h : s.Doomed) (hm : StopMove s s') : s'.Doomed := by
  obtain ⟨hstop, hrun⟩ := h
  cases hm with
  | lock hpc => exact absurd hpc hstop
  | notify hpc =>
    have hresuming : s.run.resuming = true := by simpa [hpc] using hrun
    refine ⟨by simp, Or.inl ?_⟩
    rcases notify_run s with ⟨heq, -⟩ | ⟨hwait, -⟩
    · rw [heq]
      exact hresuming
    · simp [hwait, RunPc.resuming] at hresuming
  | setStop hpc | drained hpc | destroy hpc | unlock hpc =>
    have hresuming : s.run.resuming = true := by simpa [hpc] using hrun
    exact ⟨by simp [hpc], Or.inl hresuming⟩

end

section
variable {H A : Type*} [DecidableEq A] {s s' : State H A} {t : Option A}

lemma State.Leaving.submitMove (h : s.Leaving) (hm : SubmitMove s t s') : s'.Leaving := by
  cases hm with
  | notify =>
    intro hstop
    have hstop' : s.notify.stop = s.stop := by rw [notify_eq]
    rcases notify_run s with ⟨heq, -⟩ | ⟨-, heq⟩
    · change s.notify.run.leaving = true ∨
        s.notify.run = .wait ∧ s.notify.stop ≠ .unlock ∧ s.notify.stop ≠ .returned
      rw [heq, hstop']
      exact h (by rwa [← hstop'])
    · left
      change s.notify.run.leaving = true
      rw [heq]
      rfl
  | lock | stopped | testStop | push | unlock => exact h

/-- Once `stop` has returned no call of `submit` makes a notify. -/
lemma State.Doomed.submitMove (h : s.Doomed) (hinv : Inv s) (hm : SubmitMove s t s') :
    s'.Doomed := by
  cases hm with
  | notify hpc =>
    have hset : s.mStop = false := hinv.accepted t (by rw [hpc]; rfl)
    have hnot : s.stop ≠ .returned := by
      intro hstop
      rw [hinv.mStop_of_returned hstop] at hset
      cases hset
    have hresuming : s.run.resuming = true := by
      rcases h.2 with hresuming | ⟨hstop, -⟩
      · exact hresuming
      · exact absurd hstop hnot
    have heq : s.notify = s := by
      rw [notify_eq]
      rcases notify_run s with ⟨heq, -⟩ | ⟨hwait, -⟩
      · rw [heq]
      · simp [hwait, RunPc.resuming] at hresuming
    rw [heq]
    exact h
  | lock | stopped | testStop | push | unlock => exact h

/-! ### Steps in progress come to an end -/

def SubmitPc.weight : SubmitPc H → ℕ
  | .idle => 0
  | .unlock => 1
  | .notify => 6
  | .push _ => 11
  | .testStop _ => 12
  | .lock _ => 13

def RunPc.weight : RunPc H → ℕ
  | .wait | .returned => 0
  | .leave | .beginWait => 1
  | .testEmpty => 2
  | .testStop | .relock => 3
  | .lock | .woken | .resume _ => 4
  | .unlock _ => 5

def StopPc.weight : StopPc → ℕ
  | .returned => 0
  | .unlock => 1
  | .notify => 6
  | .testEmpty => 7
  | .setStop => 8
  | .lock => 9

/-- A bound on the steps left of the calls in progress. -/
def State.work [Fintype A] (s : State H A) : ℕ :=
  4 * s.mTasks.length + s.run.weight + s.stop.weight + ∑ t, (s.submits t).weight

omit [DecidableEq A] in
lemma work_runMove [Fintype A] (hm : RunMove s s') : s'.work < s.work := by
  unfold State.work
  cases hm with
  | lock hpc => rcases hpc with hpc | hpc <;> simp only [hpc, RunPc.weight] <;> omega
  | pop hpc htasks =>
    simp only [hpc, htasks, RunPc.weight, List.length_cons]
    omega
  | stopped hpc | testStop hpc | empty hpc | unlock hpc | resume hpc | relock hpc | wait hpc
  | leave hpc =>
    simp only [hpc, RunPc.weight]
    omega

omit [DecidableEq A] in
lemma work_notify [Fintype A] (s : State H A) : s.notify.work ≤ s.work + 4 := by
  rw [notify_eq]
  simp only [State.work]
  rcases notify_run s with ⟨heq, -⟩ | ⟨-, heq⟩
  · rw [heq]
    omega
  · rw [heq]
    simp only [RunPc.weight]
    omega

omit [DecidableEq A] in
lemma work_stopMove [Fintype A] (hm : StopMove s s') : s'.work < s.work := by
  cases hm with
  | notify hpc =>
    have hle := work_notify s
    rw [notify_eq] at hle ⊢
    simp only [State.work, hpc, StopPc.weight] at hle ⊢
    omega
  | destroy hpc htasks =>
    simp only [State.work, hpc, htasks, List.length_cons]
    omega
  | lock hpc | setStop hpc | drained hpc | unlock hpc =>
    simp only [State.work, hpc, StopPc.weight]
    omega

lemma work_setSubmit [Fintype A] (s : State H A) (t : Option A) (pc : SubmitPc H) :
    (s.setSubmit t pc).work + (s.submits t).weight = s.work + pc.weight := by
  have hsum := sum_update SubmitPc.weight s.submits t pc
  simp only [State.work, State.setSubmit]
  omega

lemma work_submitMove [Fintype A] (hm : SubmitMove s t s') : s'.work < s.work := by
  cases hm with
  | @lock handle hpc _ =>
    have hsum := work_setSubmit s t (.testStop handle)
    simp only [hpc, SubmitPc.weight] at hsum
    change (s.setSubmit t (.testStop handle)).work < s.work
    omega
  | @push handle hpc =>
    have hsum := work_setSubmit { s with mTasks := s.mTasks ++ [handle] } t .notify
    have hwork : ({ s with mTasks := s.mTasks ++ [handle] } : State H A).work = s.work + 4 := by
      simp only [State.work, List.length_append, List.length_singleton]
      omega
    simp only [hpc, SubmitPc.weight, hwork] at hsum
    change (({ s with mTasks := s.mTasks ++ [handle] } : State H A).setSubmit t .notify).work <
      s.work
    omega
  | notify hpc =>
    have hsum := work_setSubmit s.notify t .unlock
    have hle := work_notify s
    have hsubmits : s.notify.submits = s.submits := by rw [notify_eq]
    simp only [hsubmits, hpc, SubmitPc.weight] at hsum
    omega
  | stopped hpc =>
    have hsum := work_setSubmit s t .unlock
    simp only [hpc, SubmitPc.weight] at hsum
    omega
  | @testStop handle hpc _ =>
    have hsum := work_setSubmit s t (.push handle)
    simp only [hpc, SubmitPc.weight] at hsum
    omega
  | unlock hpc =>
    have hsum := work_setSubmit s t .idle
    simp only [hpc, SubmitPc.weight] at hsum
    change (s.setSubmit t .idle).work < s.work
    omega

end

section
variable {H A : Type*} [DecidableEq H] [DecidableEq A] {s s' : State H A} {t : Option A}

lemma State.Leaving.step (h : s.Leaving) (hinv : Inv s) {a : Action H A}
    (hC : NoStopInResume s a) (hs : step s a = some s') : s'.Leaving := by
  cases a with
  | callSubmit t handle =>
    obtain ⟨-, rfl⟩ := callSubmit_iff.mp hs
    exact h
  | submit t => exact h.submitMove (submitStep_move hs)
  | run => exact h.runMove hinv (runStep_move hs)
  | stop => exact h.stopMove hinv hC (stopStep_move hs)
  | wake =>
    simp only [Looper.step] at hs
    split at hs <;> cases hs
    exact fun _ => Or.inl rfl
  | raise => exact h.runMove hinv (raise_move hs)

lemma State.Doomed.step (h : s.Doomed) (hinv : Inv s) {a : Action H A} (ha : NoWake s a)
    (hs : step s a = some s') : s'.Doomed := by
  cases a with
  | callSubmit t handle =>
    obtain ⟨-, rfl⟩ := callSubmit_iff.mp hs
    exact h
  | submit t => exact h.submitMove hinv (submitStep_move hs)
  | run => exact h.runMove hinv (runStep_move hs)
  | stop => exact h.stopMove (stopStep_move hs)
  | wake => exact ha.elim
  | raise => exact h.runMove hinv (raise_move hs)

/-- A `stop` that comes during a resume dooms the worker. -/
lemma doomed_of_stopsResume {a : Action H A} (ha : StopsResume s a) (hs : step s a = some s') :
    s'.Doomed := by
  cases a with
  | stop =>
    obtain ⟨hpc, hrun⟩ := ha
    cases stopStep_move hs with
    | lock => exact ⟨by simp, Or.inl hrun⟩
    | setStop hpc' | drained hpc' | destroy hpc' | notify hpc' | unlock hpc' => simp [hpc] at hpc'
  | callSubmit | submit | run | wake | raise => exact ha.elim

theorem reaches_leaving (h : (system H A).Reaches NoStopInResume s) : s.Leaving := by
  apply h.invariant (fun hstop => absurd rfl hstop)
  exact fun _ _ _ run hleaving hC hs => hleaving.step (reaches_inv run) hC hs

/-! ### Something can always be done -/

lemma work_lt [Fintype A] {a : Action H A} (ha : Bound s a) (hs : step s a = some s') :
    s'.work < s.work := by
  cases a with
  | submit t => exact work_submitMove (submitStep_move hs)
  | run => exact work_runMove (runStep_move hs)
  | stop => exact work_stopMove (stopStep_move hs)
  | raise => exact work_runMove (raise_move hs)
  | callSubmit | wake => exact ha.elim

/-- A call that has the mutex can go on. -/
lemma exists_step_of_owner (h : Inv s) {c : Call A} (hmutex : s.mMutex = some c) :
    ∃ a s', Bound s a ∧ step s a = some s' := by
  have hholds := (h.locked c).mp hmutex
  cases c with
  | run =>
    refine ⟨.run, ?_⟩
    cases hpc : s.run with
    | testStop | unlock | beginWait | leave => simp [step, runStep, hpc, Bound]
    | testEmpty => cases htasks : s.mTasks <;> simp [step, runStep, hpc, htasks, Bound]
    | lock | resume | relock | wait | woken | returned =>
      simp [State.holds, hpc, RunPc.holds] at hholds
  | stop =>
    refine ⟨.stop, ?_⟩
    cases hpc : s.stop with
    | setStop | notify | unlock => simp [step, stopStep, hpc, Bound]
    | testEmpty => cases htasks : s.mTasks <;> simp [step, stopStep, hpc, htasks, Bound]
    | lock | returned => simp [State.holds, hpc, StopPc.holds] at hholds
  | submit t =>
    refine ⟨.submit t, ?_⟩
    cases hpc : s.submits t with
    | testStop | push | notify | unlock => simp [step, submitStep, hpc, Bound]
    | idle | lock => simp [State.holds, hpc, SubmitPc.holds] at hholds

/-- With the mutex free, whoever waits for it can go on. -/
lemma exists_step_of_free (h : Inv s) (hmutex : s.mMutex = none) (hhung : ¬s.Hung)
    (hjoined : ¬s.Joined) : ∃ a s', Bound s a ∧ step s a = some s' := by
  have hfree : ∀ c, s.holds c = false := by
    intro c
    by_contra hholds
    have howner := (h.locked c).mpr (Bool.eq_true_of_not_eq_false hholds)
    rw [hmutex] at howner
    cases howner
  by_cases hidle : ∀ t, s.submits t = .idle
  · by_cases hstop : s.stop = .returned
    · refine ⟨.run, ?_⟩
      have hholds := hfree .run
      cases hpc : s.run with
      | lock | woken | resume | relock => simp [step, runStep, hpc, hmutex, hidle none, Bound]
      | wait => exact absurd ⟨hstop, hidle, hpc⟩ hhung
      | returned => exact absurd ⟨hstop, hidle, hpc⟩ hjoined
      | testStop | testEmpty | unlock | beginWait | leave =>
        simp [State.holds, hpc, RunPc.holds] at hholds
    · refine ⟨.stop, ?_⟩
      have hholds := hfree .stop
      cases hpc : s.stop with
      | lock => simp [step, stopStep, hpc, hmutex, Bound]
      | returned => exact absurd hpc hstop
      | setStop | testEmpty | notify | unlock => simp [State.holds, hpc, StopPc.holds] at hholds
  · obtain ⟨t, ht⟩ := not_forall.mp hidle
    refine ⟨.submit t, ?_⟩
    have hholds := hfree (.submit t)
    cases hpc : s.submits t with
    | idle => exact absurd hpc ht
    | lock => simp [step, submitStep, hpc, hmutex, Bound]
    | testStop | push | notify | unlock => simp [State.holds, hpc, SubmitPc.holds] at hholds

lemma exists_step (h : Inv s) (hhung : ¬s.Hung) (hjoined : ¬s.Joined) :
    ∃ a s', Bound s a ∧ step s a = some s' := by
  cases hmutex : s.mMutex with
  | none => exact exists_step_of_free h hmutex hhung hjoined
  | some c => exact exists_step_of_owner h hmutex

/-- If `stop` does not get the mutex during a resume, it never leaves the worker in a wait
without end, and the worker can be joined once the resumed coroutines return. If it does, then
`run` returns only after a spurious wake-up, and the looper hangs once the calls in progress have
come to an end. -/
theorem looper_shutdown_iff [Fintype A] (h : (system H A).Reaches NoStopInResume s) :
    ¬s.Hung ∧ (system H A).Leads Bound NoStopInResume State.Joined s ∧
      ∀ a s', step s a = some s' → ¬NoStopInResume s a →
        (∀ as u, (system H A).exec NoWake s' as = some u → u.run ≠ .returned) ∧
          (system H A).Leads Bound (fun _ _ => True) State.Hung s' := by
  refine ⟨(reaches_leaving h).not_hung, ?_, fun a s' hs ha => ?_⟩
  · apply System.leads_of_measure (I := fun s => Inv s ∧ s.Leaving) State.work
    · rintro s ⟨hinv, hleaving⟩ hjoined
      exact exists_step hinv hleaving.not_hung hjoined
    · rintro s a s' ⟨hinv, hleaving⟩ - ha hC hs
      exact ⟨⟨hinv.step hs, hleaving.step hinv hC hs⟩, work_lt ha hs⟩
    · exact ⟨reaches_inv h, reaches_leaving h⟩
  · have hinv' : Inv s' := (reaches_inv h).step hs
    have hdoomed := doomed_of_stopsResume (not_not.mp ha) hs
    refine ⟨fun as u hu => ?_, ?_⟩
    · have hlast := System.exec_invariant (I := fun u => Inv u ∧ u.Doomed)
        (fun _ _ _ hu hC hs => ⟨hu.1.step hs, hu.2.step hu.1 hC hs⟩) ⟨hinv', hdoomed⟩ hu
      exact hlast.2.run_ne_returned
    · apply System.leads_of_measure (I := fun s => Inv s ∧ s.Doomed) State.work
      · rintro s ⟨hinv, hdoomed⟩ hhung
        exact exists_step hinv hhung fun hjoined => hdoomed.run_ne_returned hjoined.2.2
      · rintro s a s' ⟨hinv, hdoomed⟩ - ha - hs
        exact ⟨⟨hinv.step hs, hdoomed.step hinv ha.noWake hs⟩, work_lt ha hs⟩
      · exact ⟨hinv', hdoomed⟩

end

/-- `stop` comes and goes while the only coroutine is being resumed. -/
theorem looper_shutdown_hangs :
    ∃ s : State ℕ (Fin 1), (system ℕ (Fin 1)).Reachable s ∧ s.Hung :=
  System.exists_reaches (S := system ℕ (Fin 1)) (fun _ _ => True)
    (fun s => s.stop = .returned ∧ (∀ t, s.submits t = .idle) ∧ s.run = .wait)
    [.callSubmit (some 0) 7, .submit (some 0), .submit (some 0), .submit (some 0),
      .submit (some 0), .submit (some 0), .run, .run, .run, .run, .stop, .stop, .stop, .stop,
      .stop, .run, .run, .run, .run] (by decide)

/-- `stop` comes after a coroutine that submits another one, while the worker waits. -/
theorem looper_shutdown_joins : ∃ s : State ℕ (Fin 1), s.stop = .returned ∧
    s.resumed = [7, 8] ∧ s.run = .woken ∧ ¬s.Hung := by
  obtain ⟨s, hs, hstop, hresumed, hrun⟩ :=
    System.exists_reaches (S := system ℕ (Fin 1)) NoStopInResume
    (fun s => s.stop = .returned ∧ s.resumed = [7, 8] ∧ s.run = .woken)
    [.callSubmit (some 0) 7, .submit (some 0), .submit (some 0), .submit (some 0),
      .submit (some 0), .submit (some 0), .run, .run, .run, .run, .callSubmit none 8,
      .submit none, .submit none, .submit none, .submit none, .submit none, .raise, .run, .run,
      .run, .run, .run, .run, .run, .stop, .stop, .stop, .stop, .stop] (by decide)
  exact ⟨s, hstop, hresumed, hrun, (looper_shutdown_iff hs).1⟩

end Scoro.Looper

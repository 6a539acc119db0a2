import Scoro.Lib.Counting
import Scoro.Timer.Invariant

/-!
# Stopping a timer

`run` looks at `m_stop` only at the top of its outer loop. If `stop` has run during a callback,
the loop over the due tasks ends with an empty queue and `run` begins a wait that nobody ends.
Without such a late wait `run` returns after `stop`.
-/

namespace Scoro.Timer
open Scoro.Lib

section
variable {Time A : Type*} [LinearOrder Time] {s s' : State Time A}

/-- `stop` has returned, no thread is in `add_task`, and `run` is in the wait without timeout. -/
def State.Hung (s : State Time A) : Prop :=
  s.stop = .returned ∧ (∀ t, s.adds t = .idle) ∧ s.run = .wait

/-- The wait without timeout begins. -/
def BeginsWait (s : State Time A) : Action Time A → Prop
  | .run _ => s.run = .testEmpty ∧ s.mTasks.top = none
  | _ => False

/-- The wait without timeout does not begin with `m_stop` set and nobody in `add_task`. -/
def NoLateWait (s : State Time A) (a : Action Time A) : Prop :=
  ¬(BeginsWait s a ∧ s.mStop = true ∧ ∀ t, s.adds t = .idle)

instance (a : Action Time A) : Decidable (BeginsWait s a) :=
  match a with
  | .run _ => inferInstanceAs (Decidable (_ ∧ _))
  | .tick _ | .addTask _ _ _ | .add _ _ | .stop _ | .wake | .raise _ => .isFalse id

instance [Fintype A] (a : Action Time A) : Decidable (NoLateWait s a) :=
  inferInstanceAs (Decidable (¬(_ ∧ _ ∧ _)))

/-- The calls of `add_task` that have not made their `notify_one` yet. -/
def AddPc.willNotify : AddPc Time → Bool
  | .lock _ | .push _ | .notify => true
  | .idle | .unlock => false

/-- A wait after `m_stop` has been set is going to be ended by a notify. -/
def State.Covered (s : State Time A) : Prop :=
  s.run = .wait → s.mStop = true → s.stop = .notify ∨ ∃ t, (s.adds t).willNotify = true

lemma State.Covered.not_hung (h : s.Covered) (hinv : Inv s) : ¬s.Hung := by
  rintro ⟨hstop, hidle, hrun⟩
  have hmStop : s.mStop = true := hinv.mStop.mpr (Or.inr (Or.inr hstop))
  rcases h hrun hmStop with hnotify | ⟨t, ht⟩
  · rw [hstop] at hnotify
    cases hnotify
  · rw [hidle t] at ht
    cases ht

/-- Whoever is in `add_task` when `run` begins its wait has not made its notify. -/
lemma Inv.exists_willNotify (h : Inv s) {t : Thread A} (hpc : s.run = .testEmpty)
    (hadd : s.adds t ≠ .idle) : (s.adds t).willNotify = true := by
  have hrun : s.holds .runner = true := by simp [State.holds, hpc, RunPc.holds]
  have hne : t ≠ .runner := by
    rintro rfl
    exact hadd (h.owned.runner_idle (by simp [hpc]))
  cases hpc' : s.adds t with
  | idle => exact absurd hpc' hadd
  | unlock =>
    have hholds : s.holds t = true := by cases t <;> simp [State.holds, hpc', AddPc.holds]
    exact absurd (h.locked.unique hholds hrun) hne
  | lock | push | notify => rfl

lemma State.Covered.runMove (hinv : Inv s) {items : List (Task Time)}
    (hC : NoLateWait s (.run items)) (hm : RunMove s s') : s'.Covered := by
  cases hm with
  | wait hpc htop =>
    intro _ hmStop
    right
    by_contra hnone
    apply hC
    refine ⟨⟨hpc, htop⟩, hmStop, fun t => ?_⟩
    by_contra hadd
    exact hnone ⟨t, hinv.exists_willNotify hpc hadd⟩
  | _ => rintro ⟨⟩

lemma State.Covered.stopMove (h : s.Covered) (hinv : Inv s) (hm : StopMove s s') :
    s'.Covered := by
  have hmStop := hinv.mStop
  cases hm with
  | setStop => exact fun _ _ => Or.inl rfl
  | notify => exact fun hrun => absurd hrun (notify_run_ne_wait s)
  | unlock hpc =>
    intro hrun hset
    rcases h hrun hset with hnotify | ht
    · rw [hpc] at hnotify
      cases hnotify
    · exact Or.inr ht
  | lock hpc | drained hpc | cancel hpc | skip hpc | cancelRet hpc | pop hpc =>
    intro _ hset
    have hset := hmStop.mp hset
    simp [hpc] at hset

end

section
variable {Time A : Type*} [LinearOrder Time] [DecidableEq A] {s s' : State Time A}
  {items : List (Task Time)} {t u : Thread A}

lemma State.Covered.addMove (h : s.Covered) (hm : AddMove s t s') : s'.Covered := by
  cases hm with
  | lock => exact fun _ _ => Or.inr ⟨t, by simp [State.setAdd, AddPc.willNotify]⟩
  | fault => exact h
  | push => exact fun _ _ => Or.inr ⟨t, by simp [State.setAdd, AddPc.willNotify]⟩
  | notify => exact fun hrun => absurd hrun (notify_run_ne_wait s)
  | unlock hpc =>
    intro hrun hset
    rcases h hrun hset with hnotify | ⟨u, hu⟩
    · exact Or.inl hnotify
    · have hut : u ≠ t := by
        rintro rfl
        rw [hpc] at hu
        cases hu
      exact Or.inr ⟨u, by simpa [State.setAdd, Function.update_of_ne hut] using hu⟩

lemma State.Covered.step (h : s.Covered) (hinv : Inv s) {a : Action Time A}
    (hC : NoLateWait s a) (hs : step s a = some s') : s'.Covered := by
  cases step_move hs with
  | tick => exact h
  | @addTask t => exact fun _ _ => Or.inr ⟨t, by simp [State.setAdd, AddPc.willNotify]⟩
  | add hm => exact h.addMove hm
  | run hm => exact State.Covered.runMove hinv hC hm
  | stop hm => exact h.stopMove hinv hm
  | wake | raiseRun => rintro ⟨⟩
  | raiseStop hpc =>
    intro _ hset
    have hset := hinv.mStop.mp hset
    simp [hpc] at hset

theorem reaches_covered {now : Time} (h : (system A now).Reaches NoLateWait s) : s.Covered :=
  h.invariant (by rintro ⟨⟩) fun _ _ _ run hcov hC hs =>
    hcov.step (reaches_inv run) hC hs

/-! ### `run` returns -/

/-- The steps that are bound to come: those of `add_task` and `run`, and the timeout. -/
def Bound (s : State Time A) : Action Time A → Prop
  | .add _ _ | .run _ | .raise _ => True
  | .wake => s.run = .waitUntil
  | .tick _ | .addTask _ _ _ | .stop _ => False

def RunPc.weight : RunPc Time → ℕ
  | .unlock _ => 9
  | .callback _ => 8
  | .relock => 7
  | .testDue => 6
  | .testEmpty => 5
  | .wait | .waitUntil => 4
  | .lock | .woken => 3
  | .testStop => 2
  | .leave => 1
  | .returned => 0

def AddPc.weight : AddPc Time → ℕ
  | .lock _ => 14
  | .push _ => 13
  | .notify => 2
  | .unlock => 1
  | .idle => 0

/-- A bound on the steps left after `m_stop` has been set. -/
def State.work [Fintype A] (s : State Time A) : ℕ :=
  10 * s.mTasks.items.length + s.run.weight + ∑ t, (s.adds t).weight

omit [DecidableEq A] in
lemma work_runMove [Fintype A] (hmStop : s.mStop = true) (hm : RunMove s s') :
    s'.work < s.work := by
  unfold State.work
  cases hm with
  | lock hpc => rcases hpc with hpc | hpc <;> simp only [hpc, RunPc.weight] <;> omega
  | testStop _ hstop =>
    rw [hmStop] at hstop
    cases hstop
  | pop hpc _ _ hpop =>
    have hlen := PriorityQueue.pop_length hpop
    simp only [hpc, RunPc.weight]
    omega
  | stopped hpc | notDue hpc | unlock hpc | callback hpc | relock hpc | wait hpc | waitUntil hpc
  | again hpc | leave hpc =>
    simp only [hpc, RunPc.weight]
    omega

omit [DecidableEq A] in
lemma notify_weight_le (s : State Time A) : s.notify.run.weight ≤ s.run.weight := by
  rcases notify_run s with heq | ⟨hpc | hpc, heq⟩
  · rw [heq]
  · simp [heq, hpc, RunPc.weight]
  · simp [heq, hpc, RunPc.weight]

omit [DecidableEq A] in
/-- Outside `stop`, no thread locks the mutex twice. -/
lemma Inv.not_relock (h : Inv s) (hstop : s.stop = .returned) {task : Task Time}
    (hpc : s.adds t = .lock task) : s.mMutex ≠ some t :=
  h.owned.not_relock (h.owned.stopper_idle (by simp [hstop])) hpc

lemma work_setAdd [Fintype A] (s : State Time A) (t : Thread A) (pc : AddPc Time) :
    (s.setAdd t pc).work + (s.adds t).weight = s.work + pc.weight := by
  have hsum := sum_update AddPc.weight s.adds t pc
  simp only [State.work, State.setAdd]
  omega

lemma work_addMove [Fintype A] (h : Inv s) (hstop : s.stop = .returned) (hm : AddMove s t s') :
    s'.work < s.work := by
  cases hm with
  | @lock task hpc _ =>
    have hsum := work_setAdd s t (.push task)
    simp only [hpc, AddPc.weight] at hsum
    change (s.setAdd t (.push task)).work < s.work
    omega
  | fault hpc hmutex => exact absurd hmutex (h.not_relock hstop hpc)
  | @push task q items hpc hpush =>
    have hlen := (PriorityQueue.push_perm hpush).length_eq
    have hsum := work_setAdd { s with mTasks := q } t .notify
    have hwork : ({ s with mTasks := q } : State Time A).work = s.work + 10 := by
      simp only [State.work, hlen, List.length_cons]
      omega
    simp only [hpc, AddPc.weight, hwork] at hsum
    change (({ s with mTasks := q } : State Time A).setAdd t .notify).work < s.work
    omega
  | notify hpc =>
    have hsum := work_setAdd s.notify t .unlock
    have hadds : s.notify.adds = s.adds := by rw [notify_eq]
    have hwork : s.notify.work ≤ s.work := by
      have hle := notify_weight_le s
      rw [notify_eq]
      simp only [State.work]
      omega
    simp only [hadds, hpc, AddPc.weight] at hsum
    omega
  | unlock hpc =>
    have hsum := work_setAdd s t .idle
    simp only [hpc, AddPc.weight] at hsum
    change (s.setAdd t .idle).work < s.work
    omega

/-! ### Something can always be done -/

lemma taskCompare_irrefl (a : Task Time) : taskCompare a a = false := by simp [taskCompare]

lemma taskCompare_trans (a b c : Task Time) (hab : taskCompare a b = false)
    (hbc : taskCompare b c = false) : taskCompare a c = false := by
  simp only [taskCompare, decide_eq_false_iff_not, not_lt] at hab hbc ⊢
  exact hab.trans hbc

lemma taskCompare_asymm (a b : Task Time) (hab : taskCompare a b = true) :
    taskCompare b a = false := by
  simp only [taskCompare, decide_eq_true_eq, decide_eq_false_iff_not, not_lt] at hab ⊢
  exact hab.le

omit [DecidableEq A] in
/-- A thread in `run` that has the mutex, or finds it free, can go on. -/
lemma exists_runStep (hidle : s.adds .runner = .idle)
    (hmutex : s.run.holds = true ∨ s.mMutex = none) (hwait : s.run ≠ .wait)
    (hwaitUntil : s.run ≠ .waitUntil) (hreturned : s.run ≠ .returned) :
    ∃ items s', runStep s items = some s' := by
  cases hpc : s.run with
  | wait => exact absurd hpc hwait
  | waitUntil => exact absurd hpc hwaitUntil
  | returned => exact absurd hpc hreturned
  | lock | woken | relock =>
    have hfree : s.mMutex = none := by simpa [hpc, RunPc.holds] using hmutex
    exact ⟨[], by simp [runStep, hpc, hfree]⟩
  | testStop | unlock | leave => exact ⟨[], by simp [runStep, hpc]⟩
  | callback => exact ⟨[], by simp [runStep, hpc, hidle]⟩
  | testDue =>
    cases htop : s.mTasks.top with
    | none => exact ⟨[], by simp [runStep, hpc, htop]⟩
    | some task =>
      obtain ⟨items, q, hq⟩ :=
        PriorityQueue.exists_pop taskCompare_irrefl taskCompare_trans taskCompare_asymm htop
      by_cases hdue : task.executeTime ≤ s.clock
      · exact ⟨items, by simp [runStep, hpc, htop, hdue, hq]⟩
      · exact ⟨items, by simp [runStep, hpc, htop, hdue]⟩
  | testEmpty =>
    cases htop : s.mTasks.top with
    | none => exact ⟨[], by simp [runStep, hpc, htop]⟩
    | some task =>
      by_cases hlater : s.clock < task.executeTime
      · exact ⟨[], by simp [runStep, hpc, htop, hlater]⟩
      · exact ⟨[], by simp [runStep, hpc, htop, hlater]⟩

/-- A thread in `add_task` that has the mutex, or finds it free, can go on. -/
lemma exists_addStep (hadd : s.adds t ≠ .idle)
    (hmutex : (s.adds t).holds = true ∨ s.mMutex = none) :
    ∃ items s', addStep s t items = some s' := by
  cases hpc : s.adds t with
  | idle => exact absurd hpc hadd
  | lock task =>
    have hfree : s.mMutex = none := by simpa [hpc, AddPc.holds] using hmutex
    exact ⟨[], by simp [addStep, hpc, hfree]⟩
  | push task =>
    obtain ⟨items, q, hq⟩ :=
      s.mTasks.exists_push taskCompare_irrefl taskCompare_trans taskCompare_asymm task
    exact ⟨items, by simp [addStep, hpc, hq]⟩
  | notify | unlock => exact ⟨[], by simp [addStep, hpc]⟩

/-- After `stop` has returned, whoever has the mutex can go on. -/
lemma exists_step_of_owner (h : Inv s) (hstop : s.stop = .returned)
    (hmutex : s.mMutex = some t) : ∃ a s', Bound s a ∧ step s a = some s' := by
  have hholds := (h.locked t).mp hmutex
  by_cases hadd : (s.adds t).holds = true
  · obtain ⟨items, s', hs⟩ := exists_addStep (AddPc.ne_idle_of_holds hadd) (Or.inl hadd)
    exact ⟨.add t items, s', trivial, hs⟩
  · cases t with
    | runner =>
      have hrun : s.run.holds = true := by simpa [State.holds, hadd] using hholds
      have hne : s.run ≠ .wait ∧ s.run ≠ .waitUntil ∧ s.run ≠ .returned := by
        refine ⟨?_, ?_, ?_⟩ <;> intro hpc <;> simp [hpc, RunPc.holds] at hrun
      have hidle : s.adds .runner = .idle := by
        apply h.owned.runner_idle
        intro task hpc
        simp [hpc, RunPc.holds] at hrun
      obtain ⟨items, s', hs⟩ := exists_runStep hidle (Or.inl hrun) hne.1 hne.2.1 hne.2.2
      exact ⟨.run items, s', trivial, hs⟩
    | stopper => simp [State.holds, hadd, hstop, StopPc.holds] at hholds
    | adder a => exact absurd hholds hadd

/-- After `stop` has returned, something can be done until `run` has returned and nobody is in
`add_task`. -/
lemma exists_step_of_stopped (h : Inv s) (hcov : s.Covered) (hstop : s.stop = .returned)
    (hbusy : ¬(s.run = .returned ∧ ∀ t, s.adds t = .idle)) :
    ∃ a s', Bound s a ∧ step s a = some s' := by
  cases hmutex : s.mMutex with
  | some t => exact exists_step_of_owner h hstop hmutex
  | none =>
    by_cases hidle : ∀ t, s.adds t = .idle
    · have hreturned : s.run ≠ .returned := fun hpc => hbusy ⟨hpc, hidle⟩
      have hwait : s.run ≠ .wait := fun hpc => hcov.not_hung h ⟨hstop, hidle, hpc⟩
      by_cases hwaitUntil : s.run = .waitUntil
      · exact ⟨.wake, { s with run := .woken }, hwaitUntil, by simp [step, hwaitUntil]⟩
      · obtain ⟨items, s', hs⟩ :=
          exists_runStep (hidle .runner) (Or.inr hmutex) hwait hwaitUntil hreturned
        exact ⟨.run items, s', trivial, hs⟩
    · obtain ⟨t, ht⟩ := not_forall.mp hidle
      obtain ⟨items, s', hs⟩ := exists_addStep ht (Or.inr hmutex)
      exact ⟨.add t items, s', trivial, hs⟩

/-- After `stop` has returned, every step bound to come leaves less to do. -/
lemma work_lt [Fintype A] (h : Inv s) (hstop : s.stop = .returned) {a : Action Time A}
    (ha : Bound s a) (hs : step s a = some s') : s'.stop = .returned ∧ s'.work < s.work := by
  have hmStop : s.mStop = true := h.mStop.mpr (Or.inr (Or.inr hstop))
  cases step_move hs with
  | tick | addTask | stop => exact ha.elim
  | add hm =>
    refine ⟨?_, work_addMove h hstop hm⟩
    cases hm with
    | notify =>
      rw [notify_eq]
      exact hstop
    | lock | fault | push | unlock => exact hstop
  | run hm =>
    refine ⟨?_, work_runMove hmStop hm⟩
    cases hm <;> exact hstop
  | wake =>
    have hpc : s.run = .waitUntil := ha
    refine ⟨hstop, ?_⟩
    simp only [State.work, hpc, RunPc.weight]
    omega
  | raiseRun hpc =>
    refine ⟨hstop, ?_⟩
    simp only [State.work, hpc, RunPc.weight]
    omega
  | raiseStop hpc =>
    rw [hstop] at hpc
    cases hpc

/-- A hung timer is stuck: only a new call of `add_task` or a spurious wake-up changes it. -/
lemma State.Hung.stuck (h : s.Hung) {a : Action Time A} (ha : Bound s a) : step s a = none := by
  obtain ⟨hstop, hidle, hrun⟩ := h
  cases a with
  | tick | addTask | stop => exact ha.elim
  | add t items => simp [step, addStep, hidle t]
  | run items => simp [step, runStep, hrun]
  | wake =>
    rw [Bound, hrun] at ha
    cases ha
  | raise t =>
    cases t with
    | runner => simp [step, raise, State.inUserCode, hrun]
    | stopper => simp [step, raise, State.inUserCode, hstop]
    | adder a => simp [step, raise]

/-- A late wait leaves the timer hung. -/
lemma hung_of_lateWait (h : Inv s) {a : Action Time A} (ha : ¬NoLateWait s a)
    (hs : step s a = some s') : s'.Hung := by
  obtain ⟨hbegin, hmStop, hidle⟩ := not_not.mp ha
  cases a with
  | run items =>
    obtain ⟨hpc, htop⟩ := hbegin
    have hrun : s.holds .runner = true := by simp [State.holds, hpc, RunPc.holds]
    have hstop : s.stop = .returned := by
      -- the other two positions hold the mutex, which `run` has
      rcases h.mStop.mp hmStop with hstop | hstop | hstop
      · have hholds : s.holds .stopper = true := by simp [State.holds, hstop, StopPc.holds]
        cases h.locked.unique hholds hrun
      · have hholds : s.holds .stopper = true := by simp [State.holds, hstop, StopPc.holds]
        cases h.locked.unique hholds hrun
      · exact hstop
    simp only [step, runStep, hpc, htop, Option.some.injEq] at hs
    subst hs
    exact ⟨hstop, hidle, rfl⟩
  | tick | addTask | add | stop | wake | raise => exact hbegin.elim

/-- In a run without a late wait `stop` never leaves `run` in a wait without end, and after
`stop` has returned `run` returns once the calls of `add_task` are over. A late wait is just the
step that hangs the timer. -/
theorem timer_shutdown_iff [Fintype A] {now : Time} (h : (system A now).Reaches NoLateWait s) :
    ¬s.Hung ∧ (∀ a s', step s a = some s' → (s'.Hung ↔ ¬NoLateWait s a)) ∧
      (s.stop = .returned → (system A now).Leads Bound NoLateWait
        (fun s => s.run = .returned ∧ ∀ t, s.adds t = .idle) s) := by
  have hsafe : ∀ s, (system A now).Reaches NoLateWait s → ¬s.Hung := fun s hs =>
    (reaches_covered hs).not_hung (reaches_inv hs)
  refine ⟨hsafe s h, fun a s' hs => ⟨fun hhung hC => ?_, fun hC => ?_⟩, fun hstop => ?_⟩
  · exact hsafe s' (h.step hC hs) hhung
  · exact hung_of_lateWait (reaches_inv h) hC hs
  · apply System.leads_of_measure (I := fun s => (Inv s ∧ s.Covered) ∧ s.stop = .returned)
      State.work
    · rintro s ⟨⟨hinv, hcov⟩, hstop⟩ hbusy
      exact exists_step_of_stopped hinv hcov hstop hbusy
    · rintro s a s' ⟨⟨hinv, hcov⟩, hstop⟩ - ha hC hs
      obtain ⟨hstop', hlt⟩ := work_lt hinv hstop ha hs
      exact ⟨⟨⟨hinv.step hs, hcov.step hinv hC hs⟩, hstop'⟩, hlt⟩
    · exact ⟨⟨reaches_inv h, reaches_covered h⟩, hstop⟩

end

/-- `run` executes the only task, and `stop` comes and goes during its callback. -/
theorem timer_shutdown_hangs :
    ∃ s : State ℕ (Fin 1), (system (Fin 1) 0).Reachable s ∧ s.Hung :=
  System.exists_reaches (S := system (Fin 1) 0) (fun _ _ => True)
    (fun s => s.stop = .returned ∧ (∀ t, s.adds t = .idle) ∧ s.run = .wait)
    [.addTask (.adder 0) 0 false, .add (.adder 0) [], .add (.adder 0) [⟨0, 0, false⟩],
      .add (.adder 0) [], .add (.adder 0) [], .run [], .run [], .run [], .run [],
      .stop [], .stop [], .stop [], .stop [], .stop [], .run [], .run [], .run [], .run []]
    (by decide)

/-- `stop` comes after the callback, while `run` waits. -/
theorem timer_shutdown_stops : ∃ s : State ℕ (Fin 1), s.stop = .returned ∧
    s.started = [⟨0, 0, false⟩] ∧ s.run = .woken ∧ ¬s.Hung := by
  obtain ⟨s, hs, hstop, hstarted, hrun⟩ := System.exists_reaches (S := system (Fin 1) 0) NoLateWait
    (fun s => s.stop = .returned ∧ s.started = [⟨0, 0, false⟩] ∧ s.run = .woken)
    [.addTask (.adder 0) 0 false, .add (.adder 0) [], .add (.adder 0) [⟨0, 0, false⟩],
      .add (.adder 0) [], .add (.adder 0) [], .run [], .run [], .run [], .run [], .run [],
      .run [], .run [], .run [], .stop [], .stop [], .stop [], .stop [], .stop []] (by decide)
  exact ⟨s, hstop, hstarted, hrun, (timer_shutdown_iff hs).1⟩

end Scoro.Timer

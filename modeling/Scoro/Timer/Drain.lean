import Scoro.Timer.Accounting

/-!
# Tasks left behind

`stop` empties the queue once, and `add_task` does not look at `m_stop`. A task pushed after that
is executed if `run` is still in its loop over the due tasks. Otherwise it stays in the queue when
`run` has returned, and neither its callback nor its cancel function is ever called.
-/

namespace Scoro.Timer
open Scoro.Lib

/-- Whether the next step of a call of `add_task` pushes a task with a cancel function. -/
def AddPc.pushesCancel {Time : Type*} : AddPc Time → Bool
  | .push task => task.cancel
  | .idle | .lock _ | .notify | .unlock => false

section
variable {Time A : Type*} [LinearOrder Time] {s s' : State Time A} {t : Thread A}
  {task : Task Time}

/-- `run` and `stop` have returned and no call of `add_task` is in progress. -/
def State.Final (s : State Time A) : Prop :=
  s.run = .returned ∧ s.stop = .returned ∧ ∀ t, s.adds t = .idle

/-- `task` has a cancel function and is neither started nor cancelled. -/
structure State.Unserved (s : State Time A) (task : Task Time) : Prop where
  added : task ∈ s.added
  hasCancel : task.cancel = true
  started : task ∉ s.started
  cancelled : task ∉ s.cancelled

/-- `run` leaves its loop with such a task in the queue, or the task is pushed after that. -/
def Late (s : State Time A) : Action Time A → Prop
  | .run _ => s.run = .testStop ∧ s.mStop = true ∧ ∃ task ∈ s.mTasks.items, task.cancel = true
  | .add t _ => s.run = .returned ∧ (s.adds t).pushesCancel = true
  | .tick _ | .addTask _ _ _ | .stop _ | .wake | .raise _ => False

/-- No task with a cancel function is pushed after `run` has returned, and none is in the queue
when `run` leaves its loop. -/
def NoLateTask (s : State Time A) (a : Action Time A) : Prop := ¬Late s a

instance (a : Action Time A) : Decidable (Late s a) :=
  match a with
  | .run _ => inferInstanceAs (Decidable (_ ∧ _ ∧ _))
  | .add _ _ => inferInstanceAs (Decidable (_ ∧ _))
  | .tick _ | .addTask _ _ _ | .stop _ | .wake | .raise _ => .isFalse id

instance (a : Action Time A) : Decidable (NoLateTask s a) := inferInstanceAs (Decidable (¬_))

/-- `run` is past its last look at the queue. -/
def State.Left (s : State Time A) : Prop := s.run = .leave ∨ s.run = .returned

/-- No task with a cancel function is pending once `run` has left its loop. -/
def State.Drained (s : State Time A) : Prop :=
  s.Left → ∀ task ∈ s.mTasks.items, task.cancel = false

/-- `task` is in a queue that nobody looks at any more. -/
structure State.Abandoned (s : State Time A) (task : Task Time) : Prop where
  left : s.Left
  stop : s.stop = .returned
  pending : task ∈ s.mTasks.items
  hasCancel : task.cancel = true

/-! ### Where a task with a cancel function is -/

/-- A task with a cancel function that is not pending at the end has been served. -/
lemma Accounted.served (h : Accounted s) (hfinal : s.Final) (hadded : task ∈ s.added)
    (hcancel : task.cancel = true) (hpending : task ∉ s.mTasks.items) :
    task ∈ s.started ∨ task ∈ s.cancelled := by
  obtain ⟨hrun, hstop, -⟩ := hfinal
  have hbalance := h.balance (by simp [hstop]) task hcancel
  have hpos : 0 < s.added.count task := List.count_pos_iff.mpr hadded
  have hzero : s.mTasks.items.count task = 0 := List.count_eq_zero.mpr hpending
  simp only [hrun, hstop, RunPc.held, StopPc.cancelling, List.count_nil, hzero] at hbalance
  by_cases hstarted : task ∈ s.started
  · exact Or.inl hstarted
  · rw [List.count_eq_zero.mpr hstarted] at hbalance
    exact Or.inr (List.count_pos_iff.mp (by omega))

/-- A task that is pending after `stop` has returned is not served yet. -/
lemma Accounted.unserved (h : Accounted s) (hfresh : Fresh s) (hstop : s.stop = .returned)
    (hpending : task ∈ s.mTasks.items) (hcancel : task.cancel = true) : s.Unserved task := by
  have hpos : 0 < s.mTasks.items.count task := List.count_pos_iff.mpr hpending
  have hbalance := h.balance (by simp [hstop]) task hcancel
  have hone : s.added.count task ≤ 1 := List.nodup_iff_count_le_one.mp hfresh.added.of_map task
  simp only [hstop, StopPc.cancelling, List.count_nil] at hbalance
  refine ⟨List.count_pos_iff.mp (by omega), hcancel, ?_, ?_⟩
  · exact List.count_eq_zero.mp (by omega)
  · exact List.count_eq_zero.mp (by omega)

/-! ### Runs in which no task comes late -/

lemma notify_left (s : State Time A) : s.notify.Left ↔ s.Left := by
  unfold State.Left
  rcases notify_run s with heq | ⟨hpc | hpc, heq⟩
  · rw [heq]
  · simp [heq, hpc]
  · simp [heq, hpc]

lemma State.Drained.congr (h : s.Drained) (hleft : s'.Left → s.Left)
    (htasks : s'.mTasks = s.mTasks) : s'.Drained := by
  intro hl
  rw [htasks]
  exact h (hleft hl)

lemma State.Drained.runMove (h : s.Drained) {items : List (Task Time)}
    (hC : NoLateTask s (.run items)) (hm : RunMove s s') : s'.Drained := by
  cases hm with
  | stopped hpc hstop =>
    intro _ task htask
    by_contra hcancel
    exact hC ⟨hpc, hstop, task, htask, by simpa using hcancel⟩
  | leave hpc => exact fun _ => h (Or.inl hpc)
  | lock | testStop | pop | notDue | unlock | callback | relock | wait | waitUntil | again =>
    rintro (hl | hl) <;> cases hl

lemma State.Drained.stopMove (h : s.Drained) (hm : StopMove s s') : s'.Drained := by
  cases hm with
  | @pop q items _ hpop =>
    intro hl task htask
    apply h hl task
    cases htop : s.mTasks.top with
    | none =>
      rw [PriorityQueue.top_eq_none] at htop
      simp [PriorityQueue.pop, htop] at hpop
    | some top =>
      rw [(PriorityQueue.pop_perm hpop htop).mem_iff]
      exact List.mem_cons_of_mem top htask
  | notify =>
    rw [notify_eq]
    exact h.congr (notify_left s).mp rfl
  | lock | drained | cancel | skip | cancelRet | setStop | unlock => exact h.congr id rfl

/-- When a call of `add_task` pushes its task, `run` has not left its loop or has returned. -/
lemma Owned.run_of_push (h : Owned s) (hpc : s.adds t = .push task) (hleft : s.Left) :
    s.run = .returned := by
  rcases hleft with hrun | hrun
  · have hrunner : s.holds .runner = true := by simp [State.holds, hrun, RunPc.holds]
    have hholds : s.holds t = true := by cases t <;> simp [State.holds, hpc, AddPc.holds]
    have ht := h.locked.unique hholds hrunner
    obtain ⟨task, hcb⟩ := h.runner (by simp [← ht, hpc])
    rw [hrun] at hcb
    cases hcb
  · exact hrun

end

section
variable {Time A : Type*} [LinearOrder Time] [DecidableEq A] {s s' : State Time A}
  {t : Thread A} {task : Task Time}

lemma State.Drained.addMove (h : s.Drained) (hown : Owned s) {items : List (Task Time)}
    (hC : NoLateTask s (.add t items)) (hm : AddMove s t s') : s'.Drained := by
  cases hm with
  | @push task q items hpc hpush =>
    intro hleft a ha
    rw [(PriorityQueue.push_perm hpush).mem_iff, List.mem_cons] at ha
    rcases ha with rfl | ha
    · by_contra hcancel
      refine hC ⟨hown.run_of_push hpc hleft, ?_⟩
      simpa [hpc, AddPc.pushesCancel] using hcancel
    · exact h hleft a ha
  | notify =>
    rw [notify_eq]
    exact h.congr (notify_left s).mp rfl
  | lock | fault | unlock => exact h.congr id rfl

lemma State.Drained.step (h : s.Drained) (hown : Owned s) {a : Action Time A}
    (hC : NoLateTask s a) (hs : step s a = some s') : s'.Drained := by
  cases step_move hs with
  | tick | addTask | raiseStop => exact h.congr id rfl
  | add hm => exact h.addMove hown hC hm
  | run hm => exact h.runMove hC hm
  | stop hm => exact h.stopMove hm
  | wake | raiseRun => rintro (hl | hl) <;> cases hl

theorem reaches_drained {now : Time} (h : (system A now).Reaches NoLateTask s) : s.Drained := by
  apply h.invariant (by rintro (hl | hl) <;> cases hl)
  exact fun _ _ _ run hdrained hC hs => hdrained.step (reaches_inv run).owned hC hs

/-- One call of `stop` is a case of several. -/
lemma reaches_repeat {now : Time} {C : State Time A → Action Time A → Prop}
    (h : (system A now).Reaches C s) : (repeatSystem A now).Reachable s := by
  induction h with
  | init => exact .init
  | @step _ a _ _ _ hs ih => exact System.Reaches.step (a := RepeatAction.base a) ih trivial hs

/-! ### A task that comes late -/

omit [DecidableEq A] in
/-- `run` leaves its loop when `m_stop` is set. -/
lemma leftSet_runMove (h : s.Left → s.mStop = true) (hm : RunMove s s') :
    s'.Left → s'.mStop = true := by
  cases hm with
  | stopped _ hstop => exact fun _ => hstop
  | leave hpc => exact fun _ => h (Or.inl hpc)
  | lock | testStop | pop | notDue | unlock | callback | relock | wait | waitUntil | again =>
    rintro (hl | hl) <;> cases hl

lemma leftSet_step (h : s.Left → s.mStop = true) {a : Action Time A}
    (hs : step s a = some s') : s'.Left → s'.mStop = true := by
  cases step_move hs with
  | tick | addTask | raiseStop => exact h
  | add hm =>
    cases hm with
    | notify =>
      rw [notify_eq]
      exact fun hl => h ((notify_left s).mp hl)
    | lock | fault | push | unlock => exact h
  | run hm => exact leftSet_runMove h hm
  | stop hm =>
    cases hm with
    | setStop => exact fun _ => rfl
    | notify =>
      rw [notify_eq]
      exact fun hl => h ((notify_left s).mp hl)
    | lock | drained | cancel | skip | cancelRet | pop | unlock => exact h
  | wake | raiseRun => rintro (hl | hl) <;> cases hl

theorem reaches_leftSet {now : Time} {C : State Time A → Action Time A → Prop}
    (h : (system A now).Reaches C s) : s.Left → s.mStop = true := by
  apply h.invariant (by rintro (hl | hl) <;> cases hl)
  exact fun _ _ _ _ hset _ hs => leftSet_step hset hs

omit [DecidableEq A] in
/-- Once `m_stop` is set, `stop` has returned when another thread has the mutex. -/
lemma Inv.stop_returned (h : Inv s) (hset : s.mStop = true) (hholds : s.holds t = true)
    (ht : t ≠ .stopper) : s.stop = .returned := by
  have hstop := h.owned.stop_not_holds hholds ht
  rcases h.mStop.mp hset with hpc | hpc | hpc
  · simp [hpc, StopPc.holds] at hstop
  · simp [hpc, StopPc.holds] at hstop
  · exact hpc

/-- A late step abandons a task. -/
lemma exists_abandoned {now : Time} (h : (system A now).Reachable s) {a : Action Time A}
    (ha : Late s a) (hs : step s a = some s') : ∃ task, s'.Abandoned task := by
  have hinv := reaches_inv h
  cases a with
  | run items =>
    obtain ⟨hpc, hset, task, htask, hcancel⟩ := ha
    have hholds : s.holds .runner = true := by simp [State.holds, hpc, RunPc.holds]
    simp only [step, runStep, hpc, hset, if_true, Option.some.injEq] at hs
    subst hs
    exact ⟨task, Or.inl rfl, hinv.stop_returned hset hholds (by simp), htask, hcancel⟩
  | add t items =>
    obtain ⟨hrun, hpush⟩ := ha
    have hset := reaches_leftSet h (Or.inr hrun)
    cases hpc : s.adds t with
    | push task =>
      have hholds : s.holds t = true := by cases t <;> simp [State.holds, hpc, AddPc.holds]
      have ht := hinv.owned.ne_stopper (t := t) (by rw [hpc]; rfl)
      cases addStep_move hs with
      | @push task' q _ hpc' hq =>
        rw [hpc] at hpc'
        cases hpc'
        refine ⟨task, Or.inr hrun, hinv.stop_returned hset hholds ht, ?_, ?_⟩
        · rw [(PriorityQueue.push_perm hq).mem_iff]
          exact List.mem_cons_self
        · simpa [hpc, AddPc.pushesCancel] using hpush
      | lock hpc' | fault hpc' | notify hpc' | unlock hpc' => simp [hpc] at hpc'
    | idle | lock | notify | unlock => simp [hpc, AddPc.pushesCancel] at hpush
  | tick | addTask | stop | wake | raise => exact ha.elim

/-- An abandoned task stays so. -/
lemma State.Abandoned.step (h : s.Abandoned task) {a : Action Time A}
    (hs : step s a = some s') : s'.Abandoned task := by
  obtain ⟨hleft, hstop, hpending, hcancel⟩ := h
  cases step_move hs with
  | tick | addTask => exact ⟨hleft, hstop, hpending, hcancel⟩
  | add hm =>
    cases hm with
    | push _ hpush =>
      refine ⟨hleft, hstop, ?_, hcancel⟩
      rw [(PriorityQueue.push_perm hpush).mem_iff]
      exact List.mem_cons_of_mem _ hpending
    | notify =>
      rw [notify_eq]
      exact ⟨(notify_left s).mpr hleft, hstop, hpending, hcancel⟩
    | lock | fault | unlock => exact ⟨hleft, hstop, hpending, hcancel⟩
  | run hm =>
    cases hm with
    | leave => exact ⟨Or.inr rfl, hstop, hpending, hcancel⟩
    | lock hpc => rcases hleft with hl | hl <;> rcases hpc with hpc | hpc <;> simp [hl] at hpc
    | stopped hpc | testStop hpc | pop hpc | notDue hpc | unlock hpc | callback hpc | relock hpc
    | wait hpc | waitUntil hpc | again hpc =>
      rcases hleft with hl | hl <;> simp [hl] at hpc
  | stop => simp [Timer.step, stopStep, hstop] at hs
  | wake hpc => rcases hleft with hl | hl <;> simp [hl] at hpc
  | raiseRun hpc => rcases hleft with hl | hl <;> simp [hl] at hpc
  | raiseStop hpc => simp [hstop] at hpc

/-- In a run in which no task comes late, every task with a cancel function has been started or
cancelled when `run` and `stop` have returned and nobody is in `add_task`. A late task is
never served. -/
theorem timer_drain_iff {now : Time} (h : (system A now).Reaches NoLateTask s) :
    (s.Final → ∀ task ∈ s.added, task.cancel = true → task ∈ s.started ∨ task ∈ s.cancelled) ∧
      ∀ a s', step s a = some s' → ¬NoLateTask s a →
        ∃ task, s'.Unserved task ∧ ∀ as u, (system A now).exec (fun _ _ => True) s' as = some u →
          u.Unserved task := by
  have hacc := reaches_accounted (reaches_repeat h)
  refine ⟨fun hfinal task hadded hcancel => ?_, fun a s' hs hC => ?_⟩
  · apply hacc.served hfinal hadded hcancel
    intro hpending
    have hno := reaches_drained h (Or.inr hfinal.1) task hpending
    rw [hcancel] at hno
    cases hno
  · obtain ⟨task, htask⟩ := exists_abandoned h.reachable (not_not.mp hC) hs
    have hs' : (system A now).Reachable s' := h.reachable.step trivial hs
    have hunserved : ∀ u, (system A now).Reachable u → u.Abandoned task → u.Unserved task :=
      fun u hu hab => (reaches_accounted (reaches_repeat hu)).unserved
        (reaches_fresh (reaches_repeat hu)) hab.stop hab.pending hab.hasCancel
    refine ⟨task, hunserved s' hs' htask, fun as u hu => ?_⟩
    obtain ⟨hreach, hab⟩ := System.exec_invariant
      (I := fun u => (system A now).Reachable u ∧ u.Abandoned task)
      (fun _ _ _ hu hC hs => ⟨hu.1.step hC hs, hu.2.step hs⟩) ⟨hs', htask⟩ hu
    exact hunserved u hreach hab

end

/-- While `run` waits, `stop` comes and goes, and then a task is added. -/
theorem timer_drain_drops : ∃ s : State ℕ (Fin 1), (system (Fin 1) 0).Reachable s ∧ s.Final ∧
    ∃ task ∈ s.added, task.cancel = true ∧ task ∉ s.started ∧ task ∉ s.cancelled := by
  obtain ⟨s, hs, hrun, hstop, hadds, hmem, hstarted, hcancelled⟩ :=
    System.exists_reaches (S := system (Fin 1) 0) (fun _ _ => True)
    (fun s => s.run = .returned ∧ s.stop = .returned ∧ (∀ t, s.adds t = .idle) ∧
      ⟨0, 0, true⟩ ∈ s.added ∧ ⟨0, 0, true⟩ ∉ s.started ∧ ⟨0, 0, true⟩ ∉ s.cancelled)
    [.run [], .run [], .run [], .run [], .stop [], .stop [], .stop [], .stop [], .stop [],
      .addTask (.adder 0) 0 true, .add (.adder 0) [], .add (.adder 0) [⟨0, 0, true⟩],
      .add (.adder 0) [], .add (.adder 0) [], .run [], .run [], .run []] (by decide)
  exact ⟨s, hs, ⟨hrun, hstop, hadds⟩, _, hmem, rfl, hstarted, hcancelled⟩

/-- A task added during the drain is executed, since `run` is in its loop over the due tasks. -/
theorem timer_drain_serves : ∃ s : State ℕ (Fin 1), s.added.length = 2 ∧ s.Final ∧
    ∀ task ∈ s.added, task.cancel = true → task ∈ s.started ∨ task ∈ s.cancelled := by
  obtain ⟨s, hs, hlen, hrun, hstop, hadds⟩ :=
    System.exists_reaches (S := system (Fin 1) 0) NoLateTask
    (fun s => s.added.length = 2 ∧ s.run = .returned ∧ s.stop = .returned ∧
      ∀ t, s.adds t = .idle)
    [.addTask (.adder 0) 0 true, .add (.adder 0) [], .add (.adder 0) [⟨0, 0, true⟩],
      .add (.adder 0) [], .add (.adder 0) [], .run [], .run [], .run [], .run [],
      .stop [], .stop [], .stop [], .stop [], .stop [],
      .addTask .runner 0 true, .add .runner [], .add .runner [⟨0, 1, true⟩], .add .runner [],
      .add .runner [], .run [], .run [], .run [], .run [], .run [], .run [], .run [], .run [],
      .wake, .run [], .run [], .run []]
    (by decide)
  exact ⟨s, hlen, ⟨hrun, hstop, hadds⟩, (timer_drain_iff hs).1 ⟨hrun, hstop, hadds⟩⟩

end Scoro.Timer

import Scoro.Timer.Invariant

/-!
# What becomes of a task

`stop` may be called any number of times, one call after the other. Every added task is pending,
popped by `run`, started or popped by `stop`, and never two of these. The counts of a task in the
lists of the state say so.
-/

namespace Scoro.Timer
open Scoro.Lib

/-- The steps of a timer whose `stop` is called again and again. -/
inductive RepeatAction (Time A : Type*) where
  | base (a : Action Time A)
  | callStop

section
variable {Time A : Type*} [LinearOrder Time] [DecidableEq A]

/-- A further call of `stop`. -/
def callStop (s : State Time A) : Option (State Time A) :=
  if s.stop = .returned then some { s with stop := .lock } else none

def repeatStep (s : State Time A) : RepeatAction Time A → Option (State Time A)
  | .base a => step s a
  | .callStop => callStop s

def repeatSystem (A : Type*) [DecidableEq A] (now : Time) :
    System (State Time A) (RepeatAction Time A) where
  init := init A now
  step := repeatStep

end

/-- The task that a call of `add_task` has not pushed yet. -/
def AddPc.task {Time : Type*} : AddPc Time → Option (Task Time)
  | .lock task | .push task => some task
  | .idle | .notify | .unlock => none

/-- The task popped by `run` whose callback has not been started. -/
def RunPc.held {Time : Type*} : RunPc Time → List (Task Time)
  | .unlock task => [task]
  | .lock | .testStop | .testDue | .callback _ | .relock | .testEmpty | .wait | .waitUntil
  | .woken | .leave | .returned => []

/-- The task whose cancel function has been called and that has not been popped yet, where `top`
is the task on top. -/
def StopPc.cancelling {Time : Type*} (top : Option (Task Time)) : StopPc Time → List (Task Time)
  | .cancel task => [task]
  | .pop => (top.filter (·.cancel)).toList
  | .lock | .testEmpty | .setStop | .notify | .unlock | .returned | .thrown => []

lemma cancelling_of_not_holds {Time : Type*} {pc : StopPc Time} (h : pc.holds = false)
    (top : Option (Task Time)) : pc.cancelling top = [] := by
  cases pc <;> first | rfl | cases h

lemma ne_cancel_of_not_holds {Time : Type*} {pc : StopPc Time} {task : Task Time}
    (h : pc.holds = false) : pc ≠ .cancel task := by
  rintro rfl
  cases h

section
variable {Time A : Type*} [LinearOrder Time] {s s' : State Time A} {t : Thread A}
  {task : Task Time}

/-- Every call of `add_task` brings a task of its own. -/
structure Fresh (s : State Time A) : Prop where
  added_lt : ∀ task ∈ s.added, task.id < s.calls
  added : (s.added.map Task.id).Nodup
  adds_lt : ∀ t, ∀ task ∈ (s.adds t).task, task.id < s.calls ∧ task.id ∉ s.added.map Task.id
  adds : ∀ t u, ∀ a ∈ (s.adds t).task, ∀ b ∈ (s.adds u).task, a.id = b.id → t = u

/-- Where the added tasks are. A task with a cancel function is counted exactly, until a cancel
function has thrown. -/
structure Accounted (s : State Time A) : Prop where
  bound : ∀ task, s.mTasks.items.count task + s.run.held.count task + s.started.count task ≤
    s.added.count task
  cancelled_le : ∀ task, s.cancelled.count task ≤ s.added.count task
  balance : s.stop ≠ .thrown → ∀ task, task.cancel = true →
    s.mTasks.items.count task + s.run.held.count task + s.started.count task +
      s.cancelled.count task =
    s.added.count task + (s.stop.cancelling s.mTasks.top).count task
  hasCancel : ∀ task ∈ s.cancelled, task.cancel = true
  top : ∀ task, s.stop = .cancel task → s.mTasks.top = some task ∧ task.cancel = true

/-- The tasks that `run` has popped were due. -/
def State.Due (s : State Time A) : Prop :=
  ∀ task ∈ s.run.held ++ s.started, task.executeTime ≤ s.clock

lemma fresh_init (now : Time) : Fresh (init A now) := by
  constructor <;> simp [init, AddPc.task]

lemma accounted_init (now : Time) : Accounted (init A now) := by
  constructor <;> simp [init, RunPc.held, StopPc.cancelling, PriorityQueue.empty]

lemma due_init (now : Time) : (init A now).Due := by simp [State.Due, init, RunPc.held]

/-! ### Steps that leave the tasks where they are -/

lemma Fresh.congr (h : Fresh s) (hadds : s'.adds = s.adds) (hcalls : s'.calls = s.calls)
    (hadded : s'.added = s.added) : Fresh s' := by
  refine ⟨?_, ?_, ?_, ?_⟩
  · rw [hadded, hcalls]
    exact h.added_lt
  · rw [hadded]
    exact h.added
  · rw [hadds, hcalls, hadded]
    exact h.adds_lt
  · rw [hadds]
    exact h.adds

lemma Accounted.congr (h : Accounted s) (htasks : s'.mTasks = s.mTasks)
    (hrun : s'.run.held = s.run.held) (hstop : s'.stop = s.stop) (hadded : s'.added = s.added)
    (hstarted : s'.started = s.started) (hcancelled : s'.cancelled = s.cancelled) :
    Accounted s' := by
  refine ⟨?_, ?_, ?_, ?_, ?_⟩
  · rw [htasks, hrun, hstarted, hadded]
    exact h.bound
  · rw [hcancelled, hadded]
    exact h.cancelled_le
  · rw [htasks, hrun, hstop, hstarted, hadded, hcancelled]
    exact h.balance
  · rw [hcancelled]
    exact h.hasCancel
  · rw [hstop, htasks]
    exact h.top

lemma State.Due.congr (h : s.Due) (hrun : s'.run.held = s.run.held)
    (hstarted : s'.started = s.started) (hclock : s.clock ≤ s'.clock) : s'.Due := by
  unfold State.Due at h ⊢
  rw [hrun, hstarted]
  exact fun task htask => (h task htask).trans hclock

lemma notify_held (s : State Time A) : s.notify.run.held = s.run.held := by
  rcases notify_run s with heq | ⟨hpc | hpc, heq⟩
  · rw [heq]
  · rw [heq, hpc]
    rfl
  · rw [heq, hpc]
    rfl

/-! ### Steps of the runner -/

/-- While another thread has the mutex, `stop` is not at work on the queue. -/
lemma Owned.stop_not_holds (h : Owned s) (hholds : s.holds t = true) (ht : t ≠ .stopper) :
    s.stop.holds = false := by
  by_contra hstop
  have hstopper : s.holds .stopper = true := by
    rw [State.holds, Bool.eq_true_of_not_eq_false hstop, Bool.true_or]
  exact ht (h.locked.unique hholds hstopper)

/-- `run` takes the task on top. -/
lemma Accounted.pop (h : Accounted s) {q : PriorityQueue (Task Time) taskCompare}
    {items : List (Task Time)} (hstop : s.stop.holds = false) (hheld : s.run.held = [])
    (htop : s.mTasks.top = some task) (hpop : s.mTasks.pop items = some q) :
    Accounted { s with mTasks := q, run := .unlock task } := by
  have hcount (a : Task Time) :
      s.mTasks.items.count a = q.items.count a + [task].count a := by
    rw [(PriorityQueue.pop_perm hpop htop).count_eq, List.count_cons, List.count_singleton]
  refine ⟨fun a => ?_, h.cancelled_le, fun hthrown a ha => ?_, h.hasCancel, fun a ha => ?_⟩
  · have hbound := h.bound a
    simp only [hheld, hcount a, List.count_nil] at hbound
    simp only [RunPc.held]
    omega
  · have hbalance := h.balance hthrown a ha
    simp only [hheld, hcount a, List.count_nil, cancelling_of_not_holds hstop] at hbalance
    simp only [RunPc.held, cancelling_of_not_holds hstop, List.count_nil]
    omega
  · exact absurd ha (ne_cancel_of_not_holds hstop)

/-- `run` starts the callback of the task it holds. -/
lemma Accounted.start (h : Accounted s) (hpc : s.run = .unlock task) (m : Option (Thread A)) :
    Accounted
      { s with mMutex := m, run := .callback task, started := s.started ++ [task] } := by
  refine ⟨fun a => ?_, h.cancelled_le, fun hthrown a ha => ?_, h.hasCancel, h.top⟩
  · have hbound := h.bound a
    simp only [hpc, RunPc.held] at hbound
    simp only [RunPc.held, List.count_append, List.count_nil]
    omega
  · have hbalance := h.balance hthrown a ha
    simp only [hpc, RunPc.held] at hbalance
    simp only [RunPc.held, List.count_append, List.count_nil]
    omega

lemma Accounted.runMove (h : Accounted s) (hown : Owned s) (hm : RunMove s s') :
    Accounted s' := by
  cases hm with
  | pop hpc htop _ hpop =>
    have hrun : s.holds .runner = true := by simp [State.holds, hpc, RunPc.holds]
    exact h.pop (hown.stop_not_holds hrun (by simp)) (by rw [hpc]; rfl) htop hpop
  | unlock hpc => exact h.start hpc none
  | lock hpc =>
    exact h.congr rfl (by rcases hpc with hpc | hpc <;> rw [hpc] <;> rfl) rfl rfl rfl rfl
  | stopped hpc | testStop hpc | notDue hpc | callback hpc | relock hpc | wait hpc
  | waitUntil hpc | again hpc | leave hpc =>
    exact h.congr rfl (by rw [hpc]; rfl) rfl rfl rfl rfl

lemma State.Due.runMove (h : s.Due) (hm : RunMove s s') : s'.Due := by
  cases hm with
  | @pop task _ _ hpc htop hdue _ =>
    unfold State.Due at h ⊢
    simp only [hpc, RunPc.held, List.nil_append] at h
    simp only [RunPc.held, List.singleton_append, List.mem_cons]
    rintro a (rfl | ha)
    · exact hdue
    · exact h a ha
  | @unlock task hpc =>
    unfold State.Due at h ⊢
    simp only [hpc, RunPc.held, List.singleton_append, List.mem_cons] at h
    simp only [RunPc.held, List.nil_append, List.mem_append, List.mem_singleton]
    rintro a (ha | rfl)
    · exact h a (Or.inr ha)
    · exact h a (Or.inl rfl)
  | lock hpc =>
    exact h.congr (by rcases hpc with hpc | hpc <;> rw [hpc] <;> rfl) rfl le_rfl
  | stopped hpc | testStop hpc | notDue hpc | callback hpc | relock hpc | wait hpc
  | waitUntil hpc | again hpc | leave hpc =>
    exact h.congr (by rw [hpc]; rfl) rfl le_rfl

/-! ### Steps of the stopper -/

/-- A step of `stop` that moves no task. -/
lemma Accounted.stop_keep (h : Accounted s) (htasks : s'.mTasks = s.mTasks)
    (hrun : s'.run.held = s.run.held) (hadded : s'.added = s.added)
    (hstarted : s'.started = s.started) (hcancelled : s'.cancelled = s.cancelled)
    (hthrown : s.stop ≠ .thrown)
    (hcancelling : s'.stop.cancelling s.mTasks.top = s.stop.cancelling s.mTasks.top)
    (hstop : ∀ task, s'.stop ≠ .cancel task) : Accounted s' := by
  refine ⟨?_, ?_, ?_, ?_, ?_⟩
  · rw [htasks, hrun, hstarted, hadded]
    exact h.bound
  · rw [hcancelled, hadded]
    exact h.cancelled_le
  · rw [htasks, hrun, hstarted, hadded, hcancelled, hcancelling]
    exact fun _ => h.balance hthrown
  · rw [hcancelled]
    exact h.hasCancel
  · exact fun task htask => absurd htask (hstop task)

/-- `stop` calls the cancel function of the task on top. -/
lemma Accounted.cancel (h : Accounted s) (hpc : s.stop = .testEmpty)
    (htop : s.mTasks.top = some task) (hcancel : task.cancel = true) :
    Accounted { s with stop := .cancel task, cancelled := s.cancelled ++ [task] } := by
  have hbalance (a : Task Time) (ha : a.cancel = true) := h.balance (by simp [hpc]) a ha
  simp only [hpc, StopPc.cancelling, List.count_nil, add_zero] at hbalance
  have hpos : 0 < s.mTasks.items.count task :=
    List.count_pos_iff.mpr (PriorityQueue.top_mem htop)
  refine ⟨h.bound, fun a => ?_, fun _ a ha => ?_, fun a ha => ?_, ?_⟩
  · by_cases hat : task = a
    · subst hat
      have heq := hbalance task hcancel
      simp only [List.count_append, List.count_singleton_self]
      omega
    · have hle := h.cancelled_le a
      simp only [List.count_append, List.count_singleton, beq_iff_eq, hat, if_false]
      omega
  · have heq := hbalance a ha
    simp only [StopPc.cancelling, List.count_append]
    omega
  · rcases List.mem_append.mp ha with ha | ha
    · exact h.hasCancel a ha
    · rw [List.mem_singleton.mp ha]
      exact hcancel
  · rintro a ⟨⟩
    exact ⟨htop, hcancel⟩

/-- `stop` pops the task on top. -/
lemma Accounted.drop (h : Accounted s) {q : PriorityQueue (Task Time) taskCompare}
    {items : List (Task Time)} (hpc : s.stop = .pop) (hpop : s.mTasks.pop items = some q) :
    Accounted { s with mTasks := q, stop := .testEmpty } := by
  cases htop : s.mTasks.top with
  | none =>
    rw [PriorityQueue.top_eq_none] at htop
    simp [PriorityQueue.pop, htop] at hpop
  | some task =>
    have hcount (a : Task Time) :
        s.mTasks.items.count a = q.items.count a + [task].count a := by
      rw [(PriorityQueue.pop_perm hpop htop).count_eq, List.count_cons, List.count_singleton]
    refine ⟨fun a => ?_, h.cancelled_le, fun _ a ha => ?_, h.hasCancel, ?_⟩
    · have hbound := h.bound a
      rw [hcount a] at hbound
      dsimp only
      omega
    · have hbalance := h.balance (by simp [hpc]) a ha
      have hcancelling : (s.stop.cancelling s.mTasks.top).count a = [task].count a := by
        by_cases hat : task = a
        · subst hat
          simp [hpc, htop, StopPc.cancelling, Option.filter, ha]
        · have hzero : [task].count a = 0 := by simp [hat]
          rw [hzero]
          cases hcancel : task.cancel <;>
            simp [hpc, htop, StopPc.cancelling, Option.filter, hcancel, hat]
      simp only [hcount a, hcancelling] at hbalance
      simp only [StopPc.cancelling, List.count_nil]
      omega
    · rintro a ⟨⟩

lemma Accounted.stopMove (h : Accounted s) (hm : StopMove s s') : Accounted s' := by
  cases hm with
  | cancel hpc htop hcancel => exact h.cancel hpc htop hcancel
  | pop hpc hpop => exact h.drop hpc hpop
  | skip hpc htop hcancel =>
    refine h.stop_keep rfl rfl rfl rfl rfl (by simp [hpc]) ?_ (by simp)
    simp [hpc, htop, StopPc.cancelling, Option.filter, hcancel]
  | @cancelRet task hpc _ =>
    obtain ⟨htop, hcancel⟩ := h.top task hpc
    refine h.stop_keep rfl rfl rfl rfl rfl (by simp [hpc]) ?_ (by simp)
    simp [hpc, htop, StopPc.cancelling, Option.filter, hcancel]
  | notify hpc =>
    have heq := notify_eq s
    refine h.stop_keep (by rw [heq]) (notify_held s) (by rw [heq]) (by rw [heq]) (by rw [heq])
      (by simp [hpc]) ?_ (by simp)
    simp [hpc, StopPc.cancelling]
  | lock hpc | drained hpc | setStop hpc | unlock hpc =>
    exact h.stop_keep rfl rfl rfl rfl rfl (by simp [hpc]) (by rw [hpc]; rfl) (by simp)

end

section
variable {Time A : Type*} [LinearOrder Time] [DecidableEq A] {s s' : State Time A}
  {t : Thread A}

/-! ### Steps of `add_task` -/

/-- Thread `t` moves inside `add_task` and brings no new task. -/
lemma Fresh.setAdd (h : Fresh s) {pc : AddPc Time}
    (hpc : ∀ task ∈ pc.task, task ∈ (s.adds t).task) : Fresh (s.setAdd t pc) := by
  have htask : ∀ u, ∀ task ∈ ((s.setAdd t pc).adds u).task, task ∈ (s.adds u).task := by
    intro u task hu
    by_cases hut : u = t
    · subst hut
      exact hpc task (by simpa [State.setAdd] using hu)
    · simpa [State.setAdd, Function.update_of_ne hut] using hu
  exact ⟨h.added_lt, h.added, fun u task hu => h.adds_lt u task (htask u task hu),
    fun u v a ha b hb => h.adds u v a (htask u a ha) b (htask v b hb)⟩

/-- A call of `add_task`. -/
lemma Fresh.call (h : Fresh s) (executeTime : Time) (cancel : Bool) :
    Fresh { s.setAdd t (.lock ⟨executeTime, s.calls, cancel⟩) with calls := s.calls + 1 } := by
  have htask : ∀ u, ∀ task ∈ ((s.setAdd t (.lock ⟨executeTime, s.calls, cancel⟩)).adds u).task,
      u = t ∧ task.id = s.calls ∨ u ≠ t ∧ task ∈ (s.adds u).task := by
    intro u task hu
    by_cases hut : u = t
    · subst hut
      simp only [State.setAdd, Function.update_self, AddPc.task, Option.mem_some_iff] at hu
      exact Or.inl ⟨rfl, by rw [← hu]⟩
    · exact Or.inr ⟨hut, by simpa [State.setAdd, Function.update_of_ne hut] using hu⟩
  refine ⟨fun task ha => Nat.lt_succ_of_lt (h.added_lt task ha), h.added, ?_, ?_⟩
  · intro u task hu
    rcases htask u task hu with ⟨-, hid⟩ | ⟨-, hu⟩
    · refine ⟨by dsimp only; omega, fun hmem => ?_⟩
      obtain ⟨a, ha, hat⟩ := List.mem_map.mp hmem
      have hlt := h.added_lt a ha
      omega
    · exact ⟨Nat.lt_succ_of_lt (h.adds_lt u task hu).1, (h.adds_lt u task hu).2⟩
  · intro u v a hu b hv hab
    rcases htask u a hu with ⟨hut, hid⟩ | ⟨-, hua⟩ <;>
      rcases htask v b hv with ⟨hvt, hid'⟩ | ⟨-, hvb⟩
    · rw [hut, hvt]
    · have hlt := (h.adds_lt v b hvb).1
      omega
    · have hlt := (h.adds_lt u a hua).1
      omega
    · exact h.adds u v a hua b hvb hab

/-- A call of `add_task` pushes its task. -/
lemma Fresh.push (h : Fresh s) {task : Task Time} (hpc : s.adds t = .push task)
    (q : PriorityQueue (Task Time) taskCompare) :
    Fresh { s.setAdd t .notify with mTasks := q, added := s.added ++ [task] } := by
  have hself : task ∈ (s.adds t).task := by simp [hpc, AddPc.task]
  have hset : Fresh (s.setAdd t .notify) := h.setAdd (by simp [AddPc.task])
  have hne : ∀ u, ∀ a ∈ ((s.setAdd t .notify).adds u).task, a.id ≠ task.id := by
    intro u a hu haid
    by_cases hut : u = t
    · subst hut
      simp [State.setAdd, AddPc.task] at hu
    · simp only [State.setAdd, Function.update_of_ne hut] at hu
      exact hut (h.adds u t a hu task hself haid)
  refine ⟨fun a ha => ?_, ?_, fun u a hu => ⟨(hset.adds_lt u a hu).1, ?_⟩, hset.adds⟩
  · rcases List.mem_append.mp ha with ha | ha
    · exact h.added_lt a ha
    · rw [List.mem_singleton.mp ha]
      exact (h.adds_lt t task hself).1
  · rw [List.map_append, List.nodup_append_comm]
    exact List.nodup_cons.mpr ⟨(h.adds_lt t task hself).2, h.added⟩
  · rw [List.map_append, List.mem_append, List.map_singleton, List.mem_singleton]
    rintro (hmem | haid)
    · exact (hset.adds_lt u a hu).2 hmem
    · exact hne u a hu haid

lemma Fresh.addMove (h : Fresh s) (hm : AddMove s t s') : Fresh s' := by
  cases hm with
  | @lock task hpc _ =>
    have hset : Fresh (s.setAdd t (.push task)) := h.setAdd (by simp [hpc, AddPc.task])
    exact hset.congr rfl rfl rfl
  | fault => exact h.congr rfl rfl rfl
  | push hpc _ => exact h.push hpc _
  | notify =>
    have hnotify : Fresh s.notify := by
      rw [notify_eq]
      exact h.congr rfl rfl rfl
    exact hnotify.setAdd (by simp [AddPc.task])
  | unlock =>
    have hset : Fresh (s.setAdd t .idle) := h.setAdd (by simp [AddPc.task])
    exact hset.congr rfl rfl rfl

/-- A push while `stop` is not at work on the queue. -/
lemma Accounted.push (h : Accounted s) {task : Task Time}
    {q : PriorityQueue (Task Time) taskCompare} {items : List (Task Time)}
    (hstop : s.stop.holds = false) (hpush : s.mTasks.push task items = some q) (pc : AddPc Time) :
    Accounted { s.setAdd t pc with mTasks := q, added := s.added ++ [task] } := by
  have hcount (a : Task Time) :
      q.items.count a = s.mTasks.items.count a + [task].count a := by
    rw [(PriorityQueue.push_perm hpush).count_eq, List.count_cons, List.count_singleton]
  refine ⟨fun a => ?_, fun a => ?_, fun hthrown a ha => ?_, h.hasCancel, fun a ha => ?_⟩
  · have hbound := h.bound a
    simp only [State.setAdd, hcount a, List.count_append]
    omega
  · have hle := h.cancelled_le a
    simp only [State.setAdd, List.count_append]
    omega
  · have hbalance := h.balance hthrown a ha
    simp only [cancelling_of_not_holds hstop, List.count_nil] at hbalance
    simp only [State.setAdd, hcount a, cancelling_of_not_holds hstop, List.count_append,
      List.count_nil]
    omega
  · exact absurd ha (ne_cancel_of_not_holds hstop)

lemma Accounted.addMove (h : Accounted s) (hown : Owned s) (hm : AddMove s t s') :
    Accounted s' := by
  cases hm with
  | push hpc hpush =>
    have hholds : (s.adds t).holds = true := by
      rw [hpc]
      rfl
    have hall : s.holds t = true := by cases t <;> simp [State.holds, hholds]
    exact h.push (hown.stop_not_holds hall (hown.ne_stopper hholds)) hpush .notify
  | notify =>
    rw [notify_eq]
    exact h.congr rfl (notify_held s) rfl rfl rfl rfl
  | lock | fault | unlock => exact h.congr rfl rfl rfl rfl rfl rfl

lemma State.Due.addMove (h : s.Due) (hm : AddMove s t s') : s'.Due := by
  cases hm with
  | notify =>
    rw [notify_eq]
    exact h.congr (notify_held s) rfl le_rfl
  | lock | fault | push | unlock => exact h.congr rfl rfl le_rfl

/-! ### Runs -/

lemma Fresh.step (h : Fresh s) {a : Action Time A} (hs : step s a = some s') : Fresh s' := by
  cases step_move hs with
  | tick | wake | raiseRun | raiseStop => exact h.congr rfl rfl rfl
  | addTask executeTime cancel => exact h.call executeTime cancel
  | add hm => exact h.addMove hm
  | run hm => cases hm <;> exact h.congr rfl rfl rfl
  | stop hm =>
    cases hm with
    | notify =>
      rw [notify_eq]
      exact h.congr rfl rfl rfl
    | _ => exact h.congr rfl rfl rfl

lemma Accounted.step (h : Accounted s) (hown : Owned s) {a : Action Time A}
    (hs : step s a = some s') : Accounted s' := by
  cases step_move hs with
  | tick | addTask => exact h.congr rfl rfl rfl rfl rfl rfl
  | add hm => exact h.addMove hown hm
  | run hm => exact h.runMove hown hm
  | stop hm => exact h.stopMove hm
  | wake hpc =>
    exact h.congr rfl (by rcases hpc with hpc | hpc <;> rw [hpc] <;> rfl) rfl rfl rfl rfl
  | raiseRun hpc => exact h.congr rfl (by rw [hpc]; rfl) rfl rfl rfl rfl
  | raiseStop =>
    exact ⟨h.bound, h.cancelled_le, fun hthrown => absurd rfl hthrown, h.hasCancel, by simp⟩

lemma State.Due.step (h : s.Due) {a : Action Time A} (hs : step s a = some s') : s'.Due := by
  cases step_move hs with
  | tick hle => exact h.congr rfl rfl hle
  | addTask | raiseStop => exact h.congr rfl rfl le_rfl
  | add hm => exact h.addMove hm
  | run hm => exact h.runMove hm
  | stop hm =>
    cases hm with
    | notify =>
      rw [notify_eq]
      exact h.congr (notify_held s) rfl le_rfl
    | _ => exact h.congr rfl rfl le_rfl
  | wake hpc =>
    exact h.congr (by rcases hpc with hpc | hpc <;> rw [hpc] <;> rfl) rfl le_rfl
  | raiseRun hpc => exact h.congr (by rw [hpc]; rfl) rfl le_rfl

/-- A callback is started by the runner that holds its task. -/
lemma step_started {a : Action Time A} (hs : step s a = some s') : s'.started = s.started ∨
    ∃ task, s.run = .unlock task ∧ s'.started = s.started ++ [task] := by
  cases step_move hs with
  | tick | addTask | wake | raiseRun | raiseStop => exact Or.inl rfl
  | add hm =>
    left
    cases hm with
    | notify => rw [notify_eq]; rfl
    | lock | fault | push | unlock => rfl
  | run hm =>
    cases hm with
    | unlock hpc => exact Or.inr ⟨_, hpc, rfl⟩
    | _ => exact Or.inl rfl
  | stop hm =>
    left
    cases hm with
    | notify => rw [notify_eq]
    | _ => rfl

/-! ### Every run of a timer -/

omit [DecidableEq A] in
lemma callStop_iff : callStop s = some s' ↔ s.stop = .returned ∧ { s with stop := .lock } = s' := by
  simp [callStop]

omit [DecidableEq A] in
lemma Owned.callStop (h : Owned s) (hs : callStop s = some s') : Owned s' := by
  obtain ⟨hpc, rfl⟩ := callStop_iff.mp hs
  have hidle := h.stopper_idle (by simp [hpc])
  exact h.stop_keep hidle (by rw [hpc]; rfl) rfl rfl rfl

omit [DecidableEq A] in
lemma Accounted.callStop (h : Accounted s) (hs : callStop s = some s') : Accounted s' := by
  obtain ⟨hpc, rfl⟩ := callStop_iff.mp hs
  exact h.stop_keep rfl rfl rfl rfl rfl (by simp [hpc]) (by rw [hpc]; rfl) (by simp)

theorem reaches_owned {now : Time} {C : State Time A → RepeatAction Time A → Prop}
    (h : (repeatSystem A now).Reaches C s) : Owned s := by
  apply h.invariant (owned_init now)
  rintro s (a | _) s' - hown - hs
  · exact hown.step hs
  · exact hown.callStop hs

theorem reaches_fresh {now : Time} {C : State Time A → RepeatAction Time A → Prop}
    (h : (repeatSystem A now).Reaches C s) : Fresh s := by
  apply h.invariant (fresh_init now)
  rintro s (a | _) s' - hfresh - hs
  · exact hfresh.step hs
  · obtain ⟨-, rfl⟩ := callStop_iff.mp hs
    exact hfresh.congr rfl rfl rfl

theorem reaches_accounted {now : Time} {C : State Time A → RepeatAction Time A → Prop}
    (h : (repeatSystem A now).Reaches C s) : Accounted s := by
  apply h.invariant (accounted_init now)
  rintro s (a | _) s' run hacc - hs
  · exact hacc.step (reaches_owned run) hs
  · exact hacc.callStop hs

theorem reaches_due {now : Time} {C : State Time A → RepeatAction Time A → Prop}
    (h : (repeatSystem A now).Reaches C s) : s.Due := by
  apply h.invariant (due_init now)
  rintro s (a | _) s' - hdue - hs
  · exact hdue.step hs
  · obtain ⟨-, rfl⟩ := callStop_iff.mp hs
    exact hdue.congr rfl rfl le_rfl

end

section
variable {Time A : Type*} [LinearOrder Time] {s s' : State Time A} {task : Task Time}
  {l : List (Task Time)}

/-- Tasks that are among the added ones, each at most as often, are different calls. -/
lemma Fresh.nodup (h : Fresh s) (hl : l.Subperm s.added) : (l.map Task.id).Nodup := by
  obtain ⟨l', hperm, hsub⟩ := hl
  rw [← (hperm.map Task.id).nodup_iff]
  exact (hsub.map Task.id).nodup h.added

lemma Accounted.started_subperm (h : Accounted s) : s.started.Subperm s.added := by
  rw [List.subperm_ext_iff]
  intro a _
  have hbound := h.bound a
  omega

lemma Accounted.cancelled_subperm (h : Accounted s) : s.cancelled.Subperm s.added :=
  List.subperm_ext_iff.mpr fun a _ => h.cancelled_le a

/-- The task whose cancel function has been called is still in the queue. -/
lemma Accounted.cancelling_le (h : Accounted s) (a : Task Time) :
    (s.stop.cancelling s.mTasks.top).count a ≤ s.mTasks.items.count a := by
  have hsub : (s.stop.cancelling s.mTasks.top).Subperm s.mTasks.items := by
    cases hpc : s.stop with
    | cancel task =>
      obtain ⟨htop, -⟩ := h.top task hpc
      exact List.singleton_subperm_iff.mpr (PriorityQueue.top_mem htop)
    | pop =>
      simp only [StopPc.cancelling]
      cases htop : s.mTasks.top.filter (·.cancel) with
      | none => exact List.nil_subperm
      | some task =>
        have hmem := PriorityQueue.top_mem (Option.filter_eq_some_iff.mp htop).1
        exact List.singleton_subperm_iff.mpr hmem
    | lock | testEmpty | setStop | notify | unlock | returned | thrown => exact List.nil_subperm
  exact hsub.count_le a

/-- Until a cancel function has thrown, no task is both started and cancelled. -/
lemma Accounted.subperm (h : Accounted s) (hthrown : s.stop ≠ .thrown) :
    (s.started ++ s.cancelled).Subperm s.added := by
  rw [List.subperm_ext_iff]
  intro a _
  rw [List.count_append]
  by_cases ha : a.cancel = true
  · have hbalance := h.balance hthrown a ha
    have hle := h.cancelling_le a
    omega
  · have hzero : s.cancelled.count a = 0 :=
      List.count_eq_zero.mpr fun hmem => ha (h.hasCancel a hmem)
    have hbound := h.bound a
    omega

/-- The task on top has the earliest time of all pending tasks. -/
lemma earliest_of_top (htop : s.mTasks.top = some task) :
    ∀ other ∈ s.mTasks.items, task.executeTime ≤ other.executeTime := by
  intro other hother
  have hnot := PriorityQueue.top_not_lt htop hother
  simpa [taskCompare] using hnot

/-- When `run` pops a task, the clock has reached its time and no pending task is earlier. -/
lemma runMove_pop (hm : RunMove s s') (hpc : s.run = .testDue) (hpop : s'.run = .unlock task) :
    s.mTasks.top = some task ∧ task.executeTime ≤ s.clock := by
  cases hm with
  | pop _ htop hdue =>
    cases hpop
    exact ⟨htop, hdue⟩
  | lock hpc' => rcases hpc' with hpc' | hpc' <;> simp [hpc] at hpc'
  | notDue => cases hpop
  | stopped hpc' | testStop hpc' | unlock hpc' | callback hpc' | relock hpc' | wait hpc'
  | waitUntil hpc' | again hpc' | leave hpc' => simp [hpc] at hpc'

end

/-- The callback of an added task is started at most once and its cancel function called at most
once, and never both unless a cancel function throws. A task is popped for execution when the
clock has reached its time and no pending task is earlier, and started after that. A callback
that throws leaves the timer as one that returns. -/
theorem timer_discipline {Time A : Type*} [LinearOrder Time] [DecidableEq A] {now : Time}
    {s : State Time A} (h : (repeatSystem A now).Reachable s) :
    ((s.added.map Task.id).Nodup ∧ s.started ⊆ s.added ∧ s.cancelled ⊆ s.added ∧
      (s.started.map Task.id).Nodup ∧ (s.cancelled.map Task.id).Nodup ∧
      (s.stop ≠ .thrown → ((s.started ++ s.cancelled).map Task.id).Nodup)) ∧
    (∀ task ∈ s.started, task.executeTime ≤ s.clock) ∧
    (∀ a s' task, repeatStep s a = some s' → s'.started = s.started ++ [task] →
      task.executeTime ≤ s.clock) ∧
    (∀ items s' task, s.run = .testDue → runStep s items = some s' → s'.run = .unlock task →
      task.executeTime ≤ s.clock ∧ task ∈ s.mTasks.items ∧
        ∀ other ∈ s.mTasks.items, task.executeTime ≤ other.executeTime) ∧
    ∀ s', raise s .runner = some s' →
      s'.mTasks = s.mTasks ∧ ∀ items, runStep s items = some s' := by
  have hfresh := reaches_fresh h
  have hacc := reaches_accounted h
  have hdue := reaches_due h
  refine ⟨⟨hfresh.added, hacc.started_subperm.subset, hacc.cancelled_subperm.subset,
    hfresh.nodup hacc.started_subperm, hfresh.nodup hacc.cancelled_subperm,
    fun hthrown => hfresh.nodup (hacc.subperm hthrown)⟩, ?_, ?_, ?_, ?_⟩
  · exact fun task htask => hdue task (List.mem_append_right _ htask)
  · intro a s' task hs hstarted
    cases a with
    | base a =>
      rcases step_started hs with heq | ⟨task', hpc, heq⟩
      · simp [heq] at hstarted
      · rw [heq, List.append_cancel_left_eq, List.singleton_inj] at hstarted
        exact hdue task (by simp [hpc, RunPc.held, hstarted])
    | callStop =>
      obtain ⟨-, rfl⟩ := callStop_iff.mp hs
      simp at hstarted
  · intro items s' task hpc hs hpop
    obtain ⟨htop, hle⟩ := runMove_pop (runStep_move hs) hpc hpop
    exact ⟨hle, PriorityQueue.top_mem htop, earliest_of_top htop⟩
  · intro s' hs
    simp only [raise] at hs
    split at hs
    · rename_i huser
      cases hs
      obtain ⟨task, hpc⟩ := callback_of_inUserCode huser.1
      exact ⟨rfl, fun items => by simp [runStep, hpc, huser.2]⟩
    · cases hs

/-- The callback of the first task throws, and two calls of `stop` find the second task and then
an empty queue. -/
theorem timer_discipline_run : ∃ s : State ℕ (Fin 1), s.run = .relock ∧ s.stop = .returned ∧
    s.started = [⟨0, 0, true⟩] ∧ s.cancelled = [⟨5, 1, true⟩] ∧
    ((s.started ++ s.cancelled).map Task.id).Nodup := by
  obtain ⟨s, hs, hrun, hstop, hstarted, hcancelled⟩ :=
    System.exists_reaches (S := repeatSystem (Fin 1) 0) (fun _ _ => True)
    (fun s => s.run = .relock ∧ s.stop = .returned ∧ s.started = [⟨0, 0, true⟩] ∧
      s.cancelled = [⟨5, 1, true⟩])
    (([.addTask (.adder 0) 0 true, .add (.adder 0) [], .add (.adder 0) [⟨0, 0, true⟩],
      .add (.adder 0) [], .add (.adder 0) [], .run [], .run [], .run [], .run [],
      .addTask .runner 5 true, .add .runner [], .add .runner [⟨5, 1, true⟩], .add .runner [],
      .add .runner [], .raise .runner, .stop [], .stop [], .stop [], .stop [], .stop [], .stop [],
      .stop [], .stop []] : List (Action ℕ (Fin 1))).map .base ++
      .callStop :: ([.stop [], .stop [], .stop [], .stop [], .stop []] :
        List (Action ℕ (Fin 1))).map .base)
    (by decide)
  exact ⟨s, hrun, hstop, hstarted, hcancelled, (timer_discipline hs).1.2.2.2.2.2 (by simp [hstop])⟩

end Scoro.Timer

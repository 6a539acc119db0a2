import Scoro.Lib.Counting
import Scoro.Lib.Lock
import Scoro.Lib.Parking

/-!
# `waitable_atomic` on a condition variable

The version for the other systems. `wait_impl` looks at the value again under the mutex before it
sleeps, and `notify_all_impl` takes the mutex, while the value is stored without it. A wait on the
condition variable gives the mutex away and sleeps in one step, and takes it again when it returns.
-/

namespace Scoro.CondVar
open Scoro.Lib

/-- Where a thread is in `wait(expected)`, or between the store of a value and the end of
`notify_all`. `check` is the predicate of `cv.wait`, and `sleep` the call that it leads to. -/
inductive Pc (V : Type*) where
  | idle
  | load (expected : V)
  | lock (expected : V)
  | check (expected : V)
  | sleep (expected : V)
  | asleep (expected : V)
  | unlock (expected : V)
  | store (desired : V)
  | notifyLock
  | notifyAll
  | notifyUnlock
  deriving DecidableEq

structure State (ι V : Type*) where
  mValue : V
  mtx : Option ι
  pc : ι → Pc V

/-- `wakeUp` is a return of `cv.wait` that nobody has caused. -/
inductive Action (ι V : Type*) where
  | wait (i : ι) (expected : V)
  | publish (i : ι) (desired : V)
  | run (i : ι)
  | wakeUp (i : ι)

variable {ι V : Type*}

/-- `cv.notify_all` for a thread. -/
def wake : Pc V → Pc V
  | .asleep e => .lock e
  | pc => pc

section step
variable [DecidableEq ι] [DecidableEq V]

def State.move (s : State ι V) (i : ι) (pc : Pc V) (mtx : Option ι) : State ι V :=
  { s with mtx := mtx, pc := Function.update s.pc i pc }

def runStep (s : State ι V) (i : ι) : Option (State ι V) :=
  match s.pc i with
  | .idle | .asleep _ => none
  | .load e => some (s.move i (if s.mValue = e then .lock e else .idle) s.mtx)
  | .lock e => if s.mtx = none then some (s.move i (.check e) (some i)) else none
  | .check e => some (s.move i (if s.mValue = e then .sleep e else .unlock e) s.mtx)
  | .sleep e => some (s.move i (.asleep e) none)
  | .unlock e => some (s.move i (.load e) none)
  | .store v => some { s.move i .notifyLock s.mtx with mValue := v }
  | .notifyLock => if s.mtx = none then some (s.move i .notifyAll (some i)) else none
  | .notifyAll => some { s with pc := Function.update (wake ∘ s.pc) i .notifyUnlock }
  | .notifyUnlock => some (s.move i .idle none)

def step (s : State ι V) : Action ι V → Option (State ι V)
  | .wait i e => if s.pc i = .idle then some (s.move i (.load e) s.mtx) else none
  | .publish i v => if s.pc i = .idle then some (s.move i (.store v) s.mtx) else none
  | .run i => runStep s i
  | .wakeUp i =>
    match s.pc i with
    | .asleep e => some (s.move i (.lock e) s.mtx)
    | _ => none

def system (v : V) : System (State ι V) (Action ι V) where
  init := ⟨v, none, fun _ => .idle⟩
  step := step

end step

/-! ### What a step of a thread does -/

def Pc.inside : Pc V → Bool
  | .check _ | .sleep _ | .unlock _ | .notifyAll | .notifyUnlock => true
  | .idle | .load _ | .lock _ | .asleep _ | .store _ | .notifyLock => false

def Pc.party : Pc V → Party V
  | .idle | .store _ | .notifyUnlock => .idle
  | .load e | .lock e | .check e | .unlock e => .waiting e
  | .sleep e | .asleep e => .parked e
  | .notifyLock | .notifyAll => .notifying

def State.parking (s : State ι V) : Parking ι V := ⟨s.mValue, fun i => (s.pc i).party⟩

variable [DecidableEq ι] [DecidableEq V] {v : V} {s s' : State ι V} {i j : ι}

/-- How many steps a thread takes at most, when the value does not change any more and `card`
threads may be woken. -/
def Pc.rank (card : ℕ) (value : V) : Pc V → ℕ
  | .idle | .asleep _ => 0
  | .load e => if value = e then 4 else 1
  | .lock e => if value = e then 3 else 4
  | .check e => if value = e then 2 else 3
  | .sleep _ => 1
  | .unlock e => if value = e then 5 else 2
  | .store _ => 8 * card + 4
  | .notifyLock => 4 * card + 3
  | .notifyAll => 4 * card + 2
  | .notifyUnlock => 1

/-- A step with which a thread comes to `pc` and leaves the mutex as `mtx`. -/
structure Turn (s : State ι V) (i : ι) (pc : Pc V) (mtx : Option ι) : Prop where
  lock : Locked.Move i s.mtx (s.pc i).inside mtx pc.inside
  party : pc.party = (s.pc i).party ∨
    ∃ b, Parking.step s.parking b = some (s.parking.set i pc.party)
  rank : ∀ card, pc.rank card s.mValue < (s.pc i).rank card s.mValue

omit [DecidableEq ι] [DecidableEq V] in
lemma parking_party {pc : Pc V} (hi : s.pc i = pc) : s.parking.party i = pc.party := by
  rw [← hi]
  rfl

lemma run_cases (hs : runStep s i = some s') :
    (∃ pc mtx, Turn s i pc mtx ∧ s' = s.move i pc mtx) ∨
    (∃ v, s.pc i = .store v ∧ s' = { s.move i .notifyLock s.mtx with mValue := v }) ∨
    (s.pc i = .notifyAll ∧
      s' = { s with pc := Function.update (wake ∘ s.pc) i .notifyUnlock }) := by
  unfold runStep at hs
  cases hpc : s.pc i with
  | idle | asleep e =>
    rw [hpc] at hs
    cases hs
  | load e =>
    rw [hpc] at hs
    cases hs
    refine Or.inl ⟨_, _, ⟨?_, ?_, fun card => ?_⟩, rfl⟩
    · split <;> exact .keep rfl (by rw [hpc]; rfl)
    · split
      · exact Or.inl (by rw [hpc]; rfl)
      · rename_i hvalue
        exact Or.inr ⟨.leave i, Parking.step_leave (parking_party hpc) hvalue⟩
    · split <;> rename_i hvalue <;> simp [hpc, Pc.rank, hvalue]
  | lock e =>
    rw [hpc] at hs
    simp only [Option.ite_none_right_eq_some, Option.some.injEq] at hs
    obtain ⟨hfree, rfl⟩ := hs
    refine Or.inl ⟨_, _, ⟨.acquire hfree rfl rfl, Or.inl (by rw [hpc]; rfl), fun card => ?_⟩, rfl⟩
    simp only [hpc, Pc.rank]
    split <;> omega
  | check e =>
    rw [hpc] at hs
    cases hs
    refine Or.inl ⟨_, _, ⟨?_, ?_, fun card => ?_⟩, rfl⟩
    · split <;> exact .keep rfl (by rw [hpc]; rfl)
    · split
      · rename_i hvalue
        exact Or.inr ⟨.park i, Parking.step_park (parking_party hpc) hvalue⟩
      · exact Or.inl (by rw [hpc]; rfl)
    · split <;> rename_i hvalue <;> simp [hpc, Pc.rank, hvalue]
  | sleep e =>
    rw [hpc] at hs
    cases hs
    refine Or.inl ⟨_, _, ⟨.release (by rw [hpc]; rfl) rfl rfl, Or.inl (by rw [hpc]; rfl),
      fun card => ?_⟩, rfl⟩
    simp [hpc, Pc.rank]
  | unlock e =>
    rw [hpc] at hs
    cases hs
    refine Or.inl ⟨_, _, ⟨.release (by rw [hpc]; rfl) rfl rfl, Or.inl (by rw [hpc]; rfl),
      fun card => ?_⟩, rfl⟩
    simp only [hpc, Pc.rank]
    split <;> omega
  | store v =>
    rw [hpc] at hs
    cases hs
    exact Or.inr (Or.inl ⟨v, rfl, rfl⟩)
  | notifyLock =>
    rw [hpc] at hs
    simp only [Option.ite_none_right_eq_some, Option.some.injEq] at hs
    obtain ⟨hfree, rfl⟩ := hs
    refine Or.inl ⟨_, _, ⟨.acquire hfree rfl rfl, Or.inl (by rw [hpc]; rfl), fun card => ?_⟩, rfl⟩
    simp [hpc, Pc.rank]
  | notifyAll =>
    rw [hpc] at hs
    cases hs
    exact Or.inr (Or.inr ⟨rfl, rfl⟩)
  | notifyUnlock =>
    rw [hpc] at hs
    cases hs
    refine Or.inl ⟨_, _, ⟨.release (by rw [hpc]; rfl) rfl rfl, Or.inl (by rw [hpc]; rfl),
      fun card => ?_⟩, rfl⟩
    simp [hpc, Pc.rank]

/-! ### The mutex -/

/-- The mutex is held by the one thread that is between its lock and its unlock. -/
def State.HoldsMutex (s : State ι V) : Prop := Locked s.mtx fun i => (s.pc i).inside = true

omit [DecidableEq V] in
lemma State.HoldsMutex.move {pc : Pc V} {mtx : Option ι} (h : s.HoldsMutex)
    (hmove : Locked.Move i s.mtx (s.pc i).inside mtx pc.inside) :
    (s.move i pc mtx).HoldsMutex := by
  have hself : Locked.Move i s.mtx (s.pc i).inside mtx ((s.move i pc mtx).pc i).inside := by
    simpa only [State.move, Function.update_self] using hmove
  have hothers : ∀ j, j ≠ i → ((s.move i pc mtx).pc j).inside = (s.pc j).inside := by
    intro j hj
    simp only [State.move, Function.update_of_ne hj]
  exact Locked.move h hself hothers

omit [DecidableEq ι] [DecidableEq V] in
lemma inside_wake (pc : Pc V) : (wake pc).inside = pc.inside := by
  cases pc <;> rfl

lemma State.HoldsMutex.step (h : s.HoldsMutex) {a : Action ι V} (hs : step s a = some s') :
    s'.HoldsMutex := by
  cases a with
  | wait i e | publish i v =>
    simp only [CondVar.step, Option.ite_none_right_eq_some, Option.some.injEq] at hs
    obtain ⟨hpc, rfl⟩ := hs
    exact h.move (.keep rfl (by rw [hpc]; rfl))
  | wakeUp i =>
    simp only [CondVar.step] at hs
    split at hs <;> cases hs
    rename_i e hpc
    exact h.move (.keep rfl (by rw [hpc]; rfl))
  | run i =>
    rcases run_cases hs with ⟨pc, mtx, hturn, rfl⟩ | ⟨v, hpc, rfl⟩ | ⟨hpc, rfl⟩
    · exact h.move hturn.lock
    · have hkeep : Locked.Move i s.mtx (s.pc i).inside s.mtx (Pc.inside (.notifyLock : Pc V)) :=
        .keep rfl (by rw [hpc]; rfl)
      exact h.move hkeep
    · refine Locked.congr h fun j => ?_
      by_cases hj : j = i
      · subst hj
        simp [hpc, Pc.inside]
      · simp only [Function.update_of_ne hj, Function.comp_apply, inside_wake]

lemma holdsMutex (h : (system v : System (State ι V) _).Reachable s) : s.HoldsMutex := by
  refine h.invariant (I := State.HoldsMutex) (fun i => by simp [system, Pc.inside]) ?_
  intro s a s' _ ih _ hs
  exact ih.step hs

/-! ### Nobody is forgotten -/

omit [DecidableEq V] in
lemma parking_move (pc : Pc V) (mtx : Option ι) :
    (s.move i pc mtx).parking = s.parking.set i pc.party := by
  unfold State.parking State.move Parking.set
  congr 1
  funext j
  by_cases hj : j = i
  · subst hj
    simp
  · simp [hj]

omit [DecidableEq V] in
/-- A step of a thread that its party does not see. -/
lemma parking_move_same {pc : Pc V} {mtx : Option ι} (hpc : pc.party = (s.pc i).party) :
    (s.move i pc mtx).parking = s.parking := by
  rw [parking_move, hpc]
  exact congrArg (Parking.mk s.mValue) (Function.update_eq_self i fun j => (s.pc j).party)

omit [DecidableEq V] in
/-- Who holds the mutex notifies all, since nobody can be about to sleep. -/
lemma parking_wake (h : s.HoldsMutex) (hpc : s.pc i = .notifyAll) :
    ({ s with pc := Function.update (wake ∘ s.pc) i .notifyUnlock } : State ι V).parking =
      { s.parking with party := Function.update (Parking.wake ∘ s.parking.party) i .idle } := by
  unfold State.parking
  congr 1
  funext j
  by_cases hj : j = i
  · subst hj
    simp [Pc.party]
  · simp only [Function.update_of_ne hj, Function.comp_apply]
    have houtside : (s.pc j).inside ≠ true := fun hinside =>
      hj (h.unique hinside (by rw [hpc]; rfl))
    cases hpcj : s.pc j with
    | sleep e => exact absurd (by rw [hpcj]; rfl) houtside
    | _ => rfl

/-- The steps of the threads are those of parties that park on the value. -/
theorem refines_parking : (system v).Refines (fun _ _ => True)
    (Parking.system v : System (Parking ι V) _) (fun _ _ => True) State.parking := by
  refine ⟨rfl, ?_⟩
  intro s a s' hreach _ hs
  change step s a = some s' at hs
  have hnext : s'.parking = s.parking ∨ ∃ b, Parking.step s.parking b = some s'.parking := by
    cases a with
    | wait i e =>
      simp only [step, Option.ite_none_right_eq_some, Option.some.injEq] at hs
      obtain ⟨hpc, rfl⟩ := hs
      rw [parking_move]
      exact Or.inr ⟨.wait i e, Parking.step_wait (parking_party hpc)⟩
    | publish i v =>
      simp only [step, Option.ite_none_right_eq_some, Option.some.injEq] at hs
      obtain ⟨hpc, rfl⟩ := hs
      exact Or.inl (parking_move_same (by rw [hpc]; rfl))
    | wakeUp i =>
      simp only [step] at hs
      split at hs <;> cases hs
      rename_i e hpc
      rw [parking_move]
      exact Or.inr ⟨.unpark i, Parking.step_unpark (parking_party hpc)⟩
    | run i =>
      rcases run_cases hs with ⟨pc, mtx, hturn, rfl⟩ | ⟨v, hpc, rfl⟩ | ⟨hpc, rfl⟩
      · rcases hturn.party with hsame | ⟨b, hb⟩
        · exact Or.inl (parking_move_same hsame)
        · rw [parking_move]
          exact Or.inr ⟨b, hb⟩
      · have hparking : ({ s.move i .notifyLock s.mtx with mValue := v } : State ι V).parking =
            { s.parking.set i .notifying with value := v } :=
          congrArg (fun p : Parking ι V => { p with value := v }) (parking_move .notifyLock s.mtx)
        rw [hparking]
        exact Or.inr ⟨.store i v, Parking.step_store (parking_party hpc)⟩
      · rw [parking_wake (holdsMutex hreach) hpc]
        exact Or.inr ⟨.notify i, Parking.step_notify (parking_party hpc)⟩
  rcases hnext with heq | ⟨b, hb⟩
  · exact Or.inl heq
  · exact Or.inr ⟨b, trivial, hb⟩

/-- A notifier has stored a value, and has not woken the others yet. -/
def Notifies (pc : Pc V) : Prop := pc = .notifyLock ∨ pc = .notifyAll

lemma asleep_covered (h : (system v : System (State ι V) _).Reachable s) {e : V}
    (hpc : s.pc i = .asleep e) : s.mValue = e ∨ ∃ j, Notifies (s.pc j) := by
  have hcovered := Parking.reaches_covered (refines_parking.reaches h)
  rcases hcovered i e (parking_party hpc) with hvalue | ⟨j, hj⟩
  · exact Or.inl hvalue
  · refine Or.inr ⟨j, ?_⟩
    change (s.pc j).party = .notifying at hj
    unfold Notifies
    cases hpcj : s.pc j <;> rw [hpcj] at hj <;>
      first | exact Or.inl rfl | exact Or.inr rfl | cases hj

/-! ### Every call comes to its end -/

/-- The steps of the threads inside their calls. Spurious wake-ups are left out, of which there may
be endlessly many. -/
def Action.isRun : Action ι V → Prop
  | .run _ => True
  | .wait .. | .publish .. | .wakeUp _ => False

/-- A thread that has not come to the end of its call sleeps, and the value is the expected one. -/
def Settled (s : State ι V) : Prop :=
  ∀ i, s.pc i = .idle ∨ s.pc i = .asleep s.mValue

/-- The thread inside can always take its step. -/
lemma run_of_inside (hinside : (s.pc i).inside = true) : ∃ s', runStep s i = some s' := by
  unfold runStep
  cases hpc : s.pc i with
  | check | sleep | unlock | notifyAll | notifyUnlock => exact ⟨_, rfl⟩
  | idle | load | lock | asleep | store | notifyLock =>
    rw [hpc] at hinside
    cases hinside

lemma run_of_free (hmtx : s.mtx = none) (hidle : s.pc i ≠ .idle)
    (hasleep : ∀ e, s.pc i ≠ .asleep e) : ∃ s', runStep s i = some s' := by
  unfold runStep
  cases hpc : s.pc i with
  | idle => exact absurd hpc hidle
  | asleep e => exact absurd hpc (hasleep e)
  | lock | notifyLock => exact ⟨_, if_pos hmtx⟩
  | load | check | sleep | unlock | store | notifyAll | notifyUnlock => exact ⟨_, rfl⟩

lemma run_of_pc (h : s.HoldsMutex) (hidle : s.pc i ≠ .idle) (hasleep : ∀ e, s.pc i ≠ .asleep e) :
    ∃ j s', runStep s j = some s' := by
  cases hmtx : s.mtx with
  | none => exact ⟨i, run_of_free hmtx hidle hasleep⟩
  | some j => exact ⟨j, run_of_inside ((h j).mp hmtx)⟩

lemma run_enabled (h : (system v : System (State ι V) _).Reachable s) (hnot : ¬Settled s) :
    ∃ i s', runStep s i = some s' := by
  have hmutex := holdsMutex h
  unfold Settled at hnot
  push Not at hnot
  obtain ⟨i, hidle, hasleep⟩ := hnot
  by_cases hsleeps : ∃ e, s.pc i = .asleep e
  · obtain ⟨e, hpc⟩ := hsleeps
    rcases asleep_covered h hpc with rfl | ⟨j, hj | hj⟩
    · exact absurd hpc hasleep
    · exact run_of_pc (i := j) hmutex (by simp [hj]) (by simp [hj])
    · exact run_of_pc (i := j) hmutex (by simp [hj]) (by simp [hj])
  · exact run_of_pc hmutex hidle fun e he => hsleeps ⟨e, he⟩

variable [Fintype ι]

def State.rank (s : State ι V) : ℕ := ∑ i, (s.pc i).rank (Fintype.card ι) s.mValue

lemma rank_run (hs : runStep s i = some s') : s'.rank < s.rank := by
  rcases run_cases hs with ⟨pc, mtx, hturn, rfl⟩ | ⟨v, hpc, rfl⟩ | ⟨hpc, rfl⟩
  · have hlt := hturn.rank (Fintype.card ι)
    have hsum := sum_update (Pc.rank (Fintype.card ι) s.mValue) s.pc i pc
    change ∑ j, ((Function.update s.pc i pc) j).rank (Fintype.card ι) s.mValue < s.rank
    unfold State.rank
    omega
  · -- the value changes for the threads that are about to compare
    refine sum_lt_of_drop (i := i) (k := 4) ?_ fun j hj => ?_
    · simp only [State.move, Function.update_self, hpc, Pc.rank]
      omega
    · simp only [State.move, Function.update_of_ne hj]
      cases s.pc j <;> simp only [Pc.rank] <;> (try split_ifs) <;> omega
  · refine sum_lt_of_drop (i := i) (k := 4) ?_ fun j hj => ?_
    · simp only [Function.update_self, hpc, Pc.rank]
      omega
    · simp only [Function.update_of_ne hj, Function.comp_apply]
      cases s.pc j <;> simp only [wake, Pc.rank] <;> (try split_ifs) <;> omega

/-- A thread that sleeps, while the value is another one than it expects, is about to be woken,
although the value is stored without the mutex. And when no call begins any more, all calls come to
their ends in every order of steps, but for those that expect the value that is left. The second
part is about `isRun`, the threads' own steps: a `wakeUp` that nobody has caused may come at any
time before, but with endlessly many of them a thread would test and sleep for ever. -/
theorem condition_variable_wakes_every_waiter
    (h : (system v : System (State ι V) _).Reachable s) :
    (∀ i e, s.pc i = .asleep e → s.mValue = e ∨ ∃ j, Notifies (s.pc j)) ∧
    (system v).Leads (fun _ a => a.isRun) (fun _ _ => True) Settled s := by
  refine ⟨fun i e => asleep_covered h, ?_⟩
  refine System.leads_of_measure (I := fun s => (system v).Reachable s) State.rank ?_ ?_ h
  · intro s hs hnot
    obtain ⟨i, s', hrun⟩ := run_enabled hs hnot
    exact ⟨.run i, s', trivial, hrun⟩
  · intro s a s' hs _ ha _ hstep
    refine ⟨hs.step trivial hstep, ?_⟩
    cases a with
    | run i => exact rank_run hstep
    | wait | publish | wakeUp => cases ha

/-- The value changes between the look of the waiter and its sleep, and the notifier waits for the
mutex until then. -/
theorem condition_variable_wakes_every_waiter_run : ∃ s : State Bool Bool,
    (system false).Reachable s ∧ s.pc false = .asleep false ∧ s.mValue = true ∧
      (s.mValue = false ∨ ∃ j, Notifies (s.pc j)) ∧
      (system false).Leads (fun _ a => a.isRun) (fun _ _ => True) Settled s := by
  have hs := System.reaches_of_exec (S := system false) (C := fun _ _ => True)
    [.wait false false, .run false, .run false, .run false, .publish true true, .run true,
      .run false] rfl
  have hwakes := condition_variable_wakes_every_waiter hs
  exact ⟨_, hs, rfl, rfl, hwakes.1 false false rfl, hwakes.2⟩

end Scoro.CondVar

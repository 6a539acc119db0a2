import Scoro.Sync.Semaphore
import Scoro.Timer.Timeout

/-!
# `with_timeout_until(sem.acquire(), t)`

A semaphore whose callers acquire plainly or under a timeout. In a timed call the inner coroutine is
the caller of the semaphore. When the timer wins, the outer coroutine is told `false` and the inner
one stays in the semaphore, counted and queued, until a release resumes it: its permit is swallowed.
A call whose time has passed before it begins does not start the inner coroutine and is left out.
-/

namespace Scoro.TimedAcquire
open Scoro.Lib Scoro.CountingSemaphore
open Timeout (Phase)

/-- The inner coroutine of a timed call: in `sem.acquire()`, before its CAS on `state` with a
permit, or at its end. -/
inductive InnerPc where
  | idle
  | acquiring
  | cas
  | completed
  deriving DecidableEq

/-- The task of the timer. `await_suspend` first resumes the inner coroutine, and adds the task when
that has suspended or ended. -/
inductive TaskPc where
  | starting
  | unregistered
  | pending
  | returned
  deriving DecidableEq

/-- The semaphore and the timed calls with their `TimeoutAwaitableState::state`. The last two fields
are history: the acquires of each caller that were reported as successful, and the permits that came
to a timed acquire whose caller had been told `false`. -/
structure State (P : Type*) where
  semaphore : CountingSemaphore.State P
  inner : P → InnerPc
  phase : P → Phase
  task : P → TaskPc
  successes : P → ℕ
  swallowed : P → ℕ

/-- `fire` and `cancel` are the timer's calls of the task's callback and of its `cancel`. -/
inductive Action (P : Type*) where
  | semaphore (a : CountingSemaphore.Action P)
  | withTimeout (p : P)
  | addTask (p : P)
  | inner (p : P)
  | fire (p : P)
  | cancel (p : P)
  deriving DecidableEq

section step
variable {P : Type*} [DecidableEq P]

def init (P : Type*) (count : ℤ) : State P where
  semaphore := CountingSemaphore.init P count
  inner := fun _ => .idle
  phase := fun _ => .ePending
  task := fun _ => .returned
  successes := fun _ => 0
  swallowed := fun _ => 0

/-- The caller that the action starts a new call of. -/
def caller : CountingSemaphore.Action P → Option P
  | .acquire p | .tryAcquire p | .release p _ => some p
  | _ => none

namespace State

/-- The caller is not in a timed call. -/
def Free (s : State P) (p : P) : Prop :=
  (s.inner p = .idle ∨ s.inner p = .completed) ∧ s.task p = .returned

instance (s : State P) (p : P) : Decidable (s.Free p) :=
  inferInstanceAs (Decidable ((s.inner p = .idle ∨ s.inner p = .completed) ∧ s.task p = .returned))

/-- The semaphore goes on. Who gets a permit in a timed call stands before its CAS, and a plain
acquire has succeeded. When an inner coroutine suspends, its `await_suspend` goes on. -/
def advance (s : State P) (t : CountingSemaphore.State P) : State P :=
  { s with
    semaphore := t
    inner := fun p =>
      if s.inner p = .acquiring ∧ t.grants p ≠ s.semaphore.grants p then .cas else s.inner p
    task := fun p =>
      if s.task p = .starting ∧ t.callers p = .suspended then .unregistered else s.task p
    successes := fun p =>
      if s.inner p ≠ .acquiring ∧ t.grants p ≠ s.semaphore.grants p then s.successes p + 1
      else s.successes p }

def setInner (s : State P) (p : P) (pc : InnerPc) : State P :=
  { s with inner := Function.update s.inner p pc }

def setPhase (s : State P) (p : P) (phase : Phase) : State P :=
  { s with phase := Function.update s.phase p phase }

def setTask (s : State P) (p : P) (pc : TaskPc) : State P :=
  { s with task := Function.update s.task p pc }

/-- If it was `await_suspend` that ran the inner coroutine, `await_suspend` goes on. -/
def started (s : State P) (p : P) : State P :=
  s.setTask p (if s.task p = .starting then .unregistered else s.task p)

end State

/-- The CAS of the inner coroutine. -/
def innerStep (s : State P) (p : P) : Option (State P) :=
  match s.inner p with
  | .cas => some (if s.phase p = .ePending then
      { ((s.setInner p .completed).started p).setPhase p .eValid with
        successes := Function.update s.successes p (s.successes p + 1) }
    else { (s.setInner p .completed).started p with
        swallowed := Function.update s.swallowed p (s.swallowed p + 1) })
  | _ => none

def step (s : State P) : Action P → Option (State P)
  | .semaphore a =>
    if ∀ p ∈ caller a, s.Free p then (CountingSemaphore.step s.semaphore a).map s.advance else none
  | .withTimeout p =>
    if s.Free p then (CountingSemaphore.step s.semaphore (.acquire p)).map fun t =>
      (({ s with semaphore := t }.setInner p .acquiring).setPhase p .ePending).setTask p .starting
    else none
  | .addTask p =>
    if s.task p = .unregistered then some (s.setTask p .pending) else none
  | .inner p => innerStep s p
  | .fire p =>
    if s.task p = .pending then
      some (if s.phase p = .ePending then (s.setTask p .returned).setPhase p .eTimeout
        else s.setTask p .returned)
    else none
  | .cancel p => if s.task p = .pending then some (s.setTask p .returned) else none

def system (P : Type*) [DecidableEq P] (count : ℤ) : System (State P) (Action P) where
  init := init P count
  step := step

end step

variable {P : Type*} {s s' : State P} {p q : P} {a : Action P} {count : ℤ}

/-- The caller has been told `false` and the inner coroutine is still in the semaphore. -/
def TimedOut (s : State P) (p : P) : Prop := s.inner p = .acquiring ∧ s.phase p = .eTimeout

/-- The inner coroutine has a permit that nobody is going to be told of. -/
def Lost (s : State P) (p : P) : Prop := s.inner p = .cas ∧ s.phase p = .eTimeout

/-- The release takes no waiter out of the queue whose caller has been told `false`, and the timer
does not win against an inner coroutine that has its permit. -/
def KeepsPermit (s : State P) : Action P → Prop
  | .semaphore (.dequeue _ q) => ¬TimedOut s q
  | .fire p => s.inner p = .cas → s.phase p ≠ .ePending
  | _ => True

/-- The arguments of `release` are at least one. -/
def Positive (_ : State P) : Action P → Prop
  | .semaphore (.release _ k) => 1 ≤ k
  | _ => True

instance (s : State P) : (a : Action P) → Decidable (KeepsPermit s a)
  | .semaphore (.dequeue _ q) =>
    inferInstanceAs (Decidable ¬(s.inner q = .acquiring ∧ s.phase q = .eTimeout))
  | .fire p => inferInstanceAs (Decidable (s.inner p = .cas → s.phase p ≠ .ePending))
  | .semaphore (.acquire _) | .semaphore (.tryAcquire _) | .semaphore (.release _ _)
  | .semaphore (.load _) | .semaphore (.cas _ _) | .semaphore (.enqueue _)
  | .semaphore (.releaseRet _) | .withTimeout _ | .addTask _ | .inner _ | .cancel _ =>
    .isTrue trivial

instance (s : State P) : (a : Action P) → Decidable (Positive s a)
  | .semaphore (.release _ k) => inferInstanceAs (Decidable (1 ≤ k))
  | .semaphore (.acquire _) | .semaphore (.tryAcquire _) | .semaphore (.dequeue _ _)
  | .semaphore (.load _) | .semaphore (.cas _ _) | .semaphore (.enqueue _)
  | .semaphore (.releaseRet _) | .withTimeout _ | .addTask _ | .inner _ | .fire _ | .cancel _ =>
    .isTrue trivial

/-- The action is the beginning of a new call. -/
def Action.isCall : Action P → Bool
  | .semaphore a => (caller a).isSome
  | .withTimeout _ => true
  | _ => false

/-- A permit of the caller has been swallowed or is going to be. -/
def Swallows (s : State P) (p : P) : Prop := Lost s p ∨ 0 < s.swallowed p

/-- Some acquire that has not timed out is suspended. -/
def Waits (s : State P) : Prop := ∃ p, s.semaphore.callers p = .suspended ∧ ¬TimedOut s p

section run
variable [DecidableEq P]

/-- No step is enabled but new calls. -/
def Quiescent (s : State P) : Prop := ∀ a : Action P, a.isCall = false → step s a = none

/-- What has become of the permits of a caller, that it is suspended in the semaphore when its time
is over and it has none, and which states its `TimeoutAwaitableState` can have. -/
structure Inv (s : State P) (p : P) : Prop where
  grants : s.semaphore.grants p = s.successes p + s.swallowed p + if s.inner p = .cas then 1 else 0
  suspended : s.inner p = .acquiring → s.task p ≠ .starting →
    s.semaphore.callers p = .suspended
  timedOut : s.phase p = .eTimeout → s.task p = .returned
  phase : s.inner p = .acquiring ∨ s.inner p = .cas → s.phase p = .ePending ∨ s.phase p = .eTimeout

omit [DecidableEq P] in
lemma init_inv (p : P) : Inv (init P count) p :=
  ⟨rfl, fun h => absurd h InnerPc.noConfusion, fun _ => rfl, fun _ => Or.inl rfl⟩

/-- The two states have the same of the caller. -/
structure Same (s s' : State P) (p : P) : Prop where
  callers : s'.semaphore.callers p = s.semaphore.callers p
  grants : s'.semaphore.grants p = s.semaphore.grants p
  inner : s'.inner p = s.inner p
  phase : s'.phase p = s.phase p
  task : s'.task p = s.task p
  successes : s'.successes p = s.successes p
  swallowed : s'.swallowed p = s.swallowed p

omit [DecidableEq P] in
lemma Inv.same (h : Inv s p) (hp : Same s s' p) : Inv s' p where
  grants := by
    rw [hp.grants, hp.successes, hp.swallowed, hp.inner]
    exact h.grants
  suspended := by
    rw [hp.inner, hp.task, hp.callers]
    exact h.suspended
  timedOut := by
    rw [hp.phase, hp.task]
    exact h.timedOut
  phase := by
    rw [hp.inner, hp.phase]
    exact h.phase

/-- Whose timed call takes the step. -/
def Action.timed : Action P → Option P
  | .semaphore _ => none
  | .withTimeout p | .addTask p | .inner p | .fire p | .cancel p => some p

lemma acquire_eq {t u : CountingSemaphore.State P}
    (h : CountingSemaphore.step u (.acquire p) = some t) :
    u.callers p = .idle ∧ t = u.setCaller p .acquireLoad := by
  simp only [CountingSemaphore.step] at h
  split at h <;> cases h
  exact ⟨‹_›, rfl⟩

/-- A step of a timed call changes nothing for the other callers. -/
lemma step_same (hs : step s a = some s') (ha : a.timed = some p) (hq : q ≠ p) : Same s s' q := by
  cases a <;> cases ha <;> simp only [step, innerStep] at hs
  case withTimeout =>
    split at hs
    · obtain ⟨t, ht, rfl⟩ := Option.map_eq_some_iff.mp hs
      obtain ⟨-, rfl⟩ := acquire_eq ht
      constructor <;> simp [State.setTask, State.setPhase, State.setInner,
        CountingSemaphore.State.setCaller, hq]
    · cases hs
  all_goals
    split at hs <;> cases hs
    try split
    all_goals constructor <;>
      simp [State.started, State.setTask, State.setPhase, State.setInner, hq]

lemma step_semaphore {b : CountingSemaphore.Action P} (hs : step s (.semaphore b) = some s') :
    ∃ t, CountingSemaphore.step s.semaphore b = some t ∧ s' = s.advance t := by
  simp only [step] at hs
  split at hs
  · obtain ⟨t, ht, rfl⟩ := Option.map_eq_some_iff.mp hs
    exact ⟨t, ht, rfl⟩
  · cases hs

/-- The steps as one caller sees them. -/
lemma step_parts (hs : step s a = some s') (p : P) :
    (∃ b t, a = .semaphore b ∧ CountingSemaphore.step s.semaphore b = some t ∧ s' = s.advance t) ∨
      a.timed = some p ∨ Same s s' p := by
  cases ha : a.timed with
  | some q =>
    by_cases hpq : p = q
    · subst hpq
      exact Or.inr (Or.inl rfl)
    · exact Or.inr (Or.inr (step_same hs ha hpq))
  | none =>
    cases a <;> cases ha
    obtain ⟨t, ht, rfl⟩ := step_semaphore hs
    exact Or.inl ⟨_, t, rfl, ht, rfl⟩

lemma Inv.advance (h : Inv s p) {b : CountingSemaphore.Action P} {t : CountingSemaphore.State P}
    (ht : CountingSemaphore.step s.semaphore b = some t) : Inv (s.advance t) p where
  grants := by
    have hgrants := h.grants
    rcases step_grants ht p with heq | heq
    · simpa [State.advance, heq] using hgrants
    · have hne : t.grants p ≠ s.semaphore.grants p := by omega
      by_cases hp : s.inner p = .acquiring
      · simp only [hp, reduceCtorEq, if_false] at hgrants
        simp [State.advance, heq, hp, hgrants]
      · simp only [State.advance, ne_eq, hp, hne, not_false_eq_true, false_and, and_self, if_false,
          if_true]
        omega
  suspended hinner htask := by
    simp only [State.advance] at hinner htask ⊢
    split at hinner
    · cases hinner
    · rename_i hkeep
      by_cases hstarting : s.task p = .starting
      · by_contra hp
        simp [hstarting, hp] at htask
      · rcases step_suspended ht (h.suspended hinner hstarting) with ⟨-, hp⟩ | ⟨-, hp, -⟩
        · exact absurd ⟨hinner, by omega⟩ hkeep
        · exact hp
  timedOut hphase := by
    have htask := h.timedOut hphase
    simp [State.advance, htask]
  phase hinner := by
    simp only [State.advance] at hinner
    split at hinner
    · exact h.phase (Or.inl (by tauto))
    · exact h.phase hinner

omit [DecidableEq P] in
/-- The end of the inner coroutine, whichever way its CAS goes. -/
lemma Inv.completed (h : Inv s p) (hp : s.inner p = .cas) (hinner : s'.inner p = .completed)
    (hgrants : s'.semaphore.grants p = s.semaphore.grants p)
    (hsum : s'.successes p + s'.swallowed p = s.successes p + s.swallowed p + 1)
    (htask : s.task p = .returned → s'.task p = .returned)
    (hphase : s'.phase p = .eTimeout → s.phase p = .eTimeout) :
    Inv s' p where
  grants := by
    have hold := h.grants
    rw [if_pos hp] at hold
    rw [hgrants, hold, hsum, hinner]
    rfl
  suspended hacquiring := by
    rw [hinner] at hacquiring
    cases hacquiring
  timedOut h' := htask (h.timedOut (hphase h'))
  phase hor := by simp [hinner] at hor

lemma Inv.own (h : Inv s p) (hs : step s a = some s') (ha : a.timed = some p) : Inv s' p := by
  cases a <;> cases ha <;> simp only [TimedAcquire.step, innerStep] at hs
  case withTimeout =>
    split at hs
    · rename_i hfree
      obtain ⟨t, ht, rfl⟩ := Option.map_eq_some_iff.mp hs
      obtain ⟨-, rfl⟩ := acquire_eq ht
      have hgrants := h.grants
      have hcas : s.inner p ≠ .cas := by
        rcases hfree.1 with hinner | hinner <;> rw [hinner] <;> exact InnerPc.noConfusion
      rw [if_neg hcas] at hgrants
      constructor
      case grants =>
        simpa [State.setTask, State.setPhase, State.setInner,
          CountingSemaphore.State.setCaller] using hgrants
      all_goals simp [State.setTask, State.setPhase]
    · cases hs
  case addTask =>
    split at hs <;> cases hs
    rename_i hadd
    refine ⟨h.grants, fun hinner _ => h.suspended hinner (by simp [hadd]), fun hphase => ?_,
      h.phase⟩
    have hreturned := h.timedOut hphase
    rw [hadd] at hreturned
    cases hreturned
  case inner =>
    split at hs <;> cases hs
    rename_i hcas
    have htask : s.task p = .returned →
        ((s.setInner p .completed).started p).task p = .returned := by
      intro hreturned
      simp [State.started, State.setTask, State.setInner, hreturned]
    split
    · refine h.completed hcas (Function.update_self ..) rfl ?_ htask ?_
      · simp only [State.setPhase, State.started, State.setTask, State.setInner,
          Function.update_self]
        omega
      · simp [State.setPhase]
    · refine h.completed hcas (Function.update_self ..) rfl ?_ htask id
      simp only [State.started, State.setTask, State.setInner, Function.update_self]
      omega
  case fire =>
    split at hs <;> cases hs
    rename_i hpending
    have hsuspended : s.inner p = .acquiring → s.semaphore.callers p = .suspended :=
      fun hinner => h.suspended hinner (by simp [hpending])
    split
    · exact ⟨h.grants, fun hinner _ => hsuspended hinner, fun _ => Function.update_self ..,
        fun _ => Or.inr (Function.update_self ..)⟩
    · exact ⟨h.grants, fun hinner _ => hsuspended hinner, fun _ => Function.update_self .., h.phase⟩
  case cancel =>
    split at hs <;> cases hs
    rename_i hpending
    have hsuspended : s.inner p = .acquiring → s.semaphore.callers p = .suspended :=
      fun hinner => h.suspended hinner (by simp [hpending])
    exact ⟨h.grants, fun hinner _ => hsuspended hinner, fun _ => Function.update_self .., h.phase⟩

lemma Inv.step (h : Inv s p) (hs : step s a = some s') : Inv s' p := by
  rcases step_parts hs p with ⟨b, t, -, ht, rfl⟩ | ha | hsame
  · exact h.advance ht
  · exact h.own hs ha
  · exact h.same hsame

lemma reaches_inv {C : State P → Action P → Prop} (h : (system P count).Reaches C s) (p : P) :
    Inv s p :=
  h.invariant (I := fun s => Inv s p) (init_inv p) fun _ _ _ _ ih _ hs => ih.step hs

omit [DecidableEq P] in
lemma Same.swallows (hp : Same s s' p) : Swallows s' p ↔ Swallows s p := by
  unfold Swallows Lost
  rw [hp.inner, hp.phase, hp.swallowed]

lemma Swallows.own (h : Swallows s p) (hs : step s a = some s') (ha : a.timed = some p) :
    Swallows s' p := by
  cases a <;> cases ha <;> simp only [TimedAcquire.step, innerStep] at hs
  case withTimeout =>
    split at hs
    · rename_i hfree
      obtain ⟨t, -, rfl⟩ := Option.map_eq_some_iff.mp hs
      refine Or.inr (h.resolve_left ?_)
      rintro ⟨hcas, -⟩
      simp [State.Free, hcas] at hfree
    · cases hs
  case inner =>
    split at hs <;> cases hs
    right
    split
    · rename_i hcas hpending
      refine h.resolve_left ?_
      rintro ⟨-, hphase⟩
      rw [hpending] at hphase
      cases hphase
    · simp
  case fire =>
    split at hs <;> cases hs
    split
    · exact h.imp_left fun h => ⟨h.1, Function.update_self ..⟩
    · exact h
  case addTask | cancel =>
    split at hs <;> cases hs
    exact h

/-- What is swallowed stays so. -/
lemma Swallows.step (h : Swallows s p) (hs : step s a = some s') : Swallows s' p := by
  rcases step_parts hs p with ⟨b, t, -, -, rfl⟩ | ha | hsame
  · exact h.imp_left fun h => ⟨by simp [State.advance, h.1], h.2⟩
  · exact h.own hs ha
  · exact hsame.swallows.mpr h

lemma own_swallows (hinv : Inv s p) (hC : KeepsPermit s a) (hs : step s a = some s')
    (ha : a.timed = some p) (h : Swallows s' p) : Swallows s p := by
  cases a <;> cases ha <;> simp only [step, innerStep] at hs
  case withTimeout =>
    split at hs
    · obtain ⟨t, -, rfl⟩ := Option.map_eq_some_iff.mp hs
      refine Or.inr (h.resolve_left ?_)
      rintro ⟨hcas, -⟩
      simp [State.setTask, State.setPhase, State.setInner] at hcas
    · cases hs
  case inner =>
    split at hs <;> cases hs
    rename_i hcas
    rcases h with ⟨hcas', -⟩ | hswallowed
    · split at hcas' <;>
        simp [State.setPhase, State.started, State.setTask, State.setInner] at hcas'
    · split at hswallowed
      · exact Or.inr hswallowed
      · rename_i hphase
        exact Or.inl ⟨hcas, (hinv.phase (Or.inr hcas)).resolve_left hphase⟩
  case fire =>
    split at hs <;> cases hs
    split at h
    · rename_i hpending
      exact Or.inr (h.resolve_left fun h => hC h.1 hpending)
    · exact h
  case addTask | cancel =>
    split at hs <;> cases hs
    exact h

/-- A step that keeps its permit swallows none. -/
lemma step_swallows (hinv : Inv s p) (hC : KeepsPermit s a) (hs : step s a = some s')
    (h : Swallows s' p) : Swallows s p := by
  rcases step_parts hs p with ⟨b, t, rfl, ht, rfl⟩ | ha | hsame
  · rcases h with ⟨hcas, hphase⟩ | hswallowed
    · simp only [State.advance] at hcas hphase
      split at hcas
      · rename_i hgrant
        have hreturned := hinv.timedOut hphase
        rcases step_suspended ht (hinv.suspended hgrant.1 (by simp [hreturned])) with
          ⟨⟨r, rfl⟩, -⟩ | ⟨-, -, hp⟩
        · exact absurd ⟨hgrant.1, hphase⟩ hC
        · exact absurd hp hgrant.2
      · exact Or.inl ⟨hcas, hphase⟩
    · exact Or.inr hswallowed
  · exact own_swallows hinv hC hs ha h
  · exact hsame.swallows.mp h

/-- A step that does not keep its permit swallows one. -/
lemma exists_swallows (hinv : ∀ p, Inv s p) (hC : ¬KeepsPermit s a) (hs : step s a = some s') :
    ∃ p, Swallows s' p := by
  cases a
  case fire p =>
    simp only [KeepsPermit, Classical.not_imp, not_not] at hC
    simp only [step] at hs
    split at hs <;> cases hs
    rw [if_pos hC.2]
    exact ⟨p, Or.inl ⟨hC.1, Function.update_self ..⟩⟩
  case semaphore b =>
    cases b
    case dequeue r q =>
      simp only [KeepsPermit, not_not] at hC
      obtain ⟨t, ht, rfl⟩ := step_semaphore hs
      have hreturned := (hinv q).timedOut hC.2
      rcases step_suspended ht ((hinv q).suspended hC.1 (by simp [hreturned])) with
        ⟨-, hp⟩ | ⟨hne, -⟩
      · exact ⟨q, Or.inl ⟨by simp [State.advance, hC.1, hp], hC.2⟩⟩
      · exact absurd rfl (hne r)
    all_goals exact absurd trivial hC
  all_goals exact absurd trivial hC

lemma Quiescent.semaphore (hq : Quiescent s) {b : CountingSemaphore.Action P}
    (hb : caller b = none) : CountingSemaphore.step s.semaphore b = none := by
  have hnone := hq (.semaphore b) (by simp [Action.isCall, hb])
  simpa [step, hb] using hnone

lemma Quiescent.enqueue (hq : Quiescent s) (p : P) : s.semaphore.callers p ≠ .enqueue := by
  intro hp
  have hnone := hq.semaphore (b := .enqueue p) rfl
  simp [CountingSemaphore.step, hp] at hnone

lemma Quiescent.inner (hq : Quiescent s) (p : P) : s.inner p ≠ .cas := by
  intro hp
  have hnone := hq (.inner p) rfl
  simp [step, innerStep, hp] at hnone

/-- The semaphore under the timed calls is the semaphore. -/
lemma reaches_semaphore {C : State P → Action P → Prop} (hC : ∀ s a, C s a → Positive s a)
    (h : (system P count).Reaches C s) :
    (CountingSemaphore.system P count).Reaches ReleasesPositive s.semaphore := by
  have R : System.Refines (system P count) C (CountingSemaphore.system P count) ReleasesPositive
      State.semaphore := by
    refine ⟨rfl, fun s a s' _ hCa hs => ?_⟩
    cases a <;> simp only [system, step, innerStep] at hs
    case semaphore b =>
      split at hs
      · obtain ⟨t, ht, rfl⟩ := Option.map_eq_some_iff.mp hs
        refine Or.inr ⟨b, ?_, ht⟩
        rintro p k rfl
        exact hC s _ hCa
      · cases hs
    case withTimeout p =>
      split at hs
      · obtain ⟨t, ht, rfl⟩ := Option.map_eq_some_iff.mp hs
        exact Or.inr ⟨.acquire p, (fun _ _ heq => by cases heq), ht⟩
      · cases hs
    all_goals
      split at hs <;> cases hs
      left
      first
        | rfl
        | split <;> rfl
  exact R.reaches h

variable [Fintype P]

omit [DecidableEq P] in
lemma sum_grants (hinv : ∀ p, Inv s p) (hcas : ∀ p, s.inner p ≠ .cas) :
    ∑ p, s.semaphore.grants p = ∑ p, s.successes p + ∑ p, s.swallowed p := by
  rw [← Finset.sum_add_distrib]
  refine Finset.sum_congr rfl fun p _ => ?_
  rw [(hinv p).grants, if_neg (hcas p), Nat.add_zero]

/-- In a quiescent state in which somebody waits every permit has been handed out. -/
lemma permits_eq (hcount : 0 ≤ count)
    (h : (CountingSemaphore.system P count).Reaches ReleasesPositive s.semaphore)
    (hq : Quiescent s) (hw : Waits s) :
    count + s.semaphore.released = ∑ p, s.semaphore.grants p := by
  have hacc := reaches_accounting hcount (fun _ p k hk => hk p k rfl) h
  have hgranted := (CountingSemaphore.reaches_inv h).granted
  have hcoming : s.semaphore.coming = 0 := by
    refine Finset.sum_eq_zero fun p _ => ?_
    unfold CallPc.coming
    split
    · exact absurd ‹_› (hq.enqueue p)
    · rfl
  have hreserved : s.semaphore.reserved = 0 := by
    refine Finset.sum_eq_zero fun p _ => ?_
    unfold CallPc.reserved
    split
    · rename_i needWake hp
      cases needWake with
      | zero => rfl
      | succ k =>
        rcases hacc.comes p k hp with hne | ⟨q, hq'⟩
        · obtain ⟨q, hmem⟩ := List.exists_mem_of_ne_nil _ hne
          have hnone := hq.semaphore (b := .dequeue p q) rfl
          simp [CountingSemaphore.step, hp, hmem] at hnone
        · exact absurd hq' (hq.enqueue q)
    · rfl
  have hlength : 0 < s.semaphore.waiters.length := by
    obtain ⟨p, hp, -⟩ := hw
    exact List.length_pos_of_mem ((hacc.suspended p).mpr hp)
  have hcounter := hacc.count
  have hwaiters := hacc.waiters
  have hbalance := hacc.balance
  omega

/-- The sums differ where something has been swallowed. -/
lemma Swallows.permits_ne (hp : Swallows s p) (hcount : 0 ≤ count)
    (h : (system P count).Reaches Positive s) (hq : Quiescent s) (hw : Waits s) :
    count + s.semaphore.released ≠ ∑ p, s.successes p := by
  have hpermits := permits_eq hcount (reaches_semaphore (fun _ _ hC => hC) h) hq hw
  have hsum := sum_grants (reaches_inv h) hq.inner
  have hswallowed : 0 < s.swallowed p := hp.resolve_left fun hlost => hq.inner p hlost.1
  have hle := Finset.single_le_sum (f := s.swallowed) (fun _ _ => Nat.zero_le _)
    (Finset.mem_univ p)
  omega

/-- As long as no permit goes to a caller that has been told `false` and no timer wins against a
permit, none is swallowed and the successes account for all of them. Otherwise one is swallowed,
and the successes never account for it. -/
theorem timed_acquire_iff (hcount : 0 ≤ count)
    (h : (system P count).Reaches (fun s a => Positive s a ∧ KeepsPermit s a) s) :
    (∀ p, ¬Swallows s p) ∧
    (Quiescent s → Waits s → count + s.semaphore.released = ∑ p, s.successes p) ∧
    ∀ a s', Positive s a → step s a = some s' → ¬KeepsPermit s a →
      ∃ p, ∀ as t, (system P count).exec Positive s' as = some t → Swallows t p ∧
        (Quiescent t → Waits t → count + t.semaphore.released ≠ ∑ p, t.successes p) := by
  have hno : ∀ p, ¬Swallows s p := by
    intro p
    refine h.invariant (I := fun s => ¬Swallows s p) ?_ ?_
    · rintro (⟨hcas, -⟩ | hswallowed)
      · cases hcas
      · exact Nat.lt_irrefl 0 hswallowed
    · intro s a s' run ih hC hs
      exact fun hp => ih (step_swallows (reaches_inv run p) hC.2 hs hp)
  have hpositive : (system P count).Reaches Positive s := h.mono fun _ _ hC => hC.1
  refine ⟨hno, fun hq hw => ?_, fun a s' ha hs hC => ?_⟩
  · rw [permits_eq hcount (reaches_semaphore (fun _ _ hC => hC) hpositive) hq hw,
      sum_grants (reaches_inv h) hq.inner]
    have hzero : ∑ p, s.swallowed p = 0 := by
      refine Finset.sum_eq_zero fun p _ => ?_
      have hp := hno p
      simp only [Swallows, not_or, Nat.not_lt, Nat.le_zero] at hp
      exact hp.2
    rw [hzero, Nat.add_zero]
  · obtain ⟨p, hp⟩ := exists_swallows (reaches_inv h) hC hs
    refine ⟨p, fun as t ht => ?_⟩
    have htp : Swallows t p :=
      System.exec_invariant (I := fun t => Swallows t p) (fun _ _ _ hu _ hs => hu.step hs) hp ht
    exact ⟨htp, htp.permits_ne hcount ((hpositive.step ha hs).exec ht)⟩

end run

/-- A test of a quiescent state. -/
lemma quiescent_of [DecidableEq P] {s : State P}
    (hcallers : ∀ p, s.semaphore.callers p = .idle ∨ s.semaphore.callers p = .suspended)
    (hinner : ∀ p, s.inner p ≠ .cas) (htask : ∀ p, s.task p = .returned) : Quiescent s := by
  intro a ha
  cases a
  case semaphore b =>
    cases b <;> simp only [Action.isCall, caller, Option.isSome, reduceCtorEq] at ha
    case load p | enqueue p | releaseRet p =>
      rcases hcallers p with hp | hp <;> simp [step, caller, CountingSemaphore.step, hp]
    case cas p spurious =>
      rcases hcallers p with hp | hp <;>
        simp [step, caller, CountingSemaphore.step, CountingSemaphore.cas, hp]
    case dequeue p q =>
      rcases hcallers p with hp | hp <;> simp [step, caller, CountingSemaphore.step, hp]
  case withTimeout => cases ha
  case inner p =>
    simp only [step, innerStep]
    split
    · exact absurd ‹_› (hinner p)
    · rfl
  case addTask p | fire p | cancel p => simp [step, htask p]

/-- Caller 0 is resumed with the permit before its timer fires, and caller 1 waits. -/
theorem timed_acquire_run : ∃ s : State (Fin 3), Quiescent s ∧ Waits s ∧
    (0 : ℤ) + s.semaphore.released = ∑ p, s.successes p := by
  obtain ⟨s, hs, hall, hwait⟩ := System.exists_reaches (S := system (Fin 3) 0)
    (fun s a => Positive s a ∧ KeepsPermit s a)
    (fun s => (∀ p, (s.semaphore.callers p = .idle ∨ s.semaphore.callers p = .suspended) ∧
      s.inner p ≠ .cas ∧ s.task p = .returned) ∧
      s.semaphore.callers 1 = .suspended ∧ s.inner 1 = .idle)
    [.withTimeout 0, .semaphore (.load 0), .semaphore (.cas 0 false), .semaphore (.enqueue 0),
      .addTask 0, .semaphore (.acquire 1), .semaphore (.load 1), .semaphore (.cas 1 false),
      .semaphore (.enqueue 1), .semaphore (.release 2 1), .semaphore (.load 2),
      .semaphore (.cas 2 false), .semaphore (.dequeue 2 0), .inner 0, .semaphore (.releaseRet 2),
      .fire 0] (by decide)
  have hq := quiescent_of (fun p => (hall p).1) (fun p => (hall p).2.1) fun p => (hall p).2.2
  have hw : Waits s := ⟨1, hwait.1, fun h => by simp [TimedOut, hwait.2] at h⟩
  exact ⟨s, hq, hw, (timed_acquire_iff (le_refl 0) hs).2.1 hq hw⟩

/-- The release takes the handle of caller 0, which has been told `false`, and caller 1 goes on
waiting. -/
theorem timed_acquire_takes_permit : ¬∀ s : State (Fin 3), (system (Fin 3) 0).Reaches Positive s →
    Quiescent s → Waits s → (0 : ℤ) + s.semaphore.released = ∑ p, s.successes p := by
  obtain ⟨s, hs, hall, hwait, hne⟩ := System.exists_reaches (S := system (Fin 3) 0) Positive
    (fun s => (∀ p, (s.semaphore.callers p = .idle ∨ s.semaphore.callers p = .suspended) ∧
      s.inner p ≠ .cas ∧ s.task p = .returned) ∧
      (s.semaphore.callers 1 = .suspended ∧ s.inner 1 = .idle) ∧
      (0 : ℤ) + s.semaphore.released ≠ ∑ p, s.successes p)
    [.withTimeout 0, .semaphore (.load 0), .semaphore (.cas 0 false), .semaphore (.enqueue 0),
      .addTask 0, .semaphore (.acquire 1), .semaphore (.load 1), .semaphore (.cas 1 false),
      .semaphore (.enqueue 1), .fire 0, .semaphore (.release 2 1), .semaphore (.load 2),
      .semaphore (.cas 2 false), .semaphore (.dequeue 2 0), .inner 0, .semaphore (.releaseRet 2)]
    (by decide)
  have hq := quiescent_of (fun p => (hall p).1) (fun p => (hall p).2.1) fun p => (hall p).2.2
  have hw : Waits s := ⟨1, hwait.1, fun h => by simp [TimedOut, hwait.2] at h⟩
  exact fun hclaim => hne (hclaim s hs hq hw)

end Scoro.TimedAcquire

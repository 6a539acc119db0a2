import Scoro.Sync.Semaphore

/-!
# Permits granted and permits there are

A permit is granted by the CAS of an `acquire` or a `try_acquire` that goes on, and by the CAS of a
`release`, which takes over the waiters it is going to wake. A negative release argument withdraws
permits, and so may a negative count to begin with.
-/

namespace Scoro.CountingSemaphore
open Scoro.Lib

section observer
variable {P : Type*} [DecidableEq P] [Fintype P]

/-- The permits that callers have obtained and those reserved for waiters that a running `release`
is going to wake. -/
def State.granted (s : State P) : ℕ := ∑ p, s.grants p + s.reserved

/-- The number of permits granted up to a grant and including it, and the permits there have been
up to then: those to begin with and the sum of the release arguments. -/
structure Grant where
  granted : ℕ
  permits : ℤ
  deriving DecidableEq

/-- An observer that notes every step that grants permits. -/
def noteGrant (count : ℤ) (s : State P) (a : Action P) (log : List Grant) : List Grant :=
  match step s a with
  | none => log
  | some s' =>
    if s.granted < s'.granted then log ++ [⟨s'.granted, count + s'.released⟩] else log

def granting (P : Type*) [DecidableEq P] [Fintype P] (count : ℤ) :
    System (System.Noted (State P) (List Grant)) (Action P) :=
  (system P count).observe (noteGrant count) []

/-- No permit was granted that there was not. -/
def Available (log : List Grant) : Prop := ∀ grant ∈ log, (grant.granted : ℤ) ≤ grant.permits

/-- The argument of the `release` whose CAS this step is. -/
def State.storedRelease (s : State P) : Action P → Option ℤ
  | .cas p false => match s.callers p with
    | .releaseCas k counter => if s.counter = counter then some k else none
    | _ => none
  | _ => none

/-- A `release` that takes over waiters makes up for the withdrawn permits: added to the count, its
argument or the number of waiters, whichever is greater, leaves nothing owed. -/
def Covered (s : State P) (a : Action P) : Prop :=
  ∀ k ∈ s.storedRelease a, 0 < s.counter.needWake k → 0 ≤ s.counter.count + max k s.counter.waiters

instance (s : State P) (a : Action P) : Decidable (Covered s a) :=
  inferInstanceAs (Decidable (∀ k ∈ s.storedRelease a, _))

omit [DecidableEq P] [Fintype P] in
lemma storedRelease_cas {s : State P} {p : P} {k : ℤ} (hp : s.callers p = .releaseCas k s.counter) :
    s.storedRelease (.cas p false) = some k := by
  simp [State.storedRelease, hp]

end observer

section
variable {P : Type*} [DecidableEq P] {s s' : State P} {a : Action P}

/-- What a step does to the counter and to the sum of the release arguments. -/
inductive CounterMove (s : State P) : Action P → Counter → ℤ → Prop
  | keep {a : Action P} (ha : s.storedRelease a = none) : CounterMove s a s.counter s.released
  | acquire {p} (hp : s.callers p = .acquireCas s.counter) :
      CounterMove s (.cas p false) s.counter.acquire s.released
  | tryAcquire {p} (hp : s.callers p = .tryCas s.counter) :
      CounterMove s (.cas p false) s.counter.tryAcquire s.released
  | release {p k} (hp : s.callers p = .releaseCas k s.counter) :
      CounterMove s (.cas p false) (s.counter.release k) (s.released + k)

/-- A `release` that takes over waiters has a positive argument. -/
lemma Counter.needWake_pos {counter : Counter} {k : ℤ} (h : 0 < counter.needWake k) :
    0 < k ∧ counter.needWake k = min k.toNat counter.waiters := by
  unfold Counter.needWake at h ⊢
  split at h
  · rename_i hk
    exact ⟨hk, if_pos hk⟩
  · cases h

lemma cas_counterMove {p : P} {spurious : Bool} (hs : cas s p spurious = some s') :
    CounterMove s (.cas p spurious) s'.counter s'.released := by
  cases cas_effect hs with
  | wait hp _ | acquire hp _ => exact .acquire hp
  | tryAcquire hp _ => exact .tryAcquire hp
  | release hp => exact .release hp
  | giveUp hp _ => exact .keep (by simp [State.storedRelease, hp])
  | acquireAgain hp _ | tryAgain hp _ =>
    exact .keep (by cases spurious <;> simp [State.storedRelease, hp])
  | releaseAgain hp hfail =>
    refine .keep ?_
    cases spurious with
    | true => rfl
    | false => simpa [State.storedRelease, hp] using hfail

lemma step_counterMove (hs : step s a = some s') : CounterMove s a s'.counter s'.released := by
  cases a <;> simp only [step] at hs
  case cas p spurious => exact cas_counterMove hs
  case dequeue p q =>
    split at hs
    · split at hs <;> cases hs
      obtain ⟨hcounter, hreleased, -⟩ :=
        resume_fields ({ s with waiters := s.waiters.erase q }.setCaller p (.wake _)) q
      rw [hcounter, hreleased]
      exact .keep rfl
    · cases hs
  all_goals
    split at hs <;> cases hs
    all_goals exact .keep rfl

variable [Fintype P] {count : ℤ}

omit [DecidableEq P] in
/-- Permits granted, permits left and waiters add up to the permits there are. -/
lemma Inv.granted_eq (h : Inv count s) :
    (s.granted : ℤ) + s.counter.count + s.counter.waiters = count + s.released := by
  have hcount := h.count
  have hbalance := h.balance
  have hgranted := h.granted
  unfold State.granted
  omega

/-- A step grants what there is, or it is a `release` that makes up for too little. -/
lemma Inv.available_iff (h : Inv count s) (hs : CountingSemaphore.step s a = some s') :
    (s.granted < s'.granted → (s'.granted : ℤ) ≤ count + s'.released) ↔ Covered s a := by
  have hbefore := h.granted_eq
  have hafter := (h.step hs).granted_eq
  have hm := step_counterMove hs
  generalize hcounter : s'.counter = counter at hm hafter
  generalize hreleased : s'.released = released at hm hafter ⊢
  clear hcounter hreleased
  cases hm with
  | keep ha =>
    exact iff_of_true (fun hlt => by omega) fun k hk => by simp [ha] at hk
  | acquire hp =>
    refine iff_of_true (fun hlt => ?_) fun k hk => by simp [State.storedRelease, hp] at hk
    unfold Counter.acquire Counter.needWait at hafter
    by_cases hneg : s.counter.count - 1 < 0
    · simp only [hneg, decide_true, if_true] at hafter
      push_cast at hafter
      omega
    · simp only [hneg, decide_false, Bool.false_eq_true, if_false] at hafter
      omega
  | tryAcquire hp =>
    refine iff_of_true (fun hlt => ?_) fun k hk => by simp [State.storedRelease, hp] at hk
    unfold Counter.tryAcquire Counter.success at hafter
    by_cases hpos : s.counter.count > 0
    · simp only [hpos, decide_true, if_true] at hafter
      omega
    · simp only [hpos, decide_false, Bool.false_eq_true, if_false] at hafter
      omega
  | @release p k hp =>
    have hle := s.counter.needWake_le k
    simp only [Covered, storedRelease_cas hp, Option.mem_def, Option.some.injEq, forall_eq']
    simp only [Counter.release] at hafter
    constructor
    · intro hlaw hwake
      obtain ⟨hk, hwakes⟩ := Counter.needWake_pos hwake
      have hgrant := hlaw (by omega)
      omega
    · intro hcovered hlt
      have hwake : 0 < s.counter.needWake k := by omega
      obtain ⟨hk, hwakes⟩ := Counter.needWake_pos hwake
      have hmax := hcovered hwake
      omega

lemma noteGrant_of_step {log : List Grant} (hs : step s a = some s') :
    noteGrant count s a log =
      if s.granted < s'.granted then log ++ [⟨s'.granted, count + s'.released⟩] else log := by
  simp only [noteGrant, hs]

/-- A step keeps to the law as long as it is kept just if it is covered. -/
lemma available_step (h : Inv count s) (hs : step s a = some s') {log : List Grant}
    (hlog : Available log) : Available (noteGrant count s a log) ↔ Covered s a := by
  rw [← h.available_iff hs, noteGrant_of_step hs]
  by_cases hlt : s.granted < s'.granted
  · simp only [hlt, if_true, forall_const, Available, List.forall_mem_append,
      List.forall_mem_singleton]
    exact and_iff_right hlog
  · simp only [hlt, if_false, false_imp_iff, iff_true]
    exact hlog

/-- If every `release` that takes over waiters makes up for what has been withdrawn, no more
permits are granted than there are. Where it does not, it grants a permit that there is not. A
grant is judged at the CAS of its `release`: what is withdrawn after it, before the handles have
been dequeued, does not count against it. -/
theorem grants_available_iff {s : System.Noted (State P) (List Grant)}
    (h : (granting P count).Reaches (fun s => Covered s.state) s) :
    Available s.notes ∧
      ∀ a s', (granting P count).step s a = some s' → (Available s'.notes ↔ Covered s.state a) := by
  have hall : Inv count s.state ∧ Available s.notes := by
    refine h.invariant (I := fun s => Inv count s.state ∧ Available s.notes)
      ⟨inv_init, by simp [granting, System.observe, Available]⟩ ?_
    rintro s a s' - ⟨hinv, hlog⟩ hcovered hs
    obtain ⟨hs, hnotes⟩ := System.observe_step.mp hs
    refine ⟨hinv.step hs, ?_⟩
    rw [hnotes]
    exact (available_step hinv hs hlog).mpr hcovered
  refine ⟨hall.2, fun a s' hs => ?_⟩
  obtain ⟨hs, hnotes⟩ := System.observe_step.mp hs
  rw [hnotes]
  exact available_step hall.1 hs hall.2

end

/-- An acquire waits, five permits are withdrawn and one is released, which wakes the acquire. -/
theorem grants_beyond_permits : ∃ s : System.Noted (State (Fin 2)) (List Grant),
    (granting (Fin 2) 0).Reachable s ∧ s.notes = [⟨1, -4⟩] ∧ ¬Available s.notes := by
  obtain ⟨s, hs, hnotes⟩ := System.exists_reaches (S := granting (Fin 2) 0) (fun _ _ => True)
    (fun s => s.notes = [⟨1, -4⟩])
    [.acquire 0, .load 0, .cas 0 false, .enqueue 0, .release 1 (-5), .load 1, .cas 1 false,
      .releaseRet 1, .release 1 1, .load 1, .cas 1 false] (by decide)
  refine ⟨s, hs, hnotes, ?_⟩
  simp [hnotes, Available]

/-- The permits to begin with are withdrawn, and the one released goes to the acquire that waits. -/
theorem grants_available_wake : ∃ s : System.Noted (State (Fin 2)) (List Grant),
    s.notes = [⟨1, 1⟩] ∧ Available s.notes := by
  obtain ⟨s, hs, hnotes⟩ := System.exists_reaches (S := granting (Fin 2) 3)
    (fun s a => Covered s.state a) (fun s => s.notes = [⟨1, 1⟩])
    [.release 1 (-3), .load 1, .cas 1 false, .releaseRet 1, .acquire 0, .load 0, .cas 0 false,
      .enqueue 0, .release 1 1, .load 1, .cas 1 false] (by decide)
  exact ⟨s, hnotes, (grants_available_iff hs).1⟩

end Scoro.CountingSemaphore

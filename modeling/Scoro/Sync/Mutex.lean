import Scoro.Sync.Semaphore

/-!
# `Mutex`

A mutex is a semaphore with one permit. The permits that callers hold, the wake-ups that
running unlocks have reserved, the unlocks whose CAS is still to come and what is left in the
counter add up to one.
-/

namespace Scoro.Mutex
open Scoro.Lib Scoro.CountingSemaphore

section model
variable {P : Type*}

/-- `Mutex` holds a semaphore that begins with one permit. -/
def system (P : Type*) [DecidableEq P] : System (State P) (Action P) :=
  CountingSemaphore.system P 1

def lock (p : P) : Action P := .acquire p

def tryLock (p : P) : Action P := .tryAcquire p

def unlock (p : P) : Action P := .release p 1

/-- `p` has obtained the lock and has not called `unlock` since. -/
def Held (s : State P) (p : P) : Prop := s.releases p < s.grants p

/-- Only the holder calls `unlock`. -/
def UnlockedByHolder (s : State P) (a : Action P) : Prop :=
  ∀ p k, a = .release p k → a = unlock p ∧ Held s p

instance [DecidableEq P] (s : State P) (a : Action P) : Decidable (UnlockedByHolder s a) :=
  match a with
  | .release p k => decidable_of_iff (k = 1 ∧ s.releases p < s.grants p)
      ⟨fun h _ _ heq => by cases heq; exact ⟨by rw [h.1]; rfl, h.2⟩,
        fun h => ⟨by have := (h p k rfl).1; unfold unlock at this; cases this; rfl, (h p k rfl).2⟩⟩
  | .acquire _ | .tryAcquire _ | .load _ | .cas .. | .enqueue _ | .dequeue .. | .releaseRet _ =>
    isTrue nofun

/-- One for an `unlock` whose CAS is not done. -/
def unlocking : CallPc → ℕ
  | .releaseLoad _ | .releaseCas .. => 1
  | _ => 0

end model

section invariant
variable {P : Type*} [DecidableEq P] [Fintype P] {s s' : State P} {p : P}

/-- Each call of `unlock` is counted in `released` from its CAS on. -/
def Counted (s : State P) : Prop :=
  s.released + ((∑ p, unlocking (s.callers p) : ℕ) : ℤ) = ((∑ p, s.releases p : ℕ) : ℤ)

omit [DecidableEq P] in
lemma Counted.congr (h : Counted s) (hreleased : s'.released = s.released)
    (hreleases : s'.releases = s.releases)
    (hcallers : ∑ p, unlocking (s'.callers p) = ∑ p, unlocking (s.callers p)) : Counted s' := by
  unfold Counted at h ⊢
  rw [hreleased, hreleases, hcallers]
  exact h

lemma Counted.setCaller (h : Counted s) {pc : CallPc}
    (hpc : unlocking pc = unlocking (s.callers p)) : Counted (s.setCaller p pc) :=
  h.congr rfl rfl (sum_update_of_eq hpc)

lemma Counted.resume (h : Counted s) (q : P) : Counted (s.resume q) := by
  unfold State.resume
  split
  · rename_i hq
    exact h.congr rfl rfl (sum_update_of_eq (by rw [hq]; rfl))
  · exact h.congr rfl rfl rfl

lemma Counted.cas (h : Counted s) {spurious : Bool}
    (harg : ∀ k, (s.callers p).releaseArg = some k → k = 1) (hs : cas s p spurious = some s') :
    Counted s' := by
  cases cas_effect hs with
  | wait hp _ | acquire hp _ | tryAcquire hp _ =>
    exact h.congr rfl rfl (sum_update_of_eq (by rw [hp]; rfl))
  | @release k hp =>
    obtain rfl : k = 1 := harg k (by rw [hp]; rfl)
    have hsum := sum_update_of_leave (w := unlocking) (f := s.callers) (i := p)
      (x := .wake (s.counter.needWake 1)) (by rw [hp]; rfl) rfl
    unfold Counted at h ⊢
    simp only [State.setCaller]
    omega
  | giveUp hp _ | acquireAgain hp _ | tryAgain hp _ => exact h.setCaller (by rw [hp]; rfl)
  | @releaseAgain _ k _ hp _ =>
    obtain rfl : k = 1 := harg k (by rw [hp]; rfl)
    exact h.setCaller (by rw [hp]; rfl)

lemma Counted.step (h : Counted s) {a : Action P}
    (harg : ∀ p k, (s.callers p).releaseArg = some k → k = 1)
    (hs : CountingSemaphore.step s a = some s') : Counted s' := by
  cases a <;> simp only [CountingSemaphore.step] at hs
  case acquire p | tryAcquire p | enqueue p | releaseRet p =>
    split at hs <;> cases hs
    rename_i hp
    exact h.congr rfl rfl (sum_update_of_eq (by rw [hp]; rfl))
  case release p k =>
    split at hs <;> cases hs
    rename_i hp
    have hcallers := sum_update unlocking s.callers p (.releaseLoad k)
    have hreleases := sum_update id s.releases p (s.releases p + 1)
    rw [hp] at hcallers
    change _ + 0 = _ + 1 at hcallers
    simp only [id] at hreleases
    unfold Counted at h ⊢
    simp only [State.setCaller]
    omega
  case load p =>
    split at hs <;> cases hs
    all_goals
      rename_i hp
      exact h.setCaller (by simp [hp, unlocking])
  case cas p spurious => exact h.cas (harg p) hs
  case dequeue p q =>
    split at hs
    · rename_i needWake hp
      split at hs <;> cases hs
      have hwake : Counted ({ s with waiters := s.waiters.erase q }.setCaller p (.wake needWake)) :=
        h.congr rfl rfl (sum_update_of_eq (by rw [hp]; rfl))
      exact hwake.resume q
    · cases hs

omit [Fintype P] in
/-- Permits are not taken back from their holders. -/
lemma step_grants_le {a : Action P} (hs : CountingSemaphore.step s a = some s') (p : P) :
    s.grants p ≤ s'.grants p := by
  have hgrants := step_grants hs p
  omega

omit [Fintype P] in
lemma step_releases {a : Action P} (hs : CountingSemaphore.step s a = some s') (p : P) :
    s'.releases p = s.releases p ∨ ∃ k, a = .release p k ∧ s'.releases p = s.releases p + 1 := by
  cases a <;> simp only [CountingSemaphore.step] at hs
  case release q k =>
    split at hs <;> cases hs
    by_cases hp : p = q
    · subst hp
      exact Or.inr ⟨k, rfl, by simp⟩
    · exact Or.inl (Function.update_of_ne hp ..)
  case cas q spurious =>
    left
    cases cas_effect hs with
    | wait _ _ | acquire _ _ | tryAcquire _ _ | giveUp _ _ | release _ | acquireAgain _ _
    | tryAgain _ _ | releaseAgain _ _ => rfl
  case dequeue q r =>
    split at hs
    · split at hs <;> cases hs
      exact Or.inl (congrFun (resume_fields _ r).2.2 p)
    · cases hs
  all_goals
    split at hs <;> cases hs
    all_goals exact Or.inl rfl

omit [Fintype P] in
lemma reaches_releases_le (h : (system P).Reaches UnlockedByHolder s) (p : P) :
    s.releases p ≤ s.grants p := by
  refine h.invariant (I := fun s => s.releases p ≤ s.grants p) le_rfl ?_
  intro s a s' _ ih hC hs
  have hle := step_grants_le hs p
  rcases step_releases hs p with heq | ⟨k, rfl, heq⟩
  · omega
  · have hheld := (hC p k rfl).2
    unfold Held at hheld
    omega

omit [DecidableEq P] [Fintype P] in
lemma release_arg_of_holder (s : State P) (p : P) (k : ℤ)
    (hC : UnlockedByHolder s (.release p k)) : k = 1 := by
  have h := (hC p k rfl).1
  unfold unlock at h
  cases h
  rfl

/-- At most one caller holds the lock. -/
theorem reaches_exclusive (h : (system P).Reaches UnlockedByHolder s) :
    ∑ p, (s.grants p - s.releases p) ≤ 1 := by
  have hinv := reaches_inv h
  have hone : ∀ (s : State P) (p : P) (k : ℤ), UnlockedByHolder s (.release p k) → 1 ≤ k :=
    fun s p k hC => (release_arg_of_holder s p k hC).ge
  have hok := reaches_counter (by decide) hone h
  have hcounted : Counted s := by
    refine h.invariant (by simp [Counted, system, CountingSemaphore.system, init, unlocking]) ?_
    intro s a s' run ih _ hs
    exact ih.step (fun p k hk => reaches_releaseArg release_arg_of_holder run hk) hs
  have hsplit : ∑ p, (s.grants p - s.releases p) + ∑ p, s.releases p = ∑ p, s.grants p := by
    rw [← Finset.sum_add_distrib]
    apply Finset.sum_congr rfl
    intro p _
    have := reaches_releases_le h p
    omega
  have hcount := hinv.count
  have hbalance := hinv.balance
  have hgranted := hinv.granted
  unfold Counted at hcounted
  unfold Counter.Ok at hok
  omega

/-- A semaphore keeps its accounts, and a mutex that only its holder unlocks excludes. -/
theorem semaphore_accounting :
    (∀ (count : ℤ) (s : State P), 0 ≤ count →
      (CountingSemaphore.system P count).Reaches ReleasesPositive s → Accounting count s) ∧
    ∀ s : State P, (system P).Reaches UnlockedByHolder s →
      ∑ p, (s.grants p - s.releases p) ≤ 1 ∧
        ∀ p q, Held s p → Held s q → p = q := by
  refine ⟨fun count s hcount h => ?_, fun s h => ?_⟩
  · exact reaches_accounting hcount (fun s p k hC => hC p k rfl) h
  · have hsum := reaches_exclusive h
    refine ⟨hsum, fun p q hp hq => ?_⟩
    by_contra hpq
    unfold Held at hp hq
    have hpair : ∑ r ∈ {p, q}, (s.grants r - s.releases r) ≤ ∑ r, (s.grants r - s.releases r) :=
      Finset.sum_le_univ_sum_of_nonneg fun _ => Nat.zero_le _
    rw [Finset.sum_pair hpq] at hpair
    omega

/-- A release reserves the wake-up of an acquire that has not enqueued its handle yet, and a
mutex is handed over to a caller that waits for it. -/
theorem semaphore_accounting_hand_over :
    (∃ s : State (Fin 2), s.callers 0 = .enqueue ∧ s.callers 1 = .wake 1 ∧ Accounting 0 s) ∧
    ∃ s : State (Fin 2), Held s 1 ∧ s.releases 0 = 1 ∧ ¬Held s 0 := by
  constructor
  · obtain ⟨s, hs, h0, h1⟩ := System.exists_reaches (S := CountingSemaphore.system (Fin 2) 0)
      ReleasesPositive (fun s => s.callers 0 = .enqueue ∧ s.callers 1 = .wake 1)
      [.acquire 0, .load 0, .release 1 3, .load 1, .cas 0 false, .cas 1 false, .cas 1 false]
      (by decide)
    exact ⟨s, h0, h1, semaphore_accounting.1 0 s (by decide) hs⟩
  · obtain ⟨s, hs, h1, h0⟩ := System.exists_reaches (S := system (Fin 2)) UnlockedByHolder
      (fun s => s.releases 1 < s.grants 1 ∧ s.releases 0 = 1)
      [lock 0, .load 0, .cas 0 false, lock 1, .load 1, .cas 1 false, unlock 0, .load 0,
        .cas 0 false, .enqueue 1, .dequeue 0 1] (by decide)
    refine ⟨s, h1, h0, fun hheld => ?_⟩
    have heq := (semaphore_accounting.2 s hs).2 0 1 hheld h1
    cases heq

end invariant

end Scoro.Mutex

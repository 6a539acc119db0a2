import Scoro.Sync.Semaphore

/-!
# An acquire that cannot enqueue its handle

`enqueue` returns false when its allocation fails. `acquire_helper` does not look at the result: it
has counted the waiter with its CAS and tells the coroutine to stay suspended.
-/

namespace Scoro.CountingSemaphore
open Scoro.Lib System

inductive FailAction (P : Type*) where
  | step (a : Action P)
  | enqueueFails (p : P)

section failing
variable {P : Type*} [DecidableEq P]

/-- The steps of the semaphore, and the `enqueue` of `acquire_helper` without memory. -/
def failStep (s : State P) : FailAction P → Option (State P)
  | .step a => step s a
  | .enqueueFails p =>
    match s.callers p with
    | .enqueue => some (s.setCaller p .suspended)
    | _ => none

/-- The semaphore with an observer that notes the handles whose `enqueue` has failed. -/
def failing (P : Type*) [DecidableEq P] (count : ℤ) :
    System (Noted (State P) (List P)) (FailAction P) :=
  System.observe ⟨init P count, failStep⟩
    (fun _ a lost => match a with
      | .step _ => lost
      | .enqueueFails p => lost ++ [p]) []

/-- A suspended coroutine has its handle in the queue. -/
def State.Enqueued (s : State P) : Prop := ∀ p, s.callers p = .suspended → p ∈ s.waiters

/-- Every waiter that is counted, or that a `release` has taken over, has its handle in the queue
or is about to enqueue it. -/
def State.CountsHandles [Fintype P] (s : State P) : Prop :=
  s.counter.waiters + s.reserved ≤ s.waiters.length + s.coming

/-- A `release` waits for a handle, there is none and none is coming. -/
def State.Blocked (s : State P) : Prop :=
  s.waiters = [] ∧ (∀ p, s.callers p ≠ .enqueue) ∧ ∃ p needWake, s.callers p = .wake (needWake + 1)

end failing

section run
variable {P : Type*} [DecidableEq P] {count : ℤ} {s s' : State P} {a : Action P}

lemma cas_of_waiters {p : P} {spurious : Bool} (hs : cas s p spurious = some s')
    (waiters : List P) :
    cas { s with waiters := waiters } p spurious = some { s' with waiters := waiters } := by
  unfold cas at hs ⊢
  split at hs
  · rename_i counter hp
    simp only [hp]
    by_cases heq : s.counter = counter ∧ spurious = false
    · rw [if_pos heq] at hs ⊢
      cases hs
      cases counter.needWait <;> rfl
    · rw [if_neg heq] at hs ⊢
      cases hs
      rfl
  · rename_i counter hp
    simp only [hp]
    by_cases heq : s.counter = counter ∧ spurious = false
    · rw [if_pos heq] at hs ⊢
      cases hs
      cases counter.success <;> rfl
    · rw [if_neg heq] at hs ⊢
      cases hs
      rfl
  · rename_i k counter hp
    simp only [hp]
    by_cases heq : s.counter = counter ∧ spurious = false
    · rw [if_pos heq] at hs ⊢
      cases hs
      rfl
    · rw [if_neg heq] at hs ⊢
      cases hs
      rfl
  · cases hs

/-- A step that does not touch the queue does the same with another one. -/
lemma step_of_waiters (hs : step s a = some s') (henqueue : ∀ p, a ≠ .enqueue p)
    (hdequeue : ∀ p q, a ≠ .dequeue p q) (waiters : List P) :
    step { s with waiters := waiters } a = some { s' with waiters := waiters } := by
  cases a with
  | enqueue p => exact absurd rfl (henqueue p)
  | dequeue p q => exact absurd rfl (hdequeue p q)
  | cas p spurious => exact cas_of_waiters hs waiters
  | acquire p | tryAcquire p | release p | load p | releaseRet p =>
    simp only [step] at hs ⊢
    split at hs <;> cases hs <;> rfl

lemma resume_of_waiters (s : State P) (q : P) (waiters : List P) :
    State.resume { s with waiters := waiters } q = { s.resume q with waiters := waiters } := by
  unfold State.resume
  cases s.callers q <;> rfl

lemma resume_waiters (s : State P) (q : P) : (s.resume q).waiters = s.waiters := by
  unfold State.resume
  split <;> rfl

variable [Fintype P]

omit [DecidableEq P] in
/-- The invariant does not depend on the order of the queue. -/
lemma Inv.perm (h : Inv count s) {waiters : List P} (hperm : s.waiters.Perm waiters) :
    Inv count { s with waiters := waiters } := by
  refine ⟨h.count, ?_, ?_, hperm.nodup_iff.mp h.nodup, fun p => ?_, h.fault⟩
  · change s.counter.waiters + s.reserved = waiters.length + s.coming
    rw [← hperm.length_eq]
    exact h.balance
  · change ∑ p, s.grants p + waiters.length + s.coming = s.acquires + s.tries
    rw [← hperm.length_eq]
    exact h.granted
  · change p ∈ waiters ↔ s.callers p = .suspended
    rw [← hperm.mem_iff]
    exact h.suspended p

/-- With the lost handles at the front of the queue, the semaphore is as it should be. -/
def Restored (count : ℤ) (s : Noted (State P) (List P)) : Prop :=
  Inv count { s.state with waiters := s.notes ++ s.state.waiters }

lemma Restored.step {s t : Noted (State P) (List P)} {a : FailAction P} (h : Restored count s)
    (hs : (failing P count).step s a = some t) : Restored count t := by
  obtain ⟨hs, hnotes⟩ := observe_step.mp hs
  unfold Restored at h ⊢
  cases a with
  | enqueueFails p =>
    simp only [failStep] at hs
    split at hs
    · rename_i hp
      have henqueue := h.enqueue (p := p) hp
      rw [hnotes, ← Option.some.inj hs]
      refine henqueue.perm ?_
      simp only [List.append_assoc]
      exact List.perm_append_comm.append_left _
    · cases hs
  | step a =>
    change t.notes = s.notes at hnotes
    change CountingSemaphore.step s.state a = some t.state at hs
    rw [hnotes]
    by_cases henqueue : ∃ p, a = .enqueue p
    · obtain ⟨p, rfl⟩ := henqueue
      simp only [CountingSemaphore.step] at hs
      split at hs
      · rename_i hp
        have hinv := h.enqueue (p := p) hp
        rw [← Option.some.inj hs]
        simpa [List.append_assoc, State.setCaller] using hinv
      · cases hs
    by_cases hdequeue : ∃ p q, a = .dequeue p q
    · obtain ⟨p, q, rfl⟩ := hdequeue
      simp only [CountingSemaphore.step] at hs
      split at hs
      · rename_i k hp
        split at hs
        · rename_i hq
          have hinv := h.dequeue (p := p) (q := q) hp (List.mem_append_right _ hq)
          have hnot : q ∉ s.notes := fun hmem => List.disjoint_of_nodup_append h.nodup hmem hq
          rw [← Option.some.inj hs, resume_waiters]
          simp only [List.erase_append_right _ hnot] at hinv
          have heq := resume_of_waiters
            ({ s.state with waiters := s.state.waiters.erase q }.setCaller p (.wake k)) q
            (s.notes ++ s.state.waiters.erase q)
          exact (congrArg (Inv count) heq).mp hinv
        · cases hs
      · cases hs
    · have hother := step_of_waiters hs (fun p hp => henqueue ⟨p, hp⟩)
        (fun p q hpq => hdequeue ⟨p, q, hpq⟩)
      have hsame : t.state.waiters = s.state.waiters := by
        have heq := (hother s.state.waiters).symm.trans hs
        rw [← Option.some.inj heq]
      rw [hsame]
      exact h.step (hother (s.notes ++ s.state.waiters))

lemma reaches_restored {s : Noted (State P) (List P)} (h : (failing P count).Reachable s) :
    Restored count s :=
  h.invariant (I := Restored count) (show Restored count (failing P count).init from inv_init)
    fun _ _ _ _ ih _ hs => ih.step hs

end run

section counts
variable {P : Type*} [Fintype P] {count : ℤ} {s : Noted (State P) (List P)}

lemma Restored.enqueued_iff (h : Restored count s) : s.state.Enqueued ↔ s.notes = [] := by
  have hmem : ∀ p, p ∈ s.notes ++ s.state.waiters ↔ s.state.callers p = .suspended := h.suspended
  constructor
  · intro henqueued
    refine List.eq_nil_iff_forall_not_mem.mpr fun p hp => ?_
    have hqueued := henqueued p ((hmem p).mp (List.mem_append_left _ hp))
    exact List.disjoint_of_nodup_append h.nodup hp hqueued
  · intro hnone p hp
    simpa [hnone] using (hmem p).mpr hp

lemma Restored.countsHandles_iff (h : Restored count s) :
    s.state.CountsHandles ↔ s.notes = [] := by
  have hbalance : s.state.counter.waiters + s.state.reserved =
      (s.notes ++ s.state.waiters).length + s.state.coming := h.balance
  rw [List.length_append] at hbalance
  unfold State.CountsHandles
  rw [← List.length_eq_zero_iff]
  omega

/-- A `release` that has taken over a waiter counts it as reserved. -/
lemma reserved_pos {s : State P} {p : P} {needWake : ℕ} (hp : s.callers p = .wake (needWake + 1)) :
    0 < s.reserved := by
  have hle : (s.callers p).reserved ≤ s.reserved :=
    Finset.single_le_sum (f := fun p => (s.callers p).reserved) (fun _ _ => Nat.zero_le _)
      (Finset.mem_univ p)
  rw [hp] at hle
  exact (Nat.succ_pos needWake).trans_le hle

lemma not_blocked {s : State P} (h : s.CountsHandles) : ¬s.Blocked := by
  rintro ⟨hempty, hcoming, p, needWake, hp⟩
  have hpos := reserved_pos hp
  have hzero : s.coming = 0 := by
    refine Finset.sum_eq_zero fun q _ => ?_
    cases hq : s.callers q <;> first | rfl | exact absurd hq (hcoming q)
  unfold State.CountsHandles at h
  rw [hempty, hzero] at h
  simp only [List.length_nil] at h
  omega

end counts

end Scoro.CountingSemaphore

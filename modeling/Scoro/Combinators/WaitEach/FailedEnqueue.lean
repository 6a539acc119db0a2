import Scoro.Combinators.WaitEach.Drain
import Scoro.Sync.FailedEnqueue

/-!
# Callers of `enqueue` that do not look at its result

A runner of `wait_each` whose `enqueue` fails decrements `remaining` all the same, and its result is
gone. An acquire of the semaphore whose `enqueue` fails is gone itself.
-/

namespace Scoro.WaitEach
open Scoro.Lib Scoro.Combinators System

/-- No exchange resumes the consumer before there is something for it. -/
def OnTime {n : ℕ} {V E : Type*} (s : State n V E) (a : Action n V E) : Prop :=
  s.Takes a → s.Supplied

instance {n : ℕ} {V E : Type*} [DecidableEq V] [DecidableEq E] (s : State n V E)
    (a : Action n V E) : Decidable (OnTime s a) := inferInstanceAs (Decidable (_ → _))

variable {n : ℕ} {V E : Type*} {s s' : State n V E} {stub : AtomicQueue.Addr}
  {cs : List AtomicQueue.Addr} {vs : List (Result n V E)} {i : Fin n}

/-- A result whose `enqueue` has failed is not delivered. -/
lemma not_delivered (h : Inv s) (hinv : AtomicQueue.Inv s.queue cs vs)
    (hist : AtomicQueue.History s.queue) (hfailed : s.queue.Failed i) : ¬s.Delivered i := by
  rintro ⟨o, -, hmem⟩
  -- what was delivered has a ticket, and a runner enqueues once
  obtain ⟨x, hx, hvalue⟩ := delivered_ticket hinv hmem
  obtain ⟨hzero, o', -, hvalue'⟩ := ticket_outcome h.runners hist hx
  have hproducer : x.producer = i := congrArg Prod.fst (hvalue'.symm.trans hvalue)
  have hticket := (hist.accepted_iff i 0).mp ⟨x, hx, hproducer, hzero⟩
  have hlinked := h.runners.linked i
  unfold Linked at hlinked
  rcases hfailed with hret | hfalse
  · have hresults : s.queue.results i = [] := by
      split at hlinked
      · exact hlinked.2.1
      · exact hlinked.2.1
      all_goals simp [hret] at hlinked
    simp [hresults, hret, AtomicQueue.EnqueuePc.swung] at hticket
  · have hresults : s.queue.results i = [false] := by
      split at hlinked
      · simp [hlinked.2.1] at hfalse
      · simp [hlinked.2.1] at hfalse
      all_goals
        obtain ⟨-, ⟨ok, hok⟩, -⟩ := hlinked
        rw [hok] at hfalse ⊢
        simpa using hfalse
    simp [hresults] at hticket

/-- A `co_await` that yields `nullopt` does so after all results, if no call of `enqueue` has
failed, and before some of them otherwise. -/
lemma allDelivered_iff_not_failed (h : (system n V E stub).Reaches OnTime s)
    (hc : s.consumer = .dequeue) (hret : s.queue.consumer = .ret none) :
    s.AllDelivered ↔ ∀ i, ¬s.queue.Failed i := by
  have run := h.reachable
  obtain ⟨cs, vs, hinv⟩ := AtomicQueue.reaches_inv (reaches_queue run)
  constructor
  · intro hall i hfailed
    exact not_delivered (reaches_inv run) hinv (AtomicQueue.reaches_history (reaches_queue run))
      hfailed (hall i)
  · intro hnone
    have htold : Told s := by
      refine (reaches_told_or_failed (fun _ _ ha => ha) h).resolve_left ?_
      exact fun ⟨i, hi⟩ => hnone i hi
    unfold Told at htold
    rw [hc] at htold
    simpa only [hret] using htold

section both
variable {P : Type*} [DecidableEq P] [Fintype P] {count : ℤ}

/-- The semaphore has a suspended coroutine without its handle in the queue, or counts one, just if
an `enqueue` of `acquire_helper` has failed, and otherwise no `release` waits for a handle that will
not come. Where no exchange is early, `wait_each` ends before all results just if an `enqueue` of a
runner has failed. -/
theorem failed_enqueue_iff {s : Noted (CountingSemaphore.State P) (List P)} {t : State n V E}
    (hs : (CountingSemaphore.failing P count).Reachable s)
    (ht : (system n V E stub).Reaches OnTime t) :
    ((s.state.Enqueued ↔ s.notes = []) ∧ (s.state.CountsHandles ↔ s.notes = []) ∧
      (s.notes = [] → ¬s.state.Blocked)) ∧
    (t.consumer = .dequeue → t.queue.consumer = .ret none →
      (t.AllDelivered ↔ ∀ i, ¬t.queue.Failed i)) := by
  have hrestored := CountingSemaphore.reaches_restored hs
  refine ⟨⟨hrestored.enqueued_iff, hrestored.countsHandles_iff, fun hnone => ?_⟩,
    allDelivered_iff_not_failed ht⟩
  exact CountingSemaphore.not_blocked (hrestored.countsHandles_iff.mpr hnone)

end both

/-- An acquire waits and its `enqueue` fails; the `release` after it blocks. And the only runner of
`wait_each` cannot enqueue its result, so that the consumer gets `nullopt` for the first one. -/
theorem failed_enqueue_loses :
    (∃ s : Noted (CountingSemaphore.State (Fin 2)) (List (Fin 2)),
      (CountingSemaphore.failing (Fin 2) 0).Reachable s ∧ s.state.callers 0 = .suspended ∧
        s.state.waiters = [] ∧ s.state.Blocked) ∧
    (∃ t : State 1 ℕ ℕ, (system 1 ℕ ℕ 0).Reachable t ∧ t.outcomes 0 = some (.value 7) ∧
      t.consumer = .dequeue ∧ t.queue.consumer = .ret none ∧ ¬t.AllDelivered) := by
  constructor
  · obtain ⟨s, hs, hlost, hwaiters, hrunning, hwake⟩ := exists_reaches
      (S := CountingSemaphore.failing (Fin 2) 0) (fun _ _ => True)
      (fun s => s.state.callers 0 = .suspended ∧ s.state.waiters = [] ∧
        (∀ p, s.state.callers p ≠ .enqueue) ∧ s.state.callers 1 = .wake (0 + 1))
      [.step (.acquire 0), .step (.load 0), .step (.cas 0 false), .enqueueFails 0,
        .step (.release 1 1), .step (.load 1), .step (.cas 1 false)] (by decide)
    exact ⟨s, hs, hlost, hwaiters, hwaiters, hrunning, 1, 0, hwake⟩
  · obtain ⟨t, ht, hvalue, hc, hret, hnone⟩ := exists_reaches (S := system 1 ℕ ℕ 0)
      (fun _ _ => True) (fun t => t.outcomes 0 = some (.value 7) ∧ t.consumer = .dequeue ∧
        t.queue.consumer = .ret none ∧ t.queue.delivered = [])
      [.complete 0 (.value 7), .enqueue 0 none false, .enqueue 0 none false, .runner 0, .runner 0,
        .consumer, .consumer, .consumer, .consumer] (by decide)
    refine ⟨t, ht, hvalue, hc, hret, fun hall => ?_⟩
    obtain ⟨o, -, hmem⟩ := hall 0
    simp [hnone] at hmem

/-- An acquire is woken by a `release`. And the consumer of `wait_each` suspends before each of two
results and has taken both at the end. -/
theorem failed_enqueue_none :
    (∃ s : Noted (CountingSemaphore.State (Fin 2)) (List (Fin 2)),
      s.state.grants 0 = 1 ∧ s.state.Enqueued) ∧
    (∃ t : State 2 ℕ ℕ, t.calls = 2 ∧ t.consumer = .dequeue ∧ t.queue.consumer = .ret none ∧
      t.AllDelivered) := by
  obtain ⟨s, hs, hgrant, hlost⟩ := exists_reaches
    (S := CountingSemaphore.failing (Fin 2) 0) (fun _ _ => True)
    (fun s => s.state.grants 0 = 1 ∧ s.notes = [])
    [.step (.acquire 0), .step (.load 0), .step (.cas 0 false), .step (.enqueue 0),
      .step (.release 1 1), .step (.load 1), .step (.cas 1 false), .step (.dequeue 1 0)] (by decide)
  obtain ⟨t, ht, hcalls, hc, hret, hresults, hidle⟩ := exists_reaches (S := system 2 ℕ ℕ 0) OnTime
    (fun t => t.calls = 2 ∧ t.consumer = .dequeue ∧ t.queue.consumer = .ret none ∧
      (∀ i, t.queue.results i = [true]) ∧ ∀ i, t.queue.producers i = .idle)
    (List.flatten [List.replicate 3 .consumer, List.replicate 3 (.suspend 0 false),
      [.complete 0 (.value 7)], List.replicate 5 (.enqueue 0 (some 1) false),
      [.runner 0, .runner 0], List.replicate 10 .consumer, List.replicate 3 (.suspend 1 false),
      [.complete 1 (.error 9)], List.replicate 5 (.enqueue 1 (some 2) false),
      [.runner 1, .runner 1], List.replicate 11 .consumer]) (by decide)
  obtain ⟨hsem, heach⟩ := failed_enqueue_iff hs ht
  refine ⟨⟨s, hgrant, hsem.1.mpr hlost⟩, ⟨t, hcalls, hc, hret, (heach hc hret).mpr ?_⟩⟩
  rintro i (hfalse | hfalse)
  · simp [hidle i] at hfalse
  · simp [hresults i] at hfalse

end Scoro.WaitEach

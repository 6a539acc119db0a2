import Scoro.Combinators.WaitEach.Drain

/-!
# What `wait_each` delivers

Outcomes of the awaitables they name, none of them twice, and all of them in the end, unless an
exchange was early, an allocation failed, or nobody is left to take the handle.
-/

namespace Scoro.WaitEach
open Scoro.Lib Scoro.Combinators
open AtomicQueue (Addr)

variable {n : ℕ} {V E : Type*} {s : State n V E} {stub : Addr} {i : Fin n}

/-- No allocation in `enqueue` fails. -/
def Allocates (_ : State n V E) (a : Action n V E) : Prop :=
  ∀ i spurious, a ≠ .enqueue i none spurious

instance [DecidableEq V] [DecidableEq E] (s : State n V E) (a : Action n V E) :
    Decidable (Allocates s a) :=
  inferInstanceAs (Decidable (∀ i spurious, a ≠ .enqueue i none spurious))

lemma results_of_not_failed (h : Inv s) (hi : s.runners i = .finished)
    (hnone : ¬s.queue.Failed i) : s.queue.results i = [true] := by
  have hlinked := h.runners.linked i
  unfold Linked at hlinked
  rw [hi] at hlinked
  obtain ⟨-, ⟨ok, hresults⟩, -⟩ := hlinked
  have hok := AtomicQueue.eq_true_of_not_failed hnone (hresults ▸ List.mem_singleton_self ok)
  rw [hresults, hok]

/-- A run without early wake-ups and failing allocations leaves the consumer with nothing to
miss. -/
lemma drains_of_noEarlyWake (h : (system n V E stub).Reaches NoEarlyWake s)
    (hfinished : ∀ i, s.runners i = .finished) (hc : s.consumer ≠ .suspended) :
    s.Drains stub StoreCovered := by
  have hok : ∀ i, s.queue.results i = [true] := fun i =>
    results_of_not_failed (reaches_inv h) (hfinished i)
      (reaches_not_failed (fun _ _ ha => ha.2) h i)
  have hsettled : Settled s := by
    refine settled_of_ended h.reachable hfinished hc fun hend => iff_of_true ?_ hok
    have htold := reaches_told h
    unfold Told at htold
    rw [hend.1] at htold
    simpa only [hend.2] using htold
  exact leads_allDelivered (hsettled.leads h.reachable) hfinished hok

/-- The consumer is resumed only while it is suspended, so that its calls of `try_dequeue` do not
overlap. It receives outcomes of the awaitables they name, none of them twice. Once all runners
have finished, from any place where the consumer runs, its `co_await`s come to a `nullopt` with
everything if and only if it is up to date and each runner's `enqueue` has returned `true`. The
latter is so unless an allocation fails. After a run without early wake-ups and failing
allocations they do as long as no handle is stored behind the last exchange on an empty queue. -/
theorem wait_each_once_iff (h : (system n V E stub).Reachable s) :
    (s.fault = false ∧ s.queue.fault = false ∧
      (s.consumer ≠ .dequeue → s.queue.consumer = .idle)) ∧
    (∀ i r, (i, r) ∈ s.queue.delivered → ∃ o, s.outcomes i = some o ∧ r = o.stored) ∧
    (s.queue.delivered.map Prod.fst).Nodup ∧
    ((∀ i, s.runners i = .finished) → s.consumer ≠ .suspended →
      (s.Drains stub (fun _ _ => True) ↔ s.UpToDate ∧ ∀ i, s.queue.results i = [true]) ∧
      ((system n V E stub).Reaches NoEarlyWake s → s.Drains stub StoreCovered)) ∧
    ((system n V E stub).Reaches Allocates s →
      ∀ i, s.runners i = .finished → s.queue.results i = [true]) := by
  obtain ⟨cs, vs, hqueue⟩ := AtomicQueue.reaches_inv (reaches_queue h)
  have hist := AtomicQueue.reaches_history (reaches_queue h)
  have hinv := reaches_inv h
  refine ⟨⟨hinv.handover.fault, hqueue.fault, hinv.outside⟩, fun i r hr => ?_, ?_,
    fun hfinished hc => ⟨⟨upToDate_of_drains h hfinished, ?_⟩, fun hrun => ?_⟩,
    fun hrun i hi => ?_⟩
  · obtain ⟨x, hx, hvalue⟩ := delivered_ticket hqueue hr
    obtain ⟨-, o, ho, hvalue'⟩ := ticket_outcome hinv.runners hist hx
    have heq := hvalue'.symm.trans hvalue
    cases heq
    exact ⟨o, ho, rfl⟩
  · exact (accepted_nodup hinv.runners hist).sublist (hqueue.delivered_prefix.sublist.map _)
  · rintro ⟨hup, hok⟩
    exact drains_of_upToDate h hfinished hc hup hok
  · exact drains_of_noEarlyWake hrun hfinished hc
  · exact results_of_not_failed hinv hi (reaches_not_failed (fun _ _ ha => ha) hrun i)

/-- All runners have finished and the consumer runs. The only runner could not allocate its node,
and the next `co_await` yields `nullopt`. Or the exchange of runner 0 has resumed the consumer on
an empty queue, and the result of runner 1 came after `try_dequeue` had looked. Or `await_ready`
has read `remaining` before the last runner decremented it. -/
theorem wait_each_drops :
    (∃ s : State 1 ℕ ℕ, (system 1 ℕ ℕ 0).Reachable s ∧ (∀ i, s.runners i = .finished) ∧
      s.consumer = .ready ∧ ∃ t, solo consumerStep 4 s = some t ∧ t.AtEnd ∧ ¬t.AllDelivered) ∧
    (∃ s : State 2 ℕ ℕ, (system 2 ℕ ℕ 0).Reachable s ∧ (∀ i, s.runners i = .finished) ∧
      (∀ i, s.queue.results i = [true]) ∧ s.AtEnd ∧ ¬s.AllDelivered) ∧
    ∃ s : State 1 ℕ ℕ, (system 1 ℕ ℕ 0).Reachable s ∧ (∀ i, s.runners i = .finished) ∧
      (∀ i, s.queue.results i = [true]) ∧ s.consumer = .readyNext 1 ∧
      ¬s.Drains 0 (fun _ _ => True) := by
  refine ⟨?_, ?_, ?_⟩
  · obtain ⟨s, hs, hfinished, hc, hend⟩ := System.exists_reaches (S := system 1 ℕ ℕ 0)
      (fun _ _ => True) (fun s => (∀ i, s.runners i = .finished) ∧ s.consumer = .ready ∧
        (solo consumerStep 4 s).any fun t => decide (t.consumer = .dequeue ∧
          t.queue.consumer = .ret none ∧ t.queue.delivered = []))
      [.complete 0 (.value 7), .enqueue 0 none false, .enqueue 0 none false, .runner 0, .runner 0]
      (by decide)
    obtain ⟨t, ht, hend⟩ := (Option.any_eq_true _ _).mp hend
    obtain ⟨hdequeue, hnone, hempty⟩ := of_decide_eq_true hend
    refine ⟨s, hs, hfinished, hc, t, ht, ⟨hdequeue, hnone⟩, fun hall => ?_⟩
    obtain ⟨o, -, hmem⟩ := hall 0
    rw [hempty] at hmem
    cases hmem
  · obtain ⟨s, hs, hfinished, hok, hc, hnone, hdelivered⟩ := System.exists_reaches
      (S := system 2 ℕ ℕ 0) (fun _ _ => True) (fun s => (∀ i, s.runners i = .finished) ∧
        (∀ i, s.queue.results i = [true]) ∧ s.consumer = .dequeue ∧
        s.queue.consumer = .ret none ∧ s.queue.delivered = [(0, .value 7)])
      (List.flatten [[.complete 0 (.value 7)], List.replicate 5 (.enqueue 0 (some 1) false),
        List.replicate 13 .consumer, List.replicate 3 (.suspend 0 false), [.runner 0, .runner 0],
        List.replicate 3 .consumer, [.complete 1 (.value 9)],
        List.replicate 5 (.enqueue 1 (some 2) false), [.runner 1, .runner 1]]) (by decide)
    refine ⟨s, hs, hfinished, hok, ⟨hc, hnone⟩, fun hall => ?_⟩
    obtain ⟨o, -, hmem⟩ := hall 1
    rw [hdelivered] at hmem
    simp at hmem
  · obtain ⟨s, hs, hfinished, hok, hc, hnext⟩ := System.exists_reaches (S := system 1 ℕ ℕ 0)
      (fun _ _ => True) (fun s => (∀ i, s.runners i = .finished) ∧
        (∀ i, s.queue.results i = [true]) ∧ s.consumer = .readyNext 1 ∧
        s.queue.next s.queue.mHead = none)
      (List.flatten [[.complete 0 (.value 7)], List.replicate 5 (.enqueue 0 (some 1) false),
        List.replicate 12 .consumer, [.runner 0, .runner 0]]) (by decide)
    refine ⟨s, hs, hfinished, hok, hc, fun hdrains => ?_⟩
    have hup := (upToDate_of_drains hs hfinished hdrains).1
    unfold State.UpToDate at hup
    rw [hc] at hup
    simp [hnext] at hup

/-- The consumer takes the result of runner 0 before that runner has finished, and runner 1
finishes last, while the consumer is on its way into `try_dequeue`. -/
theorem wait_each_once_late : ∃ s : State 2 ℕ ℕ, s.consumer = .dequeue ∧
    s.queue.delivered = [(0, .value 7)] ∧ s.outcomes 1 = some (.error 3) ∧
    s.Drains 0 StoreCovered ∧ s.Drains 0 fun _ _ => True := by
  obtain ⟨s, hs, hfinished, hc, hload, hdelivered, hout⟩ :=
    System.exists_reaches (S := system 2 ℕ ℕ 0) NoEarlyWake
      (fun s => (∀ i, s.runners i = .finished) ∧ s.consumer = .dequeue ∧
        s.queue.consumer = .tryLoadNext 1 ∧
        s.queue.delivered = [(0, .value 7)] ∧ s.outcomes 1 = some (.error 3))
      (List.flatten [[.complete 0 (.value 7)], List.replicate 5 (.enqueue 0 (some 1) false),
        List.replicate 10 .consumer, [.runner 0, .runner 0, .complete 1 (.error 3)],
        List.replicate 5 (.enqueue 1 (some 2) false), List.replicate 5 .consumer,
        [.runner 1, .runner 1]]) (by decide)
  obtain ⟨-, -, -, hlast, hresults⟩ := wait_each_once_iff hs.reachable
  obtain ⟨hiff, hrun⟩ := hlast hfinished (by simp [hc])
  refine ⟨s, hc, hdelivered, hout, hrun hs, hiff.mpr ⟨?_, fun i => ?_⟩⟩
  · unfold State.UpToDate
    rw [hc]
    exact fun hnone => absurd (hload.symm.trans hnone) (by simp)
  · exact hresults (hs.mono fun _ _ ha => ha.2) i (hfinished i)

end Scoro.WaitEach

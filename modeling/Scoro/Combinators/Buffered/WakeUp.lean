import Scoro.Combinators.Buffered.WaitAll
import Scoro.Combinators.Buffered.WaitAny

/-!
# Lost wake-ups under store buffering

The exchange of the runner that has made the combinator ready may come between the store of
`coroutine_addr` in `await_suspend` and the moment at which the handle gets to memory, after a test
in `await_suspend` that has failed. Then nobody resumes the consumer.
-/

namespace Scoro.Combinators.Buffered
open Scoro.Lib

/-- In both combinators the handle is still in the consumer's buffer when the test fails, and when
the only runner makes its exchange. -/
theorem handle_missed_in_buffer :
    (∃ s : WaitAll.State 1 Bool ℕ ℕ, (WaitAll.system ⟨false, fun _ => true⟩).Reachable s ∧
      Stranded .finished s) ∧
    ∃ s : WaitAny.State 1 Bool ℕ ℕ, (WaitAny.system ⟨false, fun _ => true⟩).Reachable s ∧
      Stranded .finished s := by
  refine ⟨?_, ?_⟩
  · exact System.exists_reaches _ _ [.awaitReady, .awaitSuspend, .awaitSuspend,
      .complete 0 (.value 7), .runner 0, .drain true, .runner 0, .runner 0, .drain false]
      (by decide)
  · exact System.exists_reaches _ _ [.awaitReady, .awaitSuspend, .awaitSuspend,
      .complete 0 (.value 7), .runner 0, .runner 0, .drain true, .runner 0, .drain false]
      (by decide)

variable {n m : ℕ} {T U : Type*} {V E : Type} [DecidableEq T] [DecidableEq U]
  {threads : Threads n T} {threads' : Threads m U} {s : WaitAll.State n T V E}
  {t : WaitAny.State m U V E}

/-- No consumer is stranded as long as no runner makes its exchange while `await_suspend` has
returned and the handle is in a buffer. Where one does, the consumer stays suspended, and it is
stranded as soon as all runners have finished and the buffers are empty. -/
theorem wake_up_iff (hm : 0 < m)
    (hall : (WaitAll.system threads).Reaches (Visible threads WaitAll.exchanging) s)
    (hany : (WaitAny.system threads').Reaches (Visible threads' WaitAny.exchanging) t) :
    (¬Stranded .finished s ∧ ¬Stranded .finished t) ∧
    (∀ a s', WaitAll.step threads s a = some s' → ¬Visible threads WaitAll.exchanging s a →
      ∀ as r, (WaitAll.system threads).exec (fun _ _ => True) s' as = some r →
        r.awaiter.coroutine = .suspended ∧
        ((∀ i, r.runners i = .finished) → (∀ u, r.awaiter.memory.buffer u = []) →
          Stranded .finished r)) ∧
    ∀ a t', WaitAny.step threads' t a = some t' → ¬Visible threads' WaitAny.exchanging t a →
      ∀ as r, (WaitAny.system threads').exec (fun _ _ => True) t' as = some r →
        r.awaiter.coroutine = .suspended ∧
        ((∀ i, r.runners i = .finished) → (∀ u, r.awaiter.memory.buffer u = []) →
          Stranded .finished r) := by
  have hwinner : ∀ t : WaitAny.State m U V E, WaitAny.Inv threads' t →
      (∀ i, t.runners i = .finished) → WaitAny.ready t.awaiter.tested = true :=
    fun t hinv hfinished => hinv.finished ⟨0, hm⟩ (hfinished _)
  obtain ⟨hs, hsafter⟩ := stranded_iff (WaitAll.simulates threads)
    (fun _ hinv hfinished => hinv.ready_of_finished hfinished) rfl hall
  obtain ⟨ht, htafter⟩ := stranded_iff (WaitAny.simulates threads') hwinner rfl hany
  exact ⟨⟨hs, ht⟩, hsafter, htafter⟩

/-- The handle gets to memory before the exchange of the only runner. -/
theorem wake_up_run : ∃ (s : WaitAll.State 1 Bool ℕ ℕ) (t : WaitAny.State 1 Bool ℕ ℕ),
    (s.awaiter.suspend = .returned ∧ s.runners 0 = .finished) ∧
    (t.awaiter.suspend = .returned ∧ t.runners 0 = .finished) ∧
    ¬Stranded .finished s ∧ ¬Stranded .finished t := by
  obtain ⟨s, hs, hsend⟩ := System.exists_reaches
    (S := WaitAll.system (T := Bool) (V := ℕ) (E := ℕ) ⟨false, fun _ : Fin 1 => true⟩)
    (Visible ⟨false, fun _ => true⟩ WaitAll.exchanging)
    (fun s => s.awaiter.suspend = .returned ∧ s.runners 0 = .finished)
    [.awaitReady, .awaitSuspend, .awaitSuspend, .complete 0 (.value 7), .runner 0, .drain true,
      .runner 0, .drain false, .runner 0] (by decide)
  obtain ⟨t, ht, htend⟩ := System.exists_reaches
    (S := WaitAny.system (T := Bool) (V := ℕ) (E := ℕ) ⟨false, fun _ : Fin 1 => true⟩)
    (Visible ⟨false, fun _ => true⟩ WaitAny.exchanging)
    (fun t => t.awaiter.suspend = .returned ∧ t.runners 0 = .finished)
    [.awaitReady, .awaitSuspend, .awaitSuspend, .complete 0 (.value 7), .runner 0, .runner 0,
      .drain true, .drain false, .runner 0] (by decide)
  exact ⟨s, t, hsend, htend, (wake_up_iff Nat.zero_lt_one hs ht).1⟩

end Scoro.Combinators.Buffered

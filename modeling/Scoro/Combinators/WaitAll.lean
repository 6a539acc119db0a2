import Scoro.Lib.Counting
import Scoro.Combinators.Awaiter

/-!
# `WaitAllAwaitable`

A runner stores the outcome of its awaitable in its own slot of the result and then decrements
`waiting_count`. The runner that takes the counter to zero exchanges `coroutine_addr`. The
consumer tests the counter in `await_ready` and once more after it has stored its handle.
-/

namespace Scoro.WaitAll
open Scoro.Lib Scoro.Combinators

/-- Where a runner stands, with the outcome of its awaitable. -/
inductive RunnerPc (V E : Type*) where
  | awaiting
  | emplace (outcome : Outcome V E)
  | fetchSub
  | exchange
  | finished
  deriving DecidableEq

/-- `WaitAllAwaitable::State`, the runners, the consumer and what `await_resume` has returned.
`outcomes` records what the awaitables have produced. -/
structure State (n : ℕ) (V E : Type*) where
  waitingCount : ℕ
  awaiter : Awaiter
  result : Fin n → Stored V E
  runners : Fin n → RunnerPc V E
  returned : Option (Fin n → Stored V E)
  outcomes : Fin n → Option (Outcome V E)

/-- `complete i o`: the awaitable `i` finishes with `o` and its runner goes on. -/
inductive Action (n : ℕ) (V E : Type*) where
  | complete (i : Fin n) (outcome : Outcome V E)
  | runner (i : Fin n)
  | awaitReady
  | awaitSuspend
  | awaitResume
  deriving DecidableEq

section step
variable {n : ℕ} {V E : Type*}

def init (n : ℕ) (V E : Type*) : State n V E where
  waitingCount := n
  awaiter := .init
  result := fun _ => .monostate
  runners := fun _ => .awaiting
  returned := none
  outcomes := fun _ => none

def State.setRunner (s : State n V E) (i : Fin n) (pc : RunnerPc V E) : State n V E :=
  { s with runners := Function.update s.runners i pc }

/-- `waiting_count == 0`. -/
def State.ready (s : State n V E) : Bool := s.waitingCount == 0

/-- The runner of a `void` awaitable stores nothing unless there is an exception. -/
def emplace (s : State n V E) (i : Fin n) (outcome : Outcome V E) : State n V E :=
  match outcome with
  | .void => s
  | outcome => { s with result := Function.update s.result i outcome.stored }

def runnerStep (s : State n V E) (i : Fin n) : Option (State n V E) :=
  match s.runners i with
  | .awaiting => none
  | .emplace outcome => some ((emplace s i outcome).setRunner i .fetchSub)
  | .fetchSub =>
    some { s.setRunner i (if s.waitingCount = 1 then .exchange else .finished) with
      waitingCount := s.waitingCount - 1 }
  | .exchange => some { s.setRunner i .finished with awaiter := s.awaiter.exchange }
  | .finished => none

def step (s : State n V E) : Action n V E → Option (State n V E)
  | .complete i outcome =>
    match s.runners i with
    | .awaiting => some { s.setRunner i (.emplace outcome) with
        outcomes := Function.update s.outcomes i (some outcome) }
    | _ => none
  | .runner i => runnerStep s i
  | .awaitReady => (s.awaiter.awaitReady s.ready).map fun w => { s with awaiter := w }
  | .awaitSuspend => (s.awaiter.awaitSuspend s.ready).map fun w => { s with awaiter := w }
  | .awaitResume =>
    if s.awaiter.coroutine = .passed ∧ s.returned = none then
      some { s with returned := some s.result }
    else none

def system (n : ℕ) (V E : Type*) : System (State n V E) (Action n V E) where
  init := init n V E
  step := step

end step

/-! ### The invariant -/

section invariant
variable {n : ℕ} {V E : Type*} {s s' : State n V E} {i : Fin n}

/-- One for a runner that has not decremented `waiting_count` yet. -/
def RunnerPc.weight : RunnerPc V E → ℕ
  | .awaiting | .emplace _ | .fetchSub => 1
  | .exchange | .finished => 0

def RunnerOk (s : State n V E) (i : Fin n) : Prop :=
  match s.runners i with
  | .awaiting => s.outcomes i = none ∧ s.result i = .monostate
  | .emplace o => s.outcomes i = some o ∧ s.result i = .monostate
  | .fetchSub => ∃ o, s.outcomes i = some o ∧ s.result i = o.stored
  | .exchange => (∃ o, s.outcomes i = some o ∧ s.result i = o.stored) ∧ s.waitingCount = 0
  | .finished => ∃ o, s.outcomes i = some o ∧ s.result i = o.stored

namespace State

/-- Slot `i` of `r` holds what the awaitable `i` has produced, for every `i`. -/
def Holds (s : State n V E) (r : Fin n → Stored V E) : Prop :=
  ∀ i, ∃ o, s.outcomes i = some o ∧ r i = o.stored

end State

structure Inv (s : State n V E) : Prop where
  awaiter : s.awaiter.Ok
  count : s.waitingCount = ∑ i, (s.runners i).weight
  runners : ∀ i, RunnerOk s i
  /-- The coroutine goes on only when the counter is down. -/
  seen : s.awaiter.Seen → s.waitingCount = 0
  /-- Whoever takes the counter down still has the exchange to make. -/
  waits : s.awaiter.Waits → s.waitingCount = 0 → ∃ i, s.runners i = .exchange
  returned : ∀ r, s.returned = some r → s.waitingCount = 0 ∧ r = s.result

lemma Inv.weight_eq_zero (h : Inv s) (hcount : s.waitingCount = 0) (i : Fin n) :
    (s.runners i).weight = 0 := by
  have hsum := h.count
  rw [hcount] at hsum
  exact Finset.sum_eq_zero_iff.mp hsum.symm i (Finset.mem_univ i)

/-- When the counter is down, every outcome is in its slot. -/
lemma Inv.holds (h : Inv s) (hcount : s.waitingCount = 0) : s.Holds s.result := by
  intro i
  have hweight := h.weight_eq_zero hcount i
  have hrun := h.runners i
  unfold RunnerOk at hrun
  cases hi : s.runners i <;> rw [hi] at hweight hrun
  case awaiting => cases hweight
  case emplace o => cases hweight
  case fetchSub => cases hweight
  case exchange => exact hrun.1
  case finished => exact hrun

lemma inv_init : Inv (init n V E) := by
  refine ⟨Awaiter.ok_init, ?_, fun i => ⟨rfl, rfl⟩, ?_, ?_, ?_⟩
  · simp [init, RunnerPc.weight]
  · intro hseen
    rcases hseen with hc | hc <;> cases hc
  · intro hwaits
    cases hwaits.1
  · intro r hr
    cases hr

lemma RunnerOk.frame {j : Fin n} (h : RunnerOk s j) (hrunner : s'.runners j = s.runners j)
    (houtcome : s'.outcomes j = s.outcomes j) (hresult : s'.result j = s.result j)
    (hcount : s.waitingCount = 0 → s'.waitingCount = 0) : RunnerOk s' j := by
  unfold RunnerOk at h ⊢
  rw [hrunner, houtcome, hresult]
  cases hj : s.runners j <;> rw [hj] at h
  case exchange => exact ⟨h.1, hcount h.2⟩
  all_goals exact h

/-- While runner `i` has not decremented it, the counter is positive. -/
lemma Inv.count_ne_zero (h : Inv s) (hi : (s.runners i).weight = 1) : s.waitingCount ≠ 0 := by
  intro hcount
  have := h.weight_eq_zero hcount i
  omega

/-- A step of runner `i` before its decrement. -/
lemma Inv.early (h : Inv s) (hi : (s.runners i).weight = 1)
    (hweight : (s'.runners i).weight = 1) (hok : RunnerOk s' i)
    (hcount : s'.waitingCount = s.waitingCount) (hawaiter : s'.awaiter = s.awaiter)
    (hreturned : s'.returned = s.returned)
    (hrunners : s'.runners = Function.update s.runners i (s'.runners i))
    (hothers : ∀ j, j ≠ i → s'.outcomes j = s.outcomes j ∧ s'.result j = s.result j) :
    Inv s' := by
  have hne := h.count_ne_zero hi
  refine ⟨hawaiter ▸ h.awaiter, ?_, fun j => ?_, ?_, ?_, ?_⟩
  · rw [hcount, h.count, hrunners]
    exact (sum_update_of_eq (by rw [hweight, hi])).symm
  · by_cases hji : j = i
    · subst hji
      exact hok
    · apply (h.runners j).frame
      · rw [hrunners, Function.update_of_ne hji]
      · exact (hothers j hji).1
      · exact (hothers j hji).2
      · rw [hcount]
        exact id
  · rw [hawaiter, hcount]
    exact h.seen
  · intro _ hzero
    exact absurd (hcount ▸ hzero) hne
  · intro r hr
    exact absurd (h.returned r (hreturned ▸ hr)).1 hne

lemma Inv.complete (h : Inv s) {o : Outcome V E} (hi : s.runners i = .awaiting) :
    Inv { s.setRunner i (.emplace o) with outcomes := Function.update s.outcomes i (some o) } := by
  have hrun := h.runners i
  unfold RunnerOk at hrun
  rw [hi] at hrun
  apply h.early (i := i)
  · rw [hi]
    rfl
  · simp [State.setRunner, RunnerPc.weight]
  · unfold RunnerOk
    simp only [State.setRunner, Function.update_self]
    exact ⟨trivial, hrun.2⟩
  · rfl
  · rfl
  · rfl
  · simp [State.setRunner]
  · intro j hji
    exact ⟨Function.update_of_ne hji .., rfl⟩

lemma Inv.emplace (h : Inv s) {o : Outcome V E} (hi : s.runners i = .emplace o) :
    Inv ((emplace s i o).setRunner i .fetchSub) := by
  have hrun := h.runners i
  unfold RunnerOk at hrun
  rw [hi] at hrun
  apply h.early (i := i)
  · rw [hi]
    rfl
  · simp [State.setRunner, RunnerPc.weight]
  · unfold RunnerOk
    simp only [State.setRunner, Function.update_self]
    refine ⟨o, ?_, ?_⟩
    · cases o <;> exact hrun.1
    · cases o with
      | void => exact hrun.2
      | value v => exact Function.update_self ..
      | error e => exact Function.update_self ..
  · cases o <;> rfl
  · cases o <;> rfl
  · cases o <;> rfl
  · cases o <;> simp [State.setRunner, WaitAll.emplace]
  · intro j hji
    cases o with
    | void => exact ⟨rfl, rfl⟩
    | value v => exact ⟨rfl, Function.update_of_ne hji ..⟩
    | error e => exact ⟨rfl, Function.update_of_ne hji ..⟩

/-- The decrement. Only the last one leaves an exchange to be made. -/
lemma Inv.fetchSub (h : Inv s) (hi : s.runners i = .fetchSub) :
    Inv { s.setRunner i (if s.waitingCount = 1 then .exchange else .finished) with
      waitingCount := s.waitingCount - 1 } := by
  have hweight : (s.runners i).weight = 1 := by
    rw [hi]
    rfl
  have hrun := h.runners i
  unfold RunnerOk at hrun
  rw [hi] at hrun
  have hne := h.count_ne_zero hweight
  refine ⟨h.awaiter, ?_, fun j => ?_, fun hseen => ?_, fun _ hzero => ?_, fun r hr => ?_⟩
  · have hsum : ∑ j, (Function.update s.runners i
        (if s.waitingCount = 1 then .exchange else .finished) j).weight + 1 =
        ∑ j, (s.runners j).weight :=
      sum_update_of_leave hweight (by split <;> rfl)
    have hcount := h.count
    simp only [State.setRunner]
    omega
  · by_cases hji : j = i
    · subst hji
      unfold RunnerOk
      simp only [State.setRunner, Function.update_self]
      by_cases hone : s.waitingCount = 1
      · rw [if_pos hone]
        exact ⟨hrun, by omega⟩
      · rw [if_neg hone]
        exact hrun
    · apply (h.runners j).frame
      · exact Function.update_of_ne hji ..
      · rfl
      · rfl
      · intro hzero
        exact absurd hzero hne
  · exact absurd (h.seen hseen) hne
  · have hone : s.waitingCount = 1 := by
      change s.waitingCount - 1 = 0 at hzero
      omega
    refine ⟨i, ?_⟩
    simp [State.setRunner, hone]
  · exact absurd (h.returned r hr).1 hne

lemma Inv.exchange (h : Inv s) (hi : s.runners i = .exchange) :
    Inv { s.setRunner i .finished with awaiter := s.awaiter.exchange } := by
  have hrun := h.runners i
  unfold RunnerOk at hrun
  rw [hi] at hrun
  refine ⟨h.awaiter.exchange, ?_, fun j => ?_, fun _ => hrun.2, fun hwaits => ?_, h.returned⟩
  · change s.waitingCount = ∑ j, (Function.update s.runners i .finished j).weight
    rw [h.count]
    exact (sum_update_of_eq (by rw [hi]; rfl)).symm
  · by_cases hji : j = i
    · subst hji
      unfold RunnerOk
      simp only [State.setRunner, Function.update_self]
      exact hrun.1
    · apply (h.runners j).frame
      · exact Function.update_of_ne hji ..
      · rfl
      · rfl
      · exact id
  · exact absurd hwaits h.awaiter.not_waits_exchange

lemma Inv.runnerStep (h : Inv s) (hs : runnerStep s i = some s') : Inv s' := by
  unfold WaitAll.runnerStep at hs
  cases hi : s.runners i <;> rw [hi] at hs <;> cases hs
  case emplace.refl o => exact h.emplace hi
  case fetchSub.refl => exact h.fetchSub hi
  case exchange.refl => exact h.exchange hi

/-- The consumer's steps up to `await_resume`. -/
lemma Inv.setAwaiter (h : Inv s) {w : Awaiter} (hw : w.Ok)
    (hseen : w.Seen → s.awaiter.Seen ∨ s.ready = true) (hwaits : w.Waits → s.ready = false) :
    Inv { s with awaiter := w } := by
  refine ⟨hw, h.count, fun j => ?_, fun hs => ?_, fun hs hzero => ?_, h.returned⟩
  · exact (h.runners j).frame rfl rfl rfl id
  · rcases hseen hs with hold | hready
    · exact h.seen hold
    · exact beq_iff_eq.mp hready
  · have hready : s.ready = true := beq_iff_eq.mpr hzero
    rw [hwaits hs] at hready
    cases hready

theorem Inv.step (h : Inv s) {a : Action n V E} (hs : step s a = some s') : Inv s' := by
  cases a with
  | complete i o =>
    simp only [WaitAll.step] at hs
    split at hs <;> cases hs
    exact h.complete ‹_›
  | runner i => exact h.runnerStep hs
  | awaitReady =>
    obtain ⟨w, hw, rfl⟩ := Option.map_eq_some_iff.mp hs
    refine h.setAwaiter (h.awaiter.awaitReady hw) (Awaiter.seen_awaitReady hw) fun hwaits => ?_
    exact absurd hwaits (Awaiter.not_waits_awaitReady hw)
  | awaitSuspend =>
    obtain ⟨w, hw, rfl⟩ := Option.map_eq_some_iff.mp hs
    exact h.setAwaiter (h.awaiter.awaitSuspend hw) (Awaiter.seen_awaitSuspend hw)
      (Awaiter.waits_awaitSuspend h.awaiter hw)
  | awaitResume =>
    simp only [WaitAll.step] at hs
    split at hs <;> cases hs
    rename_i hpassed
    refine ⟨h.awaiter, h.count, fun j => ?_, h.seen, h.waits, fun r hr => ?_⟩
    · exact (h.runners j).frame rfl rfl rfl id
    · cases hr
      exact ⟨h.seen (Or.inl hpassed.1), rfl⟩

theorem reaches_inv {C : State n V E → Action n V E → Prop}
    (h : (system n V E).Reaches C s) : Inv s :=
  h.invariant inv_init fun _ _ _ _ ih _ hs => ih.step hs

/-- The consumer passes its `co_await` at most once, and only when every outcome is in its
slot. What it gets are these outcomes. It is not left suspended once all runners have
finished and `await_suspend` has returned. -/
theorem wait_all_protocol (h : (system n V E).Reachable s) :
    s.awaiter.passes ≤ 1 ∧
    (s.awaiter.passes ≠ 0 → s.Holds s.result) ∧
    (∀ r, s.returned = some r → s.Holds r) ∧
    ¬((∀ i, s.runners i = .finished) ∧ s.awaiter.suspend = .returned ∧
      s.awaiter.coroutine = .suspended) := by
  have hinv := reaches_inv h
  refine ⟨hinv.awaiter.passes_le, fun hp => ?_, fun r hr => ?_, ?_⟩
  · exact hinv.holds (hinv.seen (Or.inl (hinv.awaiter.passed_of_passes hp)))
  · obtain ⟨hcount, rfl⟩ := hinv.returned r hr
    exact hinv.holds hcount
  · rintro ⟨hfinished, hsuspend, hcoroutine⟩
    have hcount : s.waitingCount = 0 := by
      rw [hinv.count]
      apply Finset.sum_eq_zero
      intro i _
      rw [hfinished i]
      rfl
    obtain ⟨i, hi⟩ := hinv.waits ⟨hcoroutine, hsuspend⟩ hcount
    rw [hfinished i] at hi
    cases hi

/-- The consumer suspends before the last of two runners decrements the counter. -/
theorem wait_all_protocol_woken :
    ∃ s : State 2 ℕ ℕ, (∀ i, s.runners i = .finished) ∧ s.awaiter.passes = 1 ∧
      s.Holds s.result ∧ s.result 0 = .value 7 := by
  obtain ⟨s, hs, hfinished, hpasses, hresult⟩ := System.exists_reaches (S := system 2 ℕ ℕ)
    (fun _ _ => True) (fun s => (∀ i, s.runners i = .finished) ∧ s.awaiter.passes = 1 ∧
      s.result 0 = .value 7)
    [.complete 0 (.value 7), .runner 0, .runner 0, .awaitReady, .awaitSuspend, .awaitSuspend,
      .complete 1 .void, .runner 1, .runner 1, .runner 1, .awaitResume] (by decide)
  exact ⟨s, hfinished, hpasses, (wait_all_protocol hs).2.1 (by omega), hresult⟩

end invariant

end Scoro.WaitAll

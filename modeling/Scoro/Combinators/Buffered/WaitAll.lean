import Scoro.Combinators.WaitAll
import Scoro.Combinators.Buffered.Awaiter

/-!
# `WaitAllAwaitable` with store buffers

The runners and the consumer of `wait_all`, each in a thread, up to the coroutine's passing of its
`co_await`. A runner stores its outcome with a plain store. The decrement of `waiting_count` and the
exchange of `coroutine_addr` are read-modify-writes.
-/

namespace Scoro.Combinators.Buffered.WaitAll
open Scoro.Lib
open Scoro.WaitAll (RunnerPc)

/-- There is a result for each awaitable. -/
abbrev State (n : ℕ) (T : Type*) (V E : Type) :=
  Buffered.State n T ℕ (Fin n) V E (RunnerPc V E)

section step
variable {n : ℕ} {T : Type*} {V E : Type} [DecidableEq T] (threads : Threads n T)

def init (n : ℕ) (T : Type*) (V E : Type) : State n T V E where
  awaiter := .init T ℕ (Fin n) V E n
  runners := fun _ => .awaiting

/-- `waiting_count == 0`. -/
def ready (waitingCount : ℕ) : Bool := waitingCount == 0

/-- The runner of a `void` awaitable stores nothing unless there is an exception. -/
def emplace (s : State n T V E) (i : Fin n) (outcome : Outcome V E) : State n T V E :=
  match outcome with
  | .void => s
  | outcome =>
    let memory := s.awaiter.memory.store (threads.runner i) (.result i) outcome.stored
    { s with awaiter := s.awaiter.setMemory memory }

def runnerStep (s : State n T V E) (i : Fin n) : Option (State n T V E) :=
  match s.runners i with
  | .awaiting => none
  | .emplace outcome => some ((emplace threads s i outcome).setRunner i .fetchSub)
  | .fetchSub =>
    (s.awaiter.memory.rmw (threads.runner i) .ready fun count => count - 1).map fun r =>
      { s.setRunner i (if r.1 = 1 then .exchange else .finished) with
        awaiter := s.awaiter.setMemory r.2 }
  | .exchange => (s.awaiter.exchange (threads.runner i)).map fun w =>
      { s.setRunner i .finished with awaiter := w }
  | .finished => none

def step (s : State n T V E) : Action n T V E → Option (State n T V E)
  | .complete i outcome =>
    match s.runners i with
    | .awaiting => some (s.setRunner i (.emplace outcome))
    | _ => none
  | .runner i => runnerStep threads s i
  | a => consumerStep threads ready s a

def system : System (State n T V E) (Action n T V E) where
  init := init n T V E
  step := step threads

end step

/-! ### The hand-over -/

section handover
variable {n : ℕ} {T : Type*} {V E : Type} [DecidableEq T] {threads : Threads n T}
  {s s' : State n T V E} {i : Fin n} {a : Action n T V E}

/-- The runner has its exchange of `coroutine_addr` ahead. -/
def exchanging : RunnerPc V E → Bool
  | .exchange => true
  | _ => false

structure Inv (threads : Threads n T) (s : State n T V E) : Prop where
  ok : s.awaiter.Ok threads.consumer
  count : s.awaiter.tested = ∑ i, (s.runners i).weight
  one : ∀ i j, exchanging (s.runners i) = true → exchanging (s.runners j) = true → i = j
  due : ∀ i, exchanging (s.runners i) = true → ready s.awaiter.tested = true

omit [DecidableEq T] in
lemma init_inv : Inv threads (init n T V E) := by
  refine ⟨Awaiter.init_ok n, ?_, (fun i j hi => by cases hi), (fun i hi => by cases hi)⟩
  simp [init, Awaiter.init, Awaiter.initial, Awaiter.tested, StoreBuffer.init, RunnerPc.weight]

omit [DecidableEq T] in
/-- A step of a runner that neither takes the counter down nor makes the exchange. -/
lemma Inv.advance (h : Inv threads s) (pc : RunnerPc V E) {w : Awaiter T ℕ (Fin n) V E}
    (hok : w.Ok threads.consumer)
    (hview : ∀ due, w.view ready threads.consumer due = s.awaiter.view ready threads.consumer due)
    (hcount : w.tested + (s.runners i).weight = s.awaiter.tested + pc.weight)
    (hold : exchanging (s.runners i) = false) (hnew : exchanging pc = false) :
    Inv threads { s.setRunner i pc with awaiter := w } ∧
      handshake threads ready exchanging { s.setRunner i pc with awaiter := w } =
        handshake threads ready exchanging s := by
  have hother : ∀ j, exchanging (Function.update s.runners i pc j) = true →
      exchanging (s.runners j) = true := by
    intro j hj
    by_cases hji : j = i
    · subst hji
      rw [Function.update_self, hnew] at hj
      cases hj
    · rwa [Function.update_of_ne hji] at hj
  have hready : ready w.tested = ready s.awaiter.tested :=
    congrArg Handshake.ready (hview false)
  refine ⟨⟨hok, ?_, fun j k hj hk => h.one j k (hother j hj) (hother k hk), fun j hj => ?_⟩, ?_⟩
  · have hsum := sum_update RunnerPc.weight s.runners i pc
    have hcount' := h.count
    simp only [State.setRunner]
    omega
  · exact hready.trans (h.due j (hother j hj))
  · simp only [handshake, State.setRunner, hview,
      someParty_update_of_eq (p := exchanging) (hnew.trans hold.symm)]

omit [DecidableEq T] in
lemma Inv.tested_pos (h : Inv threads s) (hi : (s.runners i).weight = 1) :
    0 < s.awaiter.tested := by
  have hle := Finset.single_le_sum (f := fun j => (s.runners j).weight)
    (fun _ _ => Nat.zero_le _) (Finset.mem_univ i)
  have hcount := h.count
  omega

lemma Inv.emplace (h : Inv threads s) {o : Outcome V E} (hi : s.runners i = .emplace o) :
    Inv threads ((emplace threads s i o).setRunner i .fetchSub) ∧
      handshake threads ready exchanging ((WaitAll.emplace threads s i o).setRunner i .fetchSub) =
        handshake threads ready exchanging s := by
  have hold : exchanging (s.runners i) = false := by
    rw [hi]
    rfl
  have hweight : (s.runners i).weight = 1 := by
    rw [hi]
    rfl
  cases o with
  | void => exact h.advance .fetchSub h.ok (fun _ => rfl) (by rw [hweight]; rfl) hold rfl
  | value v | error v =>
    obtain ⟨hok, hview⟩ := h.ok.storeResult i _
    exact h.advance .fetchSub hok (hview ready) (by rw [hweight]; rfl) hold rfl

omit [DecidableEq T] in
/-- The runner that takes the counter down. -/
lemma Inv.decide (h : Inv threads s) {w : Awaiter T ℕ (Fin n) V E} (hok : w.Ok threads.consumer)
    (hone : s.awaiter.tested = 1) (hzero : w.tested = 0) (hi : (s.runners i).weight = 1)
    (hview : ∀ due, w.view ready threads.consumer due =
      { s.awaiter.view ready threads.consumer due with ready := true }) :
    Inv threads { s.setRunner i .exchange with awaiter := w } ∧
      (handshake threads ready exchanging s).step .decide =
        some (handshake threads ready exchanging
          { s.setRunner i .exchange with awaiter := w }) := by
  have honly : ∀ j, exchanging (Function.update s.runners i .exchange j) = true → j = i := by
    intro j hj
    by_contra hji
    rw [Function.update_of_ne hji] at hj
    have hready := h.due j hj
    simp [ready, hone] at hready
  refine ⟨⟨hok, ?_, fun j k hj hk => (honly j hj).trans (honly k hk).symm, fun j _ => ?_⟩, ?_⟩
  · have hsum := sum_update RunnerPc.weight s.runners i .exchange
    have hcount := h.count
    have hweight : (RunnerPc.exchange : RunnerPc V E).weight = 0 := rfl
    simp only [State.setRunner]
    omega
  · simp [ready, hzero]
  · have hdue : someParty exchanging (Function.update s.runners i .exchange) = true :=
      someParty_update rfl
    simp only [handshake, State.setRunner, hview, hdue]
    simp [Handshake.step, Awaiter.view, ready, hone]

/-- The decrement. -/
lemma Inv.fetchSub (h : Inv threads s) (hi : s.runners i = .fetchSub)
    (hs : runnerStep threads s i = some s') :
    Inv threads s' ∧ (handshake threads ready exchanging s' = handshake threads ready exchanging s ∨
      (handshake threads ready exchanging s).step .decide =
        some (handshake threads ready exchanging s')) := by
  simp only [runnerStep, hi] at hs
  obtain ⟨r, hr, rfl⟩ := Option.map_eq_some_iff.mp hs
  have hweight : (s.runners i).weight = 1 := by
    rw [hi]
    rfl
  have hpos := h.tested_pos hweight
  obtain ⟨hold, htested, hok, hview⟩ := h.ok.rmwReady hr
  rw [hold]
  by_cases hone : s.awaiter.tested = 1
  · rw [if_pos hone]
    obtain ⟨hinv, hstep⟩ := h.decide hok hone (by rw [htested, hone]) hweight fun due => by
      rw [hview, hone]
      rfl
    exact ⟨hinv, Or.inr hstep⟩
  · rw [if_neg hone]
    have hready : ready (s.awaiter.tested - 1) = ready s.awaiter.tested := by
      rw [Bool.eq_iff_iff, ready, ready, beq_iff_eq, beq_iff_eq]
      omega
    have hview' : ∀ due, (s.awaiter.setMemory r.2).view ready threads.consumer due =
        s.awaiter.view ready threads.consumer due := by
      intro due
      rw [hview]
      simp only [Awaiter.view, hready]
    have hsum : (s.awaiter.setMemory r.2).tested + (s.runners i).weight =
        s.awaiter.tested + (RunnerPc.finished : RunnerPc V E).weight := by
      have hfinished : (RunnerPc.finished : RunnerPc V E).weight = 0 := rfl
      omega
    obtain ⟨hinv, hsame⟩ := h.advance .finished hok hview' hsum (by rw [hi]; rfl) rfl
    exact ⟨hinv, Or.inl hsame⟩

omit [DecidableEq T] in
/-- The exchange of `coroutine_addr`. -/
lemma Inv.exchange (h : Inv threads s) (hi : s.runners i = .exchange)
    {w : Awaiter T ℕ (Fin n) V E} (hw : s.awaiter.exchange (threads.runner i) = some w) :
    Inv threads { s.setRunner i .finished with awaiter := w } ∧
      (handshake threads ready exchanging s).step .wake =
        some (handshake threads ready exchanging
          { s.setRunner i .finished with awaiter := w }) := by
  have hexchanging : exchanging (s.runners i) = true := by
    rw [hi]
    rfl
  obtain ⟨hok, hview⟩ := h.ok.exchange hw
  obtain ⟨-, -, htested, -⟩ := Awaiter.exchange_frame hw
  have hnone : someParty exchanging (Function.update s.runners i .finished) = false :=
    someParty_update_of_leave (fun j hj => h.one j i hj hexchanging) rfl
  have hno : ∀ j, ¬exchanging (Function.update s.runners i .finished j) = true := by
    intro j hj
    have hsome := someParty_iff.mpr ⟨j, hj⟩
    rw [hnone] at hsome
    cases hsome
  refine ⟨⟨hok, ?_, fun j k hj _ => absurd hj (hno j), fun j hj => absurd hj (hno j)⟩, ?_⟩
  · rw [htested, h.count]
    exact (sum_update_of_eq (by rw [hi]; rfl)).symm
  · have hdue : someParty exchanging s.runners = true := someParty_iff.mpr ⟨i, hexchanging⟩
    simp only [handshake, State.setRunner, hnone, hview, hdue]
    exact Handshake.step_wake rfl

omit [DecidableEq T] in
lemma Inv.consumerStep (h : Inv threads s) (hok : s'.awaiter.Ok threads.consumer)
    (htested : s'.awaiter.tested = s.awaiter.tested) (hrunners : s'.runners = s.runners) :
    Inv threads s' := by
  refine ⟨hok, ?_, ?_, ?_⟩
  all_goals rw [hrunners]
  · rw [htested]
    exact h.count
  · exact h.one
  · rw [htested]
    exact h.due

theorem Inv.step (h : Inv threads s) (hs : step threads s a = some s') :
    Inv threads s' ∧ (handshake threads ready exchanging s).Follows
      (handshake threads ready exchanging s') (Visible threads exchanging s a) := by
  cases a with
  | complete i o =>
    simp only [WaitAll.step] at hs
    split at hs <;> cases hs
    rename_i hi
    obtain ⟨hinv, hsame⟩ := h.advance (i := i) (.emplace o) h.ok (fun _ => rfl)
      (by rw [hi]; rfl) (by rw [hi]; rfl) rfl
    exact ⟨hinv, Or.inl ⟨hsame, trivial⟩⟩
  | runner i =>
    cases hi : s.runners i with
    | awaiting | finished => simp [WaitAll.step, runnerStep, hi] at hs
    | emplace o =>
      simp only [WaitAll.step, runnerStep, hi, Option.some.injEq] at hs
      subst hs
      obtain ⟨hinv, hsame⟩ := h.emplace hi
      exact ⟨hinv, Or.inl ⟨hsame, visible_of_not_exchanging (by rw [hi]; rfl)⟩⟩
    | fetchSub =>
      obtain ⟨hinv, hsame | hdecide⟩ := h.fetchSub hi hs
      · exact ⟨hinv, Or.inl ⟨hsame, visible_of_not_exchanging (by rw [hi]; rfl)⟩⟩
      · have hvisible : Visible threads exchanging s (.runner i) :=
          visible_of_not_exchanging (by rw [hi]; rfl)
        exact ⟨hinv, Or.inr ⟨_, hdecide, iff_of_true hvisible fun hb => by cases hb⟩⟩
    | exchange =>
      simp only [WaitAll.step, runnerStep, hi] at hs
      obtain ⟨w, hw, rfl⟩ := Option.map_eq_some_iff.mp hs
      obtain ⟨hinv, hwake⟩ := h.exchange hi hw
      refine ⟨hinv, Or.inr ⟨_, hwake, ?_⟩⟩
      simp [Visible, Handshake.Visible, handshake, Awaiter.view, hi, exchanging]
  | awaitReady | awaitSuspend | drain t =>
    simp only [WaitAll.step] at hs
    obtain ⟨hok, htested, hrunners, hstep⟩ := handshake_consumerStep h.ok hs
    exact ⟨h.consumerStep hok htested hrunners, hstep⟩

lemma simulates (threads : Threads n T) :
    Handshake.Simulates (system (V := V) (E := E) threads) (Visible threads exchanging)
      (Inv threads) (handshake threads ready exchanging) (ready n) where
  init := init_inv
  abs_init := by
    simp [system, init, handshake, Awaiter.view, Awaiter.init, Awaiter.tested, Awaiter.initial,
      Handshake.init, StoreBuffer.init, StoreBuffer.writes, someParty, exchanging]
  step _ _ _ h hs := h.step hs

omit [DecidableEq T] in
lemma Inv.ready_of_finished (h : Inv threads s) (hfinished : ∀ i, s.runners i = .finished) :
    ready s.awaiter.tested = true := by
  have hzero : ∑ i, (s.runners i).weight = 0 := by
    refine Finset.sum_eq_zero fun i _ => ?_
    rw [hfinished i]
    rfl
  rw [h.count, hzero]
  rfl

end handover

end Scoro.Combinators.Buffered.WaitAll

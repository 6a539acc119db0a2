import Scoro.Lib.Counting
import Scoro.Combinators.WaitAny
import Scoro.Combinators.Buffered.Awaiter

/-!
# `WaitAnyAwaitable` with store buffers

The runners and the consumer of `wait_any`, each in a thread, up to the coroutine's passing of its
`co_await`. The CAS on `ready_index`, also one that fails, and the exchange of `coroutine_addr` are
read-modify-writes. The winner stores its outcome with a plain store between the two.
-/

namespace Scoro.Combinators.Buffered.WaitAny
open Scoro.Lib
open Scoro.WaitAny (RunnerPc afterCas)

/-- There is one result, and `ready_index` is `none` for `-1`. -/
abbrev State (n : ℕ) (T : Type*) (V E : Type) :=
  Buffered.State n T (Option (Fin n)) Unit V E (RunnerPc V E)

section step
variable {n : ℕ} {T : Type*} {V E : Type} [DecidableEq T] (threads : Threads n T)

def init (n : ℕ) (T : Type*) (V E : Type) : State n T V E where
  awaiter := .init T (Option (Fin n)) Unit V E none
  runners := fun _ => .awaiting

/-- `ready_index >= 0`. -/
def ready (readyIndex : Option (Fin n)) : Bool := readyIndex.isSome

/-- `ready_index.compare_exchange_strong(-1, i)`. -/
def cas (i : Fin n) (readyIndex : Option (Fin n)) : Option (Fin n) := readyIndex.or (some i)

def runnerStep (s : State n T V E) (i : Fin n) : Option (State n T V E) :=
  match s.runners i with
  | .awaiting => none
  | .cas outcome => (s.awaiter.memory.rmw (threads.runner i) .ready (cas i)).map fun r =>
      { s.setRunner i (if ready r.1 then .finished else afterCas outcome) with
        awaiter := s.awaiter.setMemory r.2 }
  | .emplace outcome =>
    let memory := s.awaiter.memory.store (threads.runner i) (.result ()) outcome.stored
    some { s.setRunner i .exchange with awaiter := s.awaiter.setMemory memory }
  | .exchange => (s.awaiter.exchange (threads.runner i)).map fun w =>
      { s.setRunner i .finished with awaiter := w }
  | .finished => none

def step (s : State n T V E) : Action n T V E → Option (State n T V E)
  | .complete i outcome =>
    match s.runners i with
    | .awaiting => some (s.setRunner i (.cas outcome))
    | _ => none
  | .runner i => runnerStep threads s i
  | a => consumerStep threads ready s a

def system : System (State n T V E) (Action n T V E) where
  init := init n T V E
  step := step threads

end step

/-! ### The hand-over -/

section handover
variable {n : ℕ} {T : Type*} {V E : Type} [DecidableEq T] {threads : Threads n T}
  {s s' : State n T V E} {i : Fin n} {a : Action n T V E}

/-- The runner makes its exchange of `coroutine_addr` next. -/
def exchanging : RunnerPc V E → Bool
  | .exchange => true
  | _ => false

/-- The runner has won and not made its exchange. -/
def winning : RunnerPc V E → Bool
  | .emplace _ | .exchange => true
  | .awaiting | .cas _ | .finished => false

structure Inv (threads : Threads n T) (s : State n T V E) : Prop where
  ok : s.awaiter.Ok threads.consumer
  winner : ∀ i, winning (s.runners i) = true → s.awaiter.tested = some i
  finished : ∀ i, s.runners i = .finished → ready s.awaiter.tested = true

omit [DecidableEq T] in
lemma init_inv : Inv threads (init n T V E) :=
  ⟨Awaiter.init_ok none, (fun i hi => by cases hi), (fun i hi => by cases hi)⟩

omit [DecidableEq T] in
/-- A step of a runner that neither wins nor makes the exchange. -/
lemma Inv.advance (h : Inv threads s) (pc : RunnerPc V E) {w : Awaiter T (Option (Fin n)) Unit V E}
    (hok : w.Ok threads.consumer)
    (hview : ∀ due, w.view ready threads.consumer due = s.awaiter.view ready threads.consumer due)
    (htested : w.tested = s.awaiter.tested) (hsame : winning pc = winning (s.runners i))
    (hfinished : pc = .finished → ready s.awaiter.tested = true) :
    Inv threads { s.setRunner i pc with awaiter := w } ∧
      handshake threads ready winning { s.setRunner i pc with awaiter := w } =
        handshake threads ready winning s := by
  refine ⟨⟨hok, fun j hj => ?_, fun j hj => ?_⟩, ?_⟩
  all_goals simp only [State.setRunner] at *
  · rw [htested]
    by_cases hji : j = i
    · subst hji
      rw [Function.update_self, hsame] at hj
      exact h.winner j hj
    · rw [Function.update_of_ne hji] at hj
      exact h.winner j hj
  · rw [htested]
    by_cases hji : j = i
    · subst hji
      rw [Function.update_self] at hj
      exact hfinished hj
    · rw [Function.update_of_ne hji] at hj
      exact h.finished j hj
  · simp only [handshake, hview, someParty_update_of_eq hsame]

lemma winning_afterCas (o : Outcome V E) : winning (afterCas o) = true := by
  cases o <;> rfl

omit [DecidableEq T] in
/-- The winning CAS. -/
lemma Inv.win (h : Inv threads s) {o : Outcome V E} {w : Awaiter T (Option (Fin n)) Unit V E}
    (hok : w.Ok threads.consumer) (hnone : s.awaiter.tested = none) (htested : w.tested = some i)
    (hview : ∀ due, w.view ready threads.consumer due =
      { s.awaiter.view ready threads.consumer due with ready := true }) :
    Inv threads { s.setRunner i (afterCas o) with awaiter := w } ∧
      (handshake threads ready winning s).step .decide =
        some (handshake threads ready winning
          { s.setRunner i (afterCas o) with awaiter := w }) := by
  refine ⟨⟨hok, fun j hj => ?_, fun j _ => ?_⟩, ?_⟩
  · by_cases hji : j = i
    · rw [hji]
      exact htested
    · simp only [State.setRunner, Function.update_of_ne hji] at hj
      have hwinner := h.winner j hj
      rw [hnone] at hwinner
      cases hwinner
  · simp [ready, htested]
  · have hdue : someParty winning (Function.update s.runners i (afterCas o)) = true :=
      someParty_update (winning_afterCas o)
    simp only [handshake, State.setRunner, hview, hdue]
    simp [Handshake.step, Awaiter.view, ready, hnone]

lemma Inv.cas (h : Inv threads s) {o : Outcome V E} (hi : s.runners i = .cas o)
    (hs : runnerStep threads s i = some s') :
    Inv threads s' ∧ (handshake threads ready winning s' = handshake threads ready winning s ∨
      (handshake threads ready winning s).step .decide =
        some (handshake threads ready winning s')) := by
  simp only [runnerStep, hi] at hs
  obtain ⟨r, hr, rfl⟩ := Option.map_eq_some_iff.mp hs
  obtain ⟨hold, htested, hok, hview⟩ := h.ok.rmwReady hr
  rw [hold]
  cases hindex : s.awaiter.tested with
  | none =>
    rw [if_neg (by simp [ready])]
    rw [hindex] at htested
    obtain ⟨hinv, hstep⟩ := h.win (o := o) hok hindex htested fun due => by
      rw [hview, hindex]
      rfl
    exact ⟨hinv, Or.inr hstep⟩
  | some j =>
    rw [if_pos (by simp [ready])]
    have hsame : WaitAny.cas i (some j) = some j := rfl
    rw [hindex, hsame] at htested
    have hview' : ∀ due, (s.awaiter.setMemory r.2).view ready threads.consumer due =
        s.awaiter.view ready threads.consumer due := by
      intro due
      rw [hview, hindex, hsame]
      simp only [Awaiter.view, hindex]
    obtain ⟨hinv, hsame⟩ := h.advance (i := i) .finished hok hview' (htested.trans hindex.symm)
      (by rw [hi]; rfl) fun _ => by simp [ready, hindex]
    exact ⟨hinv, Or.inl hsame⟩

omit [DecidableEq T] in
/-- The exchange of `coroutine_addr`. -/
lemma Inv.exchange (h : Inv threads s) (hi : s.runners i = .exchange)
    {w : Awaiter T (Option (Fin n)) Unit V E}
    (hw : s.awaiter.exchange (threads.runner i) = some w) :
    Inv threads { s.setRunner i .finished with awaiter := w } ∧
      (handshake threads ready winning s).step .wake =
        some (handshake threads ready winning { s.setRunner i .finished with awaiter := w }) := by
  have hwinning : winning (s.runners i) = true := by
    rw [hi]
    rfl
  have hindex := h.winner i hwinning
  obtain ⟨hok, hview⟩ := h.ok.exchange hw
  obtain ⟨-, -, htested, -⟩ := Awaiter.exchange_frame hw
  have hone : ∀ j, winning (s.runners j) = true → j = i := by
    intro j hj
    exact Option.some.inj ((h.winner j hj).symm.trans hindex)
  have hnone : someParty winning (Function.update s.runners i .finished) = false :=
    someParty_update_of_leave hone rfl
  refine ⟨⟨hok, fun j hj => ?_, fun j _ => ?_⟩, ?_⟩
  · have hsome := someParty_iff.mpr ⟨j, hj⟩
    simp only [State.setRunner, hnone, Bool.false_eq_true] at hsome
  · simp [ready, htested, hindex]
  · have hdue : someParty winning s.runners = true := someParty_iff.mpr ⟨i, hwinning⟩
    simp only [handshake, State.setRunner, hnone, hview, hdue]
    exact Handshake.step_wake rfl

omit [DecidableEq T] in
lemma Inv.consumerStep (h : Inv threads s) (hok : s'.awaiter.Ok threads.consumer)
    (htested : s'.awaiter.tested = s.awaiter.tested) (hrunners : s'.runners = s.runners) :
    Inv threads s' := by
  refine ⟨hok, ?_, ?_⟩
  all_goals rw [hrunners, htested]
  · exact h.winner
  · exact h.finished

theorem Inv.step (h : Inv threads s) (hs : step threads s a = some s') :
    Inv threads s' ∧ (handshake threads ready winning s).Follows
      (handshake threads ready winning s') (Visible threads exchanging s a) := by
  cases a with
  | complete i o =>
    simp only [WaitAny.step] at hs
    split at hs <;> cases hs
    rename_i hi
    obtain ⟨hinv, hsame⟩ := h.advance (i := i) (.cas o) h.ok (fun _ => rfl) rfl (by rw [hi]; rfl)
      fun hpc => by cases hpc
    exact ⟨hinv, Or.inl ⟨hsame, trivial⟩⟩
  | runner i =>
    cases hi : s.runners i with
    | awaiting | finished => simp [WaitAny.step, runnerStep, hi] at hs
    | cas o =>
      obtain ⟨hinv, hsame | hdecide⟩ := h.cas hi hs
      · exact ⟨hinv, Or.inl ⟨hsame, visible_of_not_exchanging (by rw [hi]; rfl)⟩⟩
      · have hvisible : Visible threads exchanging s (.runner i) :=
          visible_of_not_exchanging (by rw [hi]; rfl)
        exact ⟨hinv, Or.inr ⟨_, hdecide, iff_of_true hvisible fun hb => by cases hb⟩⟩
    | emplace o =>
      simp only [WaitAny.step, runnerStep, hi, Option.some.injEq] at hs
      subst hs
      obtain ⟨hok, hview⟩ := h.ok.storeResult () _
      obtain ⟨hinv, hsame⟩ := h.advance (i := i) .exchange hok (hview ready) rfl (by rw [hi]; rfl)
        fun hpc => by cases hpc
      exact ⟨hinv, Or.inl ⟨hsame, visible_of_not_exchanging (by rw [hi]; rfl)⟩⟩
    | exchange =>
      simp only [WaitAny.step, runnerStep, hi] at hs
      obtain ⟨w, hw, rfl⟩ := Option.map_eq_some_iff.mp hs
      obtain ⟨hinv, hwake⟩ := h.exchange hi hw
      refine ⟨hinv, Or.inr ⟨_, hwake, ?_⟩⟩
      simp [Visible, Handshake.Visible, handshake, Awaiter.view, hi, exchanging]
  | awaitReady | awaitSuspend | drain t =>
    simp only [WaitAny.step] at hs
    obtain ⟨hok, htested, hrunners, hstep⟩ := handshake_consumerStep h.ok hs
    exact ⟨h.consumerStep hok htested hrunners, hstep⟩

lemma simulates (threads : Threads n T) :
    Handshake.Simulates (system (V := V) (E := E) threads) (Visible threads exchanging)
      (Inv threads) (handshake threads ready winning) false where
  init := init_inv
  abs_init := by
    simp [system, init, handshake, Awaiter.view, Awaiter.init, Awaiter.tested, Awaiter.initial,
      Handshake.init, StoreBuffer.init, StoreBuffer.writes, someParty, winning, ready]
  step _ _ _ h hs := h.step hs

end handover

end Scoro.Combinators.Buffered.WaitAny

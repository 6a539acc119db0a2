import Scoro.Combinators.Awaiter

/-!
# `WaitAnyAwaitable`

A runner whose awaitable has finished tries to win `ready_index` with a CAS from `-1`, and only
the winner goes on to store its outcome and to exchange `coroutine_addr`. The consumer trusts
`ready_index` alone: in `await_ready` and in the second test of `await_suspend` it may get past
the winner while the outcome is not stored yet.
-/

namespace Scoro.WaitAny
open Scoro.Lib Scoro.Combinators

/-- Where a runner stands, with the outcome of its awaitable. -/
inductive RunnerPc (V E : Type*) where
  | awaiting
  | cas (outcome : Outcome V E)
  | emplace (outcome : Outcome V E)
  | exchange
  | finished
  deriving DecidableEq

/-- Where the consumer stands in `await_resume`. -/
inductive ResumePc (n : ℕ) (V E : Type*) where
  | readIndex
  | moveResult (index : Option (Fin n))
  | returned (index : Option (Fin n)) (result : Stored V E)
  deriving DecidableEq

/-- `WaitAnyAwaitable::State`, the runners and the consumer. `readyIndex` is `none` for `-1`.
`outcomes` records what the awaitables have produced. -/
structure State (n : ℕ) (V E : Type*) where
  readyIndex : Option (Fin n)
  awaiter : Awaiter
  result : Stored V E
  runners : Fin n → RunnerPc V E
  resume : ResumePc n V E
  outcomes : Fin n → Option (Outcome V E)

/-- `complete i o`: the awaitable `i` finishes with `o` and its runner goes on. -/
inductive Action (n : ℕ) (V E : Type*) where
  | complete (i : Fin n) (outcome : Outcome V E)
  | runner (i : Fin n)
  | awaitReady
  | awaitSuspend
  | awaitResume
  deriving DecidableEq

section step
variable {n : ℕ} {V E : Type*}

def init (n : ℕ) (V E : Type*) : State n V E where
  readyIndex := none
  awaiter := .init
  result := .monostate
  runners := fun _ => .awaiting
  resume := .readIndex
  outcomes := fun _ => none

def State.setRunner (s : State n V E) (i : Fin n) (pc : RunnerPc V E) : State n V E :=
  { s with runners := Function.update s.runners i pc }

/-- `ready_index >= 0`. -/
def State.ready (s : State n V E) : Bool := s.readyIndex.isSome

/-- The winner stores its outcome. The runner of a `void` awaitable stores nothing unless
there is an exception. -/
def afterCas (outcome : Outcome V E) : RunnerPc V E :=
  match outcome with
  | .void => .exchange
  | outcome => .emplace outcome

def runnerStep (s : State n V E) (i : Fin n) : Option (State n V E) :=
  match s.runners i with
  | .awaiting => none
  | .cas outcome =>
    match s.readyIndex with
    | none => some { s.setRunner i (afterCas outcome) with readyIndex := some i }
    | some _ => some (s.setRunner i .finished)
  | .emplace outcome => some { s.setRunner i .exchange with result := outcome.stored }
  | .exchange => some { s.setRunner i .finished with awaiter := s.awaiter.exchange }
  | .finished => none

/-- `await_resume` loads `ready_index` and then moves `result` out. -/
def awaitResume (s : State n V E) : Option (State n V E) :=
  if s.awaiter.coroutine = .passed then
    match s.resume with
    | .readIndex => some { s with resume := .moveResult s.readyIndex }
    | .moveResult index => some { s with resume := .returned index s.result }
    | .returned .. => none
  else none

def step (s : State n V E) : Action n V E → Option (State n V E)
  | .complete i outcome =>
    match s.runners i with
    | .awaiting => some { s.setRunner i (.cas outcome) with
        outcomes := Function.update s.outcomes i (some outcome) }
    | _ => none
  | .runner i => runnerStep s i
  | .awaitReady => (s.awaiter.awaitReady s.ready).map fun w => { s with awaiter := w }
  | .awaitSuspend => (s.awaiter.awaitSuspend s.ready).map fun w => { s with awaiter := w }
  | .awaitResume => awaitResume s

def system (n : ℕ) (V E : Type*) : System (State n V E) (Action n V E) where
  init := init n V E
  step := step

end step

/-! ### The result and the winner -/

section invariant
variable {n : ℕ} {V E : Type*} {s s' : State n V E} {i : Fin n}

/-- The runner stands between its CAS and its `emplace`. -/
def RunnerPc.emplacing : RunnerPc V E → Bool
  | .emplace _ => true
  | _ => false

namespace State

/-- `ready_index` is set and the winner has not stored its outcome yet. -/
def HalfWritten (s : State n V E) : Prop :=
  ∃ i, s.readyIndex = some i ∧ (s.runners i).emplacing = true

instance (s : State n V E) : Decidable s.HalfWritten := inferInstanceAs (Decidable (∃ _, _))

/-- What `await_resume` has returned is the outcome of the awaitable it names. -/
def Agrees (s : State n V E) : Prop :=
  ∀ index result, s.resume = .returned index result →
    ∃ i outcome, index = some i ∧ s.outcomes i = some outcome ∧ result = outcome.stored

end State

def RunnerOk (s : State n V E) (i : Fin n) : Prop :=
  match s.runners i with
  | .awaiting => s.readyIndex ≠ some i ∧ s.outcomes i = none
  | .cas o => s.readyIndex ≠ some i ∧ s.outcomes i = some o
  | .emplace o => s.readyIndex = some i ∧ s.outcomes i = some o ∧ s.result = .monostate ∧
      o.stored ≠ .monostate
  | .exchange => s.readyIndex = some i
  | .finished => s.readyIndex ≠ none

structure Inv (s : State n V E) : Prop where
  awaiter : s.awaiter.Ok
  runners : ∀ i, RunnerOk s i
  empty : s.readyIndex = none → s.result = .monostate
  stored : ∀ i, s.readyIndex = some i → (s.runners i).emplacing = false →
    ∃ o, s.outcomes i = some o ∧ s.result = o.stored
  seen : s.awaiter.Seen → s.readyIndex ≠ none
  index : ∀ index, s.resume = .moveResult index → index = s.readyIndex ∧ index ≠ none

lemma inv_init : Inv (init n V E) := by
  refine ⟨Awaiter.ok_init, fun i => ⟨by simp [init], rfl⟩, fun _ => rfl, ?_, ?_, ?_⟩
  · intro i hi
    cases hi
  · intro hseen
    rcases hseen with hc | hc <;> cases hc
  · intro index hindex
    cases hindex

/-- A step of runner `i` leaves the other runners' part alone if `ready_index` keeps the
winner and nobody else stores a result. -/
lemma RunnerOk.frame {j : Fin n} (h : RunnerOk s j) (hrunner : s'.runners j = s.runners j)
    (houtcome : s'.outcomes j = s.outcomes j) (hnone : s.readyIndex ≠ none → s'.readyIndex ≠ none)
    (hindex : s'.readyIndex = some j ↔ s.readyIndex = some j)
    (hresult : s.readyIndex = some j → s'.result = s.result) : RunnerOk s' j := by
  unfold RunnerOk at h ⊢
  rw [hrunner]
  cases hj : s.runners j with
  | awaiting =>
    rw [hj] at h
    rw [ne_eq, hindex, houtcome]
    exact h
  | cas o =>
    rw [hj] at h
    rw [ne_eq, hindex, houtcome]
    exact h
  | emplace o =>
    rw [hj] at h
    obtain ⟨hi, ho, hr, hne⟩ := h
    exact ⟨hindex.mpr hi, houtcome.trans ho, (hresult hi).trans hr, hne⟩
  | exchange =>
    rw [hj] at h
    exact hindex.mpr h
  | finished =>
    rw [hj] at h
    exact hnone h

lemma Inv.complete (h : Inv s) {o : Outcome V E} (hi : s.runners i = .awaiting) :
    Inv { s.setRunner i (.cas o) with outcomes := Function.update s.outcomes i (some o) } := by
  have hrun := h.runners i
  unfold RunnerOk at hrun
  rw [hi] at hrun
  refine ⟨h.awaiter, fun j => ?_, h.empty, fun j hj hem => ?_, h.seen, h.index⟩
  · by_cases hji : j = i
    · subst hji
      unfold RunnerOk
      simp only [State.setRunner, Function.update_self]
      exact ⟨hrun.1, trivial⟩
    · apply (h.runners j).frame
      · exact Function.update_of_ne hji ..
      · exact Function.update_of_ne hji ..
      · exact id
      · exact Iff.rfl
      · exact fun _ => rfl
  · have hji : j ≠ i := by
      rintro rfl
      exact hrun.1 hj
    simp only [State.setRunner, Function.update_of_ne hji] at hem ⊢
    exact h.stored j hj hem

/-- The winning CAS. -/
lemma Inv.win (h : Inv s) {o : Outcome V E} (hi : s.runners i = .cas o)
    (hnone : s.readyIndex = none) :
    Inv { s.setRunner i (afterCas o) with readyIndex := some i } := by
  have hrun := h.runners i
  unfold RunnerOk at hrun
  rw [hi] at hrun
  have hempty := h.empty hnone
  refine ⟨h.awaiter, fun j => ?_, by simp, fun j hj hem => ?_, by simp, fun index hindex => ?_⟩
  · by_cases hji : j = i
    · subst hji
      unfold RunnerOk
      simp only [State.setRunner, Function.update_self]
      cases o with
      | void => trivial
      | value v => exact ⟨trivial, hrun.2, hempty, by simp [Outcome.stored]⟩
      | error e => exact ⟨trivial, hrun.2, hempty, by simp [Outcome.stored]⟩
    · apply (h.runners j).frame
      · exact Function.update_of_ne hji ..
      · rfl
      · simp
      · simp [hnone, Ne.symm hji]
      · simp [hnone]
  · cases hj
    simp only [State.setRunner, Function.update_self] at hem
    refine ⟨o, hrun.2, ?_⟩
    cases o with
    | void => exact hempty
    | value v => cases hem
    | error e => cases hem
  · -- nobody has got as far as `await_resume` while `ready_index` is `-1`
    obtain ⟨heq, hne⟩ := h.index index hindex
    exact absurd (heq.trans hnone) hne

/-- A step of a runner after which `ready_index` and the result are as before. -/
lemma Inv.advance (h : Inv s) {pc : RunnerPc V E} {w : Awaiter} (hw : w.Ok)
    (hseen : w.Seen → s.readyIndex ≠ none)
    (hpc : RunnerOk (s.setRunner i pc) i)
    (hem : s.readyIndex = some i → (s.runners i).emplacing = false) :
    Inv { s.setRunner i pc with awaiter := w } := by
  refine ⟨hw, fun j => ?_, h.empty, fun j hj hjem => ?_, hseen, h.index⟩
  · by_cases hji : j = i
    · subst hji
      exact hpc
    · apply (h.runners j).frame
      · exact Function.update_of_ne hji ..
      · rfl
      · exact id
      · exact Iff.rfl
      · exact fun _ => rfl
  · by_cases hji : j = i
    · subst hji
      exact h.stored j hj (hem hj)
    · simp only [State.setRunner, Function.update_of_ne hji] at hjem
      exact h.stored j hj hjem

lemma Inv.emplace (h : Inv s) {o : Outcome V E} (hi : s.runners i = .emplace o) :
    Inv { s.setRunner i .exchange with result := o.stored } := by
  have hrun := h.runners i
  unfold RunnerOk at hrun
  rw [hi] at hrun
  obtain ⟨hindex, ho, -, -⟩ := hrun
  refine ⟨h.awaiter, fun j => ?_, fun hnone => ?_, fun j hj _ => ?_, h.seen, h.index⟩
  · by_cases hji : j = i
    · subst hji
      unfold RunnerOk
      simp only [State.setRunner, Function.update_self]
      exact hindex
    · apply (h.runners j).frame
      · exact Function.update_of_ne hji ..
      · rfl
      · exact id
      · exact Iff.rfl
      · intro hj
        rw [hindex] at hj
        exact absurd (Option.some.inj hj).symm hji
  · exact absurd (hindex.symm.trans hnone) (by simp)
  · obtain rfl : i = j := Option.some.inj (hindex.symm.trans hj)
    exact ⟨o, ho, rfl⟩

lemma Inv.runnerStep (h : Inv s) (hs : runnerStep s i = some s') : Inv s' := by
  unfold WaitAny.runnerStep at hs
  have hrun := h.runners i
  unfold RunnerOk at hrun
  cases hi : s.runners i <;> rw [hi] at hs hrun
  case awaiting => cases hs
  case cas o =>
    cases hindex : s.readyIndex <;> rw [hindex] at hs <;> cases hs
    · exact h.win hi hindex
    · rename_i j
      refine h.advance h.awaiter h.seen ?_ fun heq => absurd heq hrun.1
      unfold RunnerOk
      simp [State.setRunner, hindex]
  case emplace o =>
    cases hs
    exact h.emplace hi
  case exchange =>
    cases hs
    refine h.advance h.awaiter.exchange (fun _ => by rw [hrun]; simp) ?_ fun _ => by rw [hi]; rfl
    unfold RunnerOk
    simp [State.setRunner, hrun]
  case finished => cases hs

/-- The consumer's steps up to `await_resume`. -/
lemma Inv.setAwaiter (h : Inv s) {w : Awaiter} (hw : w.Ok)
    (hseen : w.Seen → s.awaiter.Seen ∨ s.ready = true) : Inv { s with awaiter := w } := by
  refine ⟨hw, fun j => ?_, h.empty, h.stored, fun hs => ?_, h.index⟩
  · exact (h.runners j).frame rfl rfl id Iff.rfl fun _ => rfl
  · rcases hseen hs with hold | hready
    · exact h.seen hold
    · exact Option.isSome_iff_ne_none.mp hready

lemma Inv.awaitResume (h : Inv s) (hs : awaitResume s = some s') : Inv s' := by
  unfold WaitAny.awaitResume at hs
  split at hs
  · rename_i hpassed
    have hnone := h.seen (Or.inl hpassed)
    split at hs <;> cases hs
    · refine ⟨h.awaiter, fun j => ?_, h.empty, h.stored, h.seen, fun index hindex => ?_⟩
      · exact (h.runners j).frame rfl rfl id Iff.rfl fun _ => rfl
      · cases hindex
        exact ⟨rfl, hnone⟩
    · refine ⟨h.awaiter, fun j => ?_, h.empty, h.stored, h.seen, fun index hindex => ?_⟩
      · exact (h.runners j).frame rfl rfl id Iff.rfl fun _ => rfl
      · cases hindex
  · cases hs

theorem Inv.step (h : Inv s) {a : Action n V E} (hs : step s a = some s') : Inv s' := by
  cases a with
  | complete i o =>
    simp only [WaitAny.step] at hs
    split at hs <;> cases hs
    exact h.complete ‹_›
  | runner i => exact h.runnerStep hs
  | awaitReady =>
    obtain ⟨w, hw, rfl⟩ := Option.map_eq_some_iff.mp hs
    exact h.setAwaiter (h.awaiter.awaitReady hw) (Awaiter.seen_awaitReady hw)
  | awaitSuspend =>
    obtain ⟨w, hw, rfl⟩ := Option.map_eq_some_iff.mp hs
    exact h.setAwaiter (h.awaiter.awaitSuspend hw) (Awaiter.seen_awaitSuspend hw)
  | awaitResume => exact h.awaitResume hs

theorem reaches_inv {C : State n V E → Action n V E → Prop}
    (h : (system n V E).Reaches C s) : Inv s :=
  h.invariant inv_init fun _ _ _ _ ih _ hs => ih.step hs

/-! ### Agreement -/

/-- `await_resume` does not move the result out of a half-written pair. -/
def NoEarlyMove (s : State n V E) (a : Action n V E) : Prop :=
  a = .awaitResume → s.resume = .readIndex ∨ ¬s.HalfWritten

instance [DecidableEq V] [DecidableEq E] (s : State n V E) (a : Action n V E) :
    Decidable (NoEarlyMove s a) :=
  inferInstanceAs (Decidable (_ → _))

/-- The result that is moved out belongs to the winner exactly if the winner has stored it. -/
lemma Inv.agrees_iff (h : Inv s) {index : Option (Fin n)} (hm : s.resume = .moveResult index) :
    (∃ i o, index = some i ∧ s.outcomes i = some o ∧ s.result = o.stored) ↔
      ¬s.HalfWritten := by
  obtain ⟨hindex, hne⟩ := h.index index hm
  constructor
  · rintro ⟨i, o, hi, ho, hr⟩ ⟨j, hj, hem⟩
    have hij : i = j := by
      rw [hindex, hj] at hi
      exact (Option.some.inj hi).symm
    subst hij
    have hrun := h.runners i
    unfold RunnerOk at hrun
    cases hpc : s.runners i <;> rw [hpc] at hem hrun <;> cases hem
    obtain ⟨-, ho', hempty, hstored⟩ := hrun
    rw [ho] at ho'
    cases ho'
    exact hstored (hr.symm.trans hempty)
  · intro hhalf
    obtain ⟨i, hi⟩ := Option.ne_none_iff_exists'.mp hne
    have hready : s.readyIndex = some i := hindex.symm.trans hi
    have hem : (s.runners i).emplacing = false := by
      rw [Bool.eq_false_iff]
      exact fun hem => hhalf ⟨i, hready, hem⟩
    obtain ⟨o, ho, hr⟩ := h.stored i hready hem
    exact ⟨i, o, hi, ho, hr⟩

lemma awaitResume_frame (hs : awaitResume s = some s') :
    s'.outcomes = s.outcomes ∧ s'.readyIndex = s.readyIndex ∧ s'.runners = s.runners := by
  unfold awaitResume at hs
  split at hs
  · split at hs <;> cases hs <;> exact ⟨rfl, rfl, rfl⟩
  · cases hs

/-- Steps of others keep what has been returned and the outcomes. -/
lemma step_frame {a : Action n V E} (h : Inv s) (hs : step s a = some s')
    (ha : a ≠ .awaitResume) : s'.resume = s.resume ∧
      ∀ i o, s.outcomes i = some o → s'.outcomes i = some o := by
  cases a with
  | complete i o =>
    simp only [step] at hs
    split at hs <;> cases hs
    rename_i hi
    refine ⟨rfl, fun j o' hj => ?_⟩
    have hrun := h.runners i
    unfold RunnerOk at hrun
    rw [hi] at hrun
    by_cases hji : j = i
    · subst hji
      rw [hrun.2] at hj
      cases hj
    · simpa only [Function.update_of_ne hji] using hj
  | runner i =>
    simp only [step, runnerStep] at hs
    split at hs
    · cases hs
    · split at hs <;> cases hs <;> exact ⟨rfl, fun _ _ hj => hj⟩
    · cases hs
      exact ⟨rfl, fun _ _ hj => hj⟩
    · cases hs
      exact ⟨rfl, fun _ _ hj => hj⟩
    · cases hs
  | awaitReady | awaitSuspend =>
    obtain ⟨w, -, rfl⟩ := Option.map_eq_some_iff.mp hs
    exact ⟨rfl, fun _ _ hj => hj⟩
  | awaitResume => exact absurd rfl ha

/-- In a run in which `await_resume` never moves the result out of a half-written pair, what
it returns is the outcome of the awaitable it names. From any reachable state, moving the
result out of a half-written pair is exactly what breaks this. -/
theorem wait_any_agrees_iff (h : (system n V E).Reachable s) :
    ((system n V E).Reaches NoEarlyMove s → s.Agrees) ∧
      ∀ index s', s.resume = .moveResult index → awaitResume s = some s' →
        (s'.Agrees ↔ ¬s.HalfWritten) := by
  have hmove : ∀ {t t' : State n V E} {index}, (system n V E).Reachable t →
      t.resume = .moveResult index → awaitResume t = some t' →
      (t'.Agrees ↔ ¬t.HalfWritten) := by
    intro t t' index ht hm hs
    rw [← (reaches_inv ht).agrees_iff hm]
    have hout := (awaitResume_frame hs).1
    have hres : t'.resume = .returned index t.result := by
      unfold awaitResume at hs
      rw [hm] at hs
      split at hs <;> cases hs
      rfl
    unfold State.Agrees
    rw [hres, hout]
    constructor
    · exact fun hag => hag index t.result rfl
    · rintro hag index' result heq
      cases heq
      exact hag
  refine ⟨fun hrun => ?_, fun index s' hm hs => hmove h hm hs⟩
  refine hrun.invariant (I := State.Agrees) (fun _ _ hr => by cases hr) ?_
  intro t a t' run ih hC hs
  by_cases ha : a = .awaitResume
  · subst ha
    cases hr : t.resume with
    | readIndex =>
      simp only [system, step, awaitResume, hr] at hs
      split at hs <;> cases hs
      exact fun _ _ hr => by cases hr
    | moveResult index =>
      refine (hmove run.reachable hr hs).mpr ((hC rfl).resolve_left ?_)
      rw [hr]
      exact fun hc => by cases hc
    | returned index result =>
      simp only [system, step, awaitResume, hr] at hs
      split at hs <;> cases hs
  · obtain ⟨hres, hout⟩ := step_frame (reaches_inv run) hs ha
    intro index result hr
    obtain ⟨i, o, hi, ho, hst⟩ := ih index result (hres ▸ hr)
    exact ⟨i, o, hi, hout i o ho, hst⟩

/-- The consumer comes between the CAS and the `emplace` of the only runner and gets the
empty result. -/
theorem wait_any_half_written :
    ∃ s : State 1 ℕ ℕ, (system 1 ℕ ℕ).Reachable s ∧ s.outcomes 0 = some (.value 7) ∧
      s.resume = .returned (some 0) .monostate ∧ ¬s.Agrees := by
  obtain ⟨s, hs, ho, hr⟩ := System.exists_reaches (S := system 1 ℕ ℕ) (fun _ _ => True)
    (fun s => s.outcomes 0 = some (.value 7) ∧ s.resume = .returned (some 0) .monostate)
    [.complete 0 (.value 7), .runner 0, .awaitReady, .awaitResume, .awaitResume] (by decide)
  refine ⟨s, hs, ho, hr, fun hag => ?_⟩
  obtain ⟨i, o, hi, ho', hst⟩ := hag _ _ hr
  cases hi
  rw [ho] at ho'
  cases ho'
  cases hst

/-- Runner 1 wins against runner 0 and wakes the consumer, which has suspended. -/
theorem wait_any_agrees_woken :
    ∃ s : State 2 ℕ ℕ, s.resume = .returned (some 1) (.error 3) ∧ s.Agrees := by
  obtain ⟨s, hs, hr⟩ := System.exists_reaches (S := system 2 ℕ ℕ) NoEarlyMove
    (fun s => s.resume = .returned (some 1) (.error 3))
    [.awaitReady, .awaitSuspend, .complete 0 (.value 7), .complete 1 (.error 3), .awaitSuspend,
      .runner 1, .runner 0, .runner 1, .runner 1, .awaitResume, .awaitResume] (by decide)
  exact ⟨s, hr, (wait_any_agrees_iff hs.reachable).1 hs⟩

/-! ### Resuming the consumer -/

/-- The step from `s` to `s'` is the CAS of runner `i`, and it succeeds. -/
def Wins (s s' : State n V E) (i : Fin n) : Prop :=
  (∃ o, s.runners i = .cas o) ∧ runnerStep s i = some s' ∧ s'.runners i ≠ .finished

/-- The winning runner has returned, `await_suspend` has returned, and the consumer is still
suspended. -/
def State.Stranded (s : State n V E) : Prop :=
  (∃ i, s.readyIndex = some i ∧ s.runners i = .finished) ∧ s.awaiter.suspend = .returned ∧
    s.awaiter.coroutine = .suspended

lemma Wins.readyIndex (h : Wins s s' i) : s.readyIndex = none ∧ s'.readyIndex = some i := by
  obtain ⟨⟨o, hi⟩, hs, hne⟩ := h
  unfold runnerStep at hs
  rw [hi] at hs
  cases hindex : s.readyIndex with
  | none =>
    simp only [hindex, Option.some.injEq] at hs
    subst hs
    exact ⟨rfl, rfl⟩
  | some j =>
    simp only [hindex, Option.some.injEq] at hs
    subst hs
    simp [State.setRunner] at hne

/-- `ready_index` is not written again. -/
lemma step_readyIndex {a : Action n V E} (hindex : s.readyIndex = some i)
    (hs : step s a = some s') : s'.readyIndex = some i := by
  cases a with
  | complete j o =>
    simp only [step] at hs
    split at hs <;> cases hs
    exact hindex
  | runner j =>
    simp only [step, runnerStep] at hs
    split at hs
    · cases hs
    · simp only [hindex, Option.some.injEq] at hs
      subst hs
      exact hindex
    · cases hs
      exact hindex
    · cases hs
      exact hindex
    · cases hs
  | awaitReady | awaitSuspend =>
    obtain ⟨w, -, rfl⟩ := Option.map_eq_some_iff.mp hs
    exact hindex
  | awaitResume => exact (awaitResume_frame hs).2.1.trans hindex

/-- A consumer that is left waiting is waited for: the winner has its exchange to make. -/
def State.Attended (s : State n V E) : Prop :=
  s.awaiter.Waits → ∀ i, s.readyIndex = some i → s.runners i ≠ .finished

/-- A step of runner `i` that does not touch the awaiter. -/
lemma State.Attended.setRunner (h : s.Attended) (hawaiter : s'.awaiter = s.awaiter)
    (hself : s'.readyIndex = some i → s'.runners i ≠ .finished)
    (hothers : ∀ j, j ≠ i → s'.runners j = s.runners j ∧
      (s'.readyIndex = some j → s.readyIndex = some j)) : s'.Attended := by
  intro hwaits j hj
  rw [hawaiter] at hwaits
  by_cases hji : j = i
  · subst hji
    exact hself hj
  · obtain ⟨hrunner, hindex⟩ := hothers j hji
    rw [hrunner]
    exact h hwaits j (hindex hj)

lemma State.Attended.runnerStep (h : s.Attended) (hinv : Inv s) (hs : runnerStep s i = some s') :
    s'.Attended := by
  unfold WaitAny.runnerStep at hs
  have hrun := hinv.runners i
  unfold RunnerOk at hrun
  cases hi : s.runners i <;> rw [hi] at hs hrun
  case awaiting => cases hs
  case cas o =>
    cases hindex : s.readyIndex <;> rw [hindex] at hs <;> cases hs
    · refine h.setRunner (i := i) rfl ?_ ?_
      · intro _
        cases o <;> simp [State.setRunner, afterCas]
      · intro j hji
        exact ⟨Function.update_of_ne hji .., fun hj => absurd (Option.some.inj hj).symm hji⟩
    · refine h.setRunner (i := i) rfl ?_ ?_
      · exact fun hj => absurd hj hrun.1
      · exact fun j hji => ⟨Function.update_of_ne hji .., id⟩
  case emplace o =>
    cases hs
    refine h.setRunner (i := i) rfl ?_ ?_
    · simp [State.setRunner]
    · exact fun j hji => ⟨Function.update_of_ne hji .., id⟩
  case exchange =>
    cases hs
    exact fun hwaits => absurd hwaits hinv.awaiter.not_waits_exchange
  case finished => cases hs

lemma State.Attended.step (h : s.Attended) (hinv : Inv s) {a : Action n V E}
    (hs : step s a = some s') : s'.Attended := by
  cases a with
  | complete i o =>
    simp only [WaitAny.step] at hs
    split at hs <;> cases hs
    refine h.setRunner (i := i) rfl ?_ ?_
    · simp [State.setRunner]
    · exact fun j hji => ⟨Function.update_of_ne hji .., id⟩
  | runner i => exact h.runnerStep hinv hs
  | awaitReady =>
    obtain ⟨w, hw, rfl⟩ := Option.map_eq_some_iff.mp hs
    exact fun hwaits => absurd hwaits (Awaiter.not_waits_awaitReady hw)
  | awaitSuspend =>
    obtain ⟨w, hw, rfl⟩ := Option.map_eq_some_iff.mp hs
    intro hwaits i hi
    have hready := Awaiter.waits_awaitSuspend hinv.awaiter hw hwaits
    rw [State.ready, Option.isSome_eq_false_iff, Option.isNone_iff_eq_none] at hready
    exact absurd (hi.symm.trans hready) (by simp)
  | awaitResume =>
    simp only [WaitAny.step, awaitResume] at hs
    split at hs
    · split at hs <;> cases hs <;> exact h
    · cases hs

lemma reaches_attended {C : State n V E → Action n V E → Prop}
    (h : (system n V E).Reaches C s) : s.Attended := by
  refine h.invariant (fun _ i hi => ?_) fun _ _ _ run hatt _ hs => hatt.step (reaches_inv run) hs
  cases hi

/-- The awaitable that `ready_index` names has finished. -/
lemma Inv.outcome (h : Inv s) (hi : s.readyIndex = some i) : ∃ o, s.outcomes i = some o := by
  have hrun := h.runners i
  unfold RunnerOk at hrun
  cases hpc : s.runners i <;> rw [hpc] at hrun
  case awaiting => exact absurd hi hrun.1
  case cas o => exact absurd hi hrun.1
  case emplace o => exact ⟨o, hrun.2.1⟩
  case exchange | finished =>
    obtain ⟨o, ho, -⟩ := h.stored i hi (by rw [hpc]; rfl)
    exact ⟨o, ho⟩

/-- At most one runner wins the CAS, one has won it as soon as one has returned, and
`ready_index` stays as it is from then on. The consumer passes its `co_await` at most once, and
only after an awaitable has finished. It is not left suspended once the winner and
`await_suspend` have returned. -/
theorem wait_any_resumes_once (h : (system n V E).Reachable s) :
    (∀ i s', Wins s s' i → s.readyIndex = none ∧ s'.readyIndex = some i) ∧
    (∀ i, s.readyIndex = some i → ∀ as t, (system n V E).exec (fun _ _ => True) s as = some t →
      t.readyIndex = some i ∧ ∀ j t', ¬Wins t t' j) ∧
    (∀ i, s.runners i = .finished → s.readyIndex ≠ none) ∧
    s.awaiter.passes ≤ 1 ∧
    (s.awaiter.passes ≠ 0 → ∃ i o, s.outcomes i = some o) ∧
    ¬s.Stranded := by
  have hinv := reaches_inv h
  refine ⟨fun i s' => Wins.readyIndex, fun i hi as t ht => ?_, fun i hi => ?_,
    hinv.awaiter.passes_le, fun hpasses => ?_, ?_⟩
  · have hindex : t.readyIndex = some i :=
      System.exec_invariant (I := fun s => s.readyIndex = some i)
        (fun _ _ _ hu _ hs => step_readyIndex hu hs) hi ht
    refine ⟨hindex, fun j t' hwins => ?_⟩
    rw [hwins.readyIndex.1] at hindex
    cases hindex
  · have hrun := hinv.runners i
    unfold RunnerOk at hrun
    rw [hi] at hrun
    exact hrun
  · have hpassed := hinv.awaiter.passed_of_passes hpasses
    obtain ⟨i, hi⟩ := Option.ne_none_iff_exists'.mp (hinv.seen (Or.inl hpassed))
    exact ⟨i, hinv.outcome hi⟩
  · rintro ⟨⟨i, hi, hfinished⟩, hsuspend, hcoroutine⟩
    exact reaches_attended h ⟨hcoroutine, hsuspend⟩ i hi hfinished

/-- Runner 1 wins while the consumer is between its store and its second test, which then takes
the handle back. -/
theorem wait_any_resumes_once_recheck : ∃ s : State 2 ℕ ℕ, s.readyIndex = some 1 ∧
    s.runners 0 = .finished ∧ s.awaiter.passes = 1 ∧ ∃ i o, s.outcomes i = some o := by
  obtain ⟨s, hs, hindex, hrunner, hpasses⟩ := System.exists_reaches (S := system 2 ℕ ℕ)
    (fun _ _ => True) (fun s => s.readyIndex = some 1 ∧ s.runners 0 = .finished ∧
      s.awaiter.passes = 1)
    [.awaitReady, .awaitSuspend, .complete 0 (.value 7), .complete 1 (.error 3), .runner 1,
      .runner 0, .awaitSuspend, .awaitSuspend, .runner 1, .runner 1] (by decide)
  exact ⟨s, hindex, hrunner, hpasses, (wait_any_resumes_once hs).2.2.2.2.1 (by omega)⟩

end invariant

end Scoro.WaitAny

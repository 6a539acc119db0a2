import Scoro.Lib.Counting
import Scoro.Lib.Transition

/-!
# `CancelableSleepAwaitable`

One coroutine awaits a `CancelableSleepAwaitable`, any number of threads call `cancel`, and the
timer runs the callback or the cancel function of the task. All of these claim `state` by a CAS
and then look at `waiter` once, which the sleeper stores after its look at `state`. Each action is
one atomic step, and the awaiter is not destroyed before the calls of `cancel` have returned.
-/

namespace Scoro.CancelableSleep
open Scoro.Lib

/-- `ControlBox::State`. -/
inductive Phase where
  | ePending
  | eCanceled
  | eConsumed
  deriving DecidableEq

/-- `ControlBox`. The handle `waiter` is the sleeper's or null. -/
structure ControlBox where
  waiter : Bool
  state : Phase
  deriving DecidableEq

/-- The sleeper. It is at `awaitResume` from its first instruction after the suspension. -/
inductive CoroutinePc where
  | ready
  | suspended
  | awaitResume
  | continued (consumed : Bool)
  deriving DecidableEq

/-- The call of `await_suspend`. -/
inductive SuspendPc where
  | idle
  | storeWaiter
  | addTask
  | returned
  deriving DecidableEq

/-- The common body of `cancel` and of the two functions of the task, with what `cancel`
returns. -/
inductive ClaimPc where
  | cas (next : Phase)
  | testWaiter
  | resume
  | clearWaiter
  | returned (canceled : Bool)
  deriving DecidableEq

/-- The task of the timer: its callback or its cancel function is called once. -/
inductive TaskPc where
  | unregistered
  | pending
  | taken
  deriving DecidableEq

/-- `claims none` is the function that the timer calls, and `claims (some k)` the last call of
`cancel` on thread `k`. `fault` is set when a null handle or a coroutine that is not suspended is
resumed, and `passes` counts how often the sleeper went on. -/
structure State (K : Type*) where
  mCb : ControlBox
  coroutine : CoroutinePc
  suspend : SuspendPc
  task : TaskPc
  claims : Option K → ClaimPc
  fault : Bool
  passes : ℕ

/-- `fire` and `cancelTask` are the timer's calls, and `claim` is the next step of a call. -/
inductive Action (Time K : Type*) where
  | awaitReady (now : Time)
  | awaitSuspend
  | awaitResume
  | cancel (k : K)
  | fire (now : Time)
  | cancelTask
  | claim (c : Option K)

section step
variable {Time K : Type*} [LinearOrder Time] [DecidableEq K]

def init (K : Type*) : State K where
  mCb := ⟨false, .ePending⟩
  coroutine := .ready
  suspend := .idle
  task := .unregistered
  claims := fun _ => .returned false
  fault := false
  passes := 0

namespace State

def setClaim (s : State K) (c : Option K) (pc : ClaimPc) : State K :=
  { s with claims := Function.update s.claims c pc }

def pass (s : State K) : State K :=
  { s with coroutine := .awaitResume, passes := s.passes + 1 }

/-- `waiter.resume()`. -/
def resume (s : State K) : State K :=
  match s.mCb.waiter, s.coroutine with
  | true, .suspended => s.pass
  | _, _ => { s with fault := true }

end State

def awaitReady (wakeTime : Time) (s : State K) (now : Time) : Option (State K) :=
  match s.coroutine with
  | .ready => some (if now ≥ wakeTime ∨ s.mCb.state ≠ .ePending then s.pass else
      { s with coroutine := .suspended, suspend := .storeWaiter })
  | _ => none

def awaitSuspend (s : State K) : Option (State K) :=
  match s.suspend with
  | .storeWaiter => some { s with mCb := { s.mCb with waiter := true }, suspend := .addTask }
  | .addTask => some { s with task := .pending, suspend := .returned }
  | .idle | .returned => none

def awaitResume (s : State K) : Option (State K) :=
  match s.coroutine with
  | .awaitResume => some { s with coroutine := .continued (s.mCb.state = .eConsumed) }
  | _ => none

def cancel (s : State K) (k : K) : Option (State K) :=
  match s.claims (some k) with
  | .returned _ => some (s.setClaim (some k) (.cas .eCanceled))
  | _ => none

/-- The timer calls a function of the task, whose CAS stores `next`. -/
def take (s : State K) (next : Phase) : Option (State K) :=
  match s.task with
  | .pending => some { s.setClaim none (.cas next) with task := .taken }
  | _ => none

def claimStep (s : State K) (c : Option K) : Option (State K) :=
  match s.claims c with
  | .cas next => some (if s.mCb.state = .ePending then
      { s.setClaim c .testWaiter with mCb := { s.mCb with state := next } } else
      s.setClaim c (.returned false))
  | .testWaiter => some (s.setClaim c (if s.mCb.waiter then .resume else .returned true))
  | .resume => some (s.resume.setClaim c .clearWaiter)
  | .clearWaiter => some
      { s.setClaim c (.returned true) with mCb := { s.mCb with waiter := false } }
  | .returned _ => none

def step (wakeTime : Time) (s : State K) : Action Time K → Option (State K)
  | .awaitReady now => awaitReady wakeTime s now
  | .awaitSuspend => awaitSuspend s
  | .awaitResume => awaitResume s
  | .cancel k => cancel s k
  | .fire now => if now ≥ wakeTime then take s .eConsumed else none
  | .cancelTask => take s .eCanceled
  | .claim c => claimStep s c

def system (K : Type*) [DecidableEq K] (wakeTime : Time) : System (State K) (Action Time K) where
  init := init K
  step := step wakeTime

end step

/-! ### Who resumes the sleeper -/

def CoroutinePc.passed : CoroutinePc → Bool
  | .awaitResume | .continued _ => true
  | .ready | .suspended => false

/-- A call that has claimed `state` and has not returned. -/
def ClaimPc.winning : ClaimPc → Bool
  | .testWaiter | .resume | .clearWaiter => true
  | .cas _ | .returned _ => false

/-- A call that has claimed `state` and not resumed the sleeper yet. -/
def ClaimPc.resuming : ClaimPc → Bool
  | .testWaiter | .resume => true
  | .cas _ | .clearWaiter | .returned _ => false

lemma ClaimPc.winning_of_resuming {pc : ClaimPc} (h : pc.resuming = true) : pc.winning = true := by
  cases pc <;> first | rfl | cases h

section invariant
variable {K : Type*} {s s' : State K}

/-- The order of the sleeper's steps, and what the winner finds. -/
structure Inv (s : State K) : Prop where
  fault : s.fault = false
  ready : s.coroutine = .ready → s.suspend = .idle ∧ s.passes = 0
  suspended : s.coroutine = .suspended → s.suspend ≠ .idle ∧ s.passes = 0
  passed : s.coroutine.passed = true → s.passes = 1 ∧ s.suspend ≠ .storeWaiter
  waiter : s.mCb.waiter = true → s.suspend ≠ .idle ∧ s.suspend ≠ .storeWaiter
  stored : s.coroutine = .suspended → s.suspend ≠ .storeWaiter → s.mCb.waiter = true
  task : s.task = .unregistered ↔ s.suspend ≠ .returned
  taken : s.task = .taken → (∃ next, s.claims none = .cas next) ∨ s.mCb.state ≠ .ePending
  untaken : s.task ≠ .taken → ∃ canceled, s.claims none = .returned canceled
  phase : ∀ c, s.claims c ≠ .cas .ePending
  claimed : ∀ c, (s.claims c).winning = true → s.mCb.state ≠ .ePending
  unique : ∀ c d, (s.claims c).winning = true → (s.claims d).winning = true → c = d
  resuming : ∀ c, (s.claims c).resuming = true → s.suspend ≠ .idle → s.coroutine = .suspended
  resume : ∀ c, s.claims c = .resume → s.mCb.waiter = true
  clear : ∀ c, s.claims c = .clearWaiter → s.coroutine.passed = true
  pending : s.mCb.state = .ePending → s.suspend ≠ .idle → s.coroutine = .suspended

/-- A suspended sleeper can still be resumed. -/
def State.Met (s : State K) : Prop :=
  s.coroutine = .suspended → s.mCb.state = .ePending ∨ ∃ c, (s.claims c).resuming = true

/-- The task has been run or cancelled, no call of `cancel` is in progress, `await_suspend` has
returned, and the sleeper is still suspended. -/
def State.Lost (s : State K) : Prop :=
  s.task = .taken ∧ (∀ c, ∃ canceled, s.claims c = .returned canceled) ∧ s.suspend = .returned ∧
    s.coroutine = .suspended

/-- No call of `cancel` tests `waiter` after `await_ready` has let the sleeper suspend and before
`await_suspend` has stored it. -/
def Timely {Time : Type*} (s : State K) : Action Time K → Prop
  | .claim c => ¬(s.claims c = .testWaiter ∧ s.suspend = .storeWaiter)
  | .awaitReady _ | .awaitSuspend | .awaitResume | .cancel _ | .fire _ | .cancelTask => True

instance {Time : Type*} (a : Action Time K) : Decidable (Timely s a) :=
  match a with
  | .claim _ => inferInstanceAs (Decidable (¬(_ ∧ _)))
  | .awaitReady _ | .awaitSuspend | .awaitResume | .cancel _ | .fire _ | .cancelTask =>
    .isTrue trivial

/-- The timely steps but new calls of `cancel`. -/
def Bound {Time : Type*} (s : State K) (a : Action Time K) : Prop :=
  Timely s a ∧ ∀ k, a ≠ .cancel k

/-- Nobody is going to resume the suspended sleeper. -/
structure Abandoned (s : State K) : Prop where
  suspended : s.coroutine = .suspended
  claimed : s.mCb.state ≠ .ePending
  resuming : ∀ c, (s.claims c).resuming = false

lemma inv_init : Inv (init K) := by
  constructor <;> simp [init, CoroutinePc.passed, ClaimPc.winning, ClaimPc.resuming]

/-- What `await_ready` does with a sleeper that need not wait. -/
lemma Inv.pass (h : Inv s) (hpc : s.coroutine = .ready) : Inv s.pass := by
  obtain ⟨hidle, hpasses⟩ := h.ready hpc
  exact { h with
    ready := by simp [State.pass]
    suspended := by simp [State.pass]
    passed := fun _ => ⟨by simp [State.pass, hpasses], by simp [State.pass, hidle]⟩
    stored := by simp [State.pass]
    resuming := fun _ _ hs => absurd hidle hs
    clear := fun _ _ => rfl
    pending := fun _ hs => absurd hidle hs }

lemma Inv.suspend (h : Inv s) (hpc : s.coroutine = .ready) :
    Inv { s with coroutine := .suspended, suspend := .storeWaiter } := by
  obtain ⟨hidle, hpasses⟩ := h.ready hpc
  have hwaiter : s.mCb.waiter = false := by
    by_contra hw
    exact (h.waiter (by simpa using hw)).1 hidle
  have htask : s.task = .unregistered := h.task.mpr (by simp [hidle])
  exact { h with
    ready := by simp
    suspended := fun _ => ⟨by simp, hpasses⟩
    passed := by simp [CoroutinePc.passed]
    waiter := fun hw => by simp [hwaiter] at hw
    stored := by simp
    task := by simp [htask]
    resuming := fun _ _ _ => rfl
    clear := fun c hc => by
      have hpassed := h.clear c hc
      simp [hpc, CoroutinePc.passed] at hpassed
    pending := fun _ _ => rfl }

lemma Inv.storeWaiter (h : Inv s) (hpc : s.suspend = .storeWaiter) :
    Inv { s with mCb := { s.mCb with waiter := true }, suspend := .addTask } := by
  have hidle : s.suspend ≠ .idle := by simp [hpc]
  exact { h with
    ready := fun hr => absurd (h.ready hr).1 hidle
    suspended := fun hs => ⟨by simp, (h.suspended hs).2⟩
    passed := fun hp => absurd hpc (h.passed hp).2
    waiter := by simp
    stored := by simp
    task := by simpa [hpc] using h.task
    resuming := fun c hc _ => h.resuming c hc hidle
    resume := fun _ _ => rfl
    pending := fun hs _ => h.pending hs hidle }

lemma Inv.addTask (h : Inv s) (hpc : s.suspend = .addTask) :
    Inv { s with task := .pending, suspend := .returned } := by
  have hidle : s.suspend ≠ .idle := by simp [hpc]
  exact { h with
    ready := fun hr => absurd (h.ready hr).1 hidle
    suspended := fun hs => ⟨by simp, (h.suspended hs).2⟩
    passed := fun hp => ⟨(h.passed hp).1, by simp⟩
    waiter := by simp
    stored := fun hs _ => h.stored hs (by simp [hpc])
    task := by simp
    taken := by simp
    untaken := fun _ => h.untaken (fun ht => by
      have hnot := h.task.mpr (by simp [hpc])
      rw [ht] at hnot
      cases hnot)
    resuming := fun c hc _ => h.resuming c hc hidle
    pending := fun hs _ => h.pending hs hidle }

lemma Inv.awaitResume (h : Inv s) (hpc : s.coroutine = .awaitResume) (consumed : Bool) :
    Inv { s with coroutine := .continued consumed } := by
  have hpassed := h.passed (by rw [hpc]; rfl)
  exact { h with
    ready := by simp
    suspended := by simp
    passed := fun _ => hpassed
    stored := by simp
    resuming := fun c hc hs => by
      have hsuspended := h.resuming c hc hs
      simp [hpc] at hsuspended
    clear := fun _ _ => rfl
    pending := fun hstate hs => by
      have hsuspended := h.pending hstate hs
      simp [hpc] at hsuspended }

/-- A winner that has seen the waiter finds it suspended. -/
lemma Inv.of_resume (h : Inv s) {c : Option K} (hpc : s.claims c = .resume) :
    s.resume = s.pass ∧ s.coroutine = .suspended ∧ s.suspend ≠ .storeWaiter := by
  have hwaiter := h.resume c hpc
  obtain ⟨hidle, hstore⟩ := h.waiter hwaiter
  have hsuspended := h.resuming c (by rw [hpc]; rfl) hidle
  exact ⟨by simp [State.resume, hwaiter, hsuspended], hsuspended, hstore⟩

/-- The timer has called a function of the task that is in progress. -/
lemma Inv.task_taken (h : Inv s) (hpc : ∀ canceled, s.claims none ≠ .returned canceled) :
    s.task = .taken := by
  by_contra ht
  obtain ⟨canceled, hr⟩ := h.untaken ht
  exact hpc canceled hr

/-- Where the waiter is not stored yet the sleeper is suspended. -/
lemma Inv.of_storeWaiter (h : Inv s) (hpc : s.suspend = .storeWaiter) :
    s.coroutine = .suspended ∧ s.mCb.waiter = false := by
  constructor
  · cases hc : s.coroutine with
    | suspended => rfl
    | ready => simp [(h.ready hc).1] at hpc
    | awaitResume | continued => exact absurd hpc (h.passed (by rw [hc]; rfl)).2
  · by_contra hw
    exact (h.waiter (by simpa using hw)).2 hpc

lemma Inv.not_lost (h : Inv s) (hmet : s.Met) : ¬s.Lost := by
  rintro ⟨htask, hreturned, -, hsuspended⟩
  rcases hmet hsuspended with hstate | ⟨c, hc⟩
  · rcases h.taken htask with ⟨next, hcas⟩ | hclaimed
    · obtain ⟨canceled, hr⟩ := hreturned none
      rw [hcas] at hr
      cases hr
    · exact hclaimed hstate
  · obtain ⟨canceled, hr⟩ := hreturned c
    rw [hr] at hc
    cases hc

lemma Inv.passes_le (h : Inv s) : s.passes ≤ 1 := by
  cases hc : s.coroutine with
  | ready => simp [(h.ready hc).2]
  | suspended => simp [(h.suspended hc).2]
  | awaitResume | continued => simp [(h.passed (by rw [hc]; rfl)).1]

end invariant

section claims
variable {K : Type*} [DecidableEq K] {s s' : State K} {c : Option K}

@[simp] lemma setClaim_mCb {p : ClaimPc} : (s.setClaim c p).mCb = s.mCb := rfl

@[simp] lemma setClaim_self {p : ClaimPc} : (s.setClaim c p).claims c = p := by
  simp [State.setClaim]

lemma setClaim_of_ne {d : Option K} {p : ClaimPc} (h : d ≠ c) :
    (s.setClaim c p).claims d = s.claims d := by
  simp [State.setClaim, Function.update_of_ne h]

/-- A step of a call that neither claims `state` nor resumes the sleeper. -/
lemma Inv.setClaim (h : Inv s) {pc : ClaimPc} (hphase : pc ≠ .cas .ePending)
    (hwinning : pc.winning = true → (s.claims c).winning = true)
    (hresuming : pc.resuming = true → (s.claims c).resuming = true)
    (hresume : pc = .resume → s.mCb.waiter = true)
    (hclear : pc = .clearWaiter → s.coroutine.passed = true)
    (hnone : c = none → s.task = .taken ∧ s.mCb.state ≠ .ePending) : Inv (s.setClaim c pc) := by
  have hw : ∀ d, ((s.setClaim c pc).claims d).winning = true → (s.claims d).winning = true := by
    intro d hd
    by_cases hdc : d = c
    · subst hdc
      exact hwinning (by simpa using hd)
    · simpa [setClaim_of_ne hdc] using hd
  have hr : ∀ d, ((s.setClaim c pc).claims d).resuming = true → (s.claims d).resuming = true := by
    intro d hd
    by_cases hdc : d = c
    · subst hdc
      exact hresuming (by simpa using hd)
    · simpa [setClaim_of_ne hdc] using hd
  exact { h with
    taken := fun ht => by
      by_cases hc : none = c
      · exact Or.inr (hnone hc.symm).2
      · simpa [setClaim_of_ne hc] using h.taken ht
    untaken := fun ht => by
      by_cases hc : none = c
      · exact absurd (hnone hc.symm).1 ht
      · simpa [setClaim_of_ne hc] using h.untaken ht
    phase := fun d => by
      by_cases hdc : d = c
      · subst hdc
        simpa using hphase
      · simpa [setClaim_of_ne hdc] using h.phase d
    claimed := fun d hd => h.claimed d (hw d hd)
    unique := fun d e hd he => h.unique d e (hw d hd) (hw e he)
    resuming := fun d hd => h.resuming d (hr d hd)
    resume := fun d hd => by
      by_cases hdc : d = c
      · subst hdc
        exact hresume (by simpa using hd)
      · exact h.resume d (by simpa [setClaim_of_ne hdc] using hd)
    clear := fun d hd => by
      by_cases hdc : d = c
      · subst hdc
        exact hclear (by simpa using hd)
      · exact h.clear d (by simpa [setClaim_of_ne hdc] using hd) }

/-- The timer calls a function of the task. -/
lemma Inv.take (h : Inv s) {next : Phase} (hpc : s.task = .pending) (hnext : next ≠ .ePending) :
    Inv { s.setClaim none (.cas next) with task := .taken } := by
  have hw : ∀ d, ((s.setClaim none (.cas next)).claims d).winning = true →
      (s.claims d).winning = true := by
    intro d hd
    by_cases hdn : d = none
    · rw [hdn, setClaim_self] at hd
      cases hd
    · rwa [setClaim_of_ne hdn] at hd
  have hkeep : ∀ d pc, pc ≠ .cas next → (s.setClaim none (.cas next)).claims d = pc →
      s.claims d = pc := by
    intro d pc hpc hd
    by_cases hdn : d = none
    · rw [hdn, setClaim_self] at hd
      exact absurd hd.symm hpc
    · rwa [setClaim_of_ne hdn] at hd
  have hsuspend : s.suspend = .returned := by
    by_contra hs
    rw [h.task.mpr hs] at hpc
    cases hpc
  exact { h with
    task := by simp [State.setClaim, hsuspend]
    taken := fun _ => Or.inl ⟨next, by simp⟩
    untaken := by simp
    phase := fun d hd => h.phase d (hkeep d _ (by simpa using hnext.symm) hd)
    claimed := fun d hd => h.claimed d (hw d hd)
    unique := fun d e hd he => h.unique d e (hw d hd) (hw e he)
    resuming := fun d hd => by
      by_cases hdn : d = none
      · simp [hdn, ClaimPc.resuming] at hd
      · exact h.resuming d (by rwa [← setClaim_of_ne (p := .cas next) hdn])
    resume := fun d hd => h.resume d (hkeep d _ (by simp) hd)
    clear := fun d hd => h.clear d (hkeep d _ (by simp) hd) }

/-- A call claims `state`. -/
lemma Inv.claim (h : Inv s) {next : Phase} (hpc : s.claims c = .cas next)
    (hstate : s.mCb.state = .ePending) :
    Inv { s.setClaim c .testWaiter with mCb := { s.mCb with state := next } } := by
  have hnext : next ≠ .ePending := by
    rintro rfl
    exact h.phase c hpc
  have hno : ∀ d, (s.claims d).winning = false := by
    intro d
    by_contra hd
    exact h.claimed d (by simpa using hd) hstate
  have heq : ∀ d, ((s.setClaim c .testWaiter).claims d).winning = true → d = c := by
    intro d hd
    by_contra hdc
    rw [setClaim_of_ne hdc, hno d] at hd
    cases hd
  exact { h with
    taken := fun _ => Or.inr hnext
    untaken := fun ht => by
      by_cases hc : none = c
      · exact absurd (h.task_taken (by simp [hc, hpc])) ht
      · simpa [setClaim_of_ne hc] using h.untaken ht
    phase := fun d => by
      by_cases hdc : d = c
      · subst hdc
        exact fun hd => by simp at hd
      · exact fun hd => h.phase d (by rwa [setClaim_of_ne hdc] at hd)
    claimed := fun _ _ => hnext
    unique := fun d e hd he => (heq d hd).trans (heq e he).symm
    resuming := fun _ _ hs => h.pending hstate hs
    resume := fun d hd => by
      change (s.setClaim c .testWaiter).claims d = .resume at hd
      obtain rfl := heq d (by rw [hd]; rfl)
      rw [setClaim_self] at hd
      cases hd
    clear := fun d hd => by
      change (s.setClaim c .testWaiter).claims d = .clearWaiter at hd
      obtain rfl := heq d (by rw [hd]; rfl)
      rw [setClaim_self] at hd
      cases hd
    pending := fun hs => absurd hs hnext }

/-- The winner resumes the sleeper. -/
lemma Inv.resumeSleeper (h : Inv s) (hpc : s.claims c = .resume) :
    Inv (s.resume.setClaim c .clearWaiter) := by
  obtain ⟨heq, hsuspended, hstore⟩ := h.of_resume hpc
  have hwinning : (s.claims c).winning = true := by
    rw [hpc]
    rfl
  have hpasses := (h.suspended hsuspended).2
  have hstate := h.claimed c hwinning
  rw [heq]
  have hother : ∀ d, d ≠ c → (s.pass.setClaim c .clearWaiter).claims d = s.claims d :=
    fun d hdc => setClaim_of_ne hdc
  have hw : ∀ d, ((s.pass.setClaim c .clearWaiter).claims d).winning = true → d = c := by
    intro d hd
    by_contra hdc
    rw [hother d hdc] at hd
    exact hdc (h.unique d c hd hwinning)
  exact { h with
    ready := by simp [State.setClaim, State.pass]
    suspended := by simp [State.setClaim, State.pass]
    passed := fun _ => ⟨by simp [State.setClaim, State.pass, hpasses], hstore⟩
    stored := by simp [State.setClaim, State.pass]
    taken := fun _ => Or.inr hstate
    untaken := fun ht => by
      by_cases hc : none = c
      · exact absurd (h.task_taken (by simp [hc, hpc])) ht
      · rw [hother none hc]
        exact h.untaken ht
    phase := fun d => by
      by_cases hdc : d = c
      · subst hdc
        simp
      · rw [hother d hdc]
        exact h.phase d
    claimed := fun _ _ => hstate
    unique := fun d e hd he => (hw d hd).trans (hw e he).symm
    resuming := fun d hd => by
      obtain rfl := hw d (ClaimPc.winning_of_resuming hd)
      rw [setClaim_self] at hd
      cases hd
    resume := fun d hd => by
      obtain rfl := hw d (by rw [hd]; rfl)
      rw [setClaim_self] at hd
      cases hd
    clear := fun _ _ => rfl
    pending := fun hs => absurd hs hstate }

/-- The winner forgets the sleeper. -/
lemma Inv.clearWaiter (h : Inv s) (hpc : s.claims c = .clearWaiter) :
    Inv { s.setClaim c (.returned true) with mCb := { s.mCb with waiter := false } } := by
  have hwinning : (s.claims c).winning = true := by
    rw [hpc]
    rfl
  have hpassed := h.clear c hpc
  have hset : Inv (s.setClaim c (.returned true)) :=
    h.setClaim (by simp) (by simp [ClaimPc.winning]) (by simp [ClaimPc.resuming]) (by simp)
      (by simp) fun hc => ⟨h.task_taken (by simp [← hc, hpc]), h.claimed c hwinning⟩
  exact { hset with
    waiter := by simp
    stored := fun hs => by
      change s.coroutine = .suspended at hs
      rw [hs] at hpassed
      cases hpassed
    resume := fun d hd => by
      by_cases hdc : d = c
      · subst hdc
        simp [State.setClaim] at hd
      · simp only [State.setClaim, Function.update_of_ne hdc] at hd
        exact absurd (h.unique d c (by rw [hd]; rfl) hwinning) hdc }

/-! ### What the steps do -/

inductive Move {Time : Type*} (s : State K) : Action Time K → State K → Prop
  | pass {now} (hpc : s.coroutine = .ready) : Move s (.awaitReady now) s.pass
  | suspend {now} (hpc : s.coroutine = .ready) (hstate : s.mCb.state = .ePending) :
      Move s (.awaitReady now) { s with coroutine := .suspended, suspend := .storeWaiter }
  | storeWaiter (hpc : s.suspend = .storeWaiter) : Move s .awaitSuspend
      { s with mCb := { s.mCb with waiter := true }, suspend := .addTask }
  | addTask (hpc : s.suspend = .addTask) :
      Move s .awaitSuspend { s with task := .pending, suspend := .returned }
  | awaitResume (hpc : s.coroutine = .awaitResume) (consumed : Bool) :
      Move s .awaitResume { s with coroutine := .continued consumed }
  | cancel {k canceled} (hpc : s.claims (some k) = .returned canceled) :
      Move s (.cancel k) (s.setClaim (some k) (.cas .eCanceled))
  | fire {now} (hpc : s.task = .pending) :
      Move s (.fire now) { s.setClaim none (.cas .eConsumed) with task := .taken }
  | cancelTask (hpc : s.task = .pending) :
      Move s .cancelTask { s.setClaim none (.cas .eCanceled) with task := .taken }
  | claim {d next} (hpc : s.claims d = .cas next) (hstate : s.mCb.state = .ePending) :
      Move s (.claim d) { s.setClaim d .testWaiter with mCb := { s.mCb with state := next } }
  | lose {d next} (hpc : s.claims d = .cas next) (hstate : s.mCb.state ≠ .ePending) :
      Move s (.claim d) (s.setClaim d (.returned false))
  | found {d} (hpc : s.claims d = .testWaiter) (hwaiter : s.mCb.waiter = true) :
      Move s (.claim d) (s.setClaim d .resume)
  | missed {d} (hpc : s.claims d = .testWaiter) (hwaiter : s.mCb.waiter = false) :
      Move s (.claim d) (s.setClaim d (.returned true))
  | resume {d} (hpc : s.claims d = .resume) :
      Move s (.claim d) (s.resume.setClaim d .clearWaiter)
  | clearWaiter {d} (hpc : s.claims d = .clearWaiter) : Move s (.claim d)
      { s.setClaim d (.returned true) with mCb := { s.mCb with waiter := false } }

lemma take_iff {next : Phase} : take s next = some s' ↔
    s.task = .pending ∧ { s.setClaim none (.cas next) with task := .taken } = s' := by
  cases hpc : s.task <;> simp [take, hpc]

lemma claimStep_move {Time : Type*} (hs : claimStep s c = some s') :
    Move s (Action.claim c : Action Time K) s' := by
  unfold claimStep at hs
  split at hs <;> cases hs
  case h_1.refl next hpc =>
    split
    · rename_i hstate
      exact .claim hpc hstate
    · rename_i hstate
      exact .lose hpc hstate
  case h_2.refl hpc =>
    cases hwaiter : s.mCb.waiter with
    | true => exact .found hpc hwaiter
    | false => exact .missed hpc hwaiter
  case h_3.refl hpc => exact .resume hpc
  case h_4.refl hpc => exact .clearWaiter hpc

variable {Time : Type*} {a : Action Time K}

lemma Inv.move (h : Inv s) (hm : Move s a s') : Inv s' := by
  cases hm with
  | pass hpc => exact h.pass hpc
  | suspend hpc _ => exact h.suspend hpc
  | storeWaiter hpc => exact h.storeWaiter hpc
  | addTask hpc => exact h.addTask hpc
  | awaitResume hpc consumed => exact h.awaitResume hpc consumed
  | cancel hpc =>
    exact h.setClaim (by simp) (by simp [ClaimPc.winning]) (by simp [ClaimPc.resuming]) (by simp)
      (by simp) (by simp)
  | fire hpc | cancelTask hpc => exact h.take hpc (by simp)
  | claim hpc hstate => exact h.claim hpc hstate
  | lose hpc hstate =>
    exact h.setClaim (by simp) (by simp [ClaimPc.winning]) (by simp [ClaimPc.resuming]) (by simp)
      (by simp) fun hd => ⟨h.task_taken (by simp [← hd, hpc]), hstate⟩
  | found hpc hwaiter =>
    exact h.setClaim (by simp) (by simp [hpc, ClaimPc.winning]) (by simp [hpc, ClaimPc.resuming])
      (fun _ => hwaiter) (by simp)
      fun hd => ⟨h.task_taken (by simp [← hd, hpc]), h.claimed _ (by rw [hpc]; rfl)⟩
  | missed hpc _ =>
    exact h.setClaim (by simp) (by simp [ClaimPc.winning]) (by simp [ClaimPc.resuming]) (by simp)
      (by simp) fun hd => ⟨h.task_taken (by simp [← hd, hpc]), h.claimed _ (by rw [hpc]; rfl)⟩
  | resume hpc => exact h.resumeSleeper hpc
  | clearWaiter hpc => exact h.clearWaiter hpc

/-! ### The lost wake-up -/

/-- A call other than the winner's, or the winner before its test, keeps the sleeper met. -/
lemma State.Met.setClaim (h : s.Met) {pc : ClaimPc}
    (hresuming : (s.claims c).resuming = true → pc.resuming = true) : (s.setClaim c pc).Met := by
  intro hsuspended
  rcases h hsuspended with hstate | ⟨d, hd⟩
  · exact Or.inl hstate
  · refine Or.inr ⟨d, ?_⟩
    by_cases hdc : d = c
    · subst hdc
      simpa using hresuming hd
    · simpa [setClaim_of_ne hdc] using hd

lemma State.Met.move (h : s.Met) (hinv : Inv s) (ha : Timely s a) (hm : Move s a s') : s'.Met := by
  cases hm with
  | pass | awaitResume => rintro ⟨⟩
  | suspend _ hstate => exact fun _ => Or.inl hstate
  | storeWaiter | addTask => exact h
  | cancel hpc => exact h.setClaim (by simp [hpc, ClaimPc.resuming])
  | fire hpc | cancelTask hpc =>
    obtain ⟨canceled, hr⟩ := hinv.untaken (by simp [hpc])
    exact State.Met.setClaim h (by simp [hr, ClaimPc.resuming])
  | @claim d =>
    exact fun _ => Or.inr ⟨d, by simp [State.setClaim, ClaimPc.resuming]⟩
  | lose hpc _ => exact h.setClaim (by simp [hpc, ClaimPc.resuming])
  | found hpc _ => exact h.setClaim fun _ => rfl
  | missed hpc hwaiter =>
    intro hsuspended
    have hstore : s.suspend = .storeWaiter := by
      by_contra hne
      have hw := hinv.stored hsuspended hne
      rw [hwaiter] at hw
      cases hw
    exact absurd ⟨hpc, hstore⟩ ha
  | resume hpc =>
    rw [(hinv.of_resume hpc).1]
    rintro ⟨⟩
  | clearWaiter hpc =>
    intro hsuspended
    have hpassed := hinv.clear _ hpc
    change s.coroutine = .suspended at hsuspended
    rw [hsuspended] at hpassed
    cases hpassed

/-- A call that tests too early is the winner, so nobody resumes the sleeper after it. -/
lemma abandoned_of_not_timely (h : Inv s) (ha : ¬Timely s a) (hm : Move s a s') :
    Abandoned s' := by
  cases a with
  | claim d =>
    obtain ⟨htest, hstore⟩ := not_not.mp ha
    obtain ⟨hsuspended, hwaiter⟩ := h.of_storeWaiter hstore
    have hwinning : (s.claims d).winning = true := by
      rw [htest]
      rfl
    cases hm with
    | missed =>
      refine ⟨hsuspended, h.claimed d hwinning, fun e => ?_⟩
      by_cases hed : e = d
      · simp [hed, State.setClaim, ClaimPc.resuming]
      · simp only [State.setClaim, Function.update_of_ne hed]
        by_contra hc
        have hresuming : (s.claims e).resuming = true := by simpa using hc
        exact hed (h.unique e d (ClaimPc.winning_of_resuming hresuming) hwinning)
    | found _ hw =>
      rw [hwaiter] at hw
      cases hw
    | claim hpc | lose hpc | resume hpc | clearWaiter hpc => simp [htest] at hpc
  | awaitReady | awaitSuspend | awaitResume | cancel | fire | cancelTask =>
    exact absurd trivial ha

lemma Abandoned.setClaim (h : Abandoned s) {pc : ClaimPc} (hpc : pc.resuming = false) :
    Abandoned (s.setClaim c pc) := by
  refine ⟨h.suspended, h.claimed, fun d => ?_⟩
  by_cases hdc : d = c
  · subst hdc
    simpa using hpc
  · simpa [setClaim_of_ne hdc] using h.resuming d

lemma Abandoned.move (h : Abandoned s) (hinv : Inv s) (hm : Move s a s') : Abandoned s' := by
  have hsuspended := h.suspended
  cases hm with
  | pass hpc | suspend hpc | awaitResume hpc => simp [hsuspended] at hpc
  | storeWaiter | addTask => exact ⟨h.suspended, h.claimed, h.resuming⟩
  | cancel => exact h.setClaim rfl
  | fire =>
    have hset : Abandoned (s.setClaim none (.cas .eConsumed)) := h.setClaim rfl
    exact ⟨hset.suspended, hset.claimed, hset.resuming⟩
  | cancelTask =>
    have hset : Abandoned (s.setClaim none (.cas .eCanceled)) := h.setClaim rfl
    exact ⟨hset.suspended, hset.claimed, hset.resuming⟩
  | claim _ hstate => exact absurd hstate h.claimed
  | lose => exact h.setClaim rfl
  | @found d hpc | @missed d hpc | @resume d hpc =>
    have hno := h.resuming d
    simp [hpc, ClaimPc.resuming] at hno
  | @clearWaiter d hpc =>
    have hpassed := hinv.clear d hpc
    rw [hsuspended] at hpassed
    cases hpassed

/-! ### The sleeper goes on -/

def CoroutinePc.weight : CoroutinePc → ℕ
  | .ready => 5
  | .suspended => 2
  | .awaitResume => 1
  | .continued _ => 0

def SuspendPc.weight : SuspendPc → ℕ
  | .storeWaiter => 2
  | .addTask => 1
  | .idle | .returned => 0

def TaskPc.weight : TaskPc → ℕ
  | .unregistered | .pending => 5
  | .taken => 0

def ClaimPc.weight : ClaimPc → ℕ
  | .cas _ => 4
  | .testWaiter => 3
  | .resume => 2
  | .clearWaiter => 1
  | .returned _ => 0

/-- A bound on the steps left but new calls of `cancel`. -/
def State.left [Fintype K] (s : State K) : ℕ :=
  s.coroutine.weight + s.suspend.weight + s.task.weight + ∑ c, (s.claims c).weight

lemma left_setClaim [Fintype K] (s : State K) (c : Option K) (pc : ClaimPc) :
    (s.setClaim c pc).left + (s.claims c).weight = s.left + pc.weight := by
  have hsum := sum_update ClaimPc.weight s.claims c pc
  simp only [State.left, State.setClaim]
  omega

lemma left_take [Fintype K] {next : Phase} (hpc : s.task = .pending) :
    State.left { s.setClaim none (.cas next) with task := .taken } < s.left := by
  have hsum := sum_update ClaimPc.weight s.claims none (.cas next)
  simp only [State.left, State.setClaim, hpc, TaskPc.weight, ClaimPc.weight] at hsum ⊢
  omega

lemma left_lt [Fintype K] (h : Inv s) (ha : Bound s a) (hm : Move s a s') : s'.left < s.left := by
  cases hm with
  | pass hpc | suspend hpc _ =>
    have hidle := (h.ready hpc).1
    simp only [State.left, State.pass, hpc, hidle, CoroutinePc.weight, SuspendPc.weight]
    omega
  | storeWaiter hpc =>
    simp only [State.left, hpc, SuspendPc.weight]
    omega
  | addTask hpc =>
    have htask := h.task.mpr (by simp [hpc])
    simp only [State.left, hpc, htask, SuspendPc.weight, TaskPc.weight]
    omega
  | awaitResume hpc =>
    simp only [State.left, hpc, CoroutinePc.weight]
    omega
  | @cancel k => exact absurd rfl (ha.2 k)
  | fire hpc => exact left_take hpc
  | cancelTask hpc => exact left_take hpc
  | @claim d next hpc _ =>
    have hsum := left_setClaim s d .testWaiter
    simp only [hpc, ClaimPc.weight] at hsum
    change (s.setClaim d .testWaiter).left < s.left
    omega
  | @lose d next hpc _ =>
    have hsum := left_setClaim s d (.returned false)
    simp only [hpc, ClaimPc.weight] at hsum
    omega
  | @found d hpc _ =>
    have hsum := left_setClaim s d .resume
    simp only [hpc, ClaimPc.weight] at hsum
    omega
  | @missed d hpc _ =>
    have hsum := left_setClaim s d (.returned true)
    simp only [hpc, ClaimPc.weight] at hsum
    omega
  | @resume d hpc =>
    obtain ⟨heq, hsuspended, -⟩ := h.of_resume hpc
    have hsum := left_setClaim s.pass d .clearWaiter
    have hpass : s.pass.left < s.left := by
      simp only [State.left, State.pass, hsuspended, CoroutinePc.weight]
      omega
    have hclaims : s.pass.claims d = .resume := hpc
    simp only [hclaims, ClaimPc.weight] at hsum
    rw [heq]
    omega
  | @clearWaiter d hpc =>
    have hsum := left_setClaim s d (.returned true)
    simp only [hpc, ClaimPc.weight] at hsum
    change (s.setClaim d (.returned true)).left < s.left
    omega

end claims

section runs
variable {Time K : Type*} [LinearOrder Time] [DecidableEq K] {wakeTime : Time} {s s' : State K}
  {a : Action Time K}

lemma step_move (hs : step wakeTime s a = some s') : Move s a s' := by
  cases a with
  | awaitReady now =>
    simp only [step, awaitReady] at hs
    split at hs
    · rename_i hpc
      split at hs <;> cases hs
      · exact .pass hpc
      · rename_i hnot
        exact .suspend hpc (not_not.mp (not_or.mp hnot).2)
    · cases hs
  | awaitSuspend =>
    simp only [step, awaitSuspend] at hs
    split at hs <;> cases hs <;> rename_i hpc
    · exact .storeWaiter hpc
    · exact .addTask hpc
  | awaitResume =>
    simp only [step, awaitResume] at hs
    split at hs <;> cases hs
    rename_i hpc
    exact .awaitResume hpc _
  | cancel k =>
    simp only [step, cancel] at hs
    split at hs <;> cases hs
    rename_i hpc
    exact .cancel hpc
  | fire now =>
    simp only [step] at hs
    split at hs
    · obtain ⟨hpc, rfl⟩ := take_iff.mp hs
      exact .fire hpc
    · cases hs
  | cancelTask =>
    obtain ⟨hpc, rfl⟩ := take_iff.mp hs
    exact .cancelTask hpc
  | claim c => exact claimStep_move hs

theorem reaches_inv {C : State K → Action Time K → Prop}
    (h : (system K wakeTime).Reaches C s) : Inv s :=
  h.invariant inv_init fun _ _ _ _ hinv _ hs => hinv.move (step_move hs)

theorem reaches_met (h : (system K wakeTime).Reaches Timely s) : s.Met :=
  h.invariant (by rintro ⟨⟩) fun _ _ _ run hmet ha hs =>
    hmet.move (reaches_inv run) ha (step_move hs)

/-- The sleeper never goes on, whatever comes. -/
def State.Stranded (wakeTime : Time) (s : State K) : Prop :=
  ∀ as t, (system K wakeTime).exec (fun _ _ => True) s as = some t → t.passes = 0

lemma Abandoned.stranded (h : Abandoned s) (hinv : Inv s) : s.Stranded wakeTime := by
  intro as t ht
  obtain ⟨hinv', habandoned⟩ := System.exec_invariant (S := system K wakeTime)
    (I := fun s => Inv s ∧ Abandoned s)
    (fun _ _ _ hu _ hs => ⟨hu.1.move (step_move hs), hu.2.move hu.1 (step_move hs)⟩)
    ⟨hinv, h⟩ ht
  exact (hinv'.suspended habandoned.suspended).2

/-- Something can be done until the sleeper goes on. -/
lemma exists_step (h : Inv s) (hmet : s.Met) (hpasses : s.passes ≠ 1) :
    ∃ a s', Bound s a ∧ step wakeTime s a = some s' := by
  cases hc : s.coroutine with
  | ready =>
    refine ⟨.awaitReady wakeTime, s.pass, ⟨trivial, by simp⟩, ?_⟩
    simp [step, awaitReady, hc]
  | awaitResume | continued => exact absurd (h.passed (by rw [hc]; rfl)).1 hpasses
  | suspended =>
    cases hsuspend : s.suspend with
    | idle => exact absurd hsuspend (h.suspended hc).1
    | storeWaiter | addTask =>
      exact ⟨.awaitSuspend, _, ⟨trivial, by simp⟩, by simp only [step, awaitSuspend, hsuspend]; rfl⟩
    | returned =>
      by_cases hreturned : ∀ c, ∃ canceled, s.claims c = .returned canceled
      · cases htask : s.task with
        | unregistered => exact absurd hsuspend (h.task.mp htask)
        | pending =>
          exact ⟨.cancelTask, _, ⟨trivial, by simp⟩, take_iff.mpr ⟨htask, rfl⟩⟩
        | taken => exact absurd ⟨htask, hreturned, hsuspend, hc⟩ (h.not_lost hmet)
      · obtain ⟨c, hnot⟩ := not_forall.mp hreturned
        have hbound : Bound s (.claim c : Action Time K) :=
          ⟨fun ht => by simp [hsuspend] at ht, by simp⟩
        cases hpc : s.claims c with
        | returned canceled => exact absurd ⟨canceled, hpc⟩ hnot
        | cas | testWaiter | resume | clearWaiter =>
          exact ⟨.claim c, _, hbound, by simp only [step, claimStep, hpc]; rfl⟩

/-- If no call of `cancel` tests `waiter` between `await_ready` and the store of `await_suspend`,
the sleeper goes on exactly once, whatever the order of the steps, and is not lost. Such a test is
just what strands it. -/
theorem cancelable_sleep_iff [Fintype K] (h : (system K wakeTime).Reaches Timely s) :
    ¬s.Lost ∧ s.passes ≤ 1 ∧ s.fault = false ∧
      (system K wakeTime).Leads Bound (fun _ _ => True) (fun s => s.passes = 1) s ∧
      ∀ a s', step wakeTime s a = some s' → (s'.Stranded wakeTime ↔ ¬Timely s a) := by
  have hleads : ∀ s, (system K wakeTime).Reaches Timely s →
      (system K wakeTime).Leads Bound (fun _ _ => True) (fun s => s.passes = 1) s := by
    intro s hs
    apply System.leads_of_measure (I := fun s => Inv s ∧ s.Met) State.left
    · rintro s ⟨hinv, hmet⟩ hpasses
      exact exists_step hinv hmet hpasses
    · rintro s a s' ⟨hinv, hmet⟩ - ha - hs
      exact ⟨⟨hinv.move (step_move hs), hmet.move hinv ha.1 (step_move hs)⟩,
        left_lt hinv ha (step_move hs)⟩
    · exact ⟨reaches_inv hs, reaches_met hs⟩
  have hinv := reaches_inv h
  refine ⟨hinv.not_lost (reaches_met h), hinv.passes_le, hinv.fault, hleads s h,
    fun a s' hs => ⟨fun hstranded ha => ?_, fun ha => ?_⟩⟩
  · obtain ⟨as, t, ht, hpasses⟩ := (hleads s' (h.step ha hs)).exists_exec
    rw [hstranded as t ht] at hpasses
    cases hpasses
  · exact (abandoned_of_not_timely hinv ha (step_move hs)).stranded (hinv.move (step_move hs))

end runs

/-- A call of `cancel` comes between `await_ready` and the store of the waiter. -/
theorem cancelable_sleep_strands :
    ∃ s : State (Fin 1), (system (Fin 1) (5 : ℕ)).Reachable s ∧ s.Lost :=
  System.exists_reaches (S := system (Fin 1) (5 : ℕ)) (fun _ _ => True)
    (fun s => s.task = .taken ∧ (∀ c, ∃ canceled, s.claims c = .returned canceled) ∧
      s.suspend = .returned ∧ s.coroutine = .suspended)
    [.awaitReady 3, .cancel 0, .claim (some 0), .claim (some 0), .awaitSuspend, .awaitSuspend,
      .fire 5, .claim none] (by decide)

/-- A call of `cancel` claims `state` before the store of the waiter, and tests after it. -/
theorem cancelable_sleep_wakes : ∃ s : State (Fin 1), s.coroutine = .continued false ∧
    s.task = .taken ∧ s.passes ≤ 1 ∧ ¬s.Lost := by
  obtain ⟨s, hs, hc, htask⟩ := System.exists_reaches (S := system (Fin 1) (5 : ℕ)) Timely
    (fun s => s.coroutine = .continued false ∧ s.task = .taken)
    [.awaitReady 3, .cancel 0, .claim (some 0), .awaitSuspend, .claim (some 0), .claim (some 0),
      .awaitResume, .awaitSuspend, .fire 5, .claim none, .claim (some 0)] (by decide)
  have hwakes := cancelable_sleep_iff hs
  exact ⟨s, hc, htask, hwakes.2.1, hwakes.1⟩

end Scoro.CancelableSleep

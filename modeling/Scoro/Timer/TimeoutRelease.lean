import Scoro.Timer.TimeoutLifetime

/-!
# What `with_timeout` releases

The `TimeoutAwaitableState` has up to three holders: the awaiter, the frame of the inner coroutine
and a `shared_ptr` on the heap, which is the argument of the timer's task. The last of them destroys
it, and with it the value in `buf` if `state` says that there is one. The frame of the inner
coroutine has no owner: it is destroyed at its end and never otherwise. The caller may be destroyed
when it is over or suspended, and the awaiter with it.
-/

namespace Scoro.Timeout
open Scoro.Lib System

section books
variable {Time V E : Type*}

def State.resumesCaller (s : State V E) : Action Time V E → Bool
  | .inner => match s.inner with
    | .resume => true
    | _ => false
  | .task => s.task = .resume
  | _ => false

/-- How the awaiter is used if a suspended caller can be destroyed as well: the caller must not be
resumed then. -/
def frameUsage (Time V E : Type*) : Usage (State V E) (Action Time V E) where
  left s := match s.coroutine with
    | .suspended | .continued _ => true
    | .ready | .awaitResume => false
  owner := (usage Time V E).owner
  uses s a := (usage Time V E).uses s a || s.resumesCaller a

/-- How many values were constructed in `buf` and destroyed, and how many pointers to the shared
state were created on the heap and deleted. -/
structure Books where
  constructed : ℕ
  destroyed : ℕ
  created : ℕ
  deleted : ℕ
  deriving DecidableEq

/-- The frame of the inner coroutine exists. -/
def InnerPc.framed : InnerPc V E → Bool
  | .completed => false
  | _ => true

/-- The inner coroutine has a value to place in `buf`. -/
def InnerPc.hasValue : InnerPc V E → Bool
  | .construct _ => true
  | _ => false

/-- The pointer on the heap exists. -/
def TaskPc.holds : TaskPc → Bool
  | .unregistered | .returned => false
  | _ => true

/-- Somebody has a pointer to the shared state. -/
def held (s : Temporary (State V E)) : Bool :=
  s.alive || s.state.inner.framed || s.state.task.holds

/-- `~TimeoutAwaitableState` finds a value in `buf`. -/
def Shared.destroysValue (isVoid : Bool) (p : Shared V E) : Bool := p.state = .eValid && !isVoid

/-- The inner coroutine has left its `construct`, and not by an exception. -/
def placed (s t : State V E) : Bool :=
  match s.inner, t.inner with
  | .construct _, .cas _ => true
  | _, _ => false

/-- What the step from `s` to `t` adds. -/
def Books.after (isVoid : Bool) (n : Books) (s t : Temporary (State V E)) : Books where
  constructed := n.constructed + (placed s.state t.state && !isVoid).toNat
  destroyed := n.destroyed + (held s && !held t && t.state.shared.destroysValue isVoid).toNat
  created := n.created + (s.state.task = .unregistered && t.state.task.holds).toNat
  deleted := n.deleted + (s.state.task.holds && t.state.task = .returned).toNat

variable [LinearOrder Time]

/-- The system with the awaiter, and the books. For `void` there is no `buf`. -/
def ownership (V E : Type*) (isVoid : Bool) (timeout : Time) :
    System (Noted (Temporary (State V E)) Books) (TemporaryAction (Action Time V E)) :=
  ((system V E timeout).temporary (frameUsage Time V E)).observe
    (fun s a n => (((system V E timeout).temporary (frameUsage Time V E)).step s a).elim n
      (n.after isVoid s)) ⟨0, 0, 0, 0⟩

/-- The awaiter is gone, and the calls, the inner coroutine and the task of the timer are over or
have never started. -/
def Over (s : Temporary (State V E)) : Prop :=
  s.alive = false ∧ (s.state.suspend = .idle ∨ s.state.suspend = .returned) ∧
    (s.state.inner = .initial ∨ s.state.inner = .completed) ∧
    (s.state.task = .unregistered ∨ s.state.task = .returned)

/-- Every value was destroyed once, the pointer on the heap was deleted once, and the frame of the
inner coroutine is gone. -/
structure Released (s : Noted (Temporary (State V E)) Books) : Prop where
  constructed : s.notes.constructed ≤ 1
  destroyed : s.notes.destroyed = s.notes.constructed
  created : s.notes.created ≤ 1
  deleted : s.notes.deleted = s.notes.created
  frame : s.state.state.inner = .completed

/-- `await_ready` finds the timeout in the future, no value is placed when the timeout has won, the
timeout does not win between a placed value and the CAS of the inner coroutine, and the awaiter
outlives the accesses of `await_suspend` and the suspension of the caller. -/
def Clean (isVoid : Bool) (timeout : Time) (s : Temporary (State V E)) :
    TemporaryAction (Action Time V E) → Prop
  | .step (.awaitReady now) => now < timeout
  | .step .inner => s.state.inner.hasValue = true →
      isVoid = true ∨ s.state.shared.state ≠ .eTimeout
  | .step .task => s.state.task = .cas → s.state.shared.state = .ePending →
      isVoid = true ∨ s.state.inner ≠ .cas .eValid
  | .destroy => s.state.coroutine ≠ .suspended ∧ s.state.accessAhead = false
  | .step _ => True

instance [DecidableEq V] [DecidableEq E] (isVoid : Bool) (timeout : Time)
    (s : Temporary (State V E)) :
    (a : TemporaryAction (Action Time V E)) → Decidable (Clean isVoid timeout s a)
  | .step (.awaitReady now) => inferInstanceAs (Decidable (now < timeout))
  | .step .inner => inferInstanceAs (Decidable (_ → _))
  | .step .task => inferInstanceAs (Decidable (_ → _ → _))
  | .destroy => inferInstanceAs (Decidable (_ ∧ _))
  | .step .awaitSuspend | .step .awaitResume | .step (.endAwait _) | .step (.moveThrows _)
  | .step .fire | .step .cancel => .isTrue trivial

end books

/-! ### The books -/

section accounts
variable {Time V E : Type*} [LinearOrder Time] {timeout : Time} {s t : State V E}
  {a : Action Time V E}

/-- `await_suspend` has resumed the inner coroutine. -/
def SuspendPc.started : SuspendPc → Bool
  | .resuming | .addTask | .returned => true
  | .idle | .setCaller | .resumeInner => false

/-- The `try` block of the inner coroutine has not ended. -/
def InnerPc.trying : InnerPc V E → Bool
  | .initial | .awaiting | .construct _ | .handler _ => true
  | .cas _ | .resume | .resuming | .completed => false

/-- A value was placed in `buf`. -/
def State.valued (s : State V E) : Bool :=
  match s.outcome with
  | some (.ok _) => true
  | _ => false

/-- What has been started, and when the outcome is there. -/
structure Begun (s : State V E) : Prop where
  inner : s.suspend.started = true → s.inner ≠ .initial
  task : s.suspend = .returned → s.task ≠ .unregistered
  outcome : s.inner.trying = true → s.outcome = none

lemma begun_init : Begun (init V E) := by
  constructor <;> simp [init, SuspendPc.started]

/-- A step that leaves `await_suspend` alone. -/
lemma Begun.frame (h : Begun s) (hsuspend : t.suspend = s.suspend)
    (hinner : t.inner = .initial → s.inner = .initial)
    (htask : t.task = .unregistered → s.task = .unregistered)
    (houtcome : t.inner.trying = true → s.inner.trying = true ∧ t.outcome = s.outcome) :
    Begun t := by
  refine ⟨fun hs hinit => ?_, fun hs hunreg => ?_, fun htry => ?_⟩
  · rw [hsuspend] at hs
    exact h.inner hs (hinner hinit)
  · rw [hsuspend] at hs
    exact h.task hs (htask hunreg)
  · obtain ⟨hold, heq⟩ := houtcome htry
    rw [heq]
    exact h.outcome hold

lemma Begun.move (h : Begun s) (hplaced : Placed s) (hm : ActionMove timeout s a t) : Begun t := by
  cases hm with
  | expired | continued | unreachable => exact h.frame rfl id id fun htry => ⟨htry, rfl⟩
  | suspend hpc =>
    exact ⟨by simp [SuspendPc.started], by simp, h.outcome⟩
  | setCaller hpc => exact ⟨by simp [SuspendPc.started], by simp, h.outcome⟩
  | resumeInner hpc =>
    have hinit := hplaced.inner (Or.inr (Or.inr hpc))
    exact ⟨by simp, by simp, fun _ => h.outcome (by rw [hinit]; rfl)⟩
  | resumed hpc _ => exact ⟨fun _ => h.inner (by rw [hpc]; rfl), by simp, h.outcome⟩
  | addTask hpc => exact ⟨fun _ => h.inner (by rw [hpc]; rfl), by simp, h.outcome⟩
  | produced hpc | threw hpc | moveThrows hpc =>
    exact h.frame rfl (by simp) id fun _ => ⟨by rw [hpc]; rfl, rfl⟩
  | construct | handler | claim | lose | complete =>
    exact h.frame rfl (by simp) id (by simp [InnerPc.trying])
  | resume => exact h.frame s.resume_suspend (by simp) (by simp) (by simp [InnerPc.trying])
  | fire | cancel | claimTask | loseTask | resumedTask | delete =>
    exact h.frame rfl id (by simp) fun htry => ⟨htry, rfl⟩
  | resumeTask =>
    exact h.frame s.resume_suspend (by simp) (by simp) (by simp)

/-- A value is placed once. -/
lemma Begun.placed_step (h : Begun s) (hm : ActionMove timeout s a t) :
    placed s t = true ∧ s.valued = false ∧ t.valued = true ∨
      placed s t = false ∧ t.valued = s.valued := by
  cases hm with
  | construct hpc =>
    have hnone := h.outcome (by rw [hpc]; rfl)
    exact Or.inl (by simp [placed, State.valued, hpc, hnone])
  | handler hpc =>
    have hnone := h.outcome (by rw [hpc]; rfl)
    exact Or.inr (by simp [placed, State.valued, hpc, hnone])
  | resumeTask =>
    right
    refine ⟨?_, by simp [State.valued]⟩
    cases hpc : s.inner <;> simp [placed, hpc]
  | resume hpc => exact Or.inr (by simp [placed, State.valued, hpc])
  | claim | lose | complete | produced | threw | moveThrows =>
    right
    refine ⟨?_, rfl⟩
    unfold placed
    split <;> simp_all
  | expired | suspend | setCaller | resumeInner | resumed | addTask | continued | unreachable | fire
  | cancel | claimTask | loseTask | resumedTask | delete =>
    right
    refine ⟨?_, rfl⟩
    cases hpc : s.inner <;> simp [placed, State.setState, hpc]

/-- The pointer on the heap is created and deleted with the task. -/
lemma Placed.task_step (h : Placed s) (hm : ActionMove timeout s a t) :
    t.task = s.task ∨ s.task = .unregistered ∧ t.task = .pending ∨
      s.task.holds = true ∧ t.task ≠ .unregistered := by
  cases hm with
  | addTask hpc => exact Or.inr (Or.inl ⟨h.unregistered (by simp [hpc]), rfl⟩)
  | fire hpc | cancel hpc | claimTask hpc | loseTask hpc | resumeTask hpc | resumedTask hpc
  | delete hpc =>
    exact Or.inr (Or.inr ⟨by rw [hpc]; rfl, by simp⟩)
  | resume => exact Or.inl s.resume_task
  | expired | suspend | setCaller | resumeInner | resumed | continued | unreachable | produced
  | threw | moveThrows | construct | handler | claim | lose | complete => exact Or.inl rfl

/-- What the books say about the value and the pointer. -/
structure Accounts (isVoid : Bool) (s : State V E) (n : Books) : Prop where
  constructed : n.constructed = (s.valued && !isVoid).toNat
  created : n.created = (decide (s.task ≠ .unregistered)).toNat
  deleted : n.deleted = (decide (s.task = .returned)).toNat

/-- A step that is none of the system. -/
lemma Accounts.still {isVoid : Bool} {n : Books} {s t : Temporary (State V E)}
    (h : Accounts isVoid s.state n) (hsame : t.state = s.state) :
    Accounts isVoid t.state (n.after isVoid s t) := by
  have hplaced : placed s.state s.state = false := by
    cases hpc : s.state.inner <;> simp [placed, hpc]
  rw [hsame]
  refine ⟨?_, ?_, ?_⟩
  · simp [Books.after, h.constructed, hsame, hplaced]
  all_goals cases htask : s.state.task <;>
    simp [Books.after, h.created, h.deleted, hsame, htask, TaskPc.holds]

lemma Accounts.after {isVoid : Bool} {n : Books} {s t : Temporary (State V E)}
    (h : Accounts isVoid s.state n) (hbegun : Begun s.state) (hplaced : Placed s.state)
    (hm : ActionMove timeout s.state a t.state) : Accounts isVoid t.state (n.after isVoid s t) := by
  refine ⟨?_, ?_, ?_⟩
  · simp only [Books.after, h.constructed]
    rcases hbegun.placed_step hm with ⟨hnew, hs, ht⟩ | ⟨hnew, hsame⟩
    · simp [hnew, hs, ht]
    · simp [hnew, hsame]
  all_goals
    simp only [Books.after, h.created, h.deleted]
    rcases hplaced.task_step hm with hsame | ⟨hs, ht⟩ | ⟨hs, ht⟩
    · cases htask : s.state.task <;> simp [hsame, htask, TaskPc.holds]
    · simp [hs, ht, TaskPc.holds]
    · cases htask : s.state.task <;> cases htask' : t.state.task <;>
        simp_all [TaskPc.holds]

end accounts

/-! ### Runs -/

section run
variable {Time V E : Type*} [LinearOrder Time] {timeout : Time} {isVoid : Bool}
  {s t : Noted (Temporary (State V E)) Books} {a : TemporaryAction (Action Time V E)}

lemma ownership_step (hs : (ownership V E isVoid timeout).step s a = some t) :
    ((system V E timeout).temporary (frameUsage Time V E)).step s.state a = some t.state ∧
      t.notes = s.notes.after isVoid s.state t.state := by
  obtain ⟨hs, hnotes⟩ := observe_step.mp hs
  rw [hs] at hnotes
  exact ⟨hs, hnotes⟩

/-- What holds in every run. -/
structure Inv (isVoid : Bool) (s : Noted (Temporary (State V E)) Books) : Prop where
  placed : Placed s.state.state
  recorded : Recorded s.state.state
  begun : Begun s.state.state
  accounts : Accounts isVoid s.state.state s.notes

lemma Inv.step (h : Inv isVoid s) (hs : (ownership V E isVoid timeout).step s a = some t) :
    Inv isVoid t := by
  obtain ⟨hs, hnotes⟩ := ownership_step hs
  cases a with
  | step a =>
    have hm := step_actionMove (temporary_step hs).1
    refine ⟨h.placed.move h.recorded hm.move, h.recorded.move h.placed hm.move,
      h.begun.move h.placed hm, ?_⟩
    rw [hnotes]
    exact h.accounts.after h.begun h.placed hm
  | destroy =>
    obtain ⟨-, -, hstate⟩ := temporary_destroy hs
    have hsame : t.state.state = s.state.state := by rw [hstate]
    refine ⟨?_, ?_, ?_, ?_⟩
    · exact hsame ▸ h.placed
    · exact hsame ▸ h.recorded
    · exact hsame ▸ h.begun
    · rw [hnotes]
      exact h.accounts.still hsame

lemma inv_init : Inv isVoid (ownership V E isVoid timeout).init := by
  refine ⟨placed_init, recorded_init, begun_init, ?_⟩
  constructor <;> simp [ownership, observe, temporary, system, init, State.valued]

/-- A value in `buf` is the one that the CAS of the inner coroutine reports. -/
def Reports (s : State V E) : Prop :=
  s.valued = true →
    s.inner = .cas .eValid ∧ s.shared.state = .ePending ∨ s.shared.state = .eValid

/-- What holds as long as every step is clean: a value that was placed is or will be the one that
`state` tells of, and nothing was destroyed too early. -/
structure Kept (isVoid : Bool) (s : Noted (Temporary (State V E)) Books) : Prop where
  fault : s.state.fault = false
  passed : s.state.state.passed = false
  dead : s.state.alive = false →
    (∃ r, s.state.state.coroutine = .continued r) ∧ s.state.state.suspend = .returned
  reports : isVoid = false → Reports s.state.state
  destroyed : s.notes.destroyed =
    (!held s.state && s.state.state.shared.destroysValue isVoid).toNat

/-- Whoever goes on from the `co_await` was resumed, so that `await_suspend` was called. -/
lemma Inv.suspend_ne_idle (h : Inv isVoid s) (hpassed : s.state.state.passed = false)
    {r : Yield V E} (hr : s.state.state.coroutine = .continued r) :
    s.state.state.suspend ≠ .idle := by
  intro hidle
  have hwinner := (h.placed.idle hidle).2
  have hexplains := h.recorded.continued r hr
  cases r <;> simp [State.Explains, hwinner, hpassed] at hexplains

lemma passed_step {σ τ : State V E} {a : Action Time V E} (h : σ.passed = false)
    (hready : ∀ now, a = .awaitReady now → now < timeout) (hm : ActionMove timeout σ a τ) :
    τ.passed = false := by
  cases hm with
  | expired _ hnow => exact absurd (hready _ rfl) (not_lt.mpr hnow)
  | resume | resumeTask =>
    exact σ.resume_passed.trans h
  | suspend | setCaller | resumeInner | resumed | addTask | continued | unreachable | produced
  | threw | moveThrows | construct | handler | claim | lose | complete | fire | cancel | claimTask
  | loseTask | resumedTask | delete => exact h

/-- When the caller has left, the caller and `await_suspend` do nothing more. -/
lemma left_step {σ τ : State V E} {a : Action Time V E} (hplaced : Placed σ) {r : Yield V E}
    (hr : σ.coroutine = .continued r) (hsuspend : σ.suspend = .returned)
    (hm : ActionMove timeout σ a τ) : τ.coroutine = .continued r ∧ τ.suspend = .returned := by
  obtain ⟨hinner, htask⟩ := hplaced.not_resume (by simp [hr])
  cases hm with
  | expired hpc | suspend hpc | continued hpc | unreachable hpc => simp [hr] at hpc
  | setCaller hpc | resumeInner hpc | resumed hpc | addTask hpc => simp [hsuspend] at hpc
  | resume hpc => exact absurd hpc hinner
  | resumeTask hpc => exact absurd hpc htask
  | produced | threw | moveThrows | construct | handler | claim | lose | complete | fire | cancel
  | claimTask | loseTask | resumedTask | delete => exact ⟨hr, hsuspend⟩

/-- The state is pending for an inner coroutine before its CAS, unless the timeout has won. -/
lemma pending_of_early {s : State V E} (hplaced : Placed s) (hrec : Recorded s)
    (hpassed : s.passed = false) (hearly : s.inner.early = true)
    (hstate : s.shared.state ≠ .eTimeout) : s.shared.state = .ePending := by
  refine hrec.pending.mpr ⟨?_, hpassed⟩
  cases hwinner : s.winner with
  | none => rfl
  | some c =>
    cases c with
    | inner => exact absurd hwinner (hplaced.innerEarly hearly)
    | timer => exact absurd (hrec.timer hwinner) hstate

lemma Reports.step {σ τ : State V E} {a : Action Time V E} (h : Reports σ) (hplaced : Placed σ)
    (hrec : Recorded σ) (hpassed : σ.passed = false)
    (hready : ∀ now, a = .awaitReady now → now < timeout)
    (hinner : a = .inner → σ.inner.hasValue = true → σ.shared.state ≠ .eTimeout)
    (htask : a = .task → σ.task = .cas → σ.shared.state = .ePending → σ.inner ≠ .cas .eValid)
    (hm : ActionMove timeout σ a τ) : Reports τ := by
  intro hvalued
  cases hm with
  | expired _ hnow => exact absurd (hready _ rfl) (not_lt.mpr hnow)
  | construct hpc =>
    have hstate := hinner rfl (by rw [hpc]; rfl)
    have hpending := pending_of_early hplaced hrec hpassed (by rw [hpc]; rfl) hstate
    exact Or.inl ⟨rfl, hpending⟩
  | handler hpc => cases hvalued
  | @claim nextState hpc hstate =>
    rcases h hvalued with ⟨hcas, -⟩ | hvalid
    · rw [hpc] at hcas
      cases hcas
      exact Or.inr rfl
    · simp [hstate] at hvalid
  | lose hpc hstate =>
    rcases h hvalued with ⟨-, hpending⟩ | hvalid
    · exact absurd hpending hstate
    · exact Or.inr hvalid
  | claimTask hpc hstate =>
    rcases h hvalued with ⟨hcas, -⟩ | hvalid
    · exact absurd hcas (htask rfl hpc hstate)
    · simp [hstate] at hvalid
  | resumeInner hpc =>
    have hinit := hplaced.inner (Or.inr (Or.inr hpc))
    exact Or.inr ((h hvalued).resolve_left (by simp [hinit]))
  | produced hpc | threw hpc | moveThrows hpc | complete hpc =>
    exact Or.inr ((h hvalued).resolve_left (by simp [hpc]))
  | resume hpc =>
    have hold : σ.valued = true := by simpa [State.valued] using hvalued
    right
    change σ.resume.shared.state = .eValid
    rw [σ.resume_shared]
    exact (h hold).resolve_left (by simp [hpc])
  | resumeTask hpc =>
    have hold : σ.valued = true := by simpa [State.valued] using hvalued
    change σ.resume.inner = _ ∧ σ.resume.shared.state = _ ∨ σ.resume.shared.state = _
    rw [σ.resume_inner, σ.resume_shared]
    exact h hold
  | suspend | setCaller | resumed | addTask | continued | unreachable | fire | cancel | loseTask
  | resumedTask | delete => exact h hvalued

/-- When nobody holds the shared state nobody does anything. -/
lemma Inv.quiet (h : Inv isVoid s) (hkept : Kept isVoid s) (hheld : held s.state = false)
    {a : Action Time V E} {τ : State V E} : ¬ActionMove timeout s.state.state a τ := by
  simp only [held, Bool.or_eq_false_iff] at hheld
  obtain ⟨⟨hdead, hframe⟩, htask⟩ := hheld
  obtain ⟨⟨r, hr⟩, hsuspend⟩ := hkept.dead hdead
  have hunreg := h.begun.task hsuspend
  intro hm
  cases hm with
  | expired hpc | suspend hpc | continued hpc | unreachable hpc => simp [hr] at hpc
  | setCaller hpc | resumeInner hpc | resumed hpc | addTask hpc => simp [hsuspend] at hpc
  | produced hpc | threw hpc | moveThrows hpc | construct hpc | handler hpc | claim hpc | lose hpc
  | resume hpc | complete hpc =>
    rw [hpc] at hframe
    cases hframe
  | fire hpc | cancel hpc | claimTask hpc | loseTask hpc | resumeTask hpc | resumedTask hpc
  | delete hpc =>
    rw [hpc] at htask
    cases htask

omit [LinearOrder Time] in
/-- A caller that has left is not resumed, and `await_suspend` is over. -/
lemma Inv.uses_dead (h : Inv isVoid s) {r : Yield V E}
    (hr : s.state.state.coroutine = .continued r) (hsuspend : s.state.state.suspend = .returned)
    (a : Action Time V E) : (frameUsage Time V E).uses s.state.state a = false := by
  obtain ⟨hinner, htask⟩ := h.placed.not_resume (by simp [hr])
  cases a with
  | awaitSuspend => simp [frameUsage, usage, State.resumesCaller, hsuspend, SuspendPc.accesses]
  | inner =>
    cases hpc : s.state.state.inner <;> simp [frameUsage, usage, State.resumesCaller, hpc]
    exact hinner hpc
  | task => simp [frameUsage, usage, State.resumesCaller, htask]
  | awaitReady | awaitResume | endAwait | moveThrows | fire | cancel => rfl

lemma destroyed_step (hdestroyed : s.notes.destroyed =
      (!held s.state && s.state.state.shared.destroysValue isVoid).toNat)
    (hheld : held s.state = true) (hnotes : t.notes = s.notes.after isVoid s.state t.state) :
    t.notes.destroyed = (!held t.state && t.state.state.shared.destroysValue isVoid).toNat := by
  rw [hnotes]
  simp [Books.after, hdestroyed, hheld]

lemma Kept.step (h : Kept isVoid s) (hinv : Inv isVoid s) (hC : Clean isVoid timeout s.state a)
    (hs : (ownership V E isVoid timeout).step s a = some t) : Kept isVoid t := by
  obtain ⟨hs, hnotes⟩ := ownership_step hs
  cases a with
  | step a =>
    obtain ⟨hstep, -, halive, hfault⟩ := temporary_step hs
    have hm := step_actionMove hstep
    have hready : ∀ now, a = .awaitReady now → now < timeout := by
      rintro now rfl
      exact hC
    refine ⟨?_, passed_step h.passed hready hm, fun hdead => ?_, fun hvoid => ?_, ?_⟩
    · cases hlive : s.state.alive with
      | true => simp [hfault, h.fault, hlive]
      | false =>
        obtain ⟨⟨r, hr⟩, hsuspend⟩ := h.dead hlive
        simp [hfault, h.fault, hinv.uses_dead hr hsuspend a]
    · obtain ⟨⟨r, hr⟩, hsuspend⟩ := h.dead (halive.symm.trans hdead)
      obtain ⟨hr', hsuspend'⟩ := left_step hinv.placed hr hsuspend hm
      exact ⟨⟨r, hr'⟩, hsuspend'⟩
    · refine (h.reports hvoid).step hinv.placed hinv.recorded h.passed hready ?_ ?_ hm
      · rintro rfl hvalue
        exact (hC hvalue).resolve_left (by simp [hvoid])
      · rintro rfl hcas hpending
        exact (hC hcas hpending).resolve_left (by simp [hvoid])
    · by_cases hheld : held s.state = true
      · exact destroyed_step h.destroyed hheld hnotes
      · exact absurd hm (hinv.quiet h (by simpa using hheld))
  | destroy =>
    obtain ⟨halive, hleft, hstate⟩ := temporary_destroy hs
    have hsame : t.state.state = s.state.state := by rw [hstate]
    refine ⟨?_, hsame ▸ h.passed, fun _ => ?_, hsame ▸ h.reports, ?_⟩
    · rw [hstate]
      exact h.fault
    · rw [hsame]
      obtain ⟨hnot, hahead⟩ := hC
      cases hpc : s.state.state.coroutine with
      | suspended => exact absurd hpc hnot
      | ready | awaitResume => simp [frameUsage, hpc] at hleft
      | continued r =>
        refine ⟨⟨r, rfl⟩, ?_⟩
        have hidle := hinv.suspend_ne_idle h.passed hpc
        cases hsuspend : s.state.state.suspend <;>
          simp_all [State.accessAhead, SuspendPc.accessAhead]
    · exact destroyed_step h.destroyed (by simp [held, halive]) hnotes

lemma reaches_kept
    (h : (ownership V E isVoid timeout).Reaches (fun s a => Clean isVoid timeout s.state a) s) :
    Inv isVoid s ∧ Kept isVoid s := by
  refine h.invariant (I := fun s => Inv isVoid s ∧ Kept isVoid s)
    ⟨inv_init, ?_⟩ ?_
  · constructor <;> simp [ownership, observe, temporary, system, init, held, Reports, State.valued]
  · rintro s a t - ⟨hinv, hkept⟩ hC hs
    exact ⟨hinv.step hs, hkept.step hinv hC hs⟩

/-- A value reported by `state` was placed. -/
lemma Inv.valued_of_valid (h : Inv isVoid s) (hstate : s.state.state.shared.state = .eValid) :
    s.state.state.valued = true := by
  have hpending : s.state.state.shared.state ≠ .ePending := by simp [hstate]
  have hwinner : s.state.state.winner = some .inner := by
    cases hpassed : s.state.state.passed with
    | true => simp [(h.recorded.passed hpassed).1] at hstate
    | false =>
      cases hwinner : s.state.state.winner with
      | none => exact absurd (h.recorded.pending.mpr ⟨hwinner, hpassed⟩) hpending
      | some c =>
        cases c with
        | inner => rfl
        | timer => simp [h.recorded.timer hwinner] at hstate
  obtain ⟨o, ho, htells⟩ := h.recorded.inner hwinner
  cases o with
  | ok v => simp [State.valued, ho]
  | error e => simp [Shared.Tells, hstate] at htells

lemma Kept.released (h : Kept isVoid s) (hinv : Inv isVoid s) (hover : Over s.state) :
    Released s := by
  obtain ⟨hdead, -, hinner, htask⟩ := hover
  obtain ⟨-, hsuspend⟩ := h.dead hdead
  have hcompleted := hinner.resolve_left (hinv.begun.inner (by rw [hsuspend]; rfl))
  have hreturned := htask.resolve_left (hinv.begun.task hsuspend)
  have hheld : held s.state = false := by simp [held, hdead, hcompleted, hreturned, InnerPc.framed,
    TaskPc.holds]
  refine ⟨?_, ?_, ?_, ?_, hcompleted⟩
  · rw [hinv.accounts.constructed]
    exact Bool.toNat_le _
  · rw [hinv.accounts.constructed, h.destroyed, hheld]
    congr 1
    cases isVoid with
    | true => simp [Shared.destroysValue]
    | false =>
      cases hvalued : s.state.state.valued with
      | true =>
        have hvalid := (h.reports rfl hvalued).resolve_left (by simp [hcompleted])
        simp [Shared.destroysValue, hvalid]
      | false =>
        have hvalid : s.state.state.shared.state ≠ .eValid := by
          intro hvalid
          simp [hinv.valued_of_valid hvalid] at hvalued
        simp [Shared.destroysValue, hvalid]
  · rw [hinv.accounts.created]
    exact Bool.toNat_le _
  · simp [hinv.accounts.created, hinv.accounts.deleted, hreturned]

/-! ### What an unclean step leaves -/

/-- The inner coroutine is not resumed any more. -/
def Stranded (s : State V E) : Prop :=
  s.inner = .initial ∧ s.suspend = .idle ∧ s.coroutine ≠ .ready

lemma Stranded.move {σ τ : State V E} {a : Action Time V E} (h : Stranded σ)
    (hm : ActionMove timeout σ a τ) : Stranded τ := by
  obtain ⟨hinner, hsuspend, hready⟩ := h
  cases hm with
  | expired hpc | suspend hpc => exact absurd hpc hready
  | setCaller hpc | resumeInner hpc | resumed hpc | addTask hpc => simp [hsuspend] at hpc
  | produced hpc | threw hpc | moveThrows hpc | construct hpc | handler hpc | claim hpc | lose hpc
  | resume hpc | complete hpc => simp [hinner] at hpc
  | continued => exact ⟨hinner, hsuspend, by simp⟩
  | resumeTask =>
    refine ⟨σ.resume_inner.trans hinner, σ.resume_suspend.trans hsuspend, ?_⟩
    change σ.resume.coroutine ≠ .ready
    unfold State.resume
    split
    · simp
    · exact hready
  | unreachable | fire | cancel | claimTask | loseTask | resumedTask | delete =>
    exact ⟨hinner, hsuspend, hready⟩

/-- The timeout has won, and `buf` has a value. -/
def Leaked (s : Noted (Temporary (State V E)) Books) : Prop :=
  s.state.state.shared.state = .eTimeout ∧ s.state.state.valued = true ∧ s.notes.destroyed = 0

lemma timeout_step {σ τ : State V E} {a : Action Time V E} (h : σ.shared.state = .eTimeout)
    (hm : ActionMove timeout σ a τ) : τ.shared.state = .eTimeout := by
  cases hm with
  | expired => rfl
  | claim _ hstate | claimTask _ hstate => simp [h] at hstate
  | resume | resumeTask =>
    change σ.resume.shared.state = .eTimeout
    rw [σ.resume_shared, h]
  | suspend | setCaller | resumeInner | resumed | addTask | continued | unreachable | produced
  | threw | moveThrows | construct | handler | lose | complete | fire | cancel | loseTask
  | resumedTask | delete => exact h

lemma Leaked.step (h : Leaked s) (hinv : Inv isVoid s)
    (hs : (ownership V E isVoid timeout).step s a = some t) : Leaked t := by
  obtain ⟨hs, hnotes⟩ := ownership_step hs
  obtain ⟨hstate, hvalued, hdestroyed⟩ := h
  have hnext : t.state.state.shared.state = .eTimeout ∧ t.state.state.valued = true := by
    cases a with
    | step a =>
      have hm := step_actionMove (temporary_step hs).1
      refine ⟨timeout_step hstate hm, ?_⟩
      rcases hinv.begun.placed_step hm with ⟨-, -, ht⟩ | ⟨-, hsame⟩
      · exact ht
      · rw [hsame, hvalued]
    | destroy =>
      obtain ⟨-, -, ht⟩ := temporary_destroy hs
      rw [ht]
      exact ⟨hstate, hvalued⟩
  refine ⟨hnext.1, hnext.2, ?_⟩
  simp [hnotes, Books.after, hdestroyed, Shared.destroysValue, hnext.1]

lemma Leaked.not_released (h : Leaked s) (hinv : Inv false s) : ¬Released s := by
  intro hreleased
  have hconstructed := hinv.accounts.constructed
  rw [h.2.1] at hconstructed
  have hdestroyed := hreleased.destroyed
  rw [h.2.2, hconstructed] at hdestroyed
  cases hdestroyed

/-- Somebody needs the awaiter, or its caller, who may not be there any more. -/
def Needed (s : State V E) : Prop := s.accessAhead = true ∨ s.coroutine = .suspended

lemma Needed.step {σ τ : State V E} {a : Action Time V E} (h : Needed σ)
    (howner : (frameUsage Time V E).owner a = false) (hs : Timeout.step timeout σ a = some τ) :
    (frameUsage Time V E).uses σ a = true ∨ Needed τ := by
  rcases h with hahead | hpc
  · rcases usage_step howner hs with ⟨huses, -⟩ | ⟨-, hsame⟩
    · exact Or.inl (by simp [frameUsage, huses])
    · exact Or.inr (Or.inl (hsame.trans hahead))
  · cases step_actionMove hs with
    | expired | suspend | continued | unreachable => cases howner
    | resume hinner => exact Or.inl (by simp [frameUsage, State.resumesCaller, hinner])
    | resumeTask htask => exact Or.inl (by simp [frameUsage, State.resumesCaller, htask])
    | setCaller | resumeInner | resumed | addTask | produced | threw | moveThrows | construct
    | handler | claim | lose | complete | fire | cancel | claimTask | loseTask | resumedTask
    | delete => exact Or.inr (Or.inr hpc)

lemma Needed.not_over (h : Needed s.state.state) (hinv : Inv isVoid s) : ¬Over s.state := by
  rintro ⟨-, hsuspend, hinner, htask⟩
  rcases h with hahead | hpc
  · rcases hsuspend with hs | hs <;> simp [State.accessAhead, hs, SuspendPc.accessAhead] at hahead
  · have hidle : s.state.state.suspend ≠ .idle := fun hs => (hinv.placed.idle hs).1 hpc
    have hreturned := hsuspend.resolve_left hidle
    have hcompleted := hinner.resolve_left (hinv.begun.inner (by rw [hreturned]; rfl))
    rcases hinv.placed.suspended hpc with hwinner | hresume | hresume
    · exact hinv.placed.innerLate (by rw [hcompleted]; rfl) hwinner
    · simp [hcompleted] at hresume
    · rcases htask with htask | htask <;> simp [htask] at hresume

lemma stranded_of_late {σ τ : State V E} {now : Time} (hplaced : Placed σ) (hlate : ¬now < timeout)
    (hm : ActionMove timeout σ (.awaitReady now) τ) : Stranded τ := by
  cases hm with
  | expired hpc =>
    have hidle := hplaced.ready hpc
    exact ⟨hplaced.inner (Or.inl hidle), hidle, by simp⟩
  | suspend _ hnow => exact absurd hnow hlate

lemma Inv.leaked (h : Inv false s) (hkept : Kept false s) {b : Action Time V E}
    (hC : ¬Clean false timeout s.state (.step b)) (hb : b = .inner ∨ b = .task)
    (hs : (ownership V E false timeout).step s (.step b) = some t) : Leaked t := by
  obtain ⟨hs, hnotes⟩ := ownership_step hs
  have hm := step_actionMove (temporary_step hs).1
  have hnext : t.state.state.shared.state = .eTimeout ∧ t.state.state.valued = true ∧
      s.state.state.inner.framed = true := by
    rcases hb with rfl | rfl
    · simp only [Clean, Bool.false_eq_true, false_or, not_forall, not_not] at hC
      obtain ⟨hvalue, hstate⟩ := hC
      refine ⟨timeout_step hstate hm, ?_⟩
      generalize t.state.state = τ at hm
      cases hm with
      | construct hpc => exact ⟨rfl, by rw [hpc]; rfl⟩
      | handler hpc | claim hpc | lose hpc | resume hpc | complete hpc =>
        rw [hpc] at hvalue
        cases hvalue
    · simp only [Clean, Bool.false_eq_true, false_or, not_forall, not_not] at hC
      obtain ⟨hcas, hpending, hinner⟩ := hC
      have hvalued : s.state.state.valued = true := by
        obtain ⟨o, ho, htells⟩ := h.recorded.cas _ hinner
        cases o with
        | ok v => simp [State.valued, ho]
        | error e => simp [Shared.Tells] at htells
      generalize t.state.state = τ at hm
      cases hm with
      | claimTask => exact ⟨rfl, hvalued, by rw [hinner]; rfl⟩
      | loseTask _ hstate => exact absurd hpending hstate
      | resumeTask hpc | resumedTask hpc | delete hpc => simp [hcas] at hpc
  obtain ⟨hstate, hvalued, hframed⟩ := hnext
  refine ⟨hstate, hvalued, ?_⟩
  rw [destroyed_step hkept.destroyed (by simp [held, hframed]) hnotes]
  simp [Shared.destroysValue, hstate]

/-- After an unclean step something has gone wrong whenever all is over. -/
lemma Inv.unclean (h : Inv isVoid s) (hkept : Kept isVoid s)
    (hs : (ownership V E isVoid timeout).step s a = some t) (hC : ¬Clean isVoid timeout s.state a)
    {as : List (TemporaryAction (Action Time V E))} {u : Noted (Temporary (State V E)) Books}
    (hu : (ownership V E isVoid timeout).exec (fun _ _ => True) t as = some u) :
    u.state.fault = true ∨ ¬(Over u.state ∧ Released u) := by
  have hinvt := h.step hs
  have hinvu : Inv isVoid u := exec_invariant (fun _ _ _ ih _ hstep => ih.step hstep) hinvt hu
  have hleak : isVoid = false → Leaked t → ¬Released u := by
    rintro rfl hleaked
    have hlast := exec_invariant (S := ownership V E false timeout)
      (I := fun v => Inv false v ∧ Leaked v) ?_ ⟨hinvt, hleaked⟩ hu
    · exact hlast.2.not_released hlast.1
    · rintro v b w ⟨hinv, hl⟩ - hstep
      exact ⟨hinv.step hstep, hl.step hinv hstep⟩
  cases a with
  | step b =>
    cases b with
    | awaitReady now =>
      have hm : ActionMove timeout s.state.state (.awaitReady now) t.state.state :=
        step_actionMove (temporary_step (ownership_step hs).1).1
      have hstranded := exec_invariant (S := ownership V E isVoid timeout)
        (I := fun v => Stranded v.state.state) ?_ (stranded_of_late h.placed hC hm) hu
      · refine Or.inr fun hend => ?_
        have hframe := hend.2.frame
        simp [hstranded.1] at hframe
      · rintro v b w hv - hstep
        have hstep := (ownership_step hstep).1
        cases b with
        | step b => exact hv.move (step_actionMove (temporary_step hstep).1)
        | destroy =>
          obtain ⟨-, -, hw⟩ := temporary_destroy hstep
          rw [hw]
          exact hv
    | inner | task =>
      cases isVoid with
      | true => exact absurd (by simp [Clean]) hC
      | false => exact Or.inr fun hend => hleak rfl (h.leaked hkept hC (by simp) hs) hend.2
    | awaitSuspend | awaitResume | endAwait | moveThrows | fire | cancel => exact absurd trivial hC
  | destroy =>
    obtain ⟨-, -, ht⟩ := temporary_destroy (ownership_step hs).1
    have hneeded : Needed s.state.state := by
      by_contra hnot
      simp only [Needed, not_or] at hnot
      exact hC ⟨hnot.2, by simpa using hnot.1⟩
    have hlast := temporary_fated (s := t.state) (P := Needed)
      (fun σ b τ hn howner hstep => hn.step howner hstep) (by rw [ht])
      (by rw [ht]; exact hneeded) (exec_unobserved hu)
    exact hlast.imp_right fun hn hend => hn.not_over hinvu hend.1

/-- In a run whose steps are all clean the awaiter and the caller are not used after their end, and
when everything is over each value in `buf` was destroyed once, the pointer on the heap was deleted
once and the frame of the inner coroutine is gone. After a step that is not clean no continuation
comes to such an end. -/
theorem with_timeout_releases_iff
    (h : (ownership V E isVoid timeout).Reaches (fun s a => Clean isVoid timeout s.state a) s) :
    s.state.fault = false ∧ (Over s.state → Released s) ∧
      ∀ a t, (ownership V E isVoid timeout).step s a = some t → ¬Clean isVoid timeout s.state a →
        ∀ as u, (ownership V E isVoid timeout).exec (fun _ _ => True) t as = some u →
          u.state.fault = true ∨ ¬(Over u.state ∧ Released u) := by
  obtain ⟨hinv, hkept⟩ := reaches_kept h
  exact ⟨hkept.fault, hkept.released hinv, fun a t hs hC as u hu => hinv.unclean hkept hs hC hu⟩

end run

instance {V E : Type*} [DecidableEq V] [DecidableEq E] (s : Temporary (State V E)) :
    Decidable (Over s) := inferInstanceAs (Decidable (_ ∧ _ ∧ _ ∧ _))

/-- The timeout has passed at `await_ready`, and nobody destroys the frame of the inner coroutine.
Or the timeout wins before the inner coroutine has placed its value, and nobody destroys the
value. -/
theorem with_timeout_leaks :
    (∃ s : Noted (Temporary (State ℕ ℕ)) Books, (ownership ℕ ℕ false (5 : ℕ)).Reachable s ∧
      Over s.state ∧ s.state.fault = false ∧ s.state.state.inner = .initial) ∧
    (∃ s : Noted (Temporary (State ℕ ℕ)) Books, (ownership ℕ ℕ false (5 : ℕ)).Reachable s ∧
      Over s.state ∧ s.state.fault = false ∧ s.notes = ⟨1, 0, 1, 1⟩) := by
  constructor
  · exact exists_reaches (S := ownership ℕ ℕ false (5 : ℕ)) (fun _ _ => True)
      (fun s => Over s.state ∧ s.state.fault = false ∧ s.state.state.inner = .initial)
      [.step (.awaitReady 7), .step .awaitResume, .destroy] (by decide)
  · exact exists_reaches (S := ownership ℕ ℕ false (5 : ℕ)) (fun _ _ => True)
      (fun s => Over s.state ∧ s.state.fault = false ∧ s.notes = ⟨1, 0, 1, 1⟩)
      [.step (.awaitReady 3), .step .awaitSuspend, .step .awaitSuspend, .step .awaitSuspend,
        .step .awaitSuspend, .step .fire, .step .task, .step .task, .step .awaitResume, .destroy,
        .step .task, .step .task, .step (.endAwait (.ok 7)), .step .inner, .step .inner] (by decide)

/-- The inner coroutine wins. -/
theorem with_timeout_releases : ∃ s : Noted (Temporary (State ℕ ℕ)) Books,
    Over s.state ∧ s.notes.constructed = 1 ∧ Released s := by
  obtain ⟨s, hs, hover, hone⟩ := exists_reaches (S := ownership ℕ ℕ false (5 : ℕ))
    (fun s a => Clean false 5 s.state a) (fun s => Over s.state ∧ s.notes.constructed = 1)
    [.step (.awaitReady 3), .step .awaitSuspend, .step .awaitSuspend, .step .awaitSuspend,
      .step .awaitSuspend, .step (.endAwait (.ok 7)), .step .inner, .step .inner, .step .inner,
      .step .awaitResume, .destroy, .step .inner, .step .fire, .step .task, .step .task] (by decide)
  exact ⟨s, hover, hone, (with_timeout_releases_iff hs).2.1 hover⟩

end Scoro.Timeout

import Scoro.Lib.Transition

/-!
# Awaiting a `Future`

One coroutine awaits a `Future`, or a `DetachedWaitableFuture` if `waitable` is set, while the
coroutine behind it finishes on another thread. The two meet in `done()` and in
`m_caller_coroutine`, neither of which is tested again after the other has been written. Each
action is one atomic step; the future is not destroyed before the `co_await` is over.
-/

namespace Scoro.Future
open Scoro.Lib

/-- `Promise` and `WaitablePromise`. The handle `m_caller_coroutine` is the awaiting coroutine's
or null, and `m_state` is used in a `WaitablePromise` only. -/
structure Promise (V E : Type*) where
  mValue : Option V
  mException : Option E
  mCallerCoroutine : Bool
  mState : Bool
  deriving DecidableEq

namespace Promise
variable {V E : Type*}

def init : Promise V E := ⟨none, none, false, false⟩

/-- `return_value` or `unhandled_exception`, by the way the body ends. -/
def finish (p : Promise V E) : Except E V → Promise V E
  | .ok v => { p with mValue := some v }
  | .error e => { p with mException := some e }

/-- `get`, which throws the stored exception. It has no result before the body has ended. -/
def get (p : Promise V E) : Option (Except E V) :=
  match p.mException with
  | some e => some (.error e)
  | none => p.mValue.map .ok

def setCaller (p : Promise V E) : Promise V E := { p with mCallerCoroutine := true }

def getCaller (p : Promise V E) : Bool := p.mCallerCoroutine

def setValid (p : Promise V E) : Promise V E := { p with mState := true }

end Promise

/-- The awaiting coroutine. It is at `awaitResume` from its first instruction after the
suspension, and `continued` with what `await_resume` returned or threw. -/
inductive CoroutinePc (V E : Type*) where
  | ready
  | suspended
  | awaitResume
  | continued (r : Option (Except E V))
  deriving DecidableEq

/-- The call of `await_suspend`. -/
inductive SuspendPc where
  | idle
  | setCaller
  | ret
  | returned
  deriving DecidableEq

/-- The coroutine that finishes: its body, then `final_suspend` and
`FinalWaiter::await_suspend`, which calls `get_caller` once for the test and once for the
handle, and then the transfer to that handle. -/
inductive FinalPc where
  | body
  | finalSuspend
  | setValid
  | notifyAll
  | testCaller
  | readCaller
  | resume (caller : Bool)
  | finished
  deriving DecidableEq

/-- `fault` is set when a null handle or a coroutine that is not suspended is resumed. `passes`
and `outcome` are history: how often the awaiting coroutine went on, and how the body ended. -/
structure State (V E : Type*) where
  promise : Promise V E
  done : Bool
  coroutine : CoroutinePc V E
  suspend : SuspendPc
  final : FinalPc
  fault : Bool
  passes : ℕ
  outcome : Option (Except E V)

inductive Action (V E : Type*) where
  | awaitReady
  | awaitSuspend
  | awaitResume
  | finish (o : Except E V)
  | final

section step
variable {V E : Type*}

def init (V E : Type*) : State V E where
  promise := Promise.init
  done := false
  coroutine := .ready
  suspend := .idle
  final := .body
  fault := false
  passes := 0
  outcome := none

namespace State

def pass (s : State V E) : State V E :=
  { s with coroutine := .awaitResume, passes := s.passes + 1 }

def resume (s : State V E) : State V E :=
  match s.coroutine with
  | .suspended => s.pass
  | _ => { s with fault := true }

end State

def awaitReady (s : State V E) : Option (State V E) :=
  match s.coroutine with
  | .ready => some (if s.done then s.pass else
      { s with coroutine := .suspended, suspend := .setCaller })
  | _ => none

def awaitSuspend (s : State V E) : Option (State V E) :=
  match s.suspend with
  | .setCaller => some { s with promise := s.promise.setCaller, suspend := .ret }
  | .ret => some { s with suspend := .returned }
  | .idle | .returned => none

def awaitResume (s : State V E) : Option (State V E) :=
  match s.coroutine with
  | .awaitResume => some { s with coroutine := .continued s.promise.get }
  | _ => none

def finish (s : State V E) (o : Except E V) : Option (State V E) :=
  match s.final with
  | .body => some
      { s with promise := s.promise.finish o, final := .finalSuspend, outcome := some o }
  | _ => none

def finalStep (waitable : Bool) (s : State V E) : Option (State V E) :=
  match s.final with
  | .body | .finished => none
  | .finalSuspend => some
      { s with done := true, final := if waitable then .setValid else .testCaller }
  | .setValid => some { s with promise := s.promise.setValid, final := .notifyAll }
  | .notifyAll => some { s with final := .testCaller }
  | .testCaller => some { s with final := if s.promise.getCaller then .readCaller else .finished }
  | .readCaller => some { s with final := .resume s.promise.getCaller }
  | .resume caller => some (if caller then { s.resume with final := .finished } else
      { s with fault := true, final := .finished })

def step (waitable : Bool) (s : State V E) : Action V E → Option (State V E)
  | .awaitReady => awaitReady s
  | .awaitSuspend => awaitSuspend s
  | .awaitResume => awaitResume s
  | .finish o => finish s o
  | .final => finalStep waitable s

def system (V E : Type*) (waitable : Bool) : System (State V E) (Action V E) where
  init := init V E
  step := step waitable

end step

/-! ### The hand-shake -/

section invariant
variable {V E : Type*} {s s' : State V E} {waitable : Bool}

def CoroutinePc.passed : CoroutinePc V E → Bool
  | .awaitResume | .continued _ => true
  | .ready | .suspended => false

/-- The finishing coroutine has seen a caller and not resumed it yet. -/
def FinalPc.chosen : FinalPc → Bool
  | .readCaller | .resume _ => true
  | .body | .finalSuspend | .setValid | .notifyAll | .testCaller | .finished => false

/-- `final_suspend` has been reached. -/
def FinalPc.isDone : FinalPc → Bool
  | .body | .finalSuspend => false
  | .setValid | .notifyAll | .testCaller | .readCaller | .resume _ | .finished => true

/-- A coroutine that goes on has either not suspended or been resumed by the last step of the
finishing one. -/
structure Inv (s : State V E) : Prop where
  caller : s.promise.getCaller = true ↔ s.suspend = .ret ∨ s.suspend = .returned
  ready : s.coroutine = .ready → s.suspend = .idle ∧ s.passes = 0
  suspended : s.coroutine = .suspended → s.suspend ≠ .idle ∧ s.passes = 0
  passed : s.coroutine.passed = true → s.passes = 1 ∧ s.done = true ∧
    (s.suspend = .idle ∨ s.suspend ≠ .setCaller ∧ s.final = .finished)
  chosen : s.final.chosen = true → s.promise.getCaller = true ∧ s.coroutine = .suspended
  resume : s.final ≠ .resume false
  done : s.done = s.final.isDone
  fault : s.fault = false

lemma inv_init : Inv (init V E) := by
  refine ⟨?_, ?_, ?_, ?_, ?_, ?_, rfl, rfl⟩ <;>
    simp [init, Promise.init, Promise.getCaller, CoroutinePc.passed, FinalPc.chosen]

/-- A caller that is seen belongs to a suspended coroutine. -/
lemma Inv.suspended_of_caller (h : Inv s) (hcaller : s.promise.getCaller = true)
    (hpc : s.final ≠ .finished) : s.coroutine = .suspended := by
  have hsuspend := h.caller.mp hcaller
  cases hc : s.coroutine with
  | suspended => rfl
  | ready =>
    have hidle := (h.ready hc).1
    rw [hidle] at hsuspend
    simp at hsuspend
  | awaitResume | continued =>
    obtain ⟨-, -, hidle | ⟨-, hfinal⟩⟩ := h.passed (by rw [hc]; rfl)
    · rw [hidle] at hsuspend
      simp at hsuspend
    · exact absurd hfinal hpc

/-- A suspended coroutine without a caller is about to store it. -/
lemma Inv.suspend_eq (h : Inv s) (hsuspended : s.coroutine = .suspended)
    (hcaller : s.promise.getCaller = false) : s.suspend = .setCaller := by
  have hidle := (h.suspended hsuspended).1
  have hnot := h.caller
  rw [hcaller] at hnot
  cases hsuspend : s.suspend with
  | setCaller => rfl
  | idle => exact absurd hsuspend hidle
  | ret | returned => simp [hsuspend] at hnot

/-- While `set_caller` is to come the coroutine is suspended, and no caller is seen. -/
lemma Inv.of_setCaller (h : Inv s) (hsuspend : s.suspend = .setCaller) :
    s.coroutine = .suspended ∧ s.promise.getCaller = false := by
  refine ⟨?_, ?_⟩
  · cases hc : s.coroutine with
    | suspended => rfl
    | ready => simp [(h.ready hc).1] at hsuspend
    | awaitResume | continued =>
      have hpassed := (h.passed (by rw [hc]; rfl)).2.2
      simp [hsuspend] at hpassed
  · rw [Bool.eq_false_iff]
    intro hcaller
    have hstored := h.caller.mp hcaller
    simp [hsuspend] at hstored

lemma Inv.not_chosen (h : Inv s) (hc : s.coroutine ≠ .suspended) : s.final.chosen = false := by
  rw [Bool.eq_false_iff]
  exact fun hchosen => hc (h.chosen hchosen).2

/-- The steps, with what the invariant says about them: the coroutine that is resumed is the
suspended one. -/
inductive Move (waitable : Bool) (s : State V E) : Action V E → State V E → Prop
  | ready (hpc : s.coroutine = .ready) (hdone : s.done = true) :
      Move waitable s .awaitReady s.pass
  | suspend (hpc : s.coroutine = .ready) (hdone : s.done = false) :
      Move waitable s .awaitReady { s with coroutine := .suspended, suspend := .setCaller }
  | setCaller (hpc : s.suspend = .setCaller) :
      Move waitable s .awaitSuspend { s with promise := s.promise.setCaller, suspend := .ret }
  | suspendRet (hpc : s.suspend = .ret) :
      Move waitable s .awaitSuspend { s with suspend := .returned }
  | awaitResume (hpc : s.coroutine = .awaitResume) :
      Move waitable s .awaitResume { s with coroutine := .continued s.promise.get }
  | finish {o} (hpc : s.final = .body) : Move waitable s (.finish o)
      { s with promise := s.promise.finish o, final := .finalSuspend, outcome := some o }
  | done (hpc : s.final = .finalSuspend) : Move waitable s .final
      { s with done := true, final := if waitable then .setValid else .testCaller }
  | setValid (hpc : s.final = .setValid) : Move waitable s .final
      { s with promise := s.promise.setValid, final := .notifyAll }
  | notifyAll (hpc : s.final = .notifyAll) : Move waitable s .final { s with final := .testCaller }
  | noCaller (hpc : s.final = .testCaller) (hcaller : s.promise.getCaller = false) :
      Move waitable s .final { s with final := .finished }
  | caller (hpc : s.final = .testCaller) (hcaller : s.promise.getCaller = true)
      (hsuspended : s.coroutine = .suspended) :
      Move waitable s .final { s with final := .readCaller }
  | readCaller (hpc : s.final = .readCaller) :
      Move waitable s .final { s with final := .resume true }
  | resume (hpc : s.final = .resume true) (hsuspended : s.coroutine = .suspended) :
      Move waitable s .final { s.pass with final := .finished }

lemma Inv.finalMove (h : Inv s) (hs : finalStep waitable s = some s') :
    Move waitable s .final s' := by
  unfold Future.finalStep at hs
  split at hs <;> cases hs
  case h_3.refl hpc => exact .done hpc
  case h_4.refl hpc => exact .setValid hpc
  case h_5.refl hpc => exact .notifyAll hpc
  case h_6.refl hpc =>
    cases hcaller : s.promise.getCaller with
    | true => exact .caller hpc hcaller (h.suspended_of_caller hcaller (by simp [hpc]))
    | false => exact .noCaller hpc hcaller
  case h_7.refl hpc =>
    rw [(h.chosen (by rw [hpc]; rfl)).1]
    exact .readCaller hpc
  case h_8.refl caller hpc =>
    cases caller with
    | true =>
      have hsuspended := (h.chosen (by rw [hpc]; rfl)).2
      have hresume : s.resume = s.pass := by simp [State.resume, hsuspended]
      rw [if_pos rfl, hresume]
      exact .resume hpc hsuspended
    | false => exact absurd hpc h.resume

lemma Inv.move (h : Inv s) {a : Action V E} (hs : step waitable s a = some s') :
    Move waitable s a s' := by
  cases a with
  | awaitReady =>
    simp only [step, awaitReady] at hs
    split at hs
    · rename_i hpc
      split at hs <;> cases hs <;> rename_i hdone
      · exact .ready hpc hdone
      · exact .suspend hpc (by simpa using hdone)
    · cases hs
  | awaitSuspend =>
    simp only [step, awaitSuspend] at hs
    split at hs <;> cases hs <;> rename_i hpc
    · exact .setCaller hpc
    · exact .suspendRet hpc
  | awaitResume =>
    simp only [step, awaitResume] at hs
    split at hs <;> cases hs
    rename_i hpc
    exact .awaitResume hpc
  | finish o =>
    simp only [step, finish] at hs
    split at hs <;> cases hs
    rename_i hpc
    exact .finish hpc
  | final => exact h.finalMove hs

/-- The steps of the finishing coroutine that leave the awaiting one alone. -/
lemma Inv.advance (h : Inv s) (hpc : s.final ≠ .finished) (hchosen : s'.final.chosen = true →
      s.promise.getCaller = true ∧ s.coroutine = .suspended)
    (hresume : s'.final ≠ .resume false) (hdone : s'.done = s'.final.isDone)
    (hle : s.done = true → s'.done = true)
    (hcaller : s'.promise.getCaller = s.promise.getCaller) (hcoroutine : s'.coroutine = s.coroutine)
    (hsuspend : s'.suspend = s.suspend) (hpasses : s'.passes = s.passes)
    (hfault : s'.fault = s.fault) : Inv s' := by
  refine ⟨?_, ?_, ?_, ?_, ?_, hresume, hdone, hfault.trans h.fault⟩
  · rw [hcaller, hsuspend]
    exact h.caller
  · rw [hcoroutine, hsuspend, hpasses]
    exact h.ready
  · rw [hcoroutine, hsuspend, hpasses]
    exact h.suspended
  · rw [hcoroutine, hsuspend, hpasses]
    intro hc
    obtain ⟨hpass, hd, hidle | ⟨-, hfinal⟩⟩ := h.passed hc
    · exact ⟨hpass, hle hd, Or.inl hidle⟩
    · exact absurd hfinal hpc
  · rw [hcaller, hcoroutine]
    exact hchosen

theorem Inv.step (h : Inv s) {a : Action V E} (hs : step waitable s a = some s') : Inv s' := by
  have hd := h.done
  cases h.move hs with
  | ready hpc hdone =>
    obtain ⟨hidle, hpasses⟩ := h.ready hpc
    have hchosen := h.not_chosen (by simp [hpc])
    refine ⟨h.caller, (by rintro ⟨⟩), (by rintro ⟨⟩), fun _ => ?_,
      fun hc => absurd hc (by simp [State.pass, hchosen]), h.resume, h.done, h.fault⟩
    exact ⟨by simp [State.pass, hpasses], hdone, Or.inl hidle⟩
  | suspend hpc _ =>
    obtain ⟨hidle, hpasses⟩ := h.ready hpc
    have hchosen := h.not_chosen (by simp [hpc])
    have hcaller := h.caller
    refine ⟨?_, (by rintro ⟨⟩), fun _ => ⟨by simp, hpasses⟩, (by rintro ⟨⟩),
      fun hc => absurd hc (by simp [hchosen]), h.resume, h.done, h.fault⟩
    simpa [hidle] using hcaller
  | setCaller hpc =>
    have hsuspended := (h.of_setCaller hpc).1
    have hpasses := (h.suspended hsuspended).2
    refine ⟨by simp [Promise.setCaller, Promise.getCaller], fun hc => ?_,
      fun _ => ⟨by simp, hpasses⟩, fun hc => ?_, fun _ => ⟨rfl, hsuspended⟩, h.resume, h.done,
      h.fault⟩
    · rw [hsuspended] at hc
      cases hc
    · rw [hsuspended] at hc
      cases hc
  | suspendRet hpc =>
    have hcaller : s.promise.getCaller = true := h.caller.mpr (Or.inl hpc)
    refine ⟨by simp [hcaller], fun hc => ?_, fun hc => ⟨by simp, (h.suspended hc).2⟩,
      fun hc => ?_, h.chosen, h.resume, h.done, h.fault⟩
    · have hidle := (h.ready hc).1
      rw [hpc] at hidle
      cases hidle
    · obtain ⟨hpasses, hdone, hidle | ⟨-, hfinal⟩⟩ := h.passed hc
      · rw [hpc] at hidle
        cases hidle
      · exact ⟨hpasses, hdone, Or.inr ⟨by simp, hfinal⟩⟩
  | awaitResume hpc =>
    have hchosen := h.not_chosen (by simp [hpc])
    exact ⟨h.caller, (by rintro ⟨⟩), (by rintro ⟨⟩),
      fun _ => h.passed (by rw [hpc]; rfl), fun hc => absurd hc (by simp [hchosen]), h.resume,
      h.done, h.fault⟩
  | @finish o hpc =>
    rw [hpc] at hd
    have hcaller : (s.promise.finish o).getCaller = s.promise.getCaller := by cases o <;> rfl
    refine h.advance (by simp [hpc]) ?_ ?_ hd id hcaller rfl rfl rfl rfl
    all_goals simp [FinalPc.chosen]
  | done hpc =>
    apply h.advance (by simp [hpc])
    all_goals cases waitable <;> simp [FinalPc.chosen, FinalPc.isDone]
  | setValid hpc | notifyAll hpc =>
    rw [hpc] at hd
    refine h.advance (by simp [hpc]) ?_ ?_ hd id rfl rfl rfl rfl rfl
    all_goals simp [FinalPc.chosen]
  | noCaller hpc _ =>
    rw [hpc] at hd
    refine h.advance (by simp [hpc]) ?_ ?_ hd id rfl rfl rfl rfl rfl
    all_goals simp [FinalPc.chosen]
  | caller hpc hcaller hsuspended =>
    rw [hpc] at hd
    exact h.advance (by simp [hpc]) (fun _ => ⟨hcaller, hsuspended⟩) (by simp) hd id rfl rfl rfl
      rfl rfl
  | readCaller hpc =>
    rw [hpc] at hd
    have hchosen := h.chosen (by rw [hpc]; rfl)
    exact h.advance (by simp [hpc]) (fun _ => hchosen) (by simp) hd id rfl rfl rfl rfl rfl
  | resume hpc hsuspended =>
    rw [hpc] at hd
    have hpasses := (h.suspended hsuspended).2
    have hstored := h.caller.mp (h.chosen (by rw [hpc]; rfl)).1
    refine ⟨h.caller, (by rintro ⟨⟩), (by rintro ⟨⟩), fun _ => ?_,
      (by rintro ⟨⟩), by simp, hd, h.fault⟩
    refine ⟨by simp [State.pass, hpasses], hd, Or.inr ⟨?_, rfl⟩⟩
    rcases hstored with hstored | hstored <;> simp [State.pass, hstored]

theorem reaches_inv {C : State V E → Action V E → Prop}
    (h : (system V E waitable).Reaches C s) : Inv s :=
  h.invariant inv_init fun _ _ _ _ hinv _ hs => hinv.step hs

/-! ### What the awaiting coroutine receives -/

/-- The promise holds what the body ended with, and `await_resume` takes it from there. -/
structure Told (s : State V E) : Prop where
  body : s.final = .body → s.promise.mValue = none ∧ s.promise.mException = none
  promise : s.final ≠ .body → s.outcome.isSome = true ∧ s.promise.get = s.outcome
  continued : ∀ r, s.coroutine = .continued r → r.isSome = true ∧ r = s.outcome

/-- A step that leaves the result alone. -/
lemma Told.frame (h : Told s) (hbody : s'.final = .body ↔ s.final = .body)
    (hvalue : s'.promise.mValue = s.promise.mValue)
    (hexception : s'.promise.mException = s.promise.mException)
    (hcontinued : ∀ r, s'.coroutine = .continued r → s.coroutine = .continued r)
    (houtcome : s'.outcome = s.outcome) : Told s' := by
  have hget : s'.promise.get = s.promise.get := by
    unfold Promise.get
    rw [hvalue, hexception]
  refine ⟨fun hpc => ?_, fun hpc => ?_, fun r hr => ?_⟩
  · rw [hvalue, hexception]
    exact h.body (hbody.mp hpc)
  · rw [hget, houtcome]
    exact h.promise fun hb => hpc (hbody.mpr hb)
  · rw [houtcome]
    exact h.continued r (hcontinued r hr)

lemma Told.step (h : Told s) (hinv : Inv s) {a : Action V E} (hs : step waitable s a = some s') :
    Told s' := by
  have hbody : s.done = true → s.final ≠ .body := by
    intro hdone hpc
    rw [hinv.done, hpc] at hdone
    cases hdone
  cases hinv.move hs with
  | ready | suspend => exact h.frame Iff.rfl rfl rfl (by rintro _ ⟨⟩) rfl
  | setCaller | suspendRet => exact h.frame Iff.rfl rfl rfl (fun _ => id) rfl
  | awaitResume hpc =>
    have hdone := (hinv.passed (by rw [hpc]; rfl)).2.1
    obtain ⟨hsome, hget⟩ := h.promise (hbody hdone)
    refine ⟨h.body, h.promise, fun r hr => ?_⟩
    cases hr
    exact ⟨by rw [hget]; exact hsome, hget⟩
  | @finish o hpc =>
    obtain ⟨hvalue, hexception⟩ := h.body hpc
    refine ⟨(by rintro ⟨⟩), fun _ => ⟨rfl, ?_⟩, fun r hr => ?_⟩
    · cases o <;> simp [Promise.get, Promise.finish, hvalue, hexception]
    · have hdone := (hinv.passed (by rw [hr]; rfl)).2.1
      exact absurd hpc (hbody hdone)
  | done hpc => exact h.frame (by cases waitable <;> simp [hpc]) rfl rfl (fun _ => id) rfl
  | resume hpc _ => exact h.frame (by simp [hpc]) rfl rfl (by rintro _ ⟨⟩) rfl
  | setValid hpc | notifyAll hpc | readCaller hpc =>
    exact h.frame (by simp [hpc]) rfl rfl (fun _ => id) rfl
  | noCaller hpc _ | caller hpc _ _ => exact h.frame (by simp [hpc]) rfl rfl (fun _ => id) rfl

/-- `co_await` yields what the coroutine behind the future returned or threw. -/
theorem await_resume_outcome (h : (system V E waitable).Reachable s) {r : Option (Except E V)}
    (hr : s.coroutine = .continued r) : ∃ o, r = some o ∧ s.outcome = some o := by
  have htold : Told s := by
    apply h.invariant
    · exact ⟨fun _ => ⟨rfl, rfl⟩, fun hb => absurd rfl hb, by rintro _ ⟨⟩⟩
    · intro s a s' run htold _ hs
      exact htold.step (reaches_inv run) hs
  obtain ⟨hsome, heq⟩ := htold.continued r hr
  obtain ⟨o, ho⟩ := Option.isSome_iff_exists.mp hsome
  exact ⟨o, ho, heq ▸ ho⟩

/-! ### The lost wake-up -/

/-- The coroutine behind the future has finished, `await_suspend` has returned, and the awaiting
coroutine is still suspended. -/
def State.Lost (s : State V E) : Prop :=
  s.final = .finished ∧ s.suspend = .returned ∧ s.coroutine = .suspended

/-- The finishing coroutine does not test `m_caller_coroutine` after `await_ready` has found the
future not done and before `set_caller`. -/
def Timely (s : State V E) : Action V E → Prop
  | .final => ¬(s.final = .testCaller ∧ s.suspend = .setCaller)
  | _ => True

instance (s : State V E) (a : Action V E) : Decidable (Timely s a) :=
  match a with
  | .final => inferInstanceAs (Decidable (¬(_ ∧ _)))
  | .awaitReady | .awaitSuspend | .awaitResume | .finish _ => .isTrue trivial

/-- The awaiting coroutine never goes on, whatever comes. -/
def State.Stranded (waitable : Bool) (s : State V E) : Prop :=
  ∀ as t, (system V E waitable).exec (fun _ _ => True) s as = some t → t.passes = 0

/-- Nobody is left behind by the finishing coroutine. -/
def State.Met (s : State V E) : Prop := s.final = .finished → s.coroutine ≠ .suspended

lemma State.Met.step (h : s.Met) (hinv : Inv s) {a : Action V E} (ha : Timely s a)
    (hs : step waitable s a = some s') : s'.Met := by
  intro hfinal
  cases hinv.move hs with
  | ready | awaitResume | resume => rintro ⟨⟩
  | suspend _ hdone =>
    rw [hinv.done, hfinal] at hdone
    cases hdone
  | setCaller | suspendRet => exact h hfinal
  | noCaller hpc hcaller =>
    intro hsuspended
    exact ha ⟨hpc, hinv.suspend_eq hsuspended hcaller⟩
  | done => cases waitable <;> cases hfinal
  | finish | setValid | notifyAll | caller | readCaller => cases hfinal

lemma reaches_met (h : (system V E waitable).Reaches Timely s) : s.Met :=
  h.invariant (by rintro ⟨⟩) fun _ _ _ run hmet ha hs =>
    hmet.step (reaches_inv run) ha hs

/-- Once the finishing coroutine is done nobody resumes a suspended one. -/
lemma stranded_of_finished (hfinal : s.final = .finished) (hsuspended : s.coroutine = .suspended)
    (hpasses : s.passes = 0) : s.Stranded waitable := by
  intro as t ht
  have hkeep : t.final = .finished ∧ t.coroutine = .suspended ∧ t.passes = 0 := by
    refine System.exec_invariant (S := system V E waitable)
      (I := fun s => s.final = .finished ∧ s.coroutine = .suspended ∧ s.passes = 0) ?_
      ⟨hfinal, hsuspended, hpasses⟩ ht
    rintro u a u' ⟨hfinal, hsuspended, hpasses⟩ - hs
    cases a with
    | awaitReady => simp [system, step, awaitReady, hsuspended] at hs
    | awaitSuspend =>
      simp only [system, step, awaitSuspend] at hs
      split at hs <;> cases hs <;> exact ⟨hfinal, hsuspended, hpasses⟩
    | awaitResume => simp [system, step, awaitResume, hsuspended] at hs
    | finish o => simp [system, step, finish, hfinal] at hs
    | final => simp [system, step, finalStep, hfinal] at hs
  exact hkeep.2.2

/-- A finishing coroutine that comes too early strands the other one. -/
lemma stranded_of_not_timely (h : Inv s) {a : Action V E} (ha : ¬Timely s a)
    (hs : step waitable s a = some s') : s'.Stranded waitable := by
  cases a with
  | final =>
    obtain ⟨hpc, hsuspend⟩ := not_not.mp ha
    obtain ⟨hsuspended, hcaller⟩ := h.of_setCaller hsuspend
    have hpasses := (h.suspended hsuspended).2
    simp only [step, finalStep, hpc, hcaller, Option.some.injEq] at hs
    subst hs
    exact stranded_of_finished rfl hsuspended hpasses
  | awaitReady | awaitSuspend | awaitResume | finish => exact absurd trivial ha

def CoroutinePc.weight : CoroutinePc V E → ℕ
  | .ready => 5
  | .suspended => 2
  | .awaitResume => 1
  | .continued _ => 0

def SuspendPc.weight : SuspendPc → ℕ
  | .setCaller => 2
  | .ret => 1
  | .idle | .returned => 0

def FinalPc.weight : FinalPc → ℕ
  | .body => 7
  | .finalSuspend => 6
  | .setValid => 5
  | .notifyAll => 4
  | .testCaller => 3
  | .readCaller => 2
  | .resume _ => 1
  | .finished => 0

/-- A bound on the steps of both coroutines that are left. -/
def State.left (s : State V E) : ℕ :=
  s.coroutine.weight + s.suspend.weight + s.final.weight

lemma left_lt (h : Inv s) {a : Action V E} (hs : step waitable s a = some s') :
    s'.left < s.left := by
  unfold State.left
  cases h.move hs with
  | ready hpc _ | suspend hpc _ =>
    have hidle := (h.ready hpc).1
    simp only [State.pass, hpc, hidle, CoroutinePc.weight, SuspendPc.weight]
    omega
  | setCaller hpc | suspendRet hpc =>
    simp only [hpc, SuspendPc.weight]
    omega
  | awaitResume hpc =>
    simp only [hpc, CoroutinePc.weight]
    omega
  | done hpc => cases waitable <;> simp [hpc, FinalPc.weight]
  | resume hpc hsuspended =>
    simp only [State.pass, hpc, hsuspended, CoroutinePc.weight, FinalPc.weight]
    omega
  | finish hpc | setValid hpc | notifyAll hpc | noCaller hpc _ | caller hpc _ _ | readCaller hpc =>
    simp only [hpc, FinalPc.weight]
    omega

lemma final_ne_body (h : Inv s) (hbody : s.final ≠ .body) {a : Action V E}
    (hs : step waitable s a = some s') : s'.final ≠ .body := by
  cases h.move hs with
  | ready | suspend | setCaller | suspendRet | awaitResume => exact hbody
  | done => cases waitable <;> simp
  | finish | setValid | notifyAll | noCaller | caller | readCaller | resume => simp

/-- After the body has ended, one of the two coroutines can take a timely step until the awaiting
one goes on. -/
lemma exists_step (h : Inv s) (hmet : s.Met) (hbody : s.final ≠ .body) (hpasses : s.passes ≠ 1) :
    ∃ a, Timely s a ∧ ∃ s', step waitable s a = some s' := by
  cases hc : s.coroutine with
  | ready => exact ⟨.awaitReady, trivial, by simp [step, awaitReady, hc]⟩
  | awaitResume | continued => exact absurd (h.passed (by rw [hc]; rfl)).1 hpasses
  | suspended =>
    cases hsuspend : s.suspend with
    | idle => exact absurd hsuspend (h.suspended hc).1
    | setCaller | ret => exact ⟨.awaitSuspend, trivial, by simp [step, awaitSuspend, hsuspend]⟩
    | returned =>
      have ha : Timely s .final := by simp [Timely, hsuspend]
      cases hfinal : s.final with
      | body => exact absurd hfinal hbody
      | finished => exact absurd hc (hmet hfinal)
      | finalSuspend | setValid | notifyAll | testCaller | readCaller | resume =>
        exact ⟨.final, ha, by simp [step, finalStep, hfinal]⟩

/-- If `m_caller_coroutine` is not tested between `await_ready` and `set_caller`, the wake-up is
not lost, and once the body has ended the awaiting coroutine goes on exactly once, whatever the
order of the steps. A test in between is just what strands it. -/
theorem future_await_iff (h : (system V E waitable).Reaches Timely s) :
    ¬s.Lost ∧ s.passes ≤ 1 ∧ s.fault = false ∧
      (s.final ≠ .body → (system V E waitable).Leads Timely (fun _ _ => True)
        (fun s => s.passes = 1) s) ∧
      ∀ a s', step waitable s a = some s' → s'.final ≠ .body →
        (s'.Stranded waitable ↔ ¬Timely s a) := by
  have hleads : ∀ s, (system V E waitable).Reaches Timely s → s.final ≠ .body →
      (system V E waitable).Leads Timely (fun _ _ => True) (fun s => s.passes = 1) s := by
    intro s hs hbody
    apply System.leads_of_measure (I := fun s => (Inv s ∧ s.Met) ∧ s.final ≠ .body) State.left
    · rintro s ⟨⟨hinv, hmet⟩, hbody⟩ hpasses
      obtain ⟨a, ha, s', hs⟩ := exists_step hinv hmet hbody hpasses
      exact ⟨a, s', ha, hs⟩
    · rintro s a s' ⟨⟨hinv, hmet⟩, hbody⟩ - ha - hs
      exact ⟨⟨⟨hinv.step hs, hmet.step hinv ha hs⟩, final_ne_body hinv hbody hs⟩, left_lt hinv hs⟩
    · exact ⟨⟨reaches_inv hs, reaches_met hs⟩, hbody⟩
  have hinv := reaches_inv h
  refine ⟨?_, ?_, hinv.fault, hleads s h,
    fun a s' hs hbody => ⟨fun hstranded ha => ?_, fun ha => ?_⟩⟩
  · rintro ⟨hfinal, -, hsuspended⟩
    exact reaches_met h hfinal hsuspended
  · cases hc : s.coroutine with
    | ready => simp [(hinv.ready hc).2]
    | suspended => simp [(hinv.suspended hc).2]
    | awaitResume | continued => simp [(hinv.passed (by rw [hc]; rfl)).1]
  · obtain ⟨as, t, ht, hpasses⟩ := (hleads s' (h.step ha hs) hbody).exists_exec
    rw [hstranded as t ht] at hpasses
    cases hpasses
  · exact stranded_of_not_timely hinv ha hs

end invariant

/-- `await_ready` comes before the end of the body, and `set_caller` after the finishing
coroutine has looked for a caller. -/
theorem future_await_strands :
    ∃ s : State ℕ ℕ, (system ℕ ℕ false).Reachable s ∧ s.Lost :=
  System.exists_reaches (S := system ℕ ℕ false) (fun _ _ => True)
    (fun s => s.final = .finished ∧ s.suspend = .returned ∧ s.coroutine = .suspended)
    [.awaitReady, .finish (.ok 7), .final, .final, .awaitSuspend, .awaitSuspend] (by decide)

/-- `set_caller` comes between `done` and the test. -/
theorem future_await_meets :
    ∃ s : State ℕ ℕ, s.coroutine = .continued (some (.ok 7)) ∧ s.suspend = .returned ∧
      s.passes ≤ 1 ∧ ¬s.Lost := by
  obtain ⟨s, hs, hc, hsuspend⟩ := System.exists_reaches (S := system ℕ ℕ false) Timely
    (fun s => s.coroutine = .continued (some (.ok 7)) ∧ s.suspend = .returned)
    [.awaitReady, .finish (.ok 7), .final, .awaitSuspend, .final, .final, .final, .awaitResume,
      .awaitSuspend] (by decide)
  have hmeets := future_await_iff hs
  exact ⟨s, hc, hsuspend, hmeets.2.1, hmeets.1⟩

end Scoro.Future

import Scoro.Timer.CancelableSleep

/-!
# What a cancelable sleep reports

`await_resume` reads from `state` whether the sleep was cancelled, and `cancel` tells its caller
the same by its result. `await_ready` may end the sleep by the clock alone, which leaves `state`
as it is.
-/

namespace Scoro.CancelableSleep
open Scoro.Lib

section observer
variable {Time K : Type*} [LinearOrder Time] [DecidableEq K]

/-- `canceled`: a call of `cancel` has returned true. `stopped`: the cancel function of the task
has claimed `state`. -/
structure Verdict where
  canceled : Bool
  stopped : Bool
  deriving DecidableEq

def judge (s : State K) (a : Action Time K) (v : Verdict) : Verdict :=
  match a with
  | .claim (some k) =>
    if (claimStep s (some k)).map (fun s => s.claims (some k)) = some (.returned true) then
      { v with canceled := true }
    else v
  | .claim none =>
    if s.claims none = .cas .eCanceled ∧ s.mCb.state = .ePending then { v with stopped := true }
    else v
  | _ => v

def judged (K : Type*) [DecidableEq K] (wakeTime : Time) :
    System (System.Noted (State K) Verdict) (Action Time K) :=
  (system K wakeTime).observe judge ⟨false, false⟩

/-- A call of `cancel` that has claimed `state` returns true and counts from then on. -/
def Canceled (s : System.Noted (State K) Verdict) : Prop :=
  s.notes.canceled = true ∨ s.notes.stopped = true ∨
    ∃ k, (s.state.claims (some k)).winning = true

/-- A sleep that is over has yielded false if it was cancelled, and true otherwise. -/
def Truthful (s : System.Noted (State K) Verdict) : Prop :=
  ∀ consumed, s.state.coroutine = .continued consumed → (consumed = false ↔ Canceled s)

/-- `await_resume` finds that somebody has claimed `state`. -/
def Settled (s : State K) : Action Time K → Prop
  | .awaitResume => s.mCb.state ≠ .ePending
  | _ => True

instance (s : State K) (a : Action Time K) : Decidable (Settled s a) :=
  match a with
  | .awaitResume => inferInstanceAs (Decidable (_ ≠ _))
  | .awaitReady _ | .awaitSuspend | .cancel _ | .fire _ | .cancelTask | .claim _ => .isTrue trivial

end observer

section run
variable {Time K : Type*} [LinearOrder Time] [DecidableEq K] {wakeTime : Time}
  {s t : System.Noted (State K) Verdict} {a : Action Time K}

/-- The calls of `cancel` claim `eCanceled`, and it stands in `state` just if somebody has
cancelled. -/
structure Tally (s : System.Noted (State K) Verdict) : Prop where
  call : ∀ k next, s.state.claims (some k) = .cas next → next = .eCanceled
  phase : s.state.mCb.state = .eCanceled ↔ Canceled s

lemma Tally.init : Tally (judged K wakeTime).init := by
  constructor
  · rintro k next ⟨⟩
  · simp [judged, System.observe, system, CancelableSleep.init, Canceled, ClaimPc.winning]

omit [DecidableEq K] in
/-- A step that leaves the calls and `state` alone. -/
lemma Tally.frame (h : Tally s) (hclaims : ∀ k, t.state.claims (some k) = s.state.claims (some k))
    (hstate : t.state.mCb.state = s.state.mCb.state) (hnotes : t.notes = s.notes) : Tally t := by
  refine ⟨fun k next hpc => ?_, ?_⟩
  · rw [hclaims] at hpc
    exact h.call k next hpc
  · unfold Canceled
    simp only [hnotes, hstate, hclaims]
    exact h.phase

/-- A call of `cancel` goes on, and it is the winner as before or is noted. -/
lemma Tally.call_step (h : Tally s) {k : K} {p : ClaimPc}
    (hclaims : t.state.claims = Function.update s.state.claims (some k) p)
    (hstate : t.state.mCb.state = s.state.mCb.state) (hpc : ∀ next, p = .cas next →
      next = .eCanceled) (hstopped : t.notes.stopped = s.notes.stopped)
    (hwins : (t.notes.canceled = true ∨ p.winning = true) ↔
      s.notes.canceled = true ∨ (s.state.claims (some k)).winning = true) : Tally t := by
  have hother : ∀ l, l ≠ k → t.state.claims (some l) = s.state.claims (some l) := by
    intro l hl
    rw [hclaims, Function.update_of_ne (by simpa using hl)]
  have hself : t.state.claims (some k) = p := by rw [hclaims, Function.update_self]
  refine ⟨fun l next hl => ?_, ?_⟩
  · by_cases hlk : l = k
    · subst hlk
      rw [hself] at hl
      exact hpc next hl
    · rw [hother l hlk] at hl
      exact h.call l next hl
  · rw [hstate, h.phase]
    have hsome : ∀ u : System.Noted (State K) Verdict,
        (∃ l, (u.state.claims (some l)).winning = true) ↔
          (u.state.claims (some k)).winning = true ∨
            ∃ l, l ≠ k ∧ (u.state.claims (some l)).winning = true := by
      intro u
      constructor
      · rintro ⟨l, hl⟩
        by_cases hlk : l = k
        · exact .inl (hlk ▸ hl)
        · exact .inr ⟨l, hlk, hl⟩
      · rintro (hk | ⟨l, -, hl⟩)
        · exact ⟨k, hk⟩
        · exact ⟨l, hl⟩
    have hrest : (∃ l, l ≠ k ∧ (t.state.claims (some l)).winning = true) ↔
        ∃ l, l ≠ k ∧ (s.state.claims (some l)).winning = true := by
      refine exists_congr fun l => and_congr_right fun hl => ?_
      rw [hother l hl]
    unfold Canceled
    rw [hsome s, hsome t, hself, hrest, hstopped]
    tauto

omit [LinearOrder Time] in
/-- The first claim of `state`, by the timer's function. -/
lemma Tally.claim_none (h : Tally s) {next : Phase} (hpc : s.state.claims none = .cas next)
    (hstate : s.state.mCb.state = .ePending)
    (ht : t.state = { s.state.setClaim none .testWaiter with
      mCb := { s.state.mCb with state := next } })
    (hnotes : t.notes = judge s.state (.claim none : Action Time K) s.notes) : Tally t := by
  have hother : ∀ k, t.state.claims (some k) = s.state.claims (some k) := by
    intro k
    simp [ht, State.setClaim]
  refine ⟨fun k next hk => h.call k next (hother k ▸ hk), ?_⟩
  have hnot : ¬Canceled s := by
    rw [← h.phase, hstate]
    simp
  obtain ⟨hcanceled, hstopped, hwinning⟩ := not_or.mp hnot |>.imp_right not_or.mp
  unfold Canceled
  simp only [ht, hnotes, judge, hpc, hstate, and_true, ClaimPc.cas.injEq]
  split_ifs with hnext
  · simp [hnext]
  · simpa [hnext, hcanceled, hstopped, State.setClaim] using hwinning

omit [LinearOrder Time] in
/-- The timer's function goes on after its claim, or has lost. -/
lemma Tally.none_step (h : Tally s) {pc : ClaimPc} (hpc : ∀ next, s.state.claims none = .cas next →
      s.state.mCb.state ≠ .ePending)
    (hclaims : t.state.claims = Function.update s.state.claims none pc)
    (hstate : t.state.mCb.state = s.state.mCb.state)
    (hnotes : t.notes = judge s.state (.claim none : Action Time K) s.notes) : Tally t := by
  refine h.frame (fun k => by simp [hclaims]) hstate ?_
  rw [hnotes]
  simp only [judge, ite_eq_right_iff, and_imp]
  exact fun hcas hpending => absurd hpending (hpc _ hcas)

lemma Tally.step (h : Tally s) (hinv : Inv s.state)
    (hs : (judged K wakeTime).step s a = some t) : Tally t := by
  obtain ⟨hs, hnotes⟩ := System.observe_step.mp hs
  have hm := step_move hs
  generalize ht : t.state = state at hm
  cases hm with
  | pass | suspend | storeWaiter | addTask | awaitResume =>
    refine h.frame (fun _ => ?_) ?_ hnotes <;> rw [ht] <;> rfl
  | fire | cancelTask =>
    exact h.frame (fun _ => by simp [ht, State.setClaim]) (by rw [ht]; rfl) hnotes
  | @cancel k canceled hpc =>
    refine h.call_step (k := k) (p := .cas .eCanceled) (by rw [ht]; rfl) (by rw [ht]; rfl)
      (by rintro _ ⟨⟩; rfl) (by rw [hnotes]; rfl) ?_
    simp [hnotes, judge, hpc, ClaimPc.winning]
  | @claim d next hpc hstate =>
    cases d with
    | none => exact h.claim_none hpc hstate ht hnotes
    | some k =>
      obtain rfl := h.call k next hpc
      refine ⟨fun l next hl => ?_, ?_⟩
      · simp only [ht] at hl
        by_cases hlk : l = k
        · subst hlk
          simp [State.setClaim] at hl
        · exact h.call l next (by simpa [State.setClaim, hlk] using hl)
      · simp only [ht, Canceled, true_iff]
        exact .inr (.inr ⟨k, by simp [State.setClaim, ClaimPc.winning]⟩)
  | @lose d next hpc hstate =>
    cases d with
    | none => exact h.none_step (fun _ _ => hstate) (by rw [ht]; rfl) (by rw [ht]; rfl) hnotes
    | some k =>
      refine h.call_step (k := k) (p := .returned false) (by rw [ht]; rfl) (by rw [ht]; rfl)
        (by rintro _ ⟨⟩) ?_ ?_
      all_goals simp [hnotes, judge, claimStep, hpc, hstate, ClaimPc.winning]
  | @found d hpc hwaiter =>
    cases d with
    | none => exact h.none_step (by simp [hpc]) (by rw [ht]; rfl) (by rw [ht]; rfl) hnotes
    | some k =>
      refine h.call_step (k := k) (p := .resume) (by rw [ht]; rfl) (by rw [ht]; rfl)
        (by rintro _ ⟨⟩) ?_ ?_
      all_goals simp [hnotes, judge, claimStep, hpc, hwaiter, ClaimPc.winning]
  | @missed d hpc hwaiter =>
    cases d with
    | none => exact h.none_step (by simp [hpc]) (by rw [ht]; rfl) (by rw [ht]; rfl) hnotes
    | some k =>
      refine h.call_step (k := k) (p := .returned true) (by rw [ht]; rfl) (by rw [ht]; rfl)
        (by rintro _ ⟨⟩) ?_ ?_
      all_goals simp [hnotes, judge, claimStep, hpc, hwaiter, ClaimPc.winning]
  | @resume d hpc =>
    obtain ⟨heq, -, -⟩ := hinv.of_resume hpc
    rw [heq] at ht
    cases d with
    | none => exact h.none_step (by simp [hpc]) (by rw [ht]; rfl) (by rw [ht]; rfl) hnotes
    | some k =>
      refine h.call_step (k := k) (p := .clearWaiter) (by rw [ht]; rfl) (by rw [ht]; rfl)
        (by rintro _ ⟨⟩) ?_ ?_
      all_goals simp [hnotes, judge, claimStep, hpc, ClaimPc.winning]
  | @clearWaiter d hpc =>
    cases d with
    | none => exact h.none_step (by simp [hpc]) (by rw [ht]; rfl) (by rw [ht]) hnotes
    | some k =>
      refine h.call_step (k := k) (p := .returned true) (by rw [ht]; rfl) (by rw [ht])
        (by rintro _ ⟨⟩) ?_ ?_
      all_goals simp [hnotes, judge, claimStep, hpc, ClaimPc.winning]

lemma reaches_tally {C : System.Noted (State K) Verdict → Action Time K → Prop}
    (h : (judged K wakeTime).Reaches C s) : Inv s.state ∧ Tally s := by
  refine h.invariant (I := fun s => Inv s.state ∧ Tally s) ⟨inv_init, .init⟩ ?_
  rintro s a t - ⟨hinv, htally⟩ - hs
  exact ⟨hinv.move (step_move (System.observe_step.mp hs).1), htally.step hinv hs⟩

/-- Nobody moves `state` twice. -/
lemma claimed_step {s t : State K} (hs : step wakeTime s a = some t)
    (hstate : s.mCb.state ≠ .ePending) : t.mCb.state = s.mCb.state := by
  cases step_move hs with
  | claim _ hpending => exact absurd hpending hstate
  | @resume d hpc =>
    unfold State.resume
    split <;> rfl
  | pass | suspend | storeWaiter | addTask | awaitResume | cancel | fire | cancelTask | lose | found
  | missed | clearWaiter => rfl

/-- A sleep that is over was claimed, and has yielded what `state` said and still says. -/
def Reported (s : State K) : Prop :=
  ∀ consumed, s.coroutine = .continued consumed →
    s.mCb.state ≠ .ePending ∧ (consumed = true ↔ s.mCb.state = .eConsumed)

lemma Reported.step {s t : State K} (h : Reported s) (hset : Settled s a)
    (hs : step wakeTime s a = some t) : Reported t := by
  intro consumed hc
  by_cases ha : a = .awaitResume
  · subst ha
    simp only [CancelableSleep.step, awaitResume] at hs
    split at hs <;> cases hs
    cases hc
    exact ⟨hset, by simp⟩
  · have hcontinued : s.coroutine = .continued consumed := by
      cases step_move hs with
      | awaitResume => exact absurd rfl ha
      | pass | suspend => cases hc
      | @resume d hpc =>
        unfold State.resume at hc
        split at hc
        · cases hc
        · exact hc
      | storeWaiter | addTask | cancel | fire | cancelTask | claim | lose | found | missed
      | clearWaiter => exact hc
    obtain ⟨hclaimed, hconsumed⟩ := h consumed hcontinued
    rw [claimed_step hs hclaimed]
    exact ⟨hclaimed, hconsumed⟩

omit [DecidableEq K] in
lemma Tally.truthful (h : Tally s) (hreported : Reported s.state) : Truthful s := by
  intro consumed hc
  obtain ⟨hclaimed, hconsumed⟩ := hreported consumed hc
  rw [← h.phase]
  cases hstate : s.state.mCb.state with
  | ePending => exact absurd hstate hclaimed
  | eCanceled | eConsumed => cases consumed <;> simp [hstate] at hconsumed ⊢

lemma awaitResume_pending {s t : State K} (hstate : s.mCb.state = .ePending)
    (hs : (system K wakeTime).step s .awaitResume = some t) :
    t.coroutine = .continued false ∧ t.mCb.state = s.mCb.state := by
  simp only [system, CancelableSleep.step, awaitResume, hstate] at hs
  split at hs <;> cases hs
  exact ⟨rfl, rfl⟩

/-- If `await_resume` is only reached when somebody has claimed `state`, a sleep yields false just
if a call of `cancel` has claimed it, and so returns true, or the timer's stop has, in every state
after it. Where nobody has claimed `state`, `await_resume` yields false and nobody has cancelled. -/
theorem sleep_truthful_iff
    (h : (judged K wakeTime).Reaches (fun s a => Settled s.state a) s) :
    Truthful s ∧
      ∀ a t, (judged K wakeTime).step s a = some t → (Truthful t ↔ Settled s.state a) := by
  have hreported : Reported s.state := by
    refine h.invariant (I := fun s => Reported s.state) (by rintro _ ⟨⟩) ?_
    intro s a t _ hreported hset hs
    exact hreported.step hset (System.observe_step.mp hs).1
  obtain ⟨hinv, htally⟩ := reaches_tally h
  refine ⟨htally.truthful hreported, fun a t hs => ⟨fun htrue => ?_, fun hset => ?_⟩⟩
  · by_cases ha : a = .awaitResume
    · subst ha
      intro hpending
      obtain ⟨hfalse, hkeep⟩ := awaitResume_pending hpending (System.observe_step.mp hs).1
      have hcanceled := (htally.step hinv hs).phase.mpr ((htrue false hfalse).mp rfl)
      rw [hkeep, hpending] at hcanceled
      cases hcanceled
    · cases a with
      | awaitResume => exact absurd rfl ha
      | awaitReady | awaitSuspend | cancel | fire | cancelTask | claim => trivial
  · exact (htally.step hinv hs).truthful (hreported.step hset (System.observe_step.mp hs).1)

/-- The wake time is past when the sleep is awaited. It yields false, and nobody has cancelled. -/
theorem sleep_past_reports_canceled : ∃ s : System.Noted (State (Fin 1)) Verdict,
    (judged (Fin 1) (5 : ℕ)).Reachable s ∧ s.state.coroutine = .continued false ∧ ¬Canceled s := by
  obtain ⟨s, hs, hfalse, hnotes, hclaims⟩ := System.exists_reaches
    (S := judged (Fin 1) (5 : ℕ)) (fun _ _ => True)
    (fun s => s.state.coroutine = .continued false ∧ s.notes = ⟨false, false⟩ ∧
      ∀ k, (s.state.claims (some k)).winning = false)
    [.awaitReady 7, .awaitResume] (by decide)
  refine ⟨s, hs, hfalse, ?_⟩
  rintro (hcanceled | hstopped | ⟨k, hk⟩)
  · simp [hnotes] at hcanceled
  · simp [hnotes] at hstopped
  · simp [hclaims k] at hk

/-- The wake time is past, and a call of `cancel` comes before `await_resume`. -/
theorem sleep_past_canceled : ∃ s : System.Noted (State (Fin 1)) Verdict,
    s.state.coroutine = .continued false ∧ s.notes.canceled = true ∧ Truthful s := by
  obtain ⟨s, hs, hfalse, hcanceled⟩ := System.exists_reaches
    (S := judged (Fin 1) (5 : ℕ)) (fun s a => Settled s.state a)
    (fun s => s.state.coroutine = .continued false ∧ s.notes.canceled = true)
    [.awaitReady 7, .cancel 0, .claim (some 0), .awaitResume, .claim (some 0)] (by decide)
  exact ⟨s, hfalse, hcanceled, (sleep_truthful_iff hs).1⟩

end run

end Scoro.CancelableSleep

import Scoro.Coro.Cancel.Model
import Scoro.Lib.Custody

/-!
# Custody of the waiting handles

The handle of a suspended coroutine is in one place: in `m_waiter`, or with the call that is about
to resume it. The invariant holds as long as no store overwrites such a handle.
-/

namespace Scoro.Cancel
open Scoro.Lib

/-! ### Who holds the handle of a suspended coroutine -/

/-- The places where the handle of a suspended coroutine can be: in `m_waiter`, registered or
claimed by a call of `cancel` or of `reset_waiter`, or in the hands of such a call. -/
inductive Holder (C K : Type*) where
  | registered
  | claimed (k : K)
  | canceling (k : K)
  | withdrawn (c : C)
  | replacing (c : C)

variable {C K : Type*} {s s' : State C K} {c d w : C} {k l : K}

def State.holds (s : State C K) : Holder C K → C → Prop
  | .registered, w => s.mState = .eWaiting ∧ s.mWaiter = some w
  | .claimed k, w => s.cancels k = .readWaiter ∧ s.mWaiter = some w
  | .canceling k, w => s.cancels k = .resume (some w)
  | .withdrawn c, w => s.waits c = .exchangeWaiter ∧ s.mWaiter = some w
  | .replacing c, w => s.waits c = .resumeOld w

/-- `m_waiter` holds the handle of a suspended coroutine. -/
def State.Occupied (s : State C K) : Prop :=
  s.mState = .eWaiting ∨ (∃ k, s.cancels k = .readWaiter) ∨ ∃ c, s.waits c = .exchangeWaiter

/-- `m_waiter` is not overwritten while it holds the handle of a suspended coroutine, and a
coroutine does not register with the handle of another one. -/
def Orderly (s : State C K) : Action C K → Prop
  | .wait c => (s.waits c = .storeWaiter → ¬s.Occupied) ∧
      (s.waits c = .setCas → s.mState = .ePending → s.mWaiter = some c)
  | .waitCancel _ | .callCancel _ | .cancel _ => True

/-- The coroutine holds no handle and is not suspended. -/
def WaitPc.Plain : WaitPc C → Prop
  | .running | .resetCas | .storeWaiter | .setCas => True
  | .exchangeWaiter | .resumeOld _ | .suspended => False

/-- The call has not seen a waiter, or has resumed it. -/
def CancelPc.Plain : CancelPc C → Prop
  | .idle | .exchangeState | .ret _ => True
  | .readWaiter | .resume _ => False

instance [DecidableEq C] [Fintype C] [Fintype K] : Decidable s.Occupied :=
  inferInstanceAs (Decidable (_ ∨ (∃ _, _) ∨ ∃ _, _))

instance [DecidableEq C] [Fintype C] [Fintype K] : ∀ a : Action C K, Decidable (Orderly s a)
  | .wait _ => inferInstanceAs (Decidable (_ ∧ _))
  | .waitCancel _ | .callCancel _ | .cancel _ => inferInstanceAs (Decidable True)

lemma plain_ne {pc : WaitPc C} (h : pc.Plain) :
    pc ≠ .suspended ∧ pc ≠ .exchangeWaiter ∧ ∀ w, pc ≠ .resumeOld w := by
  cases pc <;> simp_all [WaitPc.Plain]

lemma cancelPlain_ne {pc : CancelPc C} (h : pc.Plain) :
    pc ≠ .readWaiter ∧ ∀ w, pc ≠ .resume w := by
  cases pc <;> simp_all [CancelPc.Plain]

variable [DecidableEq C]

/-! ### Resumes and suspensions -/

/-- Each suspension has been followed by one resume, except the last one of a coroutine that is
still suspended. -/
structure Tally (s : State C K) : Prop where
  fault : s.fault = false
  counts : ∀ c, s.suspensions c = s.resumes c + if s.waits c = .suspended then 1 else 0

lemma Tally.setWait (h : Tally s) {p : WaitPc C} (hc : s.waits c ≠ .suspended)
    (hp : p ≠ .suspended) : Tally (s.setWait c p) := by
  refine ⟨h.fault, fun d => ?_⟩
  have hd := h.counts d
  by_cases hdc : d = c
  · subst hdc
    simpa [State.setWait, hc, hp] using hd
  · simpa [State.setWait, hdc] using hd

lemma Tally.suspend (h : Tally s) (hc : s.waits c ≠ .suspended) : Tally (s.suspend c) := by
  refine ⟨h.fault, fun d => ?_⟩
  have hd := h.counts d
  by_cases hdc : d = c
  · subst hdc
    simpa [State.suspend, State.setWait, hc] using hd
  · simpa [State.suspend, State.setWait, hdc] using hd

lemma Tally.resume (h : Tally s) (hc : s.waits c = .suspended) : Tally (s.resume (some c)) := by
  rw [resume_some hc]
  refine ⟨h.fault, fun d => ?_⟩
  have hd := h.counts d
  by_cases hdc : d = c
  · subst hdc
    simpa [State.setWait, hc] using hd
  · simpa [State.setWait, hdc] using hd

/-! ### Custody of the handles -/

structure Inv (s : State C K) : Prop extends Tally s where
  custody : Custody (fun c => s.waits c = .suspended) s.holds
  occupied : s.Occupied → s.mWaiter ≠ none
  null : ∀ k, s.cancels k ≠ .resume none

lemma init_inv : Inv (init C K) := by
  refine ⟨⟨rfl, fun c => ?_⟩, ⟨?_, ?_, ?_⟩, ?_, ?_⟩
  · simp [init]
  · rintro (_ | k | k | d | d) h c hg - <;> simp [init, State.holds] at hg
  · rintro (_ | k | k | d | d) c h <;> simp [init, State.holds] at h
  · simp [init]
  · simp [init, State.Occupied]
  · simp [init]

lemma occupied_of_setWait {p : WaitPc C} (hp : p ≠ .exchangeWaiter)
    (h : (s.setWait c p).Occupied) : s.Occupied := by
  rcases h with hs | hk | ⟨d, hd⟩
  · exact Or.inl hs
  · exact Or.inr (Or.inl hk)
  · simp only [setWait_waits] at hd
    split_ifs at hd
    · exact absurd hd hp
    · exact Or.inr (Or.inr ⟨d, hd⟩)

/-- A step of a coroutine that has nothing to do with handles. -/
lemma Inv.move (h : Inv s) {p : WaitPc C} (hc : (s.waits c).Plain) (hp : p.Plain) :
    Inv (s.setWait c p) := by
  obtain ⟨hcs, hce, hcr⟩ := plain_ne hc
  obtain ⟨hs, he, hr⟩ := plain_ne hp
  refine ⟨h.toTally.setWait hcs hs, h.custody.congr (fun d => ?_) ?_, fun hocc => ?_, h.null⟩
  · by_cases hdc : d = c
    · simp [hdc, hs, hcs]
    · simp [hdc]
  · rintro (_ | k | k | d | d) w
    · rfl
    · rfl
    · rfl
    · by_cases hdc : d = c
      · simp [State.holds, hdc, he, hce]
      · simp [State.holds, hdc]
    · by_cases hdc : d = c
      · simp [State.holds, hdc, hr, hcr]
      · simp [State.holds, hdc]
  · exact h.occupied (occupied_of_setWait he hocc)

/-- The CAS of `reset_waiter` withdraws the waiter. -/
lemma Inv.withdraw (h : Inv s) (hc : s.waits c = .resetCas) (hstate : s.mState = .eWaiting) :
    Inv { s.setWait c .exchangeWaiter with mState := .ePending } := by
  have htally := h.toTally.setWait (p := .exchangeWaiter) (c := c) (by simp [hc]) (by simp)
  refine ⟨⟨htally.fault, htally.counts⟩, ?_, fun _ => h.occupied (Or.inl hstate), h.null⟩
  apply h.custody.handOver (g := .registered) (h := .withdrawn c)
  · intro d
    by_cases hdc : d = c
    · simp [hdc, hc]
    · simp [hdc]
  · rintro (_ | k | k | d | d) w
    · simp [State.holds]
    · simp [State.holds]
    · simp [State.holds]
    · by_cases hdc : d = c
      · simp [State.holds, hdc, hstate, hc]
      · simp [State.holds, hdc]
    · by_cases hdc : d = c
      · simp [State.holds, hdc, hc]
      · simp [State.holds, hdc]

/-- While the waiter is withdrawn nobody else has an eye on `m_waiter`. -/
lemma Inv.withdrawn (h : Inv s) (hc : s.waits c = .exchangeWaiter) (hw : s.mWaiter = some w) :
    s.mState ≠ .eWaiting ∧ (∀ k, s.cancels k ≠ .readWaiter) ∧
      ∀ d, s.waits d = .exchangeWaiter → d = c := by
  have hholds : s.holds (.withdrawn c) w := ⟨hc, hw⟩
  refine ⟨fun hs => ?_, fun k hk => ?_, fun d hd => ?_⟩
  · cases h.custody.unique (g := .registered) ⟨hs, hw⟩ hholds
  · cases h.custody.unique (g := .claimed k) ⟨hk, hw⟩ hholds
  · cases h.custody.unique (g := .withdrawn d) ⟨hd, hw⟩ hholds
    rfl

/-- The exchange of `reset_waiter` takes the handle out of `m_waiter`. -/
lemma Inv.take (h : Inv s) (hc : s.waits c = .exchangeWaiter) (hw : s.mWaiter = some w) :
    Inv { s.setWait c (.resumeOld w) with mWaiter := none } := by
  obtain ⟨hstate, hclaimed, honly⟩ := h.withdrawn hc hw
  have htally := h.toTally.setWait (p := .resumeOld w) (c := c) (by simp [hc]) (by simp)
  refine ⟨⟨htally.fault, htally.counts⟩, ?_, fun hocc => ?_, h.null⟩
  · apply h.custody.handOver (g := .withdrawn c) (h := .replacing c)
    · intro d
      by_cases hdc : d = c
      · simp [hdc, hc]
      · simp [hdc]
    · rintro (_ | k | k | d | d) v
      · simp [State.holds, hstate]
      · simp [State.holds, hclaimed k]
      · simp [State.holds]
      · by_cases hdc : d = c
        · simp [State.holds, hdc]
        · have hd : s.waits d ≠ .exchangeWaiter := fun hd => hdc (honly d hd)
          simp [State.holds, hdc, hd]
      · by_cases hdc : d = c
        · simp [State.holds, hdc, hc, hw]
        · simp [State.holds, hdc]
  · rcases hocc with hs | ⟨k, hk⟩ | ⟨d, hd⟩
    · exact absurd hs hstate
    · exact absurd hk (hclaimed k)
    · by_cases hdc : d = c
      · simp [hdc] at hd
      · simp only [setWait_waits, hdc, if_false] at hd
        exact absurd (honly d hd) hdc

/-- The old waiter is resumed. -/
lemma Inv.replace (h : Inv s) (hc : s.waits c = .resumeOld w) :
    Inv ((s.resume (some w)).setWait c .storeWaiter) := by
  have hw : s.waits w = .suspended := h.custody.isOut (h := .replacing c) hc
  have hcw : c ≠ w := by
    rintro rfl
    simp [hc] at hw
  have htally := (h.toTally.resume hw).setWait (p := .storeWaiter) (c := c)
  rw [resume_some hw] at htally ⊢
  refine ⟨htally (by simp [hcw, hc]) (by simp), ?_, fun hocc => ?_, h.null⟩
  · apply h.custody.release (g := .replacing c)
    · intro d
      by_cases hdc : d = c
      · simp [hdc, hc]
      · by_cases hdw : d = w
        · simp [hdw, hcw.symm, State.holds, hc]
        · simp [hdc, hdw, State.holds, hc, Ne.symm hdw]
    · rintro (_ | k | k | d | d) v
      · simp [State.holds]
      · simp [State.holds]
      · simp [State.holds]
      · by_cases hdc : d = c
        · simp [State.holds, hdc, hc]
        · by_cases hdw : d = w
          · simp [State.holds, hdw, hw, hcw.symm]
          · simp [State.holds, hdc, hdw]
      · by_cases hdc : d = c
        · simp [State.holds, hdc]
        · by_cases hdw : d = w
          · simp [State.holds, hdw, hw, hcw.symm]
          · simp [State.holds, hdc, hdw]
  · apply h.occupied
    have hresumed := occupied_of_setWait (by simp) hocc
    exact occupied_of_setWait (by simp) hresumed

/-- `m_waiter` is stored while it is not occupied. -/
lemma Inv.store (h : Inv s) (hc : s.waits c = .storeWaiter) (hfree : ¬s.Occupied) :
    Inv { s.setWait c .setCas with mWaiter := some c } := by
  have hplain : (s.waits c).Plain := by simp [hc, WaitPc.Plain]
  have hmove := h.move (p := .setCas) hplain (by simp [WaitPc.Plain])
  simp only [State.Occupied, not_or, not_exists] at hfree
  obtain ⟨hstate, hclaimed, hwithdrawn⟩ := hfree
  refine ⟨⟨hmove.fault, hmove.counts⟩, ?_, by simp, h.null⟩
  apply hmove.custody.congr
  · intro d
    rfl
  · rintro (_ | k | k | d | d) v
    · simp [State.holds, hstate]
    · simp [State.holds, hclaimed k]
    · rfl
    · by_cases hdc : d = c
      · simp [State.holds, hdc]
      · simp [State.holds, hdc, hwithdrawn d]
    · rfl

/-- The CAS of `set_cancel_waiter` registers the coroutine. -/
lemma Inv.register (h : Inv s) (hc : s.waits c = .setCas) (hstate : s.mState = .ePending)
    (hw : s.mWaiter = some c) : Inv (s.suspend c) := by
  have hcs : s.waits c ≠ .suspended := by simp [hc]
  refine ⟨h.toTally.suspend hcs, ?_, by simp [hw], h.null⟩
  apply h.custody.acquire (h := .registered) hcs
  · intro d
    by_cases hdc : d = c
    · simp [hdc]
    · simp [hdc]
  · rintro (_ | k | k | d | d) v
    · simp [State.holds, hstate, hw, eq_comm]
    · simp [State.holds]
    · simp [State.holds]
    · by_cases hdc : d = c
      · simp [State.holds, hdc, hc]
      · simp [State.holds, hdc]
    · by_cases hdc : d = c
      · simp [State.holds, hdc, hc]
      · simp [State.holds, hdc]

lemma Inv.wait (h : Inv s) (horderly : Orderly s (.wait c : Action C K))
    (hs : waitStep s c = some s') : Inv s' := by
  obtain ⟨hstore, hregister⟩ := horderly
  cases hpc : s.waits c with
  | resetCas =>
    simp only [waitStep, hpc, Option.some.injEq] at hs
    subst hs
    split_ifs with hstate
    · exact h.withdraw hpc hstate
    · apply h.move <;> simp [hpc, WaitPc.Plain]
  | exchangeWaiter =>
    obtain ⟨w, hw⟩ := Option.ne_none_iff_exists'.mp (h.occupied (Or.inr (Or.inr ⟨c, hpc⟩)))
    simp only [waitStep, hpc, hw, Option.some.injEq] at hs
    subst hs
    exact h.take hpc hw
  | resumeOld w =>
    simp only [waitStep, hpc, Option.some.injEq] at hs
    subst hs
    exact h.replace hpc
  | storeWaiter =>
    simp only [waitStep, hpc, Option.some.injEq] at hs
    subst hs
    exact h.store hpc (hstore hpc)
  | setCas =>
    simp only [waitStep, hpc, Option.some.injEq] at hs
    subst hs
    split_ifs with hstate
    · exact h.register hpc hstate (hregister hpc hstate)
    · apply h.move <;> simp [hpc, WaitPc.Plain]
  | running | suspended => simp [waitStep, hpc] at hs

lemma Inv.waitCancel (h : Inv s) (hs : waitCancel s c = some s') : Inv s' := by
  cases hpc : s.waits c <;>
    simp only [Cancel.waitCancel, hpc, reduceCtorEq, Option.some.injEq] at hs
  subst hs
  split_ifs
  · exact h
  · apply h.move <;> simp [hpc, WaitPc.Plain]

section cancel
variable [DecidableEq K]

omit [DecidableEq C] in
lemma null_setCancel (h : ∀ l, s.cancels l ≠ .resume none) {p : CancelPc C}
    (hp : p ≠ .resume none) (l : K) : (s.setCancel k p).cancels l ≠ .resume none := by
  simp only [setCancel_cancels]
  split_ifs
  · exact hp
  · exact h l

/-- A step of `cancel` that has nothing to do with handles. -/
lemma Inv.cancelMove (h : Inv s) {pc : CancelPc C} {m : CancelState} {b : Bool}
    (hk : (s.cancels k).Plain) (hpc : pc.Plain) (hm : m = .eWaiting ↔ s.mState = .eWaiting) :
    Inv { s.setCancel k pc with mState := m, canceled := b } := by
  obtain ⟨hkr, hkw⟩ := cancelPlain_ne hk
  obtain ⟨hr, hw⟩ := cancelPlain_ne hpc
  refine ⟨⟨h.fault, h.counts⟩, h.custody.congr (fun d => Iff.rfl) ?_, fun hocc => ?_,
    null_setCancel h.null (hw none)⟩
  · rintro (_ | l | l | d | d) w
    · simp [State.holds, hm]
    · by_cases hl : l = k
      · simp [State.holds, hl, hr, hkr]
      · simp [State.holds, hl]
    · by_cases hl : l = k
      · simp [State.holds, hl, hw, hkw]
      · simp [State.holds, hl]
    · rfl
    · rfl
  · apply h.occupied
    rcases hocc with hs | ⟨l, hl⟩ | hd
    · exact Or.inl (hm.mp hs)
    · simp only [setCancel_cancels] at hl
      split_ifs at hl
      · exact absurd hl hr
      · exact Or.inr (Or.inl ⟨l, hl⟩)
    · exact Or.inr (Or.inr hd)

/-- The exchange of `cancel` claims the waiter. -/
lemma Inv.claim (h : Inv s) (hk : s.cancels k = .exchangeState) (hstate : s.mState = .eWaiting) :
    Inv { s.setCancel k .readWaiter with mState := .eCanceled } := by
  refine ⟨⟨h.fault, h.counts⟩, ?_, fun _ => h.occupied (Or.inl hstate),
    null_setCancel h.null (by simp)⟩
  apply h.custody.handOver (g := .registered) (h := .claimed k)
  · intro d
    rfl
  · rintro (_ | l | l | d | d) w
    · simp [State.holds]
    · by_cases hl : l = k
      · simp [State.holds, hl, hstate, hk]
      · simp [State.holds, hl]
    · by_cases hl : l = k
      · simp [State.holds, hl, hk]
      · simp [State.holds, hl]
    · simp [State.holds]
    · simp [State.holds]

/-- `cancel` reads the handle that it has claimed. -/
lemma Inv.read (h : Inv s) (hk : s.cancels k = .readWaiter) :
    Inv (s.setCancel k (.resume s.mWaiter)) := by
  have hw := h.occupied (Or.inr (Or.inl ⟨k, hk⟩))
  refine ⟨⟨h.fault, h.counts⟩, ?_, fun _ => hw, null_setCancel h.null (by simp [hw])⟩
  apply h.custody.handOver (g := .claimed k) (h := .canceling k)
  · intro d
    rfl
  · rintro (_ | l | l | d | d) w
    · simp [State.holds]
    · by_cases hl : l = k
      · simp [State.holds, hl]
      · simp [State.holds, hl]
    · by_cases hl : l = k
      · simp [State.holds, hl, hk]
      · simp [State.holds, hl]
    · simp [State.holds]
    · simp [State.holds]

/-- `cancel` resumes the waiter. -/
lemma Inv.resume (h : Inv s) (hk : s.cancels k = .resume (some w)) :
    Inv ((s.resume (some w)).setCancel k (.ret true)) := by
  have hw : s.waits w = .suspended := h.custody.isOut (h := .canceling k) hk
  have htally := h.toTally.resume hw
  rw [resume_some hw] at htally ⊢
  refine ⟨⟨htally.fault, htally.counts⟩, ?_, fun hocc => ?_, null_setCancel h.null (by simp)⟩
  · apply h.custody.release (g := .canceling k)
    · intro d
      by_cases hdw : d = w
      · simp [hdw, State.holds, hk]
      · simp [hdw, State.holds, hk, Ne.symm hdw]
    · rintro (_ | l | l | d | d) v
      · simp [State.holds]
      · by_cases hl : l = k
        · simp [State.holds, hl, hk]
        · simp [State.holds, hl]
      · by_cases hl : l = k
        · simp [State.holds, hl]
        · simp [State.holds, hl]
      · by_cases hdw : d = w
        · simp [State.holds, hdw, hw]
        · simp [State.holds, hdw]
      · by_cases hdw : d = w
        · simp [State.holds, hdw, hw]
        · simp [State.holds, hdw]
  · apply h.occupied
    rcases hocc with hs | ⟨l, hl⟩ | ⟨d, hd⟩
    · exact Or.inl hs
    · simp only [setCancel_cancels] at hl
      split_ifs at hl
      exact Or.inr (Or.inl ⟨l, hl⟩)
    · simp only [setCancel_waits, setWait_waits] at hd
      split_ifs at hd
      exact Or.inr (Or.inr ⟨d, hd⟩)

lemma Inv.cancel (h : Inv s) (hs : cancelStep s k = some s') : Inv s' := by
  cases hpc : s.cancels k with
  | exchangeState =>
    simp only [cancelStep, hpc, Option.some.injEq] at hs
    subst hs
    cases hstate : s.mState with
    | eWaiting => exact h.claim hpc hstate
    | ePending | eCanceled => apply h.cancelMove <;> simp [hpc, hstate, CancelPc.Plain]
  | readWaiter =>
    simp only [cancelStep, hpc, Option.some.injEq] at hs
    subst hs
    exact h.read hpc
  | resume waiter =>
    simp only [cancelStep, hpc, Option.some.injEq] at hs
    subst hs
    cases waiter with
    | none => exact absurd hpc (h.null k)
    | some w => exact h.resume hpc
  | ret canceled =>
    simp only [cancelStep, hpc, Option.some.injEq] at hs
    subst hs
    apply h.cancelMove <;> simp [hpc, CancelPc.Plain]
  | idle => simp [cancelStep, hpc] at hs

lemma Inv.callCancel (h : Inv s) (hs : callCancel s k = some s') : Inv s' := by
  cases hpc : s.cancels k <;>
    simp only [Cancel.callCancel, hpc, reduceCtorEq, Option.some.injEq] at hs
  subst hs
  apply h.cancelMove <;> simp [hpc, CancelPc.Plain]

lemma Inv.step (h : Inv s) {a : Action C K} (ha : Orderly s a) (hs : step s a = some s') :
    Inv s' := by
  cases a with
  | waitCancel c => exact h.waitCancel hs
  | wait c => exact h.wait ha hs
  | callCancel k => exact h.callCancel hs
  | cancel k => exact h.cancel hs

lemma reaches_inv (h : (system C K).Reaches Orderly s) : Inv s :=
  h.invariant init_inv fun _ _ _ _ hinv ha hs => hinv.step ha hs

end cancel

end Scoro.Cancel

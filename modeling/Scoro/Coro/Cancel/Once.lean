import Scoro.Coro.Cancel.Custody

/-!
# `wait_cancel` is resumed once

The call of `cancel` that returns true leaves no handle behind. A handle that is overwritten, or
never stored, leaves its coroutine suspended in every continuation of the run.
-/

namespace Scoro.Cancel
open Scoro.Lib

variable {C K : Type*} {s s' : State C K} {c d w : C} {k l : K}

/-- The calls of `cancel` that return true. -/
def CancelPc.succeeds : CancelPc C → Bool
  | .readWaiter | .resume _ | .ret true => true
  | .idle | .exchangeState | .ret false => false

/-- No call of `wait_cancel` is in progress. -/
def State.Settled (s : State C K) : Prop :=
  ∀ c, s.waits c = .running ∨ s.waits c = .suspended

/-! ### The call of `cancel` that returns true -/

/-- At most one call of `cancel` returns true. -/
structure Single (s : State C K) : Prop where
  state : ∀ k, (s.cancels k).succeeds = true → s.mState = .eCanceled
  unique : ∀ k l, (s.cancels k).succeeds = true → (s.cancels l).succeeds = true → k = l
  canceled : s.canceled = true → s.mState = .eCanceled ∧ ∀ k, (s.cancels k).succeeds = false

lemma init_single : Single (init C K) := by
  refine ⟨?_, ?_, ?_⟩ <;> simp [init, CancelPc.succeeds]

lemma Single.frame (h : Single s) (hcancels : ∀ l, (s'.cancels l).succeeds = (s.cancels l).succeeds)
    (hcanceled : s'.canceled = s.canceled)
    (hstate : s.mState = .eCanceled → s'.mState = .eCanceled) : Single s' := by
  refine ⟨fun k hk => ?_, fun k l hk hl => ?_, fun hc => ?_⟩
  · exact hstate (h.state k (hcancels k ▸ hk))
  · exact h.unique k l (hcancels k ▸ hk) (hcancels l ▸ hl)
  · obtain ⟨hs, hnone⟩ := h.canceled (hcanceled ▸ hc)
    exact ⟨hstate hs, fun k => hcancels k ▸ hnone k⟩

section cancel
variable [DecidableEq K]

/-- The call of `cancel` goes on and keeps its result. -/
lemma Single.setCancel (h : Single s) {pc : CancelPc C}
    (hpc : pc.succeeds = (s.cancels k).succeeds) : Single (s.setCancel k pc) := by
  apply h.frame
  · intro l
    by_cases hl : l = k
    · simp [hl, hpc]
    · simp [hl]
  · rfl
  · exact id

/-- Only the call whose exchange finds the promise not canceled can return true. -/
lemma Single.exchange (h : Single s) {pc : CancelPc C}
    (hpc : pc.succeeds = true → s.mState ≠ .eCanceled) :
    Single { s.setCancel k pc with mState := .eCanceled } := by
  refine ⟨fun _ _ => rfl, fun l m hl hm => ?_, fun hc => ⟨rfl, fun l => ?_⟩⟩
  · simp only [setCancel_cancels] at hl hm
    split_ifs at hl hm with hlk hmk
    · exact hlk.trans hmk.symm
    · exact absurd (h.state m hm) (hpc hl)
    · exact absurd (h.state l hl) (hpc hm)
    · exact h.unique l m hl hm
  · obtain ⟨hstate, hnone⟩ := h.canceled hc
    simp only [setCancel_cancels]
    split_ifs
    · exact Bool.eq_false_of_not_eq_true fun hp => hpc hp hstate
    · exact hnone l

lemma Single.ret (h : Single s) {canceled : Bool} (hk : s.cancels k = .ret canceled) :
    Single { s.setCancel k .idle with canceled := s.canceled || canceled } := by
  have hnone : ∀ l, (s.cancels k).succeeds = true →
      ((s.setCancel k .idle).cancels l).succeeds = false := by
    intro l hsucc
    simp only [setCancel_cancels]
    split_ifs with hl
    · rfl
    · exact Bool.eq_false_of_not_eq_true fun hl' => hl (h.unique l k hl' hsucc)
  refine ⟨fun l hl => ?_, fun l m hl hm => ?_, fun hc => ?_⟩
  · simp only [setCancel_cancels] at hl
    split_ifs at hl
    · simp [CancelPc.succeeds] at hl
    · exact h.state l hl
  · simp only [setCancel_cancels] at hl hm
    split_ifs at hl hm
    · simp [CancelPc.succeeds] at hl
    · simp [CancelPc.succeeds] at hl
    · simp [CancelPc.succeeds] at hm
    · exact h.unique l m hl hm
  · cases canceled with
    | true =>
      have hsucc : (s.cancels k).succeeds = true := by simp [hk, CancelPc.succeeds]
      exact ⟨h.state k hsucc, fun l => hnone l hsucc⟩
    | false =>
      obtain ⟨hstate, hall⟩ := h.canceled (by simpa using hc)
      refine ⟨hstate, fun l => ?_⟩
      simp only [setCancel_cancels]
      split_ifs
      · rfl
      · exact hall l

end cancel

section wait
variable [DecidableEq C]

/-- Once `cancel` has returned true, only a call of `wait_cancel` can hold a handle. -/
lemma Single.not_suspended (h : Single s) (hinv : Inv s) (hcanceled : s.canceled = true)
    (hsettled : s.Settled) (c : C) : s.waits c ≠ .suspended := by
  obtain ⟨hstate, hnone⟩ := h.canceled hcanceled
  intro hc
  obtain ⟨g, hg⟩ := hinv.custody.held hc
  cases g with
  | registered => simp [State.holds, hstate] at hg
  | claimed k =>
    have hk := hnone k
    simp [hg.1, CancelPc.succeeds] at hk
  | canceling k =>
    have hk := hnone k
    simp only [State.holds] at hg
    simp [hg, CancelPc.succeeds] at hk
  | withdrawn d =>
    have hd := hsettled d
    simp [hg.1] at hd
  | replacing d =>
    have hd := hsettled d
    simp only [State.holds] at hg
    simp [hg] at hd

end wait

section step
variable [DecidableEq C] [DecidableEq K]

lemma Single.cancel (h : Single s) (hs : cancelStep s k = some s') : Single s' := by
  cases hpc : s.cancels k <;> simp only [cancelStep, hpc, reduceCtorEq, Option.some.injEq] at hs <;>
    subst hs
  case exchangeState =>
    apply h.exchange
    cases hstate : s.mState <;> simp [CancelPc.succeeds]
  case readWaiter =>
    apply h.setCancel
    simp [hpc, CancelPc.succeeds]
  case resume waiter =>
    obtain ⟨hcancels, hcanceled, hstate⟩ := resume_frame (s := s) waiter
    have hres : Single (s.resume waiter) :=
      h.frame (fun l => by rw [hcancels]) hcanceled fun h => hstate.trans h
    apply hres.setCancel
    simp [hcancels, hpc, CancelPc.succeeds]
  case ret canceled => exact h.ret hpc

lemma Single.step (h : Single s) {a : Action C K} (hs : step s a = some s') : Single s' := by
  cases a with
  | waitCancel c =>
    cases hpc : s.waits c <;>
      simp only [Cancel.step, Cancel.waitCancel, hpc, reduceCtorEq, Option.some.injEq] at hs
    subst hs
    split_ifs
    · exact h
    · exact h.frame (fun _ => rfl) rfl id
  | wait c =>
    obtain ⟨hcancels, hcanceled, hstate⟩ := waitStep_frame hs
    exact h.frame (fun l => by rw [hcancels]) hcanceled hstate
  | callCancel k =>
    cases hpc : s.cancels k <;>
      simp only [Cancel.step, Cancel.callCancel, hpc, reduceCtorEq, Option.some.injEq] at hs
    subst hs
    apply h.setCancel
    simp [hpc, CancelPc.succeeds]
  | cancel k => exact h.cancel hs

lemma reaches_single (h : (system C K).Reaches Orderly s) : Single s :=
  h.invariant init_single fun _ _ _ _ hsingle _ hs => hsingle.step hs

end step

/-! ### Orphans -/

/-- A suspended coroutine whose handle nobody has. -/
structure Orphan (s : State C K) (w : C) : Prop where
  suspended : s.waits w = .suspended
  waiter : s.mWaiter ≠ some w
  cancels : ∀ k, s.cancels k ≠ .resume (some w)
  waits : ∀ c, s.waits c ≠ .resumeOld w

section wait
variable [DecidableEq C]

/-- The handle in `m_waiter` is the only one of a coroutine that is suspended. -/
lemma Inv.occupant (h : Inv s) (hocc : s.Occupied) : ∃ w, s.waits w = .suspended ∧
    (∀ k, s.cancels k ≠ .resume (some w)) ∧ ∀ c, s.waits c ≠ .resumeOld w := by
  obtain ⟨w, hw⟩ := Option.ne_none_iff_exists'.mp (h.occupied hocc)
  obtain ⟨g, hg, hcanceling, hreplacing⟩ : ∃ g, s.holds g w ∧ (∀ k, g ≠ .canceling k) ∧
      ∀ c, g ≠ .replacing c := by
    rcases hocc with hs | ⟨k, hk⟩ | ⟨d, hd⟩
    · exact ⟨.registered, ⟨hs, hw⟩, by simp, by simp⟩
    · exact ⟨.claimed k, ⟨hk, hw⟩, by simp, by simp⟩
    · exact ⟨.withdrawn d, ⟨hd, hw⟩, by simp, by simp⟩
  refine ⟨w, h.custody.isOut hg, fun k hk => ?_, fun c hc => ?_⟩
  · exact hcanceling k (h.custody.unique (h := .canceling k) hg hk)
  · exact hreplacing c (h.custody.unique (h := .replacing c) hg hc)

lemma Orphan.setWait (h : Orphan s w) {p : WaitPc C} (hc : c ≠ w) (hp : p ≠ .resumeOld w) :
    Orphan (s.setWait c p) w := by
  refine ⟨by simp [hc.symm, h.suspended], h.waiter, h.cancels, fun d => ?_⟩
  simp only [setWait_waits]
  split_ifs
  · exact hp
  · exact h.waits d

lemma Orphan.resume (h : Orphan s w) {waiter : Option C} (hw : waiter ≠ some w) :
    Orphan (s.resume waiter) w := by
  cases waiter with
  | none => exact ⟨h.suspended, h.waiter, h.cancels, h.waits⟩
  | some c =>
    have hc : c ≠ w := fun hc => hw (congrArg some hc)
    have hcounted : Orphan
        { s with resumes := Function.update s.resumes c (s.resumes c + 1) } w :=
      ⟨h.suspended, h.waiter, h.cancels, h.waits⟩
    simp only [State.resume]
    split_ifs
    · exact hcounted.setWait hc (by simp)
    · exact ⟨h.suspended, h.waiter, h.cancels, h.waits⟩

lemma Orphan.wait (h : Orphan s w) (hs : waitStep s c = some s') : Orphan s' w := by
  have hc : c ≠ w := by
    rintro rfl
    simp [waitStep, h.suspended] at hs
  cases hpc : s.waits c <;> simp only [waitStep, hpc, reduceCtorEq, Option.some.injEq] at hs <;>
    subst hs
  case resetCas =>
    split_ifs
    · have hset := h.setWait hc (p := .exchangeWaiter) (by simp)
      exact ⟨hset.suspended, hset.waiter, hset.cancels, hset.waits⟩
    · exact h.setWait hc (by simp)
  case exchangeWaiter =>
    cases hold : s.mWaiter with
    | none => exact h.setWait hc (by simp)
    | some old =>
      have hold' : old ≠ w := fun heq => h.waiter (heq ▸ hold)
      have hset := h.setWait hc (p := .resumeOld old) (by simp [hold'])
      exact ⟨hset.suspended, by simp, hset.cancels, hset.waits⟩
  case resumeOld old =>
    have hold : some old ≠ some w := fun heq => h.waits c (Option.some.inj heq ▸ hpc)
    exact (h.resume hold).setWait hc (by simp)
  case storeWaiter =>
    have hset := h.setWait hc (p := .setCas) (by simp)
    exact ⟨hset.suspended, by simp [hc], hset.cancels, hset.waits⟩
  case setCas =>
    split_ifs
    · have hset := h.setWait hc (p := .suspended) (by simp)
      exact ⟨hset.suspended, hset.waiter, hset.cancels, hset.waits⟩
    · exact h.setWait hc (by simp)

end wait

lemma Orphan.setCancel [DecidableEq K] (h : Orphan s w) {p : CancelPc C}
    (hp : p ≠ .resume (some w)) :
    Orphan (s.setCancel k p) w := by
  refine ⟨h.suspended, h.waiter, fun l => ?_, h.waits⟩
  simp only [setCancel_cancels]
  split_ifs
  · exact hp
  · exact h.cancels l

section step
variable [DecidableEq C] [DecidableEq K]

lemma Orphan.cancel (h : Orphan s w) (hs : cancelStep s k = some s') : Orphan s' w := by
  cases hpc : s.cancels k <;> simp only [cancelStep, hpc, reduceCtorEq, Option.some.injEq] at hs <;>
    subst hs
  case exchangeState =>
    have hset : ∀ pc, pc ≠ .resume (some w) → Orphan (s.setCancel k pc) w :=
      fun pc hpc => h.setCancel hpc
    cases s.mState with
    | ePending | eCanceled | eWaiting =>
      exact ⟨h.suspended, h.waiter, (hset _ (by simp)).cancels, h.waits⟩
  case readWaiter =>
    apply h.setCancel
    simp [h.waiter]
  case resume waiter =>
    have hw : waiter ≠ some w := fun heq => h.cancels k (heq ▸ hpc)
    exact (h.resume hw).setCancel (by simp)
  case ret canceled =>
    have hset := h.setCancel (k := k) (p := .idle) (by simp)
    exact ⟨hset.suspended, hset.waiter, hset.cancels, hset.waits⟩

/-- Nobody can resume an orphan any more. -/
lemma Orphan.step (h : Orphan s w) {a : Action C K} (hs : step s a = some s') : Orphan s' w := by
  cases a with
  | waitCancel c =>
    have hc : c ≠ w := by
      rintro rfl
      simp [Cancel.step, waitCancel, h.suspended] at hs
    cases hpc : s.waits c <;>
      simp only [Cancel.step, waitCancel, hpc, reduceCtorEq, Option.some.injEq] at hs
    subst hs
    split_ifs
    · exact h
    · exact h.setWait hc (by simp)
  | wait c => exact h.wait hs
  | callCancel k =>
    cases hpc : s.cancels k <;>
      simp only [Cancel.step, callCancel, hpc, reduceCtorEq, Option.some.injEq] at hs
    subst hs
    exact h.setCancel (by simp)
  | cancel k => exact h.cancel hs

/-- A store that overwrites a handle, and a registration without one, strand a coroutine. -/
lemma orphan_of_not_orderly (h : Inv s) {a : Action C K} (ha : ¬Orderly s a)
    (hs : step s a = some s') : ∃ w, Orphan s' w := by
  cases a with
  | wait c =>
    simp only [Orderly, not_and_or, Classical.not_imp, not_not] at ha
    rcases ha with ⟨hc, hocc⟩ | ⟨hc, hstate, hw⟩
    · simp only [step, waitStep, hc, Option.some.injEq] at hs
      subst hs
      obtain ⟨w, hw, hcancels, hwaits⟩ := h.occupant hocc
      have hwc : w ≠ c := by
        rintro rfl
        simp [hc] at hw
      refine ⟨w, by simp [hwc, hw], by simp [hwc.symm], hcancels, fun d => ?_⟩
      simp only [setWait_waits]
      split_ifs
      · simp
      · exact hwaits d
    · simp only [step, waitStep, hc, hstate, if_true, Option.some.injEq] at hs
      subst hs
      have hheld : ∀ g, ¬s.holds g c := by
        intro g hg
        have hout := h.custody.isOut hg
        simp [hc] at hout
      refine ⟨c, by simp, hw, fun k => hheld (.canceling k), fun d => ?_⟩
      simp only [suspend_waits]
      split_ifs
      · simp
      · exact hheld (.replacing d)
  | waitCancel _ | callCancel _ | cancel _ => simp [Orderly] at ha

/-- While the steps are orderly each suspended coroutine has one handle, it is resumed once, and
none is left when `cancel` has returned true. A step that is not orderly leaves a coroutine
suspended for good. -/
theorem wait_cancel_iff (h : (system C K).Reaches Orderly s) :
    (s.fault = false ∧
      (∀ c, s.suspensions c = s.resumes c + if s.waits c = .suspended then 1 else 0) ∧
      (∀ c, s.waits c = .suspended → ∃! g, s.holds g c) ∧
      (s.canceled = true → s.Settled → ∀ c, s.waits c ≠ .suspended)) ∧
    ∀ a s', step s a = some s' → ¬Orderly s a →
      ∃ w, ∀ as t, (system C K).exec (fun _ _ => True) s' as = some t → t.waits w = .suspended := by
  have hinv := reaches_inv h
  refine ⟨⟨hinv.fault, hinv.counts, fun c hc => ?_, ?_⟩, fun a s' hs ha => ?_⟩
  · exact hinv.custody.existsUnique hc
  · exact (reaches_single h).not_suspended hinv
  · obtain ⟨w, hw⟩ := orphan_of_not_orderly hinv ha hs
    refine ⟨w, fun as t ht => ?_⟩
    have hlast := System.exec_invariant (I := fun t => Orphan t w)
      (fun _ _ _ hu _ hs => hu.step hs) hw ht
    exact hlast.suspended

end step

/-- A second coroutine stores its handle after `cancel` has claimed the first one, which stays
suspended, and is resumed before it is suspended itself. -/
theorem wait_cancel_strands : ∃ s : State (Fin 2) (Fin 1),
    (system (Fin 2) (Fin 1)).Reachable s ∧ s.fault = true ∧ s.canceled = true ∧
      s.Settled ∧ s.waits 0 = .suspended := by
  obtain ⟨s, hs, hfault, hcanceled, hzero, hone⟩ :=
    System.exists_reaches (S := system (Fin 2) (Fin 1)) (fun _ _ => True)
    (fun s => s.fault = true ∧ s.canceled = true ∧ s.waits 0 = .suspended ∧ s.waits 1 = .running)
    [.waitCancel 0, .wait 0, .wait 0, .wait 0, .waitCancel 1, .callCancel 0, .cancel 0, .wait 1,
      .wait 1, .cancel 0, .cancel 0, .cancel 0, .wait 1] (by decide)
  refine ⟨s, hs, hfault, hcanceled, fun c => ?_, hzero⟩
  fin_cases c
  · exact Or.inr hzero
  · exact Or.inl hone

/-- The second coroutine replaces the first one and is resumed by `cancel`. -/
theorem wait_cancel_resumes : ∃ s : State (Fin 2) (Fin 1), s.fault = false ∧ s.canceled = true ∧
    s.resumes 0 = 1 ∧ s.resumes 1 = 1 := by
  obtain ⟨s, hs, hcanceled, hzero, hone⟩ :=
    System.exists_reaches (S := system (Fin 2) (Fin 1)) Orderly
    (fun s => s.canceled = true ∧ s.resumes 0 = 1 ∧ s.resumes 1 = 1)
    [.waitCancel 0, .wait 0, .wait 0, .wait 0, .waitCancel 1, .wait 1, .wait 1, .wait 1, .wait 1,
      .wait 1, .callCancel 0, .cancel 0, .cancel 0, .cancel 0, .cancel 0] (by decide)
  exact ⟨s, (wait_cancel_iff hs).1.1, hcanceled, hzero, hone⟩

end Scoro.Cancel

import Scoro.Coro.Composition.Outcome

/-!
# No coroutine is lost

The coroutine on top of the control stack can always go on. When nothing runs and nobody has the
handle of a suspended coroutine any more, all bodies have ended and all frames are destroyed, but
for those whose `Future` is held outside.
-/

namespace Scoro.Composition
open Scoro.Lib

variable {L V E κ : Type*} {P : Program L V E κ} {world : L → Except E V} {moved : V → V}
  {s : State L V E κ} {owner : Frame → Owner} {f g : Frame} {c d : Coroutine L V E κ}
  {rest : List (Frame × Role E)}

/-- The instruction of a running coroutine can be executed. -/
lemma Inv.execute_enabled (h : Inv P s owner) (hf : s.frames f = some c) {k : κ}
    (hpc : c.pc = .running k) (ready : Bool) :
    ∃ s', Composition.execute P world s f c rest ready k = some s' := by
  have hcode := h.scoped hf hpc
  unfold Composition.execute
  cases hk : P.code k with
  | ret v => exact ⟨_, rfl⟩
  | throw e => exact ⟨_, rfl⟩
  | call nothrow body next => exact ⟨_, rfl⟩
  | await i next =>
    rw [hk] at hcode
    have hi : i < c.futures.length := hcode.1
    obtain ⟨d, hg, -⟩ := h.child hf (List.getElem_mem hi)
    simp only [List.getElem?_eq_getElem hi, hg]
    split <;> exact ⟨_, rfl⟩
  | perform l next =>
    dsimp only
    split <;> exact ⟨_, rfl⟩
  | drop next =>
    rw [hk] at hcode
    have hne : c.futures ≠ [] := by
      intro hnil
      rw [hnil] at hcode
      cases hcode
    simp only [List.getLast?_eq_some_getLast hne]
    exact ⟨_, rfl⟩

/-- The caller that is stored in a live frame exists. -/
lemma Inv.finalStep_enabled (h : Inv P s owner) (hf : s.frames f = some c) {e : Option E}
    (hpc : c.pc = .ending e) : ∃ s', Composition.finalStep s f c rest e = some s' := by
  unfold Composition.finalStep
  split
  · exact ⟨_, rfl⟩
  · split
    · exact ⟨_, rfl⟩
    · exact ⟨_, rfl⟩
    · exact ⟨_, rfl⟩
    · split
      · exact ⟨_, rfl⟩
      · rename_i p hcaller
        have hlive : s.live f = true := by
          rw [State.live_eq hf, hpc]
          rfl
        have htarget := (h.handshake.link f p hlive).mp (by rw [State.caller_eq hf, hcaller])
        obtain ⟨d, hp, -⟩ := Option.bind_eq_some_iff.mp htarget
        simp only [hp]
        split <;> exact ⟨_, rfl⟩

lemma destroyStep_enabled : ∃ s', destroyStep s f c rest = some s' := by
  unfold destroyStep
  split
  any_goals exact ⟨_, rfl⟩
  all_goals
    split <;> exact ⟨_, rfl⟩

lemma Inv.runStep_enabled (h : Inv P s owner) (hstack : s.stack ≠ []) (ready : Bool) :
    ∃ s', runStep P world moved s ready = some s' := by
  obtain ⟨⟨f, role⟩, rest, hstack⟩ := List.exists_cons_of_ne_nil hstack
  obtain ⟨c, hf, hrole⟩ := h.top hstack
  unfold runStep
  simp only [hstack, hf]
  cases role with
  | body =>
    rcases Coroutine.role_body hrole with ⟨k, hpc⟩ | ⟨g, next, hpc⟩
    · simp only [hpc]
      exact h.execute_enabled hf hpc ready
    · simp only [hpc]
      have hdone := (h.handshake.resumes f g (by rw [State.resumes_eq hf, hpc]; rfl)).2
      obtain ⟨d, hg, -⟩ := (Option.any_eq_true _ _).mp hdone
      unfold Composition.awaitResume
      simp only [hg]
      split <;> exact ⟨_, rfl⟩
  | final e =>
    exact h.finalStep_enabled hf (Coroutine.role_final hrole)
  | destroy =>
    dsimp only
    exact destroyStep_enabled

/-- When nothing runs and nothing is registered, every body has ended: a coroutine that awaits is
older than the one it awaits. -/
lemma Inv.all_ended (h : Inv P s owner) (hstack : s.stack = [])
    (hidle : ∀ f c, s.frames f = some c → c.registered = false) (f : Frame)
    (c : Coroutine L V E κ) (hf : s.frames f = some c) : c.pc.ended = true := by
  induction hn : s.count - f using Nat.strong_induction_on generalizing f c with
  | _ n ih =>
    have hlocal := h.frames f c hf
    have hplace : c.role (owner f) = none := by
      have hnone := (hstack ▸ h.stack).of_nil f
      rwa [State.place, hf] at hnone
    have hlt : f < s.count := by
      rw [← not_le, ← h.alloc f, hf]
      simp
    unfold Coroutine.role at hplace
    cases hpc : c.pc with
    | running k => simp [hpc] at hplace
    | awaitResume g next => simp [hpc] at hplace
    | ending e => simp [hpc] at hplace
    | operation l next =>
      have hreg := hlocal.registered
      rw [hidle f c hf, hpc] at hreg
      cases hreg
    | awaiting g next =>
      obtain ⟨howner, hlive⟩ := h.handshake.target f g (by rw [State.target_eq hf, hpc]; rfl)
      cases hg : s.frames g with
      | none => simp [State.live, hg] at hlive
      | some d =>
        have hfg := (h.frames g d hg).lt f howner
        have hcloser : s.count - g < n := hn ▸ Nat.sub_lt_sub_left hlt hfg
        have hended := ih _ hcloser g d hg rfl
        rw [State.live_eq hg, hended] at hlive
        cases hlive
    | done => rfl
    | destroyed => rfl

/-- Of the frames that are left, the `Future`s are held outside. -/
lemma Inv.all_released (h : Inv P s owner) (hstack : s.stack = [])
    (hidle : ∀ f c, s.frames f = some c → c.registered = false) (hf : s.frames f = some c) :
    c.pc = if f ∈ s.roots then .done else .destroyed := by
  have hlocal := h.frames f c hf
  have hended := h.all_ended hstack hidle f c hf
  have hplace : c.role (owner f) = none := by
    have hnone := (hstack ▸ h.stack).of_nil f
    rwa [State.place, hf] at hnone
  split
  · rename_i hroot
    have howner := (h.roots.2 f).mp hroot
    have hnobody := hlocal.nobody.not.mp (by rw [howner]; simp)
    cases hpc : c.pc <;> simp_all [FramePc.ended, FramePc.isDestroyed]
  · rename_i hroot
    cases howner : owner f with
    | nobody =>
      rcases hlocal.nobody.mp howner with hkind | hdestroyed
      · have hdone := hlocal.detached hkind
        cases hpc : c.pc <;> simp_all [FramePc.ended, FramePc.isDone]
      · cases hpc : c.pc <;> simp_all [FramePc.isDestroyed]
    | outside => exact absurd ((h.roots.2 f).mpr howner) hroot
    | nested p =>
      have hlt := hlocal.lt p howner
      cases hp : s.frames p with
      | none =>
        have := (h.alloc p).mp hp
        have hnone := (h.alloc f).mpr (this.trans hlt.le)
        rw [hf] at hnone
        cases hnone
      | some d =>
        have hmem := ((h.frames p d hp).nested f).mpr howner
        rw [(h.frames p d hp).ended (h.all_ended hstack hidle p d hp)] at hmem
        cases hmem
    | dying =>
      rw [Coroutine.role, FramePc.eq_done (hlocal.dying howner), howner] at hplace
      cases hplace

/-- Nothing runs any more. Each coroutine has ended as in direct style, and its frame is destroyed,
once, or its `Future` is held outside and gives the outcome. -/
def Finished (P : Program L V E κ) (world : L → Except E V) (moved : V → V)
    (s : State L V E κ) : Prop :=
  s.stack = [] ∧ ∀ f c, s.frames f = some c →
    (∃ r, c.outcome = some r ∧ Evaluates P world moved c.body [] c.operations r) ∧
    if f ∈ s.roots then c.pc = .done ∧ c.promise.get = c.outcome ∧ c.destroyed = 0
    else c.pc = .destroyed ∧ c.destroyed = 1

lemma Inv.finished (h : Inv P s owner) (hmeaningful : Meaningful P world moved s)
    (hstack : s.stack = []) (hidle : ∀ f c, s.frames f = some c → c.registered = false) :
    Finished P world moved s := by
  refine ⟨hstack, fun f c hf => ⟨hmeaningful.outcome hf (h.all_ended hstack hidle f c hf), ?_⟩⟩
  have hpc := h.all_released hstack hidle hf
  have hdestroyed := (h.frames f c hf).destroyed
  split at hpc <;> rename_i hroot <;> rw [hpc] at hdestroyed
  · rw [if_pos hroot]
    have houtside := (h.frames f c hf).outside ((h.roots.2 f).mp hroot) (by rw [hpc]; rfl)
    exact ⟨hpc, houtside, hdestroyed⟩
  · rw [if_neg hroot]
    exact ⟨hpc, hdestroyed⟩

lemma Inv.run_enabled (h : Inv P s owner) (hlive : s.terminated = false) (hstack : s.stack ≠ [])
    (ready : Bool) : ∃ s', (system P world moved).step s (.run ready) = some s' := by
  change ∃ s', Composition.step P world moved s (.run ready) = some s'
  rw [Composition.step, hlive, h.fault]
  exact h.runStep_enabled hstack ready

lemma Inv.resume_enabled (h : Inv P s owner) (hlive : s.terminated = false)
    (hf : s.frames f = some c) (hregistered : c.registered = true) :
    ∃ s', (system P world moved).step s (.resume f) = some s' := by
  have hoperation := (h.frames f c hf).registered
  rw [hregistered] at hoperation
  change ∃ s', Composition.step P world moved s (.resume f) = some s'
  cases hpc : c.pc with
  | operation l next =>
    simp only [Composition.step, hlive, h.fault, hf, hregistered, hpc]
    exact ⟨_, rfl⟩
  | running | awaiting | awaitResume | ending | done | destroyed =>
    rw [hpc] at hoperation
    cases hoperation

/-- A frame is destroyed at most once. What is on the control stack can always take its next step.
When the stack is empty and nobody has the handle of a suspended coroutine, no coroutine waits any
more: all bodies have ended with their outcome, and the frames are destroyed, except for those of
`Future`s that are held outside, which are done. -/
theorem no_coroutine_is_lost (h : (system P world moved).Reaches (Joined P) s) :
    (∀ f c, s.frames f = some c → c.destroyed ≤ 1) ∧
    (s.terminated = false → s.stack ≠ [] → ∀ ready,
      ∃ s', (system P world moved).step s (.run ready) = some s') ∧
    (s.stack = [] → (∀ f c, s.frames f = some c → c.registered = false) →
      Finished P world moved s) := by
  obtain ⟨owner, hinv⟩ := reaches_inv (fun _ _ hJ => hJ) h
  refine ⟨fun f c hf => ?_, hinv.run_enabled, hinv.finished (reaches_meaningful h)⟩
  rw [(hinv.frames f c hf).destroyed]
  split <;> simp

/-- The frames of both `Future`s of the caller have been destroyed, one as the frame of a temporary
and one at the end of the body. -/
theorem test_success_is_not_lost :
    ∃ s, (system testSuccess (fun _ => .ok 0) id).Reaches (Joined testSuccess) s ∧ s.count = 3 ∧
      Finished testSuccess (fun _ => .ok 0) id s ∧ s.roots = [0] := by
  obtain ⟨s, hs, hcount, hroots, hstack, hidle⟩ := System.exists_reaches
    (S := system testSuccess (fun _ => .ok 0) id) (Joined testSuccess)
    (fun s => s.count = 3 ∧ s.roots = [0] ∧ s.stack.isEmpty ∧
      ∀ f < 3, ∀ c ∈ s.frames f, c.registered = false)
    (.call (.future true) .entry :: List.replicate 5 (.run false) ++
      .resume 1 :: List.replicate 2 (.run false) ++
      .resume 2 :: List.replicate 11 (.run false)) (by decide)
  obtain ⟨owner, hinv⟩ := reaches_inv (fun _ _ hJ => hJ) hs
  refine ⟨s, hs, hcount, (no_coroutine_is_lost hs).2.2 (List.isEmpty_iff.mp hstack) ?_, hroots⟩
  intro f c hf
  refine hidle f ?_ c hf
  by_contra hlt
  rw [(hinv.alloc f).mpr (hcount.trans_le (not_lt.mp hlt))] at hf
  cases hf

/-! ### The bodies that are called -/

/-- The coroutine and what is left of it stay in the given bodies and points. -/
def Coroutine.Within (bodies within : κ → Prop) (c : Coroutine L V E κ) : Prop :=
  bodies c.body ∧ match c.pc with
    | .running k => within k
    | .operation _ next | .awaiting _ next | .awaitResume _ next => ∀ o, within (next o)
    | .ending _ | .done | .destroyed => True

section
variable {bodies within : κ → Prop} {s' : State L V E κ} {a : Action κ}
  (hclosed : P.Closed bodies within) (h : ∀ f c, s.frames f = some c → c.Within bodies within)
include hclosed h

lemma stays_of_within {k : κ} (hf : s.frames f = some c) (hpc : c.pc = .running k) :
    (P.code k).Stays bodies within := by
  have hwithin := (h f c hf).2
  rw [hpc] at hwithin
  exact hclosed.code k hwithin

lemma within_create (kind : Kind) {body : κ} (hbody : bodies body) (f : Frame)
    (c : Coroutine L V E κ) (hf : (s.create kind body).frames f = some c) :
    c.Within bodies within := by
  by_cases hfc : f = s.count
  · subst hfc
    simp only [State.create, Function.update_self, Option.some.injEq] at hf
    subst hf
    exact ⟨hbody, hclosed.enter body hbody⟩
  · simp only [State.create, Function.update_of_ne hfc] at hf
    exact h f c hf

omit hclosed in
lemma within_setFrame (hd : d.Within bodies within) (g : Frame) (e : Coroutine L V E κ)
    (hg : (s.setFrame f d).frames g = some e) : e.Within bodies within :=
  State.forall_setFrame (Q := fun _ e => e.Within bodies within) hd (fun g e _ => h g e) g e hg

/-- A step keeps the points. -/
theorem Move.keeps_within (hm : Move P world moved s a s')
    (hcall : ∀ kind body, a = .call kind body → bodies body) :
    ∀ f c, s'.frames f = some c → c.Within bodies within := by
  cases hm with
  | call _ => exact within_create hclosed h _ (hcall _ _ rfl)
  | ret _ hf _ _ => exact within_setFrame h ⟨(h _ _ hf).1, trivial⟩
  | throw _ hf _ _ => exact within_setFrame h ⟨(h _ _ hf).1, trivial⟩
  | callIn _ hf hpc hk =>
    have hstays := stays_of_within hclosed h hf hpc
    rw [hk] at hstays
    refine within_create hclosed (within_setFrame h ?_) _ hstays.1
    exact ⟨(h _ _ hf).1, hstays.2⟩
  | awaitReady _ hf hpc hk _ _ _ =>
    have hstays := stays_of_within hclosed h hf hpc
    rw [hk] at hstays
    exact within_setFrame h ⟨(h _ _ hf).1, hstays⟩
  | awaitSuspend _ hf hpc hk _ hg _ =>
    have hstays := stays_of_within hclosed h hf hpc
    rw [hk] at hstays
    have hd := h _ _ hg
    exact within_setFrame (within_setFrame h ⟨(h _ _ hf).1, hstays⟩) hd
  | awaitResume _ hf hpc hg _ _ =>
    have hwithin := h _ _ hf
    rw [Coroutine.Within, hpc] at hwithin
    have hd := h _ _ hg
    exact within_setFrame (within_setFrame h ⟨hwithin.1, hwithin.2 _⟩) hd
  | performReady _ hf hpc hk =>
    have hstays := stays_of_within hclosed h hf hpc
    rw [hk] at hstays
    exact within_setFrame h ⟨(h _ _ hf).1, hstays _⟩
  | performSuspend _ hf hpc hk =>
    have hstays := stays_of_within hclosed h hf hpc
    rw [hk] at hstays
    exact within_setFrame h ⟨(h _ _ hf).1, hstays⟩
  | drop _ hf hpc hk _ _ =>
    have hstays := stays_of_within hclosed h hf hpc
    rw [hk] at hstays
    exact within_setFrame h ⟨(h _ _ hf).1, hstays⟩
  | finalDrop _ hf _ _ _ =>
    have hc := h _ _ hf
    exact within_setFrame h hc
  | unhandled _ hf _ _ _ => exact within_setFrame h ⟨(h _ _ hf).1, trivial⟩
  | terminate _ _ _ _ _ => exact h
  | finalTrivial _ hf _ _ _ => exact within_setFrame h ⟨(h _ _ hf).1, trivial⟩
  | finalDone _ hf _ _ _ _ => exact within_setFrame h ⟨(h _ _ hf).1, trivial⟩
  | finalTransfer _ hf _ _ _ _ hp hd =>
    have hwithin := h _ _ hp
    rw [Coroutine.Within, hd] at hwithin
    exact within_setFrame (within_setFrame h ⟨(h _ _ hf).1, trivial⟩) hwithin
  | destroy _ hf _ _ => exact within_setFrame h ⟨(h _ _ hf).1, trivial⟩
  | resume hf hpc =>
    have hwithin := h _ _ hf
    rw [Coroutine.Within, hpc] at hwithin
    exact within_setFrame h ⟨hwithin.1, hwithin.2 _⟩
  | release _ _ => exact h

end

theorem reaches_within {bodies within : κ → Prop} {C : State L V E κ → Action κ → Prop}
    (hclosed : P.Closed bodies within)
    (hmove : ∀ s a s', (system P world moved).Reaches C s → C s a →
      (system P world moved).step s a = some s' → Move P world moved s a s')
    (hC : ∀ s kind body, C s (.call kind body) → bodies body)
    (h : (system P world moved).Reaches C s) :
    ∀ f c, s.frames f = some c → c.Within bodies within := by
  refine h.invariant (I := fun s => ∀ f c, s.frames f = some c → c.Within bodies within) nofun ?_
  intro s a s' run ih ha hs
  refine (hmove s a s' run ha hs).keeps_within hclosed ih ?_
  rintro kind body rfl
  exact hC s kind body ha

end Scoro.Composition

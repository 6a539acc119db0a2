import Scoro.Lib.Transition

/-!
# Objects that end before a system does

One party of a system owns an object that the other parties use as well, and destroys it at some
moment after it is done with it. An access after that is a fault. The rule for the absence of faults
asks for a property of the system under which nobody accesses the object any more.
-/

namespace Scoro.Lib

/-- How a system uses the object: the owner is done with it, the step is the owner's, and the step
is an access of another party. -/
structure Usage (σ α : Type*) where
  left : σ → Bool
  owner : α → Bool
  uses : σ → α → Bool

/-- The system with the object. `fault` records an access after the end of the object. -/
structure Temporary (σ : Type*) where
  state : σ
  alive : Bool
  fault : Bool

inductive TemporaryAction (α : Type*) where
  | step (a : α)
  | destroy
  deriving DecidableEq

namespace System

variable {σ α : Type*}

/-- The owner does nothing more in the system once the object is destroyed. -/
def temporaryStep (S : System σ α) (U : Usage σ α) (s : Temporary σ) :
    TemporaryAction α → Option (Temporary σ)
  | .step a =>
    if s.alive || !U.owner a then
      (S.step s.state a).map fun t => ⟨t, s.alive, s.fault || !s.alive && U.uses s.state a⟩
    else none
  | .destroy => if s.alive && U.left s.state then some { s with alive := false } else none

def temporary (S : System σ α) (U : Usage σ α) : System (Temporary σ) (TemporaryAction α) where
  init := ⟨S.init, true, false⟩
  step := S.temporaryStep U

variable {S : System σ α} {U : Usage σ α} {C : Temporary σ → TemporaryAction α → Prop}
  {s t : Temporary σ} {a : α}

lemma temporary_step (h : (S.temporary U).step s (.step a) = some t) :
    S.step s.state a = some t.state ∧ (s.alive = true ∨ U.owner a = false) ∧
      t.alive = s.alive ∧ t.fault = (s.fault || !s.alive && U.uses s.state a) := by
  simp only [temporary, temporaryStep] at h
  split at h
  · rename_i hgo
    obtain ⟨u, hu, rfl⟩ := Option.map_eq_some_iff.mp h
    exact ⟨hu, by simpa using hgo, rfl, rfl⟩
  · cases h

lemma temporary_destroy (h : (S.temporary U).step s .destroy = some t) :
    s.alive = true ∧ U.left s.state = true ∧ t = { s with alive := false } := by
  simp only [temporary, temporaryStep] at h
  split at h
  · rename_i hgo
    obtain ⟨halive, hleft⟩ := (Bool.and_eq_true _ _).mp hgo
    cases h
    exact ⟨halive, hleft, rfl⟩
  · cases h

/-- What happens to the system is a run of the system. -/
lemma Reaches.underlying (h : (S.temporary U).Reaches C s) : S.Reachable s.state := by
  refine h.invariant (I := fun s => S.Reachable s.state) .init ?_
  intro s a t _ ih _ hs
  cases a with
  | step a => exact ih.step trivial (temporary_step hs).1
  | destroy =>
    obtain ⟨-, -, rfl⟩ := temporary_destroy hs
    exact ih

/-- The object is destroyed only where `Q` holds, and from there on nobody accesses it. -/
theorem Reaches.temporary_safe {Q : σ → Prop}
    (hdestroy : ∀ s, (S.temporary U).Reaches C s → C s .destroy → U.left s.state = true → Q s.state)
    (hstep : ∀ s a t, S.Reachable s.state → s.alive = false → Q s.state → C s (.step a) →
      U.owner a = false → S.step s.state a = some t → U.uses s.state a = false ∧ Q t)
    (h : (S.temporary U).Reaches C s) : s.fault = false := by
  have hinv : s.fault = false ∧ (s.alive = false → Q s.state) := by
    refine h.invariant (I := fun s => s.fault = false ∧ (s.alive = false → Q s.state))
      ⟨rfl, fun hdead => by cases hdead⟩ ?_
    rintro s a t run ⟨hfault, hquiet⟩ hC hs
    cases a with
    | step a =>
      obtain ⟨hstate, howner, halive, hfault'⟩ := temporary_step hs
      cases halive' : s.alive with
      | true =>
        refine ⟨by simp [hfault', hfault, halive'], fun hdead => ?_⟩
        rw [halive, halive'] at hdead
        cases hdead
      | false =>
        have howner : U.owner a = false := by simpa [halive'] using howner
        obtain ⟨huses, hQ⟩ :=
          hstep s a _ run.underlying halive' (hquiet halive') hC howner hstate
        exact ⟨by simp [hfault', hfault, huses], fun _ => hQ⟩
    | destroy =>
      obtain ⟨-, hleft, rfl⟩ := temporary_destroy hs
      exact ⟨hfault, fun _ => hdestroy s run hC hleft⟩
  exact hinv.1

/-- Some party has an access ahead that it cannot get around. Once the object is destroyed the party
makes no step but that access. -/
theorem temporary_fated {P : σ → Prop}
    (hstep : ∀ s a t, P s → U.owner a = false → S.step s a = some t → U.uses s a = true ∨ P t)
    {as : List (TemporaryAction α)} (hdead : s.alive = false) (hP : P s.state)
    (h : (S.temporary U).exec (fun _ _ => True) s as = some t) : t.fault = true ∨ P t.state := by
  have hlast := exec_invariant (S := S.temporary U)
    (I := fun u => u.alive = false ∧ (u.fault = true ∨ P u.state)) ?_ ⟨hdead, Or.inr hP⟩ h
  · exact hlast.2
  rintro u a v ⟨hdead, hu⟩ - hs
  cases a with
  | step a =>
    obtain ⟨hstate, howner, halive, hfault⟩ := temporary_step hs
    refine ⟨halive.trans hdead, ?_⟩
    rcases hu with hu | hu
    · exact Or.inl (by simp [hfault, hu])
    · have howner : U.owner a = false := by simpa [hdead] using howner
      refine (hstep _ a _ hu howner hstate).imp_left fun huses => ?_
      simp [hfault, hdead, huses]
  | destroy =>
    have halive := (temporary_destroy hs).1
    rw [hdead] at halive
    cases halive

/-! ### Destruction after the last access -/

/-- The object is not destroyed while another party has an access ahead. -/
def DestroysAfter (ahead : σ → Bool) (s : Temporary σ) : TemporaryAction α → Prop
  | .destroy => ahead s.state = false
  | .step _ => True

instance (ahead : σ → Bool) (s : Temporary σ) :
    (a : TemporaryAction α) → Decidable (DestroysAfter ahead s a)
  | .destroy => inferInstanceAs (Decidable (ahead s.state = false))
  | .step _ => .isTrue trivial

/-- Where every access is ahead before it and nothing else brings one, a destruction after the last
access does no harm, and an earlier one leaves an access that can only go wrong. -/
theorem destroysAfter_iff {ahead : σ → Bool}
    (hstep : ∀ s a t, S.Reachable s → U.owner a = false → S.step s a = some t →
      U.uses s a = true ∧ ahead s = true ∨ U.uses s a = false ∧ ahead t = ahead s)
    (h : (S.temporary U).Reaches (DestroysAfter ahead) s) :
    s.fault = false ∧
    ∀ a s', (S.temporary U).step s a = some s' → ¬DestroysAfter ahead s a →
      ∀ as t, (S.temporary U).exec (fun _ _ => True) s' as = some t →
        t.fault = true ∨ ahead t.state = true := by
  refine ⟨?_, fun a s' hs ha as t ht => ?_⟩
  · refine h.temporary_safe (Q := fun s => ahead s = false) (fun _ _ hC _ => hC) ?_
    intro s a t run _ hQ _ howner hs
    rcases hstep s.state a t run howner hs with ⟨-, hahead⟩ | ⟨huses, hsame⟩
    · rw [hQ] at hahead
      cases hahead
    · exact ⟨huses, hsame.trans hQ⟩
  · cases a with
    | step a => exact absurd trivial ha
    | destroy =>
      have hrun := h.underlying
      obtain ⟨-, -, rfl⟩ := temporary_destroy hs
      have hahead : ahead s.state = true := by simpa [DestroysAfter] using ha
      have hfated : ∀ s a t, S.Reachable s ∧ ahead s = true → U.owner a = false →
          S.step s a = some t → U.uses s a = true ∨ S.Reachable t ∧ ahead t = true := by
        rintro s a t ⟨hrun, hP⟩ howner hs
        exact (hstep s a t hrun howner hs).imp And.left fun hsame =>
          ⟨hrun.step trivial hs, hsame.2.trans hP⟩
      have hlast := temporary_fated (s := { s with alive := false }) hfated rfl ⟨hrun, hahead⟩ ht
      exact hlast.imp_right And.right

end System

end Scoro.Lib

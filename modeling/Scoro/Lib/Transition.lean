import Mathlib

/-!
# Transition systems with an executable step

A `System` has an initial state and a partial step for each action. A run is read off a list
of actions, so that concrete runs can be evaluated. `Reaches C` collects the states of all
runs whose steps satisfy a side condition `C` on the state before the step. This file has the
invariant rule, the transfer of reachability along a refinement, the rules of the decreasing
measure and of the trap, runs with an observer, and solo runs, in which one party takes all steps.
-/

namespace Scoro.Lib

/-- An initial state and a step that is undefined where the action is not enabled. -/
structure System (σ α : Type*) where
  init : σ
  step : σ → α → Option σ

namespace System

variable {σ τ α β : Type*} (S : System σ α)

/-- Executes a list of actions and stops with `none` at a step that is not enabled or that
violates `C`. -/
def exec (C : σ → α → Prop) [∀ s a, Decidable (C s a)] : σ → List α → Option σ
  | s, [] => some s
  | s, a :: as => if C s a then (S.step s a).bind fun s' => exec C s' as else none

/-- The states reached by runs all of whose steps satisfy `C`. -/
inductive Reaches (C : σ → α → Prop) : σ → Prop
  | init : Reaches C S.init
  | step {s a s'} (run : Reaches C s) (guard : C s a) (hstep : S.step s a = some s') :
      Reaches C s'

/-- The states reached by any run. -/
abbrev Reachable : σ → Prop := S.Reaches fun _ _ => True

variable {S}

lemma Reaches.exec {C : σ → α → Prop} [∀ s a, Decidable (C s a)] {s t : σ} {as : List α}
    (hs : S.Reaches C s) (h : S.exec C s as = some t) : S.Reaches C t := by
  induction as generalizing s with
  | nil =>
    simp only [System.exec, Option.some.injEq] at h
    exact h ▸ hs
  | cons a as ih =>
    simp only [System.exec] at h
    split at h
    · rename_i hC
      obtain ⟨u, hu, ht⟩ := Option.bind_eq_some_iff.mp h
      exact ih (hs.step hC hu) ht
    · cases h

/-- An executed list of actions is a run. -/
theorem reaches_of_exec {C : σ → α → Prop} [∀ s a, Decidable (C s a)] {s : σ} (as : List α)
    (h : S.exec C S.init as = some s) : S.Reaches C s :=
  Reaches.init.exec h

/-- The test of a concrete run: its last state is reached and satisfies `Q`. -/
theorem exists_reaches (C : σ → α → Prop) [∀ s a, Decidable (C s a)] (Q : σ → Prop)
    [DecidablePred Q] (as : List α) (h : (S.exec C S.init as).any (fun s => decide (Q s))) :
    ∃ s, S.Reaches C s ∧ Q s := by
  obtain ⟨s, hs, hQ⟩ := (Option.any_eq_true _ _).mp h
  exact ⟨s, reaches_of_exec as hs, of_decide_eq_true hQ⟩

lemma Reaches.mono {C D : σ → α → Prop} {s : σ} (h : S.Reaches C s)
    (hCD : ∀ s a, C s a → D s a) : S.Reaches D s := by
  induction h with
  | init => exact .init
  | step _ guard hstep ih => exact ih.step (hCD _ _ guard) hstep

lemma Reaches.reachable {C : σ → α → Prop} {s : σ} (h : S.Reaches C s) : S.Reachable s :=
  h.mono fun _ _ _ => trivial

/-- The invariant rule. A step may use that the state before it is reached. -/
theorem Reaches.invariant {C : σ → α → Prop} {I : σ → Prop} (h0 : I S.init)
    (hstep : ∀ s a s', S.Reaches C s → I s → C s a → S.step s a = some s' → I s')
    {s : σ} (h : S.Reaches C s) : I s := by
  induction h with
  | init => exact h0
  | step run guard hs ih => exact hstep _ _ _ run ih guard hs

/-- Every step of `S` is a step of `A` or leaves the abstract state unchanged. -/
structure Refines (S : System σ α) (C : σ → α → Prop) (A : System τ β) (D : τ → β → Prop)
    (abs : σ → τ) : Prop where
  init : abs S.init = A.init
  step : ∀ s a s', S.Reaches C s → C s a → S.step s a = some s' →
    abs s' = abs s ∨ ∃ b, D (abs s) b ∧ A.step (abs s) b = some (abs s')

/-- A refinement carries reachable states to reachable states. -/
theorem Refines.reaches {C : σ → α → Prop} {A : System τ β} {D : τ → β → Prop} {abs : σ → τ}
    (R : Refines S C A D abs) {s : σ} (h : S.Reaches C s) : A.Reaches D (abs s) := by
  induction h with
  | init =>
    rw [R.init]
    exact .init
  | step run guard hs ih =>
    rcases R.step _ _ _ run guard hs with heq | ⟨b, hD, hb⟩
    · rwa [heq]
    · exact ih.step hD hb

/-- What every step keeps, every execution keeps. -/
lemma exec_invariant {C : σ → α → Prop} [∀ s a, Decidable (C s a)] {I : σ → Prop}
    (hstep : ∀ s a s', I s → C s a → S.step s a = some s' → I s') {s t : σ} {as : List α}
    (hs : I s) (h : S.exec C s as = some t) : I t := by
  induction as generalizing s with
  | nil =>
    simp only [exec, Option.some.injEq] at h
    exact h ▸ hs
  | cons a as ih =>
    simp only [exec] at h
    split at h
    · rename_i hC
      obtain ⟨u, hu, ht⟩ := Option.bind_eq_some_iff.mp h
      exact ih (hstep s a u hs hC hu) ht
    · cases h

/-- As long as `P` fails a step of `D` is enabled, and there is no endless sequence of steps of
`D` that satisfy `C`. -/
inductive Leads (S : System σ α) (D C : σ → α → Prop) (P : σ → Prop) : σ → Prop
  | now {s} (h : P s) : Leads S D C P s
  | later {s} (enabled : ∃ a s', D s a ∧ S.step s a = some s')
      (next : ∀ a s', D s a → C s a → S.step s a = some s' → Leads S D C P s') : Leads S D C P s

/-- The rule of the decreasing measure. -/
theorem leads_of_measure {D C : σ → α → Prop} {P I : σ → Prop} (m : σ → ℕ)
    (henabled : ∀ s, I s → ¬P s → ∃ a s', D s a ∧ S.step s a = some s')
    (hstep : ∀ s a s', I s → ¬P s → D s a → C s a → S.step s a = some s' → I s' ∧ m s' < m s)
    {s : σ} (hs : I s) : S.Leads D C P s := by
  induction hm : m s using Nat.strong_induction_on generalizing s with
  | _ k ih =>
    by_cases hP : P s
    · exact .now hP
    · refine .later (henabled s hs hP) ?_
      intro a s' hD hC ha
      obtain ⟨hs', hlt⟩ := hstep s a s' hs hP hD hC ha
      exact ih (m s') (hm ▸ hlt) hs' rfl

/-- The rule of the decreasing rank, which the state need not determine. -/
theorem leads_of_rank {D C : σ → α → Prop} {P : σ → Prop} {I : ℕ → σ → Prop}
    (henabled : ∀ n s, I n s → ¬P s → ∃ a s', D s a ∧ S.step s a = some s')
    (hstep : ∀ n s a s', I n s → ¬P s → D s a → C s a → S.step s a = some s' → ∃ m < n, I m s')
    {n : ℕ} {s : σ} (hs : I n s) : S.Leads D C P s := by
  induction n using Nat.strong_induction_on generalizing s with
  | _ n ih =>
    by_cases hP : P s
    · exact .now hP
    · refine .later (henabled n s hs hP) ?_
      intro a s' hD hC ha
      obtain ⟨m, hm, hs'⟩ := hstep n s a s' hs hP hD hC ha
      exact ih m hm hs'

/-- What the steps keep may be used where `P` is led to. -/
lemma Leads.imp {D C : σ → α → Prop} {P Q I : σ → Prop} {s : σ} (h : S.Leads D C P s)
    (hstep : ∀ s a s', I s → D s a → C s a → S.step s a = some s' → I s')
    (himp : ∀ s, I s → P s → Q s) (hs : I s) : S.Leads D C Q s := by
  induction h with
  | now h => exact .now (himp _ hs h)
  | later enabled _ ih =>
    refine .later enabled ?_
    intro a s' hD hC ha
    exact ih a s' hD hC ha (hstep _ a s' hs hD hC ha)

/-- A restriction that all steps meet may be dropped. -/
lemma Leads.of_guard {D C : σ → α → Prop} {P I : σ → Prop} {s : σ} (h : S.Leads D C P s)
    (hstep : ∀ s a s', I s → D s a → S.step s a = some s' → C s a ∧ I s') (hs : I s) :
    S.Leads D (fun _ _ => True) P s := by
  induction h with
  | now h => exact .now h
  | later enabled _ ih =>
    refine .later enabled ?_
    intro a s' hD _ ha
    obtain ⟨hC, hs'⟩ := hstep _ a s' hs hD ha
    exact ih a s' hD hC ha hs'

/-- The rule of the trap: where a step that is enabled can always be one that stays among the
states of `I`, these do not lead out of them. -/
theorem not_leads_of_trap {D C : σ → α → Prop} {P I : σ → Prop} (hP : ∀ s, I s → ¬P s)
    (hstep : ∀ s, I s → (∃ a s', D s a ∧ S.step s a = some s') →
      ∃ a s', D s a ∧ C s a ∧ S.step s a = some s' ∧ I s')
    {s : σ} (hs : I s) : ¬S.Leads D C P s := by
  intro h
  induction h with
  | now h => exact hP _ hs h
  | later enabled _ ih =>
    obtain ⟨a, s', hD, hC, ha, hs'⟩ := hstep _ hs enabled
    exact ih a s' hD hC ha hs'

/-- Where `P` is led to, some execution comes there. -/
lemma Leads.exists_exec {D : σ → α → Prop} {P : σ → Prop} {s : σ}
    (h : S.Leads D (fun _ _ => True) P s) :
    ∃ as t, S.exec (fun _ _ => True) s as = some t ∧ P t := by
  induction h with
  | now h => exact ⟨[], _, rfl, h⟩
  | later enabled _ ih =>
    obtain ⟨a, u, hD, hu⟩ := enabled
    obtain ⟨as, t, ht, hP⟩ := ih a u hD trivial hu
    exact ⟨a :: as, t, by simp [exec, hu, ht], hP⟩

/-- A state, and what an observer has noted about the steps that led to it. -/
structure Noted (σ η : Type*) where
  state : σ
  notes : η

/-- `S` with an observer, which sees the state before each step and does not interfere. -/
def observe {η : Type*} (S : System σ α) (note : σ → α → η → η) (h : η) : System (Noted σ η) α where
  init := ⟨S.init, h⟩
  step s a := (S.step s.state a).map fun t => ⟨t, note s.state a s.notes⟩

section observe
variable {η : Type*} {note : σ → α → η → η} {n : η}

lemma observe_step {s t : Noted σ η} {a : α} : (S.observe note n).step s a = some t ↔
    S.step s.state a = some t.state ∧ t.notes = note s.state a s.notes := by
  simp only [observe, Option.map_eq_some_iff]
  constructor
  · rintro ⟨u, hu, rfl⟩
    exact ⟨hu, rfl⟩
  · rintro ⟨hu, hnotes⟩
    exact ⟨t.state, hu, by rw [← hnotes]⟩

/-- A run before an observer is a run. -/
lemma exec_unobserved {s t : Noted σ η} {as : List α}
    (h : (S.observe note n).exec (fun _ _ => True) s as = some t) :
    S.exec (fun _ _ => True) s.state as = some t.state := by
  induction as generalizing s with
  | nil =>
    simp only [exec, Option.some.injEq] at h
    rw [h]
    rfl
  | cons a as ih =>
    simp only [exec, if_true] at h ⊢
    obtain ⟨u, hu, ht⟩ := Option.bind_eq_some_iff.mp h
    rw [(observe_step.mp hu).1]
    exact ih ht

end observe

end System

/-- Iterates a partial step: `solo f k s` is the state after `k` steps from `s`. -/
def solo {σ : Type*} (f : σ → Option σ) : ℕ → σ → Option σ
  | 0, s => some s
  | k + 1, s => (f s).bind (solo f k)

section solo
variable {σ : Type*} {f : σ → Option σ}

@[simp] lemma solo_zero (s : σ) : solo f 0 s = some s := rfl

lemma solo_succ {s t : σ} (h : f s = some t) (k : ℕ) : solo f (k + 1) s = solo f k t := by
  simp [solo, h]

/-- A property that every solo step keeps holds after any number of them. -/
lemma solo_invariant {I : σ → Prop} (hI : ∀ s t, I s → f s = some t → I t) {k : ℕ} {s t : σ}
    (hs : I s) (h : solo f k s = some t) : I t := by
  induction k generalizing s with
  | zero =>
    simp only [solo_zero, Option.some.injEq] at h
    exact h ▸ hs
  | succ k ih =>
    obtain ⟨u, hu, ht⟩ := Option.bind_eq_some_iff.mp h
    exact ih (hI _ _ hs hu) ht

end solo

end Scoro.Lib

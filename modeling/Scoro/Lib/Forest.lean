import Mathlib

/-!
# Forests

Nodes that are numbered in the order of their creation, each with a parent that is older or without
one. `under parent f g` says that `g` is in the tree whose root is `f`.
-/

namespace Scoro.Lib

variable {parent parent' : ℕ → Option ℕ} {f g p : ℕ}

/-- Climbs from `g` at most `k` times. -/
def climbs (parent : ℕ → Option ℕ) (f : ℕ) : ℕ → ℕ → Bool
  | 0, g => decide (g = f)
  | k + 1, g => decide (g = f) || (parent g).any (climbs parent f k)

/-- `g` is `f` or has it above itself. -/
def under (parent : ℕ → Option ℕ) (f g : ℕ) : Bool := climbs parent f g g

/-- Parents are older than their children. -/
def Older (parent : ℕ → Option ℕ) : Prop := ∀ g p, parent g = some p → p < g

lemma climbs_eq (h : Older parent) {k l : ℕ} (hk : g ≤ k) (hl : g ≤ l) :
    climbs parent f k g = climbs parent f l g := by
  induction g using Nat.strong_induction_on generalizing k l with
  | _ g ih =>
    cases hp : parent g with
    | none => cases k <;> cases l <;> simp [climbs, hp]
    | some p =>
      have hlt := h g p hp
      obtain ⟨k, rfl⟩ : ∃ m, k = m + 1 := ⟨k - 1, by omega⟩
      obtain ⟨l, rfl⟩ : ∃ m, l = m + 1 := ⟨l - 1, by omega⟩
      have hsame : climbs parent f k p = climbs parent f l p :=
        ih p hlt (by omega) (by omega)
      simp [climbs, hp, hsame]

lemma under_iff (h : Older parent) :
    under parent f g = true ↔ g = f ∨ ∃ p, parent g = some p ∧ under parent f p = true := by
  unfold under
  cases hp : parent g with
  | none => cases g <;> simp [climbs, hp]
  | some p =>
    have hlt := h g p hp
    obtain ⟨k, rfl⟩ : ∃ m, g = m + 1 := ⟨g - 1, by omega⟩
    have hsame : climbs parent f k p = climbs parent f p p := climbs_eq h (by omega) le_rfl
    simp [climbs, hp, hsame]

lemma under_self : under parent f f = true := by
  unfold under
  cases f <;> simp [climbs]

/-- A tree contains the children of its nodes. -/
lemma under_child (h : Older parent) (hp : parent g = some p) (hu : under parent f p = true) :
    under parent f g = true := (under_iff h).mpr (Or.inr ⟨p, hp, hu⟩)

/-- The root is the oldest node of its tree. -/
lemma under_le (h : Older parent) (hu : under parent f g = true) : f ≤ g := by
  induction g using Nat.strong_induction_on with
  | _ g ih =>
    rcases (under_iff h).mp hu with rfl | ⟨p, hp, hu⟩
    · exact le_rfl
    · have hlt := h g p hp
      have := ih p hlt hu
      omega

/-- A node of the tree other than the root has a parent. -/
lemma exists_parent (h : Older parent) (hu : under parent f g = true) (hne : g ≠ f) :
    ∃ p, parent g = some p := by
  obtain ⟨p, hp, -⟩ := ((under_iff h).mp hu).resolve_left hne
  exact ⟨p, hp⟩

end Scoro.Lib

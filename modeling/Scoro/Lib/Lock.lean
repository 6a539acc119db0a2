import Mathlib

/-!
# Mutual exclusion

The owner of a lock against the threads that stand in their critical sections.
-/

namespace Scoro.Lib

/-- The owner is the one thread in its critical section. -/
def Locked {T : Type*} (owner : Option T) (holds : T → Prop) : Prop :=
  ∀ t, owner = some t ↔ holds t

namespace Locked

variable {T : Type*} {owner : Option T} {holds holds' : T → Prop} {t u : T}

lemma congr (h : Locked owner holds) (heq : ∀ u, holds' u ↔ holds u) : Locked owner holds' :=
  fun u => (h u).trans (heq u).symm

/-- `t` moves and stays inside or outside. -/
lemma keep (h : Locked owner holds) (hself : holds' t ↔ holds t)
    (hothers : ∀ u, u ≠ t → (holds' u ↔ holds u)) : Locked owner holds' := by
  apply h.congr
  intro u
  by_cases hu : u = t
  · subst hu
    exact hself
  · exact hothers u hu

/-- `t` enters. -/
lemma acquire (h : Locked none holds) (hself : holds' t)
    (hothers : ∀ u, u ≠ t → (holds' u ↔ holds u)) : Locked (some t) holds' := by
  intro u
  by_cases hu : u = t
  · subst hu
    simp [hself]
  · rw [hothers u hu, ← h u]
    simp [Ne.symm hu]

/-- `t` leaves. -/
lemma release (h : Locked owner holds) (ht : holds t) (hself : ¬ holds' t)
    (hothers : ∀ u, u ≠ t → (holds' u ↔ holds u)) : Locked none holds' := by
  intro u
  have howner := (h t).mpr ht
  by_cases hu : u = t
  · subst hu
    simp [hself]
  · rw [hothers u hu, ← h u, howner]
    simp [Ne.symm hu]

lemma unique (h : Locked owner holds) (ht : holds t) (hu : holds u) : t = u := by
  have ht' := (h t).mpr ht
  rw [(h u).mpr hu] at ht'
  exact (Option.some.inj ht').symm

/-- What a step of `t` does to the lock, where `inside` and `inside'` say whether `t` is in its
critical section before and after. -/
inductive Move (t : T) (owner : Option T) (inside : Bool) (owner' : Option T) (inside' : Bool) :
    Prop
  | acquire (howner : owner = none) (howner' : owner' = some t) (hinside' : inside' = true)
  | release (hinside : inside = true) (howner' : owner' = none) (hinside' : inside' = false)
  | keep (howner' : owner' = owner) (hinside' : inside' = inside)

/-- A step of `t` keeps the owner right. -/
lemma move {owner' : Option T} {inside inside' : T → Bool}
    (h : Locked owner fun u => inside u = true)
    (hm : Move t owner (inside t) owner' (inside' t))
    (hothers : ∀ u, u ≠ t → inside' u = inside u) : Locked owner' fun u => inside' u = true := by
  have hothers' : ∀ u, u ≠ t → (inside' u = true ↔ inside u = true) := by
    intro u hu
    rw [hothers u hu]
  cases hm with
  | acquire howner howner' hinside' =>
    rw [howner] at h
    rw [howner']
    exact h.acquire hinside' hothers'
  | release hinside howner' hinside' =>
    rw [howner']
    exact h.release hinside (by rw [hinside']; simp) hothers'
  | keep howner' hinside' =>
    rw [howner']
    exact h.keep (by rw [hinside']) hothers'

end Locked

end Scoro.Lib

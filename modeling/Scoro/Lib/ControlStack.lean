import Mathlib

/-!
# A control stack and the place of each party

Each party stands at most once on the stack, with a role. `Represents` ties the stack to the
function that gives the role of each party, so that steps can be followed on the function alone.
-/

namespace Scoro.Lib

variable {ι ρ : Type*}

/-- A party is on the stack, once, in the role that it has by `place`. -/
structure Represents (stack : List (ι × ρ)) (place : ι → Option ρ) : Prop where
  nodup : (stack.map Prod.fst).Nodup
  mem : ∀ i r, (i, r) ∈ stack ↔ place i = some r

namespace Represents
variable {stack : List (ι × ρ)} {place : ι → Option ρ} {i : ι} {r : ρ}

lemma nil : Represents ([] : List (ι × ρ)) fun _ => none :=
  ⟨List.nodup_nil, fun i r => by simp⟩

lemma top (h : Represents ((i, r) :: stack) place) : place i = some r :=
  (h.mem i r).mp List.mem_cons_self

lemma of_nil (h : Represents [] place) (i : ι) : place i = none := by
  rw [Option.eq_none_iff_forall_ne_some]
  intro r hr
  exact absurd ((h.mem i r).mpr hr) List.not_mem_nil

variable [DecidableEq ι]

/-- A party without a role comes on top. -/
lemma push (h : Represents stack place) (hi : place i = none) :
    Represents ((i, r) :: stack) (Function.update place i (some r)) := by
  have hnot : ∀ r', (i, r') ∉ stack := by
    intro r' hr'
    rw [h.mem i r', hi] at hr'
    cases hr'
  refine ⟨?_, fun j r' => ?_⟩
  · rw [List.map_cons, List.nodup_cons]
    refine ⟨?_, h.nodup⟩
    rw [List.mem_map]
    rintro ⟨⟨j, r'⟩, hj, rfl⟩
    exact hnot r' hj
  · rw [List.mem_cons, Prod.mk.injEq]
    by_cases hj : j = i
    · subst hj
      simp [hnot r', eq_comm]
    · rw [Function.update_of_ne hj, h.mem j r']
      simp [hj]

/-- The party on top goes. -/
lemma pop (h : Represents ((i, r) :: stack) place) :
    Represents stack (Function.update place i none) := by
  have hnodup := h.nodup
  rw [List.map_cons, List.nodup_cons, List.mem_map] at hnodup
  refine ⟨hnodup.2, fun j r' => ?_⟩
  by_cases hj : j = i
  · subst hj
    rw [Function.update_self]
    constructor
    · intro hr'
      exact absurd ⟨(j, r'), hr', rfl⟩ hnodup.1
    · intro hr'
      cases hr'
  · rw [Function.update_of_ne hj, ← h.mem j r', List.mem_cons, Prod.mk.injEq]
    simp [hj]

/-- The party on top changes its role. -/
lemma replace (h : Represents ((i, r) :: stack) place) {r' : ρ} :
    Represents ((i, r') :: stack) (Function.update place i (some r')) := by
  have hpush := h.pop.push (i := i) (r := r') (Function.update_self ..)
  rwa [Function.update_idem] at hpush

end Represents

end Scoro.Lib

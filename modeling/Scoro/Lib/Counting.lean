import Mathlib

/-!
# Counting parties

A protocol with parties `ι` gives each party a state, and an invariant counts the parties by a
weight. One step changes the state of one party.
-/

namespace Scoro.Lib

variable {ι α : Type*} [DecidableEq ι]

/-- The sum of the weights after the state of `i` has become `x`. -/
lemma sum_update_of_mem (w : α → ℕ) (f : ι → α) {t : Finset ι} {i : ι} (hi : i ∈ t) (x : α) :
    ∑ j ∈ t, w (Function.update f i x j) + w (f i) = ∑ j ∈ t, w (f j) + w x := by
  have hrest : ∑ j ∈ t.erase i, w (Function.update f i x j) = ∑ j ∈ t.erase i, w (f j) := by
    apply Finset.sum_congr rfl
    intro j hj
    rw [Function.update_of_ne (Finset.ne_of_mem_erase hj)]
  rw [← Finset.add_sum_erase _ _ hi, hrest, Function.update_self,
    ← Finset.add_sum_erase _ (fun j => w (f j)) hi]
  omega

variable [Fintype ι]

/-- The same over all parties. -/
lemma sum_update (w : α → ℕ) (f : ι → α) (i : ι) (x : α) :
    ∑ j, w (Function.update f i x j) + w (f i) = ∑ j, w (f j) + w x :=
  sum_update_of_mem w f (Finset.mem_univ i) x

/-- A party of weight one leaves the count. -/
lemma sum_update_of_leave {w : α → ℕ} {f : ι → α} {i : ι} {x : α} (hi : w (f i) = 1)
    (hx : w x = 0) : ∑ j, w (Function.update f i x j) + 1 = ∑ j, w (f j) := by
  have h := sum_update w f i x
  omega

/-- A step of a party that keeps its weight keeps the sum. -/
lemma sum_update_of_eq {w : α → ℕ} {f : ι → α} {i : ι} {x : α} (hx : w x = w (f i)) :
    ∑ j, w (Function.update f i x j) = ∑ j, w (f j) := by
  have h := sum_update w f i x
  omega

omit [DecidableEq ι] in
/-- One party gives up more than all the others may gain. -/
lemma sum_lt_of_drop {f g : ι → ℕ} {i : ι} {k : ℕ} (hi : g i + k * Fintype.card ι < f i)
    (hother : ∀ j, j ≠ i → g j ≤ f j + k) : ∑ j, g j < ∑ j, f j := by
  classical
  have hcard : ∑ _j ∈ Finset.univ.erase i, k ≤ k * Fintype.card ι := by
    rw [Finset.sum_const, smul_eq_mul, mul_comm]
    exact Nat.mul_le_mul_left k (Finset.card_le_univ _)
  have hrest : ∑ j ∈ Finset.univ.erase i, g j ≤ ∑ j ∈ Finset.univ.erase i, (f j + k) :=
    Finset.sum_le_sum fun j hj => hother j (Finset.ne_of_mem_erase hj)
  rw [Finset.sum_add_distrib] at hrest
  rw [← Finset.add_sum_erase _ g (Finset.mem_univ i),
    ← Finset.add_sum_erase _ f (Finset.mem_univ i)]
  omega

/-! ### Some party -/

section someParty
variable {ι α : Type*} [DecidableEq ι] [Fintype ι] {p : α → Bool} {f : ι → α} {i : ι} {x : α}

/-- Whether some party is as `p` says. -/
def someParty (p : α → Bool) (f : ι → α) : Bool := decide (∃ i, p (f i) = true)

omit [DecidableEq ι] in
lemma someParty_iff : someParty p f = true ↔ ∃ i, p (f i) = true := by simp [someParty]

lemma someParty_update_of_eq (hx : p x = p (f i)) :
    someParty p (Function.update f i x) = someParty p f := by
  rw [Bool.eq_iff_iff, someParty_iff, someParty_iff]
  refine exists_congr fun j => ?_
  by_cases hj : j = i
  · subst hj
    rw [Function.update_self, hx]
  · rw [Function.update_of_ne hj]

lemma someParty_update (hx : p x = true) : someParty p (Function.update f i x) = true :=
  someParty_iff.mpr ⟨i, by rwa [Function.update_self]⟩

/-- The only one leaves. -/
lemma someParty_update_of_leave (hone : ∀ j, p (f j) = true → j = i) (hx : p x = false) :
    someParty p (Function.update f i x) = false := by
  rw [Bool.eq_false_iff, ne_eq, someParty_iff]
  rintro ⟨j, hj⟩
  by_cases hji : j = i
  · subst hji
    rw [Function.update_self, hx] at hj
    cases hj
  · rw [Function.update_of_ne hji] at hj
    exact hji (hone j hj)

end someParty

end Scoro.Lib

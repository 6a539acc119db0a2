import Mathlib

/-!
# A ledger of allocations

Objects live at addresses that are given out again after a deletion. The ledger numbers the objects
in the order of their allocation, so that what happens to an object can be counted although its
address is reused. An object may contain a value whose lifetime is managed by hand.
-/

namespace Scoro.Lib

variable {α : Type*}

/-- The number of the last object at each address, and what happened to each object: how often a
value was constructed in it and destroyed, and how often the object was deleted. -/
structure Ledger (α : Type*) where
  count : ℕ
  serial : α → ℕ
  constructed : ℕ → ℕ
  destroyed : ℕ → ℕ
  deleted : ℕ → ℕ

namespace Ledger

def empty : Ledger α where
  count := 0
  serial := fun _ => 0
  constructed := fun _ => 0
  destroyed := fun _ => 0
  deleted := fun _ => 0

section record
variable [DecidableEq α]

/-- A new object at `a`, with a value in it or without. -/
def new (l : Ledger α) (a : α) (value : Bool) : Ledger α :=
  { l with
    count := l.count + 1
    serial := Function.update l.serial a l.count
    constructed := Function.update l.constructed l.count
      (l.constructed l.count + if value then 1 else 0) }

end record

/-- The destructor of the value in the object at `a` is called. -/
def destroy (l : Ledger α) (a : α) : Ledger α :=
  { l with
    destroyed := Function.update l.destroyed (l.serial a) (l.destroyed (l.serial a) + 1) }

/-- The object at `a` is deleted. -/
def delete (l : Ledger α) (a : α) : Ledger α :=
  { l with deleted := Function.update l.deleted (l.serial a) (l.deleted (l.serial a) + 1) }

/-- The object with number `i` has been deleted once, and the value in it, if there was one, has
been destroyed once. -/
structure Settled (l : Ledger α) (i : ℕ) : Prop where
  deleted : l.deleted i = 1
  constructed : l.constructed i ≤ 1
  destroyed : l.destroyed i = l.constructed i

/-- The ledger when the live addresses are `live`, and those with a value in them `full`: the
objects there have not been deleted, and all others are settled. -/
structure Balanced (l : Ledger α) (live full : α → Prop) : Prop where
  serial_lt : ∀ a, live a → l.serial a < l.count
  serial_inj : ∀ a b, live a → live b → l.serial a = l.serial b → a = b
  kept : ∀ a, live a → l.deleted (l.serial a) = 0
  filled : ∀ a, live a → full a → l.constructed (l.serial a) = 1 ∧ l.destroyed (l.serial a) = 0
  hollow : ∀ a, live a → ¬full a →
    l.constructed (l.serial a) ≤ 1 ∧ l.destroyed (l.serial a) = l.constructed (l.serial a)
  settled : ∀ i < l.count, (∃ a, live a ∧ l.serial a = i) ∨ l.Settled i
  fresh : ∀ i, l.count ≤ i → l.deleted i = 0 ∧ l.constructed i = 0 ∧ l.destroyed i = 0

variable {l : Ledger α} {live full live' full' : α → Prop} {a : α}

lemma balanced_empty : (empty : Ledger α).Balanced (fun _ => False) full := by
  refine ⟨?_, ?_, ?_, ?_, ?_, ?_, fun i _ => ⟨rfl, rfl, rfl⟩⟩ <;> simp [empty]

lemma Balanced.congr (h : l.Balanced live full) (hlive : ∀ a, live' a ↔ live a)
    (hfull : ∀ a, full' a ↔ full a) : l.Balanced live' full' := by
  obtain rfl : live' = live := funext fun a => propext (hlive a)
  obtain rfl : full' = full := funext fun a => propext (hfull a)
  exact h

/-- Nothing is deleted twice, and no value is destroyed twice or without having been constructed. -/
lemma Balanced.once (h : l.Balanced live full) (i : ℕ) :
    l.deleted i ≤ 1 ∧ l.constructed i ≤ 1 ∧ l.destroyed i ≤ l.constructed i := by
  by_cases hi : i < l.count
  · rcases h.settled i hi with ⟨a, ha, rfl⟩ | hset
    · have hkept := h.kept a ha
      by_cases hf : full a
      · have := h.filled a ha hf
        omega
      · have := h.hollow a ha hf
        omega
    · have hdel := hset.deleted
      have hcon := hset.constructed
      have hdes := hset.destroyed
      omega
  · have := h.fresh i (not_lt.mp hi)
    omega

/-- When nothing is alive everything is settled. -/
lemma Balanced.all_settled (h : l.Balanced live full) (hlive : ∀ a, ¬live a) (i : ℕ)
    (hi : i < l.count) : l.Settled i :=
  (h.settled i hi).resolve_left fun ⟨a, ha, _⟩ => hlive a ha

section record
variable [DecidableEq α]

/-- The allocator gives out an address that is not in use. -/
lemma Balanced.new (h : l.Balanced live full) {value : Bool} (ha : ¬live a)
    (hlive : ∀ b, live' b ↔ b = a ∨ live b) (hfull : ∀ b, b ≠ a → (full' b ↔ full b))
    (hvalue : full' a ↔ value = true) : (l.new a value).Balanced live' full' := by
  have hold : ∀ b, b ≠ a → live' b → live b := fun b hne hb => ((hlive b).mp hb).resolve_left hne
  have hne : ∀ b, live b → b ≠ a := by
    rintro b hb rfl
    exact ha hb
  have hser : ∀ b, b ≠ a → (l.new a value).serial b = l.serial b :=
    fun b hne => Function.update_of_ne hne ..
  have hself : (l.new a value).serial a = l.count := Function.update_self ..
  have hcon : ∀ i, i ≠ l.count → (l.new a value).constructed i = l.constructed i :=
    fun i hi => Function.update_of_ne hi ..
  have hfresh := h.fresh l.count le_rfl
  have hconself : (l.new a value).constructed l.count = if value then 1 else 0 := by
    simp [Ledger.new, hfresh]
  have hlt := h.serial_lt
  refine ⟨fun b hb => ?_, fun b c hb hc heq => ?_, fun b hb => ?_, fun b hb hf => ?_,
    fun b hb hf => ?_, fun i hi => ?_, fun i hi => ?_⟩
  · change (l.new a value).serial b < l.count + 1
    by_cases hba : b = a
    · rw [hba, hself]
      omega
    · rw [hser b hba]
      exact (hlt b (hold b hba hb)).trans (Nat.lt_succ_self _)
  · by_cases hba : b = a <;> by_cases hca : c = a
    · rw [hba, hca]
    · rw [hba, hself, hser c hca] at heq
      exact absurd heq.symm (hlt c (hold c hca hc)).ne
    · rw [hca, hself, hser b hba] at heq
      exact absurd heq (hlt b (hold b hba hb)).ne
    · rw [hser b hba, hser c hca] at heq
      exact h.serial_inj b c (hold b hba hb) (hold c hca hc) heq
  · change l.deleted _ = 0
    by_cases hba : b = a
    · rw [hba, hself]
      exact hfresh.1
    · rw [hser b hba]
      exact h.kept b (hold b hba hb)
  · change _ ∧ l.destroyed _ = 0
    by_cases hba : b = a
    · subst hba
      rw [hself, hconself, if_pos (hvalue.mp hf)]
      exact ⟨rfl, hfresh.2.2⟩
    · rw [hser b hba, hcon _ (hlt b (hold b hba hb)).ne]
      exact h.filled b (hold b hba hb) ((hfull b hba).mp hf)
  · change _ ∧ l.destroyed _ = _
    by_cases hba : b = a
    · subst hba
      rw [hself, hconself, if_neg (fun hv => hf (hvalue.mpr hv))]
      exact ⟨Nat.zero_le _, hfresh.2.2⟩
    · rw [hser b hba, hcon _ (hlt b (hold b hba hb)).ne]
      exact h.hollow b (hold b hba hb) fun hfb => hf ((hfull b hba).mpr hfb)
  · change i < l.count + 1 at hi
    by_cases hic : i = l.count
    · exact Or.inl ⟨a, (hlive a).mpr (Or.inl rfl), hself.trans hic.symm⟩
    · rcases h.settled i (by omega) with ⟨b, hb, rfl⟩ | hset
      · exact Or.inl ⟨b, (hlive b).mpr (Or.inr hb), hser b (hne b hb)⟩
      · exact Or.inr ⟨hset.deleted, (hcon i hic).trans_le hset.constructed,
          hset.destroyed.trans (hcon i hic).symm⟩
  · change l.count + 1 ≤ i at hi
    rw [hcon i (by omega)]
    exact h.fresh i (by omega)

end record

/-- What is recorded of the object at `a` concerns no other one. -/
lemma Balanced.update_serial (h : l.Balanced live full) (ha : live a) (f : ℕ → ℕ) (k : ℕ) {b : α}
    (hb : live b) (hne : b ≠ a) : Function.update f (l.serial a) k (l.serial b) = f (l.serial b) :=
  Function.update_of_ne (fun heq => hne (h.serial_inj b a hb ha heq)) ..

lemma Balanced.destroy (h : l.Balanced live full) (ha : live a) (hv : full a)
    (hfull : ∀ b, full' b ↔ full b ∧ b ≠ a) : (l.destroy a).Balanced live full' := by
  have hlt := h.serial_lt a ha
  obtain ⟨hcon, hdes⟩ := h.filled a ha hv
  refine ⟨h.serial_lt, h.serial_inj, h.kept, fun b hb hf => ?_, fun b hb hf => ?_, fun i hi => ?_,
    fun i hi => ?_⟩
  · obtain ⟨hf, hne⟩ := (hfull b).mp hf
    exact ⟨(h.filled b hb hf).1, (h.update_serial ha _ _ hb hne).trans (h.filled b hb hf).2⟩
  · by_cases hba : b = a
    · subst hba
      refine ⟨hcon.le, ?_⟩
      simp only [Ledger.destroy, Function.update_self, hdes, hcon]
    · have hold := h.hollow b hb fun hfb => hf ((hfull b).mpr ⟨hfb, hba⟩)
      exact ⟨hold.1, (h.update_serial ha _ _ hb hba).trans hold.2⟩
  · rcases h.settled i hi with hi | hset
    · exact Or.inl hi
    · refine Or.inr ⟨hset.deleted, hset.constructed, ?_⟩
      have hne : i ≠ l.serial a := by
        rintro rfl
        have hdel := hset.deleted
        rw [h.kept a ha] at hdel
        cases hdel
      exact (Function.update_of_ne hne ..).trans hset.destroyed
  · have hne : i ≠ l.serial a := (hlt.trans_le hi).ne'
    obtain ⟨hdel, hcon, hdes⟩ := h.fresh i hi
    exact ⟨hdel, hcon, (Function.update_of_ne hne ..).trans hdes⟩

/-- An object that has no value in it any more is deleted. -/
lemma Balanced.delete (h : l.Balanced live full) (ha : live a) (hv : ¬full a)
    (hlive : ∀ b, live' b ↔ live b ∧ b ≠ a) : (l.delete a).Balanced live' full := by
  have hlt := h.serial_lt a ha
  have hold : ∀ b, live' b → live b := fun b hb => ((hlive b).mp hb).1
  refine ⟨fun b hb => h.serial_lt b (hold b hb),
    fun b c hb hc => h.serial_inj b c (hold b hb) (hold c hc), fun b hb => ?_,
    fun b hb => h.filled b (hold b hb), fun b hb => h.hollow b (hold b hb), fun i hi => ?_,
    fun i hi => ?_⟩
  · obtain ⟨hb, hne⟩ := (hlive b).mp hb
    exact (h.update_serial ha _ _ hb hne).trans (h.kept b hb)
  · by_cases hia : i = l.serial a
    · subst hia
      obtain ⟨hcon, hdes⟩ := h.hollow a ha hv
      refine Or.inr ⟨?_, hcon, hdes⟩
      simp only [Ledger.delete, Function.update_self, h.kept a ha]
    · rcases h.settled i hi with ⟨b, hb, rfl⟩ | hset
      · refine Or.inl ⟨b, (hlive b).mpr ⟨hb, ?_⟩, rfl⟩
        rintro rfl
        exact hia rfl
      · exact Or.inr ⟨(Function.update_of_ne hia ..).trans hset.deleted, hset.constructed,
          hset.destroyed⟩
  · have hne : i ≠ l.serial a := (hlt.trans_le hi).ne'
    obtain ⟨hdel, hcon, hdes⟩ := h.fresh i hi
    exact ⟨(Function.update_of_ne hne ..).trans hdel, hcon, hdes⟩

end Ledger

end Scoro.Lib

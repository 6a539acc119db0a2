import Scoro.Lib.Transition

/-!
# Parking on a value

Parties share a value. One that waits for the value to be another one parks only while it sees the
one that it does not want, and one that stores a value wakes all that are parked in a later step.
Then nobody is left parked: one that is parked on a value that has changed is about to be woken.
-/

namespace Scoro.Lib

/-- A party waits for a value other than `e`, or has stored a value and is going to notify. -/
inductive Party (V : Type*) where
  | idle
  | waiting (e : V)
  | parked (e : V)
  | notifying
  deriving DecidableEq

structure Parking (ι V : Type*) where
  value : V
  party : ι → Party V

namespace Parking

inductive Action (ι V : Type*) where
  | wait (i : ι) (e : V)
  | park (i : ι)
  | unpark (i : ι)
  | leave (i : ι)
  | store (i : ι) (v : V)
  | notify (i : ι)

variable {ι V : Type*}

def wake : Party V → Party V
  | .parked e => .waiting e
  | p => p

section step
variable [DecidableEq ι] [DecidableEq V]

def set (s : Parking ι V) (i : ι) (p : Party V) : Parking ι V :=
  { s with party := Function.update s.party i p }

def step (s : Parking ι V) : Action ι V → Option (Parking ι V)
  | .wait i e => if s.party i = .idle then some (s.set i (.waiting e)) else none
  | .park i =>
    match s.party i with
    | .waiting e => if s.value = e then some (s.set i (.parked e)) else none
    | _ => none
  | .unpark i =>
    match s.party i with
    | .parked e => some (s.set i (.waiting e))
    | _ => none
  | .leave i =>
    match s.party i with
    | .waiting e => if s.value = e then none else some (s.set i .idle)
    | _ => none
  | .store i v =>
    if s.party i = .idle then some { s.set i .notifying with value := v } else none
  | .notify i =>
    if s.party i = .notifying then
      some { s with party := Function.update (wake ∘ s.party) i .idle }
    else none

def system (v : V) : System (Parking ι V) (Action ι V) where
  init := ⟨v, fun _ => .idle⟩
  step := step

/-- Somebody has stored a value, and has not woken the others yet. -/
def Notifying (s : Parking ι V) : Prop := ∃ i, s.party i = .notifying

/-- Who is parked sees the value that he does not want, or is about to be woken. -/
def Covered (s : Parking ι V) : Prop :=
  ∀ i e, s.party i = .parked e → s.value = e ∨ s.Notifying

variable {s s' : Parking ι V} {i : ι} {p : Party V} {e v : V}

/-! ### The steps that are enabled -/

lemma step_wait (hi : s.party i = .idle) : step s (.wait i e) = some (s.set i (.waiting e)) := by
  simp [step, hi]

lemma step_park (hi : s.party i = .waiting e) (hvalue : s.value = e) :
    step s (.park i) = some (s.set i (.parked e)) := by
  simp [step, hi, hvalue]

lemma step_unpark (hi : s.party i = .parked e) :
    step s (.unpark i) = some (s.set i (.waiting e)) := by
  simp [step, hi]

lemma step_leave (hi : s.party i = .waiting e) (hvalue : s.value ≠ e) :
    step s (.leave i) = some (s.set i .idle) := by
  simp [step, hi, hvalue]

lemma step_store (hi : s.party i = .idle) :
    step s (.store i v) = some { s.set i .notifying with value := v } := by
  simp [step, hi]

lemma step_notify (hi : s.party i = .notifying) :
    step s (.notify i) = some { s with party := Function.update (wake ∘ s.party) i .idle } := by
  simp [step, hi]

/-! ### Who is parked -/

omit [DecidableEq V] in
/-- A party changes that is not notifying. -/
lemma Covered.set (h : Covered s) (hi : s.party i ≠ .notifying)
    (hp : ∀ e, p = .parked e → s.value = e) : Covered (s.set i p) := by
  intro j e hj
  by_cases hji : j = i
  · subst hji
    simp only [Parking.set, Function.update_self] at hj
    exact Or.inl (hp e hj)
  · simp only [Parking.set, Function.update_of_ne hji] at hj
    rcases h j e hj with hvalue | ⟨k, hk⟩
    · exact Or.inl hvalue
    · have hki : k ≠ i := by
        rintro rfl
        exact hi hk
      exact Or.inr ⟨k, by simp [Parking.set, hki, hk]⟩

lemma Covered.step (h : Covered s) {a : Action ι V} (hs : step s a = some s') : Covered s' := by
  cases a with
  | wait i e =>
    simp only [Parking.step, Option.ite_none_right_eq_some, Option.some.injEq] at hs
    obtain ⟨hi, rfl⟩ := hs
    exact h.set (by simp [hi]) nofun
  | park i =>
    simp only [Parking.step] at hs
    split at hs
    · rename_i e hi
      split at hs <;> cases hs
      refine h.set (by simp [hi]) fun e' he => ?_
      cases he
      assumption
    · cases hs
  | unpark i =>
    simp only [Parking.step] at hs
    split at hs <;> cases hs
    rename_i e hi
    exact h.set (by simp [hi]) nofun
  | leave i =>
    simp only [Parking.step] at hs
    split at hs
    · rename_i e hi
      split at hs <;> cases hs
      exact h.set (by simp [hi]) nofun
    · cases hs
  | store i v =>
    simp only [Parking.step, Option.ite_none_right_eq_some, Option.some.injEq] at hs
    obtain ⟨-, rfl⟩ := hs
    exact fun j e _ => Or.inr ⟨i, Function.update_self ..⟩
  | notify i =>
    simp only [Parking.step, Option.ite_none_right_eq_some, Option.some.injEq] at hs
    obtain ⟨-, rfl⟩ := hs
    intro j e hj
    by_cases hji : j = i
    · subst hji
      simp at hj
    · simp only [Function.update_of_ne hji, Function.comp_apply] at hj
      cases hparty : s.party j <;> simp [wake, hparty] at hj

/-- Nobody who is parked is forgotten. -/
theorem reaches_covered (h : (system v : System (Parking ι V) _).Reachable s) :
    Covered s := by
  refine h.invariant (I := Covered) nofun ?_
  intro s a s' _ ih _ hs
  exact ih.step hs

end step

end Parking

end Scoro.Lib

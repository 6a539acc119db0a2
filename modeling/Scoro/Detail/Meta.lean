import Mathlib

/-!
# Lists of types

The types that `await_resume` may return, the two maps that make types of alternatives of them, and
the functions on lists of types that make a variant's list of alternatives without duplicates.
-/

namespace Scoro.Meta

/-! ### Types -/

/-- Types of objects: those that `awaitable.hpp` names, the others as the elements of `B`. -/
inductive ObjectType (B : Type*) where
  | other (b : B)
  | monostate
  | exceptionPtr
  | error
  | referenceWrapper (t : ObjectType B)
  deriving DecidableEq

inductive CppType (B : Type*) where
  | void
  | object (t : ObjectType B)
  | lref (t : ObjectType B)
  | rref (t : ObjectType B)
  deriving DecidableEq

/-- `reference_storage_t`. -/
def referenceStorage {B : Type*} : CppType B → CppType B
  | .lref t => .object (.referenceWrapper t)
  | .rref t => .object t
  | .void => .void
  | .object t => .object t

/-- `void_map_t`. -/
def voidMap {B : Type*} : CppType B → CppType B
  | .void => .object .monostate
  | .object t => .object t
  | .lref t => .lref t
  | .rref t => .rref t

/-! ### Lists -/

section lists
variable {T : Type*} [DecidableEq T] {t u : T}

/-- `typelist_remove_t`. -/
def typelistRemove : List T → T → List T
  | [], _ => []
  | t :: ts, u => if t = u then typelistRemove ts u else [t] ++ typelistRemove ts u

/-- `typelist_unique_t`. -/
def typelistUnique : List T → List T
  | [] => []
  | t :: ts => [t] ++ typelistRemove (typelistUnique ts) t

@[simp] lemma mem_typelistRemove {ts : List T} :
    t ∈ typelistRemove ts u ↔ t ∈ ts ∧ t ≠ u := by
  induction ts with
  | nil => simp [typelistRemove]
  | cons a ts ih =>
    by_cases ha : a = u
    · simp only [typelistRemove, if_pos ha, ih, List.mem_cons]
      constructor
      · exact fun ht => ⟨Or.inr ht.1, ht.2⟩
      · rintro ⟨rfl | ht, hne⟩
        · exact absurd ha hne
        · exact ⟨ht, hne⟩
    · simp only [typelistRemove, if_neg ha, List.singleton_append, List.mem_cons, ih]
      constructor
      · rintro (rfl | ht)
        · exact ⟨Or.inl rfl, ha⟩
        · exact ⟨Or.inr ht.1, ht.2⟩
      · rintro ⟨rfl | ht, hne⟩
        · exact Or.inl rfl
        · exact Or.inr ⟨ht, hne⟩

lemma nodup_typelistRemove {ts : List T} (h : ts.Nodup) : (typelistRemove ts u).Nodup := by
  induction ts with
  | nil => exact List.nodup_nil
  | cons a ts ih =>
    obtain ⟨ha, hts⟩ := List.nodup_cons.mp h
    by_cases hau : a = u
    · simpa [typelistRemove, hau] using ih hts
    · simp only [typelistRemove, if_neg hau, List.singleton_append, List.nodup_cons,
        mem_typelistRemove]
      exact ⟨fun hmem => ha hmem.1, ih hts⟩

@[simp] lemma mem_typelistUnique {ts : List T} : t ∈ typelistUnique ts ↔ t ∈ ts := by
  induction ts with
  | nil => simp [typelistUnique]
  | cons a ts ih =>
    simp only [typelistUnique, List.singleton_append, List.mem_cons, mem_typelistRemove, ih]
    by_cases ha : t = a <;> simp [ha]

lemma nodup_typelistUnique (ts : List T) : (typelistUnique ts).Nodup := by
  induction ts with
  | nil => exact List.nodup_nil
  | cons a ts ih =>
    simp only [typelistUnique, List.singleton_append, List.nodup_cons, mem_typelistRemove]
    exact ⟨fun ha => ha.2 rfl, nodup_typelistRemove ih⟩

end lists

end Scoro.Meta

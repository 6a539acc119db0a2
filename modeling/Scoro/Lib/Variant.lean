import Mathlib

/-!
# `std::variant`

A variant over a list of types has the position of one of them and a value of that type. A function
that names an alternative by its type needs a type that occurs in the list exactly once.
-/

namespace Scoro.Lib

variable {K : Type*} [DecidableEq K] {Val : K → Type*} {ts : List K}

/-- A type that names an alternative. -/
@[ext]
structure Alternative (ts : List K) where
  type : K
  once : ts.count type = 1

instance : DecidableEq (Alternative ts) := fun _ _ => decidable_of_iff _ Alternative.ext_iff.symm

lemma Alternative.mem (t : Alternative ts) : t.type ∈ ts :=
  List.count_pos_iff.mp (by rw [t.once]; exact Nat.one_pos)

variable (Val ts) in
structure Variant where
  index : Fin ts.length
  value : Val (ts.get index)

namespace Variant

/-- The position of an alternative. -/
def indexOf (t : Alternative ts) : Fin ts.length :=
  ⟨ts.idxOf t.type, List.idxOf_lt_length_of_mem t.mem⟩

lemma get_indexOf (t : Alternative ts) : ts.get (indexOf t) = t.type := by simp [indexOf]

lemma indexOf_inj {t u : Alternative ts} : indexOf t = indexOf u ↔ t = u := by
  refine ⟨fun h => Alternative.ext ?_, congrArg indexOf⟩
  rw [← get_indexOf t, h, get_indexOf u]

/-- `emplace<T>`, which destroys the value that the variant has. -/
def emplace (t : Alternative ts) (v : Val t.type) : Variant Val ts :=
  ⟨indexOf t, cast (congrArg Val (get_indexOf t).symm) v⟩

/-- `std::holds_alternative<T>`. -/
def holdsAlternative (x : Variant Val ts) (t : Alternative ts) : Bool := x.index = indexOf t

/-- `std::get<T>`, which throws `std::bad_variant_access` where there is no value. -/
def get? (x : Variant Val ts) (t : Alternative ts) : Option (Val t.type) :=
  if h : x.index = indexOf t then
    some (cast (congrArg Val ((congrArg ts.get h).trans (get_indexOf t))) x.value) else none

@[simp] lemma holdsAlternative_emplace {t u : Alternative ts} {v : Val t.type} :
    (emplace t v).holdsAlternative u = decide (t = u) := by
  simp [holdsAlternative, emplace, indexOf_inj]

@[simp] lemma get?_emplace {t : Alternative ts} {v : Val t.type} :
    (emplace t v).get? t = some v := by
  have hindex : (emplace t v).index = indexOf t := rfl
  rw [get?, dif_pos hindex]
  exact congrArg some (eq_of_heq ((cast_heq _ _).trans (cast_heq _ _)))

end Variant

end Scoro.Lib

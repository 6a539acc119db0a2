import Mathlib

/-!
# Priority queues

A priority queue keeps a greatest element under its comparator `lt` on top. Nothing else is said
about the order of its elements, so a push and a pop take the new arrangement as an argument.
-/

namespace Scoro.Lib

/-- The first element is on top, and no element is above it. -/
def TopMax {α : Type*} (lt : α → α → Bool) (items : List α) : Prop :=
  ∀ a ∈ items.head?, ∀ b ∈ items, lt a b = false

instance {α : Type*} (lt : α → α → Bool) (items : List α) : Decidable (TopMax lt items) :=
  inferInstanceAs (Decidable (∀ a ∈ items.head?, ∀ b ∈ items, lt a b = false))

/-- The elements of a priority queue, the one on top first. -/
structure PriorityQueue (α : Type*) (lt : α → α → Bool) where
  items : List α
  topMax : TopMax lt items

namespace PriorityQueue

variable {α : Type*} [DecidableEq α] {lt : α → α → Bool} {q r : PriorityQueue α lt} {a b : α}
  {items : List α}

def empty : PriorityQueue α lt := ⟨[], by simp [TopMax]⟩

def top (q : PriorityQueue α lt) : Option α := q.items.head?

/-- `items` as a priority queue, if its first element may be on top. -/
def arrange (items : List α) : Option (PriorityQueue α lt) :=
  if h : TopMax lt items then some ⟨items, h⟩ else none

def push (q : PriorityQueue α lt) (a : α) (items : List α) : Option (PriorityQueue α lt) :=
  if items.Perm (a :: q.items) then arrange items else none

def pop (q : PriorityQueue α lt) (items : List α) : Option (PriorityQueue α lt) :=
  match q.items with
  | [] => none
  | _ :: rest => if items.Perm rest then arrange items else none

omit [DecidableEq α] in
lemma arrange_items (h : arrange items = some r) : r.items = items := by
  unfold arrange at h
  split at h
  · cases h
    rfl
  · cases h

omit [DecidableEq α] in
lemma top_eq_none : q.top = none ↔ q.items = [] := List.head?_eq_none_iff

omit [DecidableEq α] in
lemma top_mem (h : q.top = some a) : a ∈ q.items := List.mem_of_head? h

omit [DecidableEq α] in
/-- Nothing in the queue is above the element on top. -/
lemma top_not_lt (h : q.top = some a) (hb : b ∈ q.items) : lt a b = false :=
  q.topMax a h b hb

/-- A push adds one element. -/
lemma push_perm (h : q.push a items = some r) : r.items.Perm (a :: q.items) := by
  unfold push at h
  split at h
  · rename_i hperm
    rw [arrange_items h]
    exact hperm
  · cases h

/-- A pop removes the element on top. -/
lemma pop_perm (h : q.pop items = some r) (htop : q.top = some a) :
    q.items.Perm (a :: r.items) := by
  unfold top at htop
  unfold pop at h
  cases hq : q.items with
  | nil =>
    rw [hq] at htop
    cases htop
  | cons b rest =>
    rw [hq] at h htop
    cases htop
    dsimp only at h
    split at h
    · rename_i hperm
      rw [arrange_items h]
      exact hperm.symm.cons a
    · cases h

lemma pop_length (h : q.pop items = some r) : r.items.length + 1 = q.items.length := by
  cases htop : q.top with
  | none =>
    rw [top_eq_none] at htop
    simp [pop, htop] at h
  | some a => exact (pop_perm h htop).length_eq.symm

omit [DecidableEq α] in
/-- For a strict weak order every list has an arrangement. -/
lemma exists_perm_topMax (hirrefl : ∀ a, lt a a = false)
    (htrans : ∀ a b c, lt a b = false → lt b c = false → lt a c = false)
    (hasymm : ∀ a b, lt a b = true → lt b a = false) (l : List α) :
    ∃ items, items.Perm l ∧ TopMax lt items := by
  induction l with
  | nil => exact ⟨[], List.Perm.refl _, by simp [TopMax]⟩
  | cons a l ih =>
    obtain ⟨items, hperm, hmax⟩ := ih
    cases items with
    | nil => exact ⟨[a], hperm.cons a, by simp [TopMax, hirrefl]⟩
    | cons b rest =>
      have hb : ∀ c ∈ b :: rest, lt b c = false := hmax b rfl
      cases hab : lt a b with
      | false =>
        refine ⟨a :: b :: rest, hperm.cons a, ?_⟩
        simp only [TopMax, List.head?_cons, Option.mem_some_iff, forall_eq', List.mem_cons]
        rintro c (rfl | hc)
        · exact hirrefl c
        · exact htrans a b c hab (hb c (List.mem_cons.mpr hc))
      | true =>
        refine ⟨b :: a :: rest, (List.Perm.swap a b rest).trans (hperm.cons a), ?_⟩
        simp only [TopMax, List.head?_cons, Option.mem_some_iff, forall_eq', List.mem_cons]
        rintro c (rfl | rfl | hc)
        · exact hirrefl c
        · exact hasymm c b hab
        · exact hb c (List.mem_cons_of_mem b hc)

/-- A push is possible. -/
lemma exists_push (hirrefl : ∀ a, lt a a = false)
    (htrans : ∀ a b c, lt a b = false → lt b c = false → lt a c = false)
    (hasymm : ∀ a b, lt a b = true → lt b a = false) (q : PriorityQueue α lt) (a : α) :
    ∃ items r, q.push a items = some r := by
  obtain ⟨items, hperm, hmax⟩ := exists_perm_topMax hirrefl htrans hasymm (a :: q.items)
  exact ⟨items, ⟨items, hmax⟩, by simp [push, hperm, arrange, hmax]⟩

/-- A pop of a nonempty queue is possible. -/
lemma exists_pop (hirrefl : ∀ a, lt a a = false)
    (htrans : ∀ a b c, lt a b = false → lt b c = false → lt a c = false)
    (hasymm : ∀ a b, lt a b = true → lt b a = false) (htop : q.top = some a) :
    ∃ items r, q.pop items = some r := by
  unfold top at htop
  unfold pop
  cases hq : q.items with
  | nil =>
    rw [hq] at htop
    cases htop
  | cons b rest =>
    obtain ⟨items, hperm, hmax⟩ := exists_perm_topMax hirrefl htrans hasymm rest
    exact ⟨items, ⟨items, hmax⟩, by simp [hperm, arrange, hmax]⟩

end PriorityQueue

end Scoro.Lib

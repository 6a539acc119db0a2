import Mathlib

/-!
# Holders

Locations `L`, each of which holds one `a : A` or nothing, and the number of the locations that
hold `a`. Where the locations lie in what they hold, who holds whom is a graph without cycles.
-/

namespace Scoro.Lib

variable {L A : Type*} {f : L → Option A} {l : L} {v : Option A} {a : A}

/-- The locations that hold `a`. -/
def holders (f : L → Option A) (a : A) : Set L := {l | f l = some a}

/-- How many locations hold `a`. -/
noncomputable def held (f : L → Option A) (a : A) : ℕ := (holders f a).ncard

/-- All but finitely many locations are empty. -/
def FinitelyHeld (f : L → Option A) : Prop := {l | f l ≠ none}.Finite

lemma mem_holders : l ∈ holders f a ↔ f l = some a := Iff.rfl

lemma FinitelyHeld.holders (h : FinitelyHeld f) (a : A) : (holders f a).Finite :=
  h.subset fun l (hl : f l = some a) => by simp [hl]

lemma finitelyHeld_none : FinitelyHeld fun _ : L => (none : Option A) := by
  simp [FinitelyHeld]

lemma held_none : held (fun _ : L => (none : Option A)) a = 0 := by
  simp [held, Lib.holders]

lemma FinitelyHeld.held_pos (h : FinitelyHeld f) (hl : f l = some a) : 0 < held f a :=
  (Set.ncard_pos (h.holders a)).mpr ⟨l, hl⟩

lemma FinitelyHeld.eq_none_of_held (h : FinitelyHeld f) (ha : held f a = 0) (l : L) :
    f l ≠ some a := by
  intro hl
  have hpos := h.held_pos hl
  omega

lemma exists_of_held (ha : held f a ≠ 0) : ∃ l, f l = some a :=
  Set.nonempty_of_ncard_ne_zero ha

lemma held_congr {g : L → Option A} (h : ∀ l, f l = some a ↔ g l = some a) :
    held f a = held g a := congrArg Set.ncard (Set.ext h)

/-- Locations of two kinds are counted apart. -/
lemma FinitelyHeld.held_add {M N : Type*} (h : FinitelyHeld f) {g : M → L} {k : N → L}
    (hg : Function.Injective g) (hk : Function.Injective k) (hgk : ∀ m n, g m ≠ k n)
    (hcover : ∀ l, (∃ m, g m = l) ∨ ∃ n, k n = l) (a : A) :
    held f a = held (f ∘ g) a + held (f ∘ k) a := by
  have hset : Lib.holders f a = g '' Lib.holders (f ∘ g) a ∪ k '' Lib.holders (f ∘ k) a := by
    ext l
    constructor
    · intro hl
      rcases hcover l with ⟨m, rfl⟩ | ⟨n, rfl⟩
      · exact Or.inl ⟨m, hl, rfl⟩
      · exact Or.inr ⟨n, hl, rfl⟩
    · rintro (⟨m, hm, rfl⟩ | ⟨n, hn, rfl⟩)
      · exact hm
      · exact hn
  have hfinite := h.holders a
  rw [hset, Set.finite_union] at hfinite
  have hdisjoint : Disjoint (g '' Lib.holders (f ∘ g) a) (k '' Lib.holders (f ∘ k) a) := by
    rw [Set.disjoint_left]
    rintro _ ⟨m, -, rfl⟩ ⟨n, -, hn⟩
    exact hgk m n hn.symm
  rw [held, hset, Set.ncard_union_eq hdisjoint hfinite.1 hfinite.2,
    Set.ncard_image_of_injective _ hg, Set.ncard_image_of_injective _ hk]
  rfl

/-- The only holder. -/
lemma eq_of_held_one (ha : held f a = 1) {m : L} (hl : f l = some a) (hm : f m = some a) :
    l = m := by
  obtain ⟨x, hx⟩ := Set.ncard_eq_one.mp ha
  have hlx : l ∈ holders f a := hl
  have hmx : m ∈ holders f a := hm
  rw [hx] at hlx hmx
  exact hlx.trans hmx.symm

/-! ### Graphs without cycles -/

/-- Nobody comes back to where he started. -/
def Acyclic (r : A → A → Prop) : Prop := ∀ a, ¬Relation.TransGen r a a

section acyclic
variable {r q : A → A → Prop} {b c : A}

lemma Acyclic.mono (h : Acyclic q) (hsub : ∀ a b, r a b → q a b) : Acyclic r :=
  fun a ha => h a (Relation.TransGen.mono hsub a a ha)

/-- A way along the old edges and a new one from `c` to `b`. -/
lemma transGen_insert (hbc : ¬Relation.ReflTransGen r b c) {x y : A}
    (h : Relation.TransGen (fun a a' => r a a' ∨ a = c ∧ a' = b) x y) :
    Relation.TransGen r x y ∨ Relation.ReflTransGen r x c ∧ Relation.ReflTransGen r b y := by
  induction h with
  | single hxy =>
    rcases hxy with hxy | ⟨rfl, rfl⟩
    · exact Or.inl (.single hxy)
    · exact Or.inr ⟨.refl, .refl⟩
  | tail _ hyz ih =>
    rcases ih with hxy | ⟨hxc, hby⟩ <;> rcases hyz with hyz | ⟨rfl, rfl⟩
    · exact Or.inl (hxy.tail hyz)
    · exact Or.inr ⟨hxy.to_reflTransGen, .refl⟩
    · exact Or.inr ⟨hxc, hby.tail hyz⟩
    · exact absurd hby hbc

/-- An edge from `c` to `b` closes no cycle if `b` does not lead to `c`. -/
lemma Acyclic.insert (h : Acyclic r) (hbc : ¬Relation.ReflTransGen r b c) :
    Acyclic fun a a' => r a a' ∨ a = c ∧ a' = b := by
  intro a ha
  rcases transGen_insert hbc ha with hold | ⟨hac, hba⟩
  · exact h a hold
  · exact hbc (hba.trans hac)

end acyclic

/-! ### One location is written -/

variable [DecidableEq L]

lemma FinitelyHeld.update (h : FinitelyHeld f) (l : L) (v : Option A) :
    FinitelyHeld (Function.update f l v) := by
  refine (h.insert l).subset fun m hm => ?_
  by_cases hml : m = l
  · exact Or.inl hml
  · exact Or.inr (by simpa [hml] using hm)

/-- One location is emptied. -/
lemma FinitelyHeld.held_release (h : FinitelyHeld f) (hl : f l = some a) :
    held (Function.update f l none) a + 1 = held f a := by
  have hset : Lib.holders f a = insert l (Lib.holders (Function.update f l none) a) := by
    ext m
    by_cases hml : m = l
    · simp [mem_holders, hml, hl]
    · simp [mem_holders, hml]
  rw [held, held, hset, Set.ncard_insert_of_notMem _ ((h.update l none).holders a)]
  simp [mem_holders]

/-- Nobody else loses a holder. -/
lemma held_release_other {b : A} (hl : f l = some b) (ha : a ≠ b) :
    held (Function.update f l none) a = held f a := by
  refine held_congr fun m => ?_
  by_cases hml : m = l
  · simp [hml, hl, Ne.symm ha]
  · simp [hml]

variable [DecidableEq A]

/-- One location is written. -/
lemma FinitelyHeld.held_update (h : FinitelyHeld f) (l : L) (v : Option A) (a : A) :
    held (Function.update f l v) a + (if f l = some a then 1 else 0) =
      held f a + if v = some a then 1 else 0 := by
  have hold : held (Function.update f l none) a + (if f l = some a then 1 else 0) = held f a := by
    split_ifs with hl
    · exact h.held_release hl
    · refine held_congr fun m => ?_
      by_cases hml : m = l
      · simp [hml, hl]
      · simp [hml]
  have hnew : held (Function.update f l none) a + (if v = some a then 1 else 0) =
      held (Function.update f l v) a := by
    split_ifs with hv
    · have hrel := (h.update l v).held_release (l := l) (a := a) (by simpa using hv)
      simpa using hrel
    · refine held_congr fun m => ?_
      by_cases hml : m = l
      · simp [hml, hv]
      · simp [hml]
  omega

end Scoro.Lib

import Mathlib

/-!
# Custody

Items that are out, each with one holder. A holder hands its item to another one, brings it back,
or takes out a new one.
-/

namespace Scoro.Lib

/-- Every item that is out has exactly one holder, and nothing else is held. -/
structure Custody {H C : Type*} (out : C → Prop) (holds : H → C → Prop) : Prop where
  unique : ∀ {g h c}, holds g c → holds h c → g = h
  isOut : ∀ {h c}, holds h c → out c
  held : ∀ {c}, out c → ∃ h, holds h c

namespace Custody

variable {H C : Type*} {out out' : C → Prop} {holds holds' : H → C → Prop} {g h : H} {c : C}

lemma congr (hcustody : Custody out holds) (hout : ∀ c, out' c ↔ out c)
    (hholds : ∀ h c, holds' h c ↔ holds h c) : Custody out' holds' := by
  refine ⟨fun hg hh => ?_, fun hh => ?_, fun hc => ?_⟩
  · exact hcustody.unique ((hholds _ _).mp hg) ((hholds _ _).mp hh)
  · exact (hout _).mpr (hcustody.isOut ((hholds _ _).mp hh))
  · obtain ⟨h, hh⟩ := hcustody.held ((hout _).mp hc)
    exact ⟨h, (hholds h _).mpr hh⟩

/-- `g` hands its item to `h`. -/
lemma handOver (hcustody : Custody out holds) (hout : ∀ c, out' c ↔ out c)
    (hholds : ∀ i c, holds' i c ↔ i ≠ g ∧ holds i c ∨ i = h ∧ holds g c) :
    Custody out' holds' := by
  refine ⟨fun {i j c} hi hj => ?_, fun {i c} hi => ?_, fun {c} hc => ?_⟩
  · rcases (hholds i c).mp hi with ⟨hig, hi⟩ | ⟨rfl, hg⟩ <;>
      rcases (hholds j c).mp hj with ⟨hjg, hj⟩ | ⟨rfl, hg'⟩
    · exact hcustody.unique hi hj
    · exact absurd (hcustody.unique hi hg') hig
    · exact absurd (hcustody.unique hj hg) hjg
    · rfl
  · rcases (hholds i c).mp hi with ⟨-, hi⟩ | ⟨-, hg⟩
    · exact (hout c).mpr (hcustody.isOut hi)
    · exact (hout c).mpr (hcustody.isOut hg)
  · obtain ⟨i, hi⟩ := hcustody.held ((hout c).mp hc)
    by_cases hig : i = g
    · exact ⟨h, (hholds h c).mpr (Or.inr ⟨rfl, hig ▸ hi⟩)⟩
    · exact ⟨i, (hholds i c).mpr (Or.inl ⟨hig, hi⟩)⟩

/-- `g` brings its item back. -/
lemma release (hcustody : Custody out holds) (hout : ∀ c, out' c ↔ out c ∧ ¬holds g c)
    (hholds : ∀ i c, holds' i c ↔ i ≠ g ∧ holds i c) : Custody out' holds' := by
  refine ⟨fun {i j c} hi hj => ?_, fun {i c} hi => ?_, fun {c} hc => ?_⟩
  · exact hcustody.unique ((hholds i c).mp hi).2 ((hholds j c).mp hj).2
  · obtain ⟨hig, hi⟩ := (hholds i c).mp hi
    exact (hout c).mpr ⟨hcustody.isOut hi, fun hg => hig (hcustody.unique hi hg)⟩
  · obtain ⟨hc, hg⟩ := (hout c).mp hc
    obtain ⟨i, hi⟩ := hcustody.held hc
    refine ⟨i, (hholds i c).mpr ⟨?_, hi⟩⟩
    rintro rfl
    exact hg hi

/-- `h` takes out the item `c`. -/
lemma acquire (hcustody : Custody out holds) (hc : ¬out c) (hout : ∀ d, out' d ↔ out d ∨ d = c)
    (hholds : ∀ i d, holds' i d ↔ holds i d ∨ i = h ∧ d = c) : Custody out' holds' := by
  refine ⟨fun {i j d} hi hj => ?_, fun {i d} hi => ?_, fun {d} hd => ?_⟩
  · rcases (hholds i d).mp hi with hi | ⟨rfl, rfl⟩ <;>
      rcases (hholds j _).mp hj with hj | ⟨rfl, hdc⟩
    · exact hcustody.unique hi hj
    · exact absurd (hdc ▸ hcustody.isOut hi) hc
    · exact absurd (hcustody.isOut hj) hc
    · rfl
  · rcases (hholds i d).mp hi with hi | ⟨-, rfl⟩
    · exact (hout d).mpr (Or.inl (hcustody.isOut hi))
    · exact (hout d).mpr (Or.inr rfl)
  · rcases (hout d).mp hd with hd | rfl
    · obtain ⟨i, hi⟩ := hcustody.held hd
      exact ⟨i, (hholds i d).mpr (Or.inl hi)⟩
    · exact ⟨h, (hholds h d).mpr (Or.inr ⟨rfl, rfl⟩)⟩

lemma existsUnique (hcustody : Custody out holds) (hc : out c) : ∃! h, holds h c := by
  obtain ⟨h, hh⟩ := hcustody.held hc
  exact ⟨h, hh, fun g hg => hcustody.unique hg hh⟩

end Custody

end Scoro.Lib

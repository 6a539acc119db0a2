import Scoro.Ptr.RcPtr.Release

/-!
# Counting the holders of a box

`operator=` releases the old box of its target before it reads its source. As long as the source is
not stored in a box that goes with the old one, all counts are right between two operations. If it
is, the operation reads a deleted box.
-/

namespace Scoro.RcPtr
open Scoro.Lib

variable {X B F : Type*} {fields : B → List F}
  {s s' : State X B F} {l k other : Loc X B F} {b c : B} {f : F} {x : X}
  {cascade tail : List (Task X B F)} {t : Task X B F} {n : ℕ}

/-! ### Between two operations -/

section settled
variable [DecidableEq F]

/-- The counts are right, and nothing is being released. -/
structure Settled (fields : B → List F) (s : State X B F) : Prop where
  fault : s.fault = false
  boxes : ∀ b, (s.boxes b = .live (held s.mBox b) ∧ held s.mBox b ≠ 0 ∧ s.deletions b = 0) ∨
    (s.boxes b = .deleted ∧ held s.mBox b = 0 ∧ s.deletions b = 1) ∨
    (s.boxes b = .fresh ∧ held s.mBox b = 0 ∧ s.deletions b = 0)
  usable : ∀ l b, s.mBox l = some b → s.isUsable fields l = true
  finite : FinitelyHeld s.mBox
  acyclic : Acyclic (Edge s.mBox)

lemma init_settled : Settled fields (init X B F) := by
  refine ⟨rfl, fun b => Or.inr (Or.inr ⟨rfl, held_none, rfl⟩), ?_, finitelyHeld_none,
    fun b hb => ?_⟩
  · simp [init]
  · obtain ⟨c, ⟨f, hf⟩, -⟩ := Relation.TransGen.head'_iff.mp hb
    simp [init] at hf

/-- A box is live if and only if it is held. -/
lemma Settled.live_iff (h : Settled fields s) :
    (s.boxes b).isLive = true ↔ ∃ k, s.mBox k = some b := by
  constructor
  · intro hb
    rcases h.boxes b with ⟨-, hn, -⟩ | ⟨hbox, -⟩ | ⟨hbox, -⟩
    · exact exists_of_held hn
    · simp [hbox, Box.isLive] at hb
    · simp [hbox, Box.isLive] at hb
  · rintro ⟨k, hk⟩
    have hpos := h.finite.held_pos hk
    rcases h.boxes b with ⟨hbox, -⟩ | ⟨-, hzero, -⟩ | ⟨-, hzero, -⟩
    · simp [hbox, Box.isLive]
    · omega
    · omega

/-- A box with a field that is not null is held itself. -/
lemma Settled.held_owner (h : Settled fields s) (hf : s.mBox (.field c f) = some b) :
    ∃ k, s.mBox k = some c := by
  have husable := h.usable _ b hf
  simp only [State.isUsable, decide_eq_true_eq] at husable
  exact h.live_iff.mp husable.1

/-- An operation begins to release `l`, or has nothing to release there. -/
lemma Settled.running (h : Settled fields s) (a : Action X B F) (alive : X → Bool)
    (tail : List (Task X B F))
    (hcascade : cascade = [.dec l] ∨ cascade = [] ∧ s.mBox l = none)
    (hl : ∀ c f, l = .field c f → (s.boxes c).isLive = true)
    (halive : ∀ x, s.alive x = true → alive x = true ∨ .var x = l) :
    Running fields l cascade tail { s.begin a (cascade ++ tail) with alive := alive } := by
  have hplain : ∀ u ∈ cascade, u = .dec l := by
    rcases hcascade with rfl | ⟨rfl, -⟩ <;> simp
  have hboxes : ∀ b, s.boxes b ≠ .dying := by
    intro b hb
    rcases h.boxes b with ⟨hbox, -⟩ | ⟨hbox, -⟩ | ⟨hbox, -⟩ <;> simp [hb] at hbox
  constructor
  case todo => rfl
  case fault => exact h.fault
  case finite => exact h.finite
  case acyclic => exact h.acyclic
  case sub => exact fun _ _ hk => hk
  case nulled =>
    intro k b hb hk
    simp only [State.begin] at hb hk
    simp [hk] at hb
  case count =>
    intro b n hn
    have hn' : s.boxes b = .live n := hn
    rcases h.boxes b with ⟨hbox, hne, -⟩ | ⟨hbox, -⟩ | ⟨hbox, -⟩
    · rw [hn', Box.live.injEq] at hbox
      exact ⟨hbox, hbox ▸ hne⟩
    · simp [hn'] at hbox
    · simp [hn'] at hbox
  case target => exact fun k b hk => Or.inl (h.live_iff.mpr ⟨k, hk⟩)
  case dangling =>
    intro k b hnull
    cases hplain _ hnull
  case stays => exact fun k b hk => Or.inl (h.live_iff.mpr ⟨k, hk⟩)
  case dying =>
    refine fun b => ⟨fun hb => absurd hb (hboxes b), fun hfree => ?_⟩
    cases hplain _ hfree
  case doomed => exact fun b hb => absurd hb (hboxes b)
  case tasks =>
    rintro k (hk | hk) <;> cases hplain _ hk
    exact Or.inl rfl
  case order => rcases hcascade with rfl | ⟨rfl, -⟩ <;> simp
  case fields =>
    intro b f c hc
    have husable := h.usable _ c hc
    simp only [State.isUsable, decide_eq_true_eq] at husable
    exact ⟨husable.2, Or.inl husable.1⟩
  case vars => exact fun x b hx => halive x (h.usable _ b hx)
  case pending =>
    intro b hb
    rcases hcascade with rfl | ⟨-, hnone⟩
    · exact Or.inl (by simp)
    · have hb' : s.mBox l = some b := hb
      simp [hnone] at hb'
  case owner =>
    rintro c f rfl
    have hc := hl c f rfl
    exact ⟨hc, not_doomed_owner h.acyclic (fun _ _ _ => h.held_owner) (h.live_iff.mp hc)⟩
  case plain => exact fun u hu => Or.inl ⟨l, hplain u hu⟩
  case deletions =>
    intro b
    rcases h.boxes b with ⟨hbox, -, hdel⟩ | ⟨hbox, -, hdel⟩ | ⟨hbox, -, hdel⟩ <;>
      simp [State.begin, hbox, hdel]

/-- The cascade is over. -/
lemma Running.settled (h : Running fields l [] tail s) : Settled fields s ∧ s.mBox l = none := by
  have hempty : ∀ k : Loc X B F, ¬Pending [] k := by
    rintro k (hk | hk) <;> cases hk
  have hnone : s.mBox l = none := by
    cases hl : s.mBox l with
    | none => rfl
    | some c => exact absurd (h.pending c hl) (hempty l)
  have hlive : ∀ k b, s.mBox k = some b → (s.boxes b).isLive = true := by
    intro k b hk
    rcases h.target k b hk with hb | hnull
    · exact hb
    · cases hnull
  have hzero : ∀ b, (s.boxes b).isLive = false → held s.mBox b = 0 := by
    intro b hb
    by_contra hne
    obtain ⟨k, hk⟩ := exists_of_held hne
    simp [hlive k b hk] at hb
  refine ⟨⟨h.fault, fun b => ?_, fun k b hk => ?_, h.finite_mBox, ?_⟩, hnone⟩
  · have hdel := h.deletions b
    cases hbox : s.boxes b with
    | live n =>
      obtain ⟨rfl, hn⟩ := h.count b n hbox
      exact Or.inl ⟨rfl, hn, by simpa [hbox] using hdel⟩
    | deleted =>
      exact Or.inr (Or.inl ⟨rfl, hzero b (by simp [hbox, Box.isLive]), by simpa [hbox] using hdel⟩)
    | fresh =>
      exact Or.inr (Or.inr ⟨rfl, hzero b (by simp [hbox, Box.isLive]), by simpa [hbox] using hdel⟩)
    | dying => cases (h.dying b).mp hbox
  · cases k with
    | var x =>
      rcases h.vars x b hk with hx | rfl
      · exact hx
      · simp [hnone] at hk
    | field c f =>
      obtain ⟨hf, hc⟩ := h.fields c f b hk
      rcases hc with hc | ⟨-, hpend⟩
      · simp [State.isUsable, hc, hf]
      · exact absurd hpend (hempty _)
  · refine h.acyclic.mono fun c d => ?_
    rintro ⟨f, hf⟩
    exact ⟨f, h.sub _ d hf⟩

end settled

/-! ### The writes of an operation -/

section write
variable [DecidableEq X] [DecidableEq B] [DecidableEq F]

/-- A location is written. A new cycle would go through it. -/
lemma acyclic_write {m : Loc X B F → Option B} {v : Option B} (h : Acyclic (Edge m))
    (hl : ∀ c f b, l = .field c f → v = some b → ¬Relation.ReflTransGen (Edge m) b c) :
    Acyclic (Edge (Function.update m l v)) := by
  have hedge : ∀ c d, Edge (Function.update m l v) c d →
      Edge m c d ∨ (∃ f, l = .field c f) ∧ v = some d := by
    rintro c d ⟨f, hf⟩
    by_cases hfl : .field c f = l
    · subst hfl
      exact Or.inr ⟨⟨f, rfl⟩, by simpa using hf⟩
    · exact Or.inl ⟨f, by simpa [hfl] using hf⟩
  cases l with
  | var x =>
    refine h.mono fun c d hcd => ?_
    rcases hedge c d hcd with hold | ⟨⟨f, hf⟩, -⟩
    · exact hold
    · cases hf
  | field a f =>
    cases v with
    | none =>
      refine h.mono fun c d hcd => ?_
      rcases hedge c d hcd with hold | ⟨-, hd⟩
      · exact hold
      · cases hd
    | some b =>
      refine (h.insert (hl a f b rfl rfl)).mono fun c d hcd => ?_
      rcases hedge c d hcd with hold | ⟨⟨g, hg⟩, hd⟩
      · exact Or.inl hold
      · cases hg
        exact Or.inr ⟨rfl, (Option.some.inj hd).symm⟩

/-- `m_box = other.m_box; inc();`. -/
lemma Settled.copyBox (h : Settled fields s) (hnone : s.mBox l = none)
    (hl : s.isUsable fields l = true)
    (hacyclic : ∀ c f b, l = .field c f → s.mBox other = some b →
      ¬Relation.ReflTransGen (Edge s.mBox) b c) : Settled fields (s.copyBox l other) := by
  cases hv : s.mBox other with
  | none =>
    have hsame : s.copyBox l other = s := by
      simp only [State.copyBox, State.setBox, State.inc, hv]
      rw [← hnone, Function.update_eq_self]
    rwa [hsame]
  | some b =>
    obtain ⟨n, hn⟩ : ∃ n, s.boxes b = .live n := by
      have hlive := h.live_iff.mpr ⟨other, hv⟩
      cases hb : s.boxes b with
      | live n => exact ⟨n, rfl⟩
      | _ => simp [hb, Box.isLive] at hlive
    have hcopy : s.copyBox l other = { s.setBox l (some b) with
        boxes := Function.update s.boxes b (.live (n + 1)) } := by
      simp [State.copyBox, State.setBox, State.inc, hv, hn]
    have hlive : ∀ c,
        (Function.update s.boxes b (.live (n + 1)) c).isLive = (s.boxes c).isLive := by
      intro c
      by_cases hcb : c = b
      · simp [hcb, hn, Box.isLive]
      · simp [hcb]
    have husable : ∀ k, (s.copyBox l other).isUsable fields k = s.isUsable fields k := by
      intro k
      rw [hcopy]
      cases k with
      | var x => rfl
      | field c f => simp only [State.isUsable, hlive c]
    have hheld : ∀ c, held (Function.update s.mBox l (some b)) c =
        held s.mBox c + if b = c then 1 else 0 := by
      intro c
      have hupdate := h.finite.held_update l (some b) c
      simpa [hnone] using hupdate
    refine ⟨by rw [hcopy]; exact h.fault, fun c => ?_, fun k c hk => ?_, ?_, ?_⟩
    · rw [hcopy]
      by_cases hcb : c = b
      · subst hcb
        rcases h.boxes c with ⟨hbox, hne, hdel⟩ | ⟨hbox, -⟩ | ⟨hbox, -⟩
        · rw [hn, Box.live.injEq] at hbox
          left
          simp [State.setBox, hheld, hbox, hdel]
        · simp [hn] at hbox
        · simp [hn] at hbox
      · simpa [State.setBox, hheld, hcb, Ne.symm hcb] using h.boxes c
    · rw [husable]
      by_cases hkl : k = l
      · exact hkl ▸ hl
      · rw [hcopy] at hk
        exact h.usable k c (by simpa [State.setBox, hkl] using hk)
    · rw [hcopy]
      exact h.finite.update l (some b)
    · rw [hcopy]
      refine acyclic_write h.acyclic fun c f b' hl' hb' => ?_
      cases hb'
      exact hacyclic c f b hl' hv

/-- `m_box = std::exchange(other.m_box, nullptr)`. -/
lemma Settled.takeBox (h : Settled fields s) (hnone : s.mBox l = none) (hne : l ≠ other)
    (hl : s.isUsable fields l = true)
    (hacyclic : ∀ c f b, l = .field c f → s.mBox other = some b →
      ¬Relation.ReflTransGen (Edge s.mBox) b c) : Settled fields (s.takeBox l other) := by
  have hheld : ∀ c, held (s.takeBox l other).mBox c = held s.mBox c := by
    intro c
    have htake := h.finite.held_update other none c
    have hput := (h.finite.update other none).held_update l (s.mBox other) c
    simp only [Function.update_of_ne hne, hnone, reduceCtorEq, if_false] at htake hput
    simp only [State.takeBox, State.setBox]
    omega
  have hsub : ∀ c d, Edge (Function.update s.mBox other none) c d → Edge s.mBox c d := by
    rintro c d ⟨f, hf⟩
    by_cases hfo : .field c f = other
    · simp [hfo] at hf
    · exact ⟨f, by simpa [hfo] using hf⟩
  refine ⟨h.fault, fun c => ?_, fun k c hk => ?_, (h.finite.update other none).update l _, ?_⟩
  · rw [hheld]
    exact h.boxes c
  · by_cases hkl : k = l
    · exact hkl ▸ hl
    · by_cases hko : k = other
      · simp [State.takeBox, State.setBox, hko, hne.symm] at hk
      · exact h.usable k c (by simpa [State.takeBox, State.setBox, hkl, hko] using hk)
  · refine acyclic_write (h.acyclic.mono hsub) fun c f b hl' hb hbc => ?_
    exact hacyclic c f b hl' hb (Relation.ReflTransGen.mono hsub _ _ hbc)

/-- `make_rc`. -/
lemma Settled.make (h : Settled fields s) (hx : s.alive x = false) (hb : s.boxes b = .fresh) :
    Settled fields (s.make x b) := by
  have hnone : s.mBox (.var x) = none := by
    cases hv : s.mBox (.var x) with
    | none => rfl
    | some c =>
      have husable := h.usable _ c hv
      simp [State.isUsable, hx] at husable
  have hzero : held s.mBox b = 0 ∧ s.deletions b = 0 := by
    rcases h.boxes b with ⟨hbox, -⟩ | ⟨hbox, -⟩ | ⟨-, hzero, hdel⟩
    · simp [hb] at hbox
    · simp [hb] at hbox
    · exact ⟨hzero, hdel⟩
  have hheld : ∀ c, held (Function.update s.mBox (.var x) (some b)) c =
      held s.mBox c + if b = c then 1 else 0 := by
    intro c
    have hupdate := h.finite.held_update (.var x) (some b) c
    simpa [hnone] using hupdate
  refine ⟨h.fault, fun c => ?_, fun k c hk => ?_, h.finite.update _ _, ?_⟩
  · by_cases hcb : c = b
    · subst hcb
      left
      simp [State.make, State.setBox, hheld, hzero]
    · simpa [State.make, State.setBox, hheld, hcb, Ne.symm hcb] using h.boxes c
  · by_cases hkx : k = .var x
    · simp [hkx, State.make, State.isUsable]
    · have husable := h.usable k c (by simpa [State.make, State.setBox, hkx] using hk)
      cases k with
      | var y =>
        have hyx : y ≠ x := fun hyx => hkx (hyx ▸ rfl)
        simpa [State.make, State.isUsable, hyx] using husable
      | field d f =>
        have hdb : d ≠ b := by
          rintro rfl
          simp [State.isUsable, hb, Box.isLive] at husable
        simpa [State.make, State.isUsable, hdb] using husable
  · exact acyclic_write h.acyclic fun c f b' hl' => by cases hl'

end write

/-! ### A whole operation -/

/-- What an assignment or a construction needs of its target and its source when it has released the
old box. -/
structure Source (fields : B → List F) (l other : Loc X B F) (s : State X B F) : Prop where
  ne : l ≠ other
  operation : ∃ a, s.operation = some a ∧ a.source = some (l, other)
  target : ∀ x, l = .var x → s.alive x = true
  targetField : ∀ c f, l = .field c f → f ∈ fields c
  sourceField : ∀ c f, other = .field c f → ∃ k, s.before k = some c
  stays : ∀ c f, other = .field c f → ¬Doomed s.before l c
  acyclic : ∀ c f b, l = .field c f → s.before other = some b →
    ¬Relation.ReflTransGen (Edge s.before) b c

/-- The last task of an assignment or a construction. -/
def Task.Reads (t : Task X B F) (l other : Loc X B F) : Prop :=
  t = .copyBox l other ∨ t = .takeBox l other

/-- The variables and the history of the operation are left alone. -/
def SameOperation (s s' : State X B F) : Prop :=
  s'.alive = s.alive ∧ s'.operation = s.operation ∧ s'.before = s.before

lemma Source.same (h : Source fields l other s) (hsame : SameOperation s s') :
    Source fields l other s' := by
  obtain ⟨halive, hoperation, hbefore⟩ := hsame
  exact ⟨h.ne, hoperation ▸ h.operation, halive ▸ h.target, h.targetField,
    hbefore ▸ h.sourceField, hbefore ▸ h.stays, hbefore ▸ h.acyclic⟩

lemma access_same {u : State X B F} (h : SameOperation s u) : SameOperation s (s.access l u) := by
  unfold State.access
  split_ifs
  · exact h
  · exact ⟨rfl, rfl, rfl⟩

/-- The source holds what it held before. -/
lemma Running.source_kept (h : Running fields l [] tail s) (hs : Source fields l other s) :
    s.isStored other = true ∧ s.mBox other = s.before other := by
  constructor
  · cases other with
    | var x => rfl
    | field c f =>
      obtain ⟨k, hk⟩ := hs.sourceField c f rfl
      rcases h.stays k c hk with hc | hc
      · simp [State.isStored, hc]
      · exact absurd hc (hs.stays c f rfl)
  · cases hm : s.mBox other with
    | some b => exact (h.sub other b hm).symm
    | none =>
      cases hb : s.before other with
      | none => rfl
      | some b =>
        rcases h.nulled other b hb hm with heq | ⟨c, f, heq, hc⟩
        · exact absurd heq.symm hs.ne
        · exact absurd hc (hs.stays c f heq)

section operation
variable [DecidableEq B]

lemma inc_same (box : Option B) : SameOperation s (s.inc box) ∧ (s.inc box).mBox = s.mBox ∧
    (s.inc box).todo = s.todo := by
  unfold State.inc
  split
  · exact ⟨⟨rfl, rfl, rfl⟩, rfl, rfl⟩
  · split <;> exact ⟨⟨rfl, rfl, rfl⟩, rfl, rfl⟩

variable [DecidableEq X] [DecidableEq F]

/-- The state between two operations, in the release of a variable that is destroyed, and in an
assignment or a construction. -/
inductive Inv (fields : B → List F) (s : State X B F) : Prop
  | quiet (htodo : s.todo = []) (hsettled : Settled fields s)
      (hassigned : ∀ a l other, s.operation = some a → a.source = some (l, other) →
        s.mBox l = s.before other)
  | destroying (l : Loc X B F) (cascade : List (Task X B F)) (hrun : Running fields l cascade [] s)
      (hoperation : ∀ a, s.operation = some a → a.source = none)
  | assigning (l other : Loc X B F) (cascade : List (Task X B F)) (t : Task X B F)
      (hreads : t.Reads l other) (hrun : Running fields l cascade [t] s)
      (hsource : Source fields l other s)

lemma dec_same : SameOperation s (s.dec fields l) := by
  unfold State.dec
  split
  · exact ⟨rfl, rfl, rfl⟩
  · split
    · split_ifs <;> exact ⟨rfl, rfl, rfl⟩
    · exact ⟨rfl, rfl, rfl⟩
    · exact ⟨rfl, rfl, rfl⟩
    · exact ⟨rfl, rfl, rfl⟩

lemma runTask_same (fields : B → List F) (s : State X B F) (t : Task X B F) :
    SameOperation s (s.runTask fields t) := by
  cases t with
  | dec l => exact access_same dec_same
  | null l => exact access_same ⟨rfl, rfl, rfl⟩
  | free b => exact ⟨rfl, rfl, rfl⟩
  | copyBox l other => exact access_same (access_same (inc_same (s.mBox other)).1)
  | takeBox l other => exact access_same (access_same ⟨rfl, rfl, rfl⟩)

/-- The last task of an assignment or a construction. -/
lemma Running.reads (h : Running fields l [] [t] s) (ht : t.Reads l other)
    (hs : Source fields l other s) :
    Settled fields ({ s with todo := [] }.runTask fields t) ∧
      ({ s with todo := [] }.runTask fields t).todo = [] ∧
      ({ s with todo := [] }.runTask fields t).mBox l = s.before other := by
  obtain ⟨hsettled, hnone⟩ := h.settled
  obtain ⟨hstored, hkept⟩ := h.source_kept hs
  have hl : s.isUsable fields l = true ∧ s.isStored l = true := by
    cases l with
    | var x => exact ⟨hs.target x rfl, rfl⟩
    | field c f =>
      have hc := (h.owner c f rfl).1
      exact ⟨by simp [State.isUsable, hc, hs.targetField c f rfl], by simp [State.isStored, hc]⟩
  have hacyclic : ∀ c f b, l = .field c f → s.mBox other = some b →
      ¬Relation.ReflTransGen (Edge s.mBox) b c := by
    intro c f b hlc hb hbc
    refine hs.acyclic c f b hlc (h.sub other b hb) (Relation.ReflTransGen.mono ?_ _ _ hbc)
    rintro d e ⟨g, hg⟩
    exact ⟨g, h.sub _ e hg⟩
  have hnext : Settled fields { s with todo := [] } :=
    ⟨hsettled.fault, hsettled.boxes, hsettled.usable, hsettled.finite, hsettled.acyclic⟩
  have hstored' : { s with todo := [] }.isStored other = true := hstored
  have hlstored : { s with todo := [] }.isStored l = true := hl.2
  rcases ht with rfl | rfl <;>
    simp only [State.runTask, State.access, hstored', hlstored, if_true]
  · obtain ⟨-, hmBox, htodo⟩ := inc_same (s := { s with todo := [] }.setBox l (s.mBox other))
      (s.mBox other)
    refine ⟨hnext.copyBox hnone hl.1 hacyclic, htodo, ?_⟩
    rw [State.copyBox, hmBox]
    simp [State.setBox, hkept]
  · refine ⟨hnext.takeBox hnone hs.ne hl.1 hacyclic, rfl, ?_⟩
    simp [State.takeBox, State.setBox, hkept]

/-- One task of the operation in progress. -/
lemma Inv.run (h : Inv fields s) (hs : runStep fields s = some s') : Inv fields s' := by
  cases h with
  | quiet htodo => simp [runStep, htodo] at hs
  | destroying l cascade hrun hoperation =>
    cases cascade with
    | nil => simp [runStep, hrun.todo] at hs
    | cons t cascade =>
      obtain ⟨cascade', hnext⟩ := hrun.runTask
      simp only [runStep, hrun.todo, List.cons_append, Option.some.injEq] at hs
      subst hs
      obtain ⟨-, hsame, -⟩ := runTask_same fields { s with todo := cascade ++ [] } t
      exact .destroying l cascade' hnext fun a ha => hoperation a (hsame ▸ ha)
  | assigning l other cascade t hreads hrun hsource =>
    cases cascade with
    | nil =>
      obtain ⟨hsettled, htodo, htarget⟩ := hrun.reads hreads hsource
      obtain ⟨a, ha, hal⟩ := hsource.operation
      simp only [runStep, hrun.todo, List.nil_append, Option.some.injEq] at hs
      subst hs
      obtain ⟨-, hoperation, hbefore⟩ := runTask_same fields { s with todo := [] } t
      refine .quiet htodo hsettled fun a' l' other' ha' hsrc => ?_
      have haa : a' = a := Option.some.inj ((ha'.symm.trans hoperation).trans ha)
      rw [haa, hal] at hsrc
      cases hsrc
      rw [htarget, hbefore]
    | cons t' cascade =>
      obtain ⟨cascade', hnext⟩ := hrun.runTask
      simp only [runStep, hrun.todo, List.cons_append, Option.some.injEq] at hs
      subst hs
      exact .assigning l other cascade' t hreads hnext
        (hsource.same (runTask_same fields { s with todo := cascade ++ [t] } t'))

end operation

end Scoro.RcPtr

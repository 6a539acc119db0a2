import Scoro.Ptr.RcPtr.Model

/-!
# The release of a box

The deletion of a box cascades through its fields. What goes are the boxes that are held by nothing
but the target of the operation and the fields of boxes that go.
-/

namespace Scoro.RcPtr
open Scoro.Lib

variable {X B F : Type*} {fields : B → List F} {s s' : State X B F} {m : Loc X B F → Option B}
  {l k : Loc X B F} {b c : B} {f : F} {cascade tail : List (Task X B F)}

/-! ### Boxes that go -/

/-- A box that goes can be reached from the box that is released. -/
lemma Doomed.reach (h : Doomed m l b)
    (hheld : ∀ c f b, m (.field c f) = some b → ∃ k, m k = some c) (hb : ∃ k, m k = some b) :
    ∃ a, m l = some a ∧ Relation.ReflTransGen (Edge m) a b := by
  induction h with
  | intro b hvar _ ih =>
    obtain ⟨k, hk⟩ := hb
    by_cases hkl : k = l
    · exact ⟨b, hkl ▸ hk, .refl⟩
    · cases k with
      | var x => exact absurd (hvar x hk) hkl
      | field c f =>
        obtain ⟨a, ha, hac⟩ := ih c f hk hkl (hheld c f b hk)
        exact ⟨a, ha, hac.tail ⟨f, hk⟩⟩

/-- The box that the target is stored in stays. -/
lemma not_doomed_owner (hacyclic : Acyclic (Edge m))
    (hheld : ∀ c f b, m (.field c f) = some b → ∃ k, m k = some c) (hc : ∃ k, m k = some c) :
    ¬Doomed m (.field c f) c := by
  intro h
  obtain ⟨a, ha, hac⟩ := h.reach hheld hc
  exact hacyclic c (.head' ⟨f, ha⟩ hac)

/-! ### The tasks of a cascade -/

/-- The order of the tasks: a box is gone after its fields have been destroyed, and a location is
not released again before it has been nulled. -/
def Task.mayPrecede : Task X B F → Task X B F → Prop
  | .free b, .free c => b ≠ c
  | .free b, .dec (.field c _) | .free b, .null (.field c _) => b ≠ c
  | .dec k, .null l => k ≠ l
  | _, _ => True

/-- The location is still to be released or nulled. -/
def Pending (cascade : List (Task X B F)) (k : Loc X B F) : Prop :=
  .dec k ∈ cascade ∨ .null k ∈ cascade

/-- The release of `l`, with the tasks `cascade` left. -/
structure Running (fields : B → List F) (l : Loc X B F) (cascade tail : List (Task X B F))
    (s : State X B F) : Prop where
  todo : s.todo = cascade ++ tail
  fault : s.fault = false
  finite : FinitelyHeld s.before
  acyclic : Acyclic (Edge s.before)
  sub : ∀ k b, s.mBox k = some b → s.before k = some b
  nulled : ∀ k b, s.before k = some b → s.mBox k = none →
    k = l ∨ ∃ c f, k = .field c f ∧ Doomed s.before l c
  count : ∀ b n, s.boxes b = .live n → n = held s.mBox b ∧ n ≠ 0
  target : ∀ k b, s.mBox k = some b → (s.boxes b).isLive = true ∨ .null k ∈ cascade
  dangling : ∀ k b, .null k ∈ cascade → s.mBox k = some b → (s.boxes b).isLive = false
  stays : ∀ k b, s.before k = some b → (s.boxes b).isLive = true ∨ Doomed s.before l b
  dying : ∀ b, s.boxes b = .dying ↔ .free b ∈ cascade
  doomed : ∀ b, s.boxes b = .dying → Doomed s.before l b
  tasks : ∀ k, Pending cascade k → k = l ∨ ∃ c f, k = .field c f ∧ s.boxes c = .dying
  order : cascade.Pairwise Task.mayPrecede
  fields : ∀ b f c, s.mBox (.field b f) = some c → f ∈ fields b ∧
    ((s.boxes b).isLive = true ∨ s.boxes b = .dying ∧ Pending cascade (.field b f))
  vars : ∀ x b, s.mBox (.var x) = some b → s.alive x = true ∨ .var x = l
  pending : ∀ b, s.mBox l = some b → Pending cascade l
  owner : ∀ c f, l = .field c f → (s.boxes c).isLive = true ∧ ¬Doomed s.before l c
  plain : ∀ t ∈ cascade, (∃ k, t = .dec k) ∨ (∃ k, t = .null k) ∨ ∃ b, t = .free b
  deletions : ∀ b, s.deletions b = if s.boxes b = .deleted then 1 else 0

variable {t : Task X B F} {n : ℕ}

lemma pending_cons (ht : t = .dec k ∨ t = .null k) {j : Loc X B F} (hj : j ≠ k)
    (h : Pending (t :: cascade) j) : Pending cascade j := by
  rcases ht with rfl | rfl <;> rcases h with h | h <;> simp [hj] at h
  · exact Or.inl h
  · exact Or.inr h
  · exact Or.inl h
  · exact Or.inr h

lemma Pending.cons (h : Pending cascade k) : Pending (t :: cascade) k :=
  h.imp (List.mem_cons_of_mem t) (List.mem_cons_of_mem t)

lemma Running.finite_mBox (h : Running fields l cascade tail s) : FinitelyHeld s.mBox := by
  refine h.finite.subset fun k hk => ?_
  obtain ⟨b, hb⟩ := Option.ne_none_iff_exists'.mp hk
  simp [h.sub k b hb]

lemma Running.held_of_live (h : Running fields l cascade tail s) (hb : (s.boxes b).isLive = true) :
    ∃ k, s.mBox k = some b := by
  cases hbox : s.boxes b with
  | live n =>
    obtain ⟨rfl, hn⟩ := h.count b n hbox
    exact exists_of_held hn
  | _ => simp [hbox, Box.isLive] at hb

lemma Running.doomed_task (h : Running fields l cascade tail s) (hk : Pending cascade k) :
    k = l ∨ ∃ c f, k = .field c f ∧ Doomed s.before l c := by
  rcases h.tasks k hk with rfl | ⟨c, f, rfl, hc⟩
  · exact Or.inl rfl
  · exact Or.inr ⟨c, f, rfl, h.doomed c hc⟩

/-- A box with a task in the cascade is no longer live. -/
lemma Running.not_live (h : Running fields l cascade tail s) (hk : Pending cascade (.field b f))
    (hdoomed : Doomed s.before l b) : (s.boxes b).isLive = false := by
  rcases h.tasks _ hk with heq | ⟨c, g, heq, hc⟩
  · exact absurd hdoomed (h.owner b f heq.symm).2
  · cases heq
    simp [hc, Box.isLive]

/-- The box that a location holds when it is released is live. -/
lemma Running.live_of_dec (h : Running fields l (.dec k :: cascade) tail s)
    (hk : s.mBox k = some b) : ∃ n, s.boxes b = .live n := by
  rcases h.target k b hk with hb | hnull
  · cases hbox : s.boxes b with
    | live n => exact ⟨n, rfl⟩
    | _ => simp [hbox, Box.isLive] at hb
  · have hcascade : .null k ∈ cascade := by simpa using hnull
    exact absurd rfl ((List.pairwise_cons.mp h.order).1 _ hcascade)

/-- A box whose last holder is released goes. -/
lemma Running.doomed_of_last (h : Running fields l (.dec k :: cascade) tail s)
    (hk : s.mBox k = some b) (hone : held s.mBox b = 1) : Doomed s.before l b := by
  have hpending : Pending (.dec k :: cascade) k := Or.inl (by simp)
  have hholder : ∀ j, s.before j = some b →
      j = l ∨ ∃ c f, j = .field c f ∧ Doomed s.before l c := by
    intro j hj
    cases hjm : s.mBox j with
    | none => exact h.nulled j b hj hjm
    | some d =>
      have hdb : d = b := Option.some.inj ((h.sub j d hjm).symm.trans hj)
      have hjk : j = k := eq_of_held_one hone (hdb ▸ hjm) hk
      rw [hjk]
      exact h.doomed_task hpending
  refine .intro b (fun x hx => ?_) fun c f hf hne => ?_
  · rcases hholder _ hx with hl | ⟨c, f, heq, -⟩
    · exact hl
    · cases heq
  · rcases hholder _ hf with hl | ⟨c', f', heq, hc⟩
    · exact absurd hl hne
    · cases heq
      exact hc

/-- The tasks of a deletion are in order before those of the cascade that it is part of. -/
lemma deleteBox_order (horder : cascade.Pairwise Task.mayPrecede) (hself : ∀ f, k ≠ .field b f)
    (hother : ∀ f, ¬Pending cascade (.field b f)) (hfree : .free b ∉ cascade) :
    (State.deleteBox fields b ++ Task.null k :: cascade).Pairwise Task.mayPrecede := by
  have hdecs : ((fields b).map fun f => (.dec (.field b f) : Task X B F)).Pairwise
      Task.mayPrecede := by
    rw [List.pairwise_map]
    exact List.pairwise_of_forall fun _ _ => trivial
  have hbox : (State.deleteBox (X := X) fields b).Pairwise Task.mayPrecede := by
    refine List.pairwise_append.mpr ⟨hdecs, List.pairwise_singleton _ _, fun u hu v hv => ?_⟩
    obtain ⟨f, -, rfl⟩ := List.mem_map.mp hu
    obtain rfl := List.mem_singleton.mp hv
    trivial
  refine List.pairwise_append.mpr
    ⟨hbox, List.pairwise_cons.mpr ⟨fun _ _ => trivial, horder⟩, fun u hu v hv => ?_⟩
  rcases List.mem_append.mp hu with hu | hu
  · obtain ⟨f, -, rfl⟩ := List.mem_map.mp hu
    rcases List.mem_cons.mp hv with rfl | hv
    · exact (hself f).symm
    · cases v with
      | null j =>
        rintro rfl
        exact hother f (Or.inr hv)
      | _ => trivial
  · obtain rfl := List.mem_singleton.mp hu
    rcases List.mem_cons.mp hv with rfl | hv
    · cases k with
      | var x => trivial
      | field c f =>
        rintro rfl
        exact hself f rfl
    · cases v with
      | free c =>
        rintro rfl
        exact hfree hv
      | dec j | null j =>
        cases j with
        | var x => trivial
        | field c f =>
          rintro rfl
          first | exact hother f (Or.inl hv) | exact hother f (Or.inr hv)
      | _ => trivial

lemma mem_deleteBox_append {u : Task X B F} :
    u ∈ State.deleteBox fields b ++ .null k :: cascade ↔
      (∃ f ∈ fields b, u = .dec (.field b f)) ∨ u = .free b ∨ u = .null k ∨ u ∈ cascade := by
  simp only [State.deleteBox, List.append_assoc, List.cons_append, List.nil_append,
    List.mem_append, List.mem_map, List.mem_cons, eq_comm]

/-- A deletion keeps what is still to be released. -/
lemma Pending.deleteBox {j : Loc X B F} (h : Pending (.dec k :: cascade) j) :
    Pending (State.deleteBox fields b ++ .null k :: cascade) j := by
  by_cases hjk : j = k
  · exact Or.inr (by simp [hjk])
  · exact (pending_cons (Or.inl rfl) hjk h).imp (fun hm => by simp [hm]) fun hm => by simp [hm]

/-- It adds the fields of the box. -/
lemma pending_deleteBox {j : Loc X B F}
    (h : Pending (State.deleteBox fields b ++ .null k :: cascade) j) :
    (∃ f, j = .field b f) ∨ Pending (.dec k :: cascade) j := by
  rcases h with h | h
  · rcases mem_deleteBox_append.mp h with ⟨f, -, heq⟩ | heq | heq | hmem
    · cases heq
      exact Or.inl ⟨f, rfl⟩
    · cases heq
    · cases heq
    · exact Or.inr (Or.inl (List.mem_cons_of_mem _ hmem))
  · rcases mem_deleteBox_append.mp h with ⟨f, -, heq⟩ | heq | heq | hmem
    · cases heq
    · cases heq
    · cases heq
      exact Or.inr (Or.inl (by simp))
    · exact Or.inr (Or.inr (List.mem_cons_of_mem _ hmem))

lemma Running.stored (h : Running fields l cascade tail s) (hk : Pending cascade k) :
    s.isStored k = true := by
  rcases h.tasks k hk with rfl | ⟨c, f, rfl, hc⟩
  · cases k with
    | var x => rfl
    | field c f => simp [State.isStored, (h.owner c f rfl).1]
  · simp [State.isStored, hc]

/-- When the cascade is over the boxes that go are gone. -/
lemma Running.doomed_dead (h : Running fields l [] tail s) (hb : Doomed s.before l b) :
    (s.boxes b).isLive = false := by
  have hnone : s.mBox l = none := by
    cases hl : s.mBox l with
    | none => rfl
    | some c =>
      rcases h.pending c hl with hmem | hmem <;> cases hmem
  induction hb with
  | intro b hvar _ ih =>
    refine Bool.eq_false_of_not_eq_true fun hlive => ?_
    obtain ⟨k, hk⟩ := h.held_of_live hlive
    have hold := h.sub k b hk
    cases k with
    | var x => simp [hvar x hold, hnone] at hk
    | field c f =>
      have hne : .field c f ≠ l := by
        rintro rfl
        simp [hnone] at hk
      have hdead := ih c f hold hne
      rcases (h.fields c f b hk).2 with hc | ⟨-, hmem | hmem⟩
      · simp [hdead] at hc
      · cases hmem
      · cases hmem

section delete
variable [DecidableEq B]

/-- All fields of the box have been destroyed, and it is deleted. -/
lemma Running.free (h : Running fields l (.free b :: cascade) tail s) :
    Running fields l cascade tail ({ s with todo := cascade ++ tail }.free b) := by
  have hb : s.boxes b = .dying := (h.dying b).mpr (by simp)
  obtain ⟨hfirst, horder⟩ := List.pairwise_cons.mp h.order
  have hfields : ∀ f, ¬Pending cascade (.field b f) := by
    rintro f (hf | hf)
    · exact hfirst _ hf rfl
    · exact hfirst _ hf rfl
  have hkept : ∀ c, c ≠ b → Function.update s.boxes b .deleted c = s.boxes c :=
    fun c hc => by simp [hc]
  have hlive : ∀ c, (Function.update s.boxes b .deleted c).isLive = (s.boxes c).isLive := by
    intro c
    by_cases hcb : c = b
    · simp [hcb, hb, Box.isLive]
    · rw [hkept c hcb]
  have hdying : ∀ c,
      Function.update s.boxes b .deleted c = .dying ↔ c ≠ b ∧ s.boxes c = .dying := by
    intro c
    by_cases hcb : c = b
    · simp [hcb]
    · simp [hcb]
  have hpending : ∀ j, Pending (.free b :: cascade) j → Pending cascade j :=
    fun j hj => hj.imp (fun hm => by simpa using hm) fun hm => by simpa using hm
  refine { h with
    todo := rfl
    count := fun c n hc => ?_
    target := fun j c hj => ?_
    dangling := fun j c hnull hj => ?_
    stays := fun j c hj => (h.stays j c hj).imp_left (hlive c).trans
    dying := fun c => ?_
    doomed := fun c hc => h.doomed c ((hdying c).mp hc).2
    tasks := fun j hj => ?_
    order := horder
    fields := fun c f d hd => ?_
    pending := fun c hc => hpending l (h.pending c hc)
    owner := fun c f hc => ⟨(hlive c).trans (h.owner c f hc).1, (h.owner c f hc).2⟩
    plain := fun u hu => h.plain u (List.mem_cons_of_mem _ hu)
    deletions := fun c => ?_ }
  · by_cases hcb : c = b
    · simp [State.free, hcb] at hc
    · exact h.count c n ((hkept c hcb).symm.trans hc)
  · refine (h.target j c hj).imp (hlive c).trans fun hnull => ?_
    simpa using hnull
  · exact (hlive c).trans (h.dangling j c (List.mem_cons_of_mem _ hnull) hj)
  · refine (hdying c).trans ⟨fun hc => ?_, fun hmem => ?_⟩
    · have hmem := (h.dying c).mp hc.2
      simpa [hc.1] using hmem
    · exact ⟨fun hcb => hfirst _ hmem hcb.symm, (h.dying c).mpr (List.mem_cons_of_mem _ hmem)⟩
  · refine (h.tasks j hj.cons).imp_right fun ⟨c, f, hjc, hc⟩ => ⟨c, f, hjc, (hdying c).mpr ⟨?_, hc⟩⟩
    rintro rfl
    exact hfields f (hjc ▸ hj)
  · obtain ⟨hf, hc⟩ := h.fields c f d hd
    refine ⟨hf, hc.imp (hlive c).trans fun hc => ?_⟩
    have hpend := hpending _ hc.2
    refine ⟨(hdying c).mpr ⟨?_, hc.1⟩, hpend⟩
    rintro rfl
    exact hfields f hpend
  · have hdel := h.deletions c
    by_cases hcb : c = b
    · subst hcb
      simpa [State.free, hb] using hdel
    · simpa [State.free, hcb] using hdel

/-- The last holder of a box is released, and its deletion begins. -/
lemma Running.kill (h : Running fields l (.dec k :: cascade) tail s) (hk : s.mBox k = some b)
    (hb : s.boxes b = .live 1) : Running fields l (State.deleteBox fields b ++ .null k :: cascade)
      tail { s with
        boxes := Function.update s.boxes b .dying
        todo := State.deleteBox fields b ++ .null k :: (cascade ++ tail) } := by
  have hone : held s.mBox b = 1 := (h.count b 1 hb).1.symm
  have hgoes := h.doomed_of_last hk hone
  have hself : ∀ f, k ≠ .field b f := by
    rintro f rfl
    exact h.acyclic b (.single ⟨f, h.sub _ b hk⟩)
  have hother : ∀ f, ¬Pending cascade (.field b f) := by
    intro f hf
    have hdead := h.not_live hf.cons hgoes
    simp [hb, Box.isLive] at hdead
  have hfree : .free b ∉ cascade := by
    intro hmem
    have hdying := (h.dying b).mpr (List.mem_cons_of_mem _ hmem)
    simp [hb] at hdying
  have hcount : ∀ j c, s.mBox j = some c → c = b → j = k := by
    rintro j c hj rfl
    exact eq_of_held_one hone hj hk
  have hkept : ∀ c, c ≠ b → Function.update s.boxes b .dying c = s.boxes c :=
    fun c hc => by simp [hc]
  refine { h with
    todo := by simp
    count := fun c n hc => ?_
    target := fun j c hj => ?_
    dangling := fun j c hnull hj => ?_
    stays := fun j c hj => ?_
    dying := fun c => ?_
    doomed := fun c hc => ?_
    tasks := fun j hj => ?_
    order := ?_
    fields := fun c f d hd => ?_
    pending := fun c hc => (h.pending c hc).deleteBox
    owner := fun c f hc => ?_
    plain := fun u hu => ?_
    deletions := fun c => ?_ }
  · by_cases hcb : c = b
    · simp [hcb] at hc
    · exact h.count c n ((hkept c hcb).symm.trans hc)
  · by_cases hcb : c = b
    · right
      rw [hcount j c hj hcb]
      simp
    · dsimp only
      rw [hkept c hcb]
      refine (h.target j c hj).imp_right fun hnull => ?_
      have hcascade : .null j ∈ cascade := by simpa using hnull
      simp [hcascade]
  · by_cases hcb : c = b
    · simp [hcb, Box.isLive]
    · dsimp only
      rw [hkept c hcb]
      rcases mem_deleteBox_append.mp hnull with ⟨f, -, heq⟩ | heq | heq | hmem
      · cases heq
      · cases heq
      · cases heq
        exact absurd (Option.some.inj (hj.symm.trans hk)) hcb
      · exact h.dangling j c (List.mem_cons_of_mem _ hmem) hj
  · by_cases hcb : c = b
    · exact Or.inr (hcb ▸ hgoes)
    · dsimp only
      rw [hkept c hcb]
      exact h.stays j c hj
  · by_cases hcb : c = b
    · simp [hcb, State.deleteBox]
    · dsimp only
      rw [hkept c hcb, h.dying c]
      simp [State.deleteBox, hcb]
  · by_cases hcb : c = b
    · exact hcb ▸ hgoes
    · exact h.doomed c ((hkept c hcb).symm.trans hc)
  · rcases pending_deleteBox hj with ⟨f, rfl⟩ | hj
    · exact Or.inr ⟨b, f, rfl, by simp⟩
    · refine (h.tasks j hj).imp_right fun ⟨c, f, hjc, hc⟩ => ⟨c, f, hjc, ?_⟩
      have hcb : c ≠ b := by
        rintro rfl
        simp [hb] at hc
      exact (hkept c hcb).trans hc
  · exact deleteBox_order h.order.of_cons hself hother hfree
  · obtain ⟨hf, hc⟩ := h.fields c f d hd
    by_cases hcb : c = b
    · refine ⟨hf, Or.inr ⟨by simp [hcb], Or.inl ?_⟩⟩
      simp [State.deleteBox, hcb, hcb ▸ hf]
    · dsimp only
      rw [hkept c hcb]
      exact ⟨hf, hc.imp_right fun hc => ⟨hc.1, hc.2.deleteBox⟩⟩
  · have hcb : c ≠ b := by
      rintro rfl
      exact (h.owner c f hc).2 hgoes
    dsimp only
    rw [hkept c hcb]
    exact h.owner c f hc
  · rcases mem_deleteBox_append.mp hu with ⟨f, -, rfl⟩ | rfl | rfl | hmem
    · exact Or.inl ⟨_, rfl⟩
    · exact Or.inr (Or.inr ⟨_, rfl⟩)
    · exact Or.inr (Or.inl ⟨_, rfl⟩)
    · exact h.plain u (List.mem_cons_of_mem _ hmem)
  · by_cases hcb : c = b
    · simpa [hcb, hb] using h.deletions b
    · simpa [hcb] using h.deletions c

end delete

variable [DecidableEq X] [DecidableEq B] [DecidableEq F]

/-- A location is nulled, and the count of its box is given up if it is still live. -/
lemma Running.release (h : Running fields l (t :: cascade) tail s)
    (ht : t = .dec k ∨ t = .null k) (boxes : B → Box)
    (hlive : ∀ b, (boxes b).isLive = (s.boxes b).isLive)
    (hdying : ∀ b, boxes b = .dying ↔ s.boxes b = .dying)
    (hdeleted : ∀ b, boxes b = .deleted ↔ s.boxes b = .deleted)
    (hcount : ∀ b n, boxes b = .live n → n = held (Function.update s.mBox k none) b ∧ n ≠ 0) :
    Running fields l cascade tail
      { s.setBox k none with boxes := boxes, todo := cascade ++ tail } := by
  have hk : Pending (t :: cascade) k := by
    rcases ht with rfl | rfl
    · exact Or.inl (by simp)
    · exact Or.inr (by simp)
  have hold : ∀ j b, (s.setBox k none).mBox j = some b → j ≠ k ∧ s.mBox j = some b := by
    intro j b hj
    by_cases hjk : j = k
    · simp [State.setBox, hjk] at hj
    · exact ⟨hjk, by simpa [State.setBox, hjk] using hj⟩
  have hfree : ∀ b, .free b ∈ t :: cascade ↔ .free b ∈ cascade := by
    intro b
    rcases ht with rfl | rfl <;> simp
  refine { h with
    todo := rfl
    sub := fun j b hj => h.sub j b (hold j b hj).2
    nulled := fun j b hb hj => ?_
    count := hcount
    target := fun j b hj => ?_
    dangling := fun j b hnull hj => ?_
    stays := fun j b hb => ?_
    dying := fun b => ((hdying b).trans (h.dying b)).trans (hfree b)
    doomed := fun b hb => h.doomed b ((hdying b).mp hb)
    tasks := fun j hj => ?_
    order := h.order.of_cons
    fields := fun b f c hb => ?_
    vars := fun x b hb => h.vars x b (hold _ b hb).2
    pending := fun b hb => ?_
    owner := fun c f hc => ?_
    plain := fun u hu => h.plain u (List.mem_cons_of_mem t hu)
    deletions := fun b => ?_ }
  · by_cases hjk : j = k
    · rw [hjk]
      exact h.doomed_task hk
    · exact h.nulled j b hb (by simpa [State.setBox, hjk] using hj)
  · obtain ⟨hjk, hjb⟩ := hold j b hj
    rcases h.target j b hjb with hb | hnull
    · exact Or.inl ((hlive b).trans hb)
    · rcases ht with rfl | rfl <;> simp [hjk] at hnull <;> exact Or.inr hnull
  · exact (hlive b).trans (h.dangling j b (List.mem_cons_of_mem t hnull) (hold j b hj).2)
  · exact (h.stays j b hb).imp_left (hlive b).trans
  · rcases h.tasks j hj.cons with rfl | ⟨c, f, rfl, hc⟩
    · exact Or.inl rfl
    · exact Or.inr ⟨c, f, rfl, (hdying c).mpr hc⟩
  · obtain ⟨hbk, hbc⟩ := hold _ c hb
    obtain ⟨hf, hb⟩ := h.fields b f c hbc
    refine ⟨hf, hb.imp (hlive b).trans fun hb => ⟨(hdying b).mpr hb.1, pending_cons ht hbk hb.2⟩⟩
  · obtain ⟨hlk, hlb⟩ := hold l b hb
    exact pending_cons ht hlk (h.pending b hlb)
  · exact ⟨(hlive c).trans (h.owner c f hc).1, (h.owner c f hc).2⟩
  · have hdeletions := h.deletions b
    simp only [← hdeleted b] at hdeletions
    exact hdeletions

lemma Running.dec (h : Running fields l (.dec k :: cascade) tail s) :
    ∃ cascade', Running fields l cascade' tail
      ({ s with todo := cascade ++ tail }.dec fields k) := by
  cases hk : s.mBox k with
  | none =>
    refine ⟨cascade, ?_⟩
    have hnull : Function.update s.mBox k none = s.mBox := by rw [← hk, Function.update_eq_self]
    have hrel := h.release (Or.inl rfl) s.boxes (fun _ => rfl) (fun _ => Iff.rfl) (fun _ => Iff.rfl)
      (by rw [hnull]; exact h.count)
    simpa [State.dec, State.setBox, hk, hnull] using hrel
  | some b =>
    obtain ⟨n, hn⟩ := h.live_of_dec hk
    by_cases hone : n = 1
    · have hkill := h.kill hk (hone ▸ hn)
      refine ⟨State.deleteBox fields b ++ .null k :: cascade, ?_⟩
      simpa [State.dec, hk, hn, hone] using hkill
    · have hcounts := h.count b n hn
      have hheld := h.finite_mBox.held_release hk
      have hkept : ∀ c, c ≠ b → Function.update s.boxes b (.live (n - 1)) c = s.boxes c :=
        fun c hc => by simp [hc]
      refine ⟨cascade, ?_⟩
      have hrel := h.release (Or.inl rfl) (Function.update s.boxes b (.live (n - 1)))
        (fun c => ?_) (fun c => ?_) (fun c => ?_) fun c m hc => ?_
      · simpa [State.dec, State.setBox, hk, hn, hone] using hrel
      · by_cases hcb : c = b
        · simp [hcb, hn, Box.isLive]
        · rw [hkept c hcb]
      · by_cases hcb : c = b
        · simp [hcb, hn]
        · rw [hkept c hcb]
      · by_cases hcb : c = b
        · simp [hcb, hn]
        · rw [hkept c hcb]
      · by_cases hcb : c = b
        · subst hcb
          simp only [Function.update_self, Box.live.injEq] at hc
          omega
        · rw [held_release_other hk hcb]
          exact h.count c m ((hkept c hcb).symm.trans hc)

lemma Running.null (h : Running fields l (.null k :: cascade) tail s) :
    Running fields l cascade tail ({ s with todo := cascade ++ tail }.setBox k none) := by
  refine h.release (Or.inr rfl) s.boxes (fun _ => rfl) (fun _ => Iff.rfl) (fun _ => Iff.rfl)
    fun c n hc => ?_
  cases hk : s.mBox k with
  | none =>
    rw [← hk, Function.update_eq_self]
    exact h.count c n hc
  | some b =>
    have hcb : c ≠ b := by
      rintro rfl
      have hdead := h.dangling k c (by simp) hk
      simp [hc, Box.isLive] at hdead
    rw [held_release_other hk hcb]
    exact h.count c n hc

/-- One task of the cascade. -/
lemma Running.runTask (h : Running fields l (t :: cascade) tail s) :
    ∃ cascade', Running fields l cascade' tail
      ({ s with todo := cascade ++ tail }.runTask fields t) := by
  rcases h.plain t (by simp) with ⟨k, rfl⟩ | ⟨k, rfl⟩ | ⟨b, rfl⟩
  · have hstored : { s with todo := cascade ++ tail }.isStored k = true :=
      h.stored (Or.inl (by simp))
    simp only [State.runTask, State.access, hstored, if_true]
    exact h.dec
  · have hstored : { s with todo := cascade ++ tail }.isStored k = true :=
      h.stored (Or.inr (by simp))
    simp only [State.runTask, State.access, hstored, if_true]
    exact ⟨cascade, h.null⟩
  · exact ⟨cascade, h.free⟩

end Scoro.RcPtr

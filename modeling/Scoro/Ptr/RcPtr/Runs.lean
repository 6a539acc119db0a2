import Scoro.Ptr.RcPtr.Assign

/-!
# Runs of `rc_ptr` operations

The operations one after the other. Each of them ends, and an assignment whose source goes with the
old box of its target ends in a fault.
-/

namespace Scoro.RcPtr
open Scoro.Lib

variable {X B F : Type*} [DecidableEq F] {fields : B → List F} {s s' : State X B F}
  {l other : Loc X B F} {a : Action X B F}

/-! ### The beginning of an operation -/

lemma Inv.settled (h : Inv fields s) (htodo : s.todo = []) : Settled fields s ∧
    ∀ a l other, s.operation = some a → a.source = some (l, other) → s.mBox l = s.before other := by
  cases h with
  | quiet _ hsettled hassigned => exact ⟨hsettled, hassigned⟩
  | destroying l cascade hrun hoperation =>
    obtain rfl : cascade = [] := by simpa [htodo] using hrun.todo
    refine ⟨hrun.settled.1, fun a l other ha hsrc => ?_⟩
    rw [hoperation a ha] at hsrc
    cases hsrc
  | assigning l other cascade t hreads hrun =>
    have hne := hrun.todo
    simp [htodo] at hne

lemma isUsable_field {c : B} {f : F} (h : s.isUsable fields (.field c f) = true) :
    (s.boxes c).isLive = true ∧ f ∈ fields c := by
  simpa [State.isUsable] using h

/-- An assignment to another location than its source, with the task that reads it. -/
lemma Inv.assign (h : Settled fields s) {t : Task X B F} (hl : s.isUsable fields l = true)
    (hother : s.isUsable fields other = true) (hne : l ≠ other) (ht : t.Reads l other)
    (ha : a.source = some (l, other)) (hstays : ∀ c f, other = .field c f → ¬Doomed s.mBox l c)
    (hacyclic : ∀ c f b, l = .field c f → s.mBox other = some b →
      ¬Relation.ReflTransGen (Edge s.mBox) b c) : Inv fields (s.begin a [.dec l, t]) := by
  have hrun := h.running (l := l) a s.alive [t] (Or.inl rfl)
    (fun c f hc => (isUsable_field (hc ▸ hl)).1) fun x hx => Or.inl hx
  refine .assigning l other [.dec l] t ht hrun ⟨hne, ⟨a, rfl, ha⟩, ?_, ?_, ?_, hstays, hacyclic⟩
  · rintro x rfl
    exact hl
  · rintro c f rfl
    exact (isUsable_field hl).2
  · rintro c f rfl
    exact h.live_iff.mp (isUsable_field hother).1

/-- Nothing is released, and the source is read. -/
lemma Inv.self (h : Settled fields s) (ha : a.source = some (l, l)) :
    Inv fields (s.begin a []) := by
  refine .quiet rfl ⟨h.fault, h.boxes, h.usable, h.finite, h.acyclic⟩ fun a' k other ha' hsrc => ?_
  cases ha'
  rw [ha] at hsrc
  cases hsrc
  rfl

variable [DecidableEq X]

/-- A constructor of the variable `x`, with the task that reads its source. -/
lemma Inv.construct (h : Settled fields s) {x : X} {t : Task X B F} (hx : s.alive x = false)
    (hother : s.isUsable fields other = true) (ht : t.Reads (.var x) other)
    (ha : a.source = some (.var x, other)) :
    Inv fields ((s.begin a [t]).setAlive x true) := by
  have hnone : s.mBox (.var x) = none := by
    cases hv : s.mBox (.var x) with
    | none => rfl
    | some b =>
      have husable := h.usable _ b hv
      simp [State.isUsable, hx] at husable
  have hrun := h.running (l := .var x) a (Function.update s.alive x true) [t]
    (Or.inr ⟨rfl, hnone⟩) (by simp) fun y hy => ?_
  · refine .assigning (.var x) other [] t ht hrun ⟨?_, ⟨a, rfl, ha⟩, ?_, by simp, ?_, ?_, by simp⟩
    · rintro rfl
      simp [State.isUsable, hx] at hother
    · rintro y heq
      cases heq
      simp [State.setAlive]
    · rintro c f rfl
      exact h.live_iff.mp (isUsable_field hother).1
    · rintro c f rfl hdoomed
      obtain ⟨b, hb, -⟩ := hdoomed.reach (fun _ _ _ => h.held_owner)
        (h.live_iff.mp (isUsable_field hother).1)
      have hb' : s.mBox (.var x) = some b := hb
      simp [hnone] at hb'
  · by_cases hyx : y = x
    · exact Or.inr (hyx ▸ rfl)
    · exact Or.inl (by simpa [hyx] using hy)

lemma Inv.destroy (h : Settled fields s) (x : X) :
    Inv fields ((s.begin (.destroy x) [.dec (.var x)]).setAlive x false) := by
  have hrun := h.running (l := .var x) (.destroy x) (Function.update s.alive x false) []
    (Or.inl rfl) (by simp) fun y hy => ?_
  · refine .destroying (.var x) [.dec (.var x)] hrun fun a ha => ?_
    cases ha
    rfl
  · by_cases hyx : y = x
    · exact Or.inr (hyx ▸ rfl)
    · exact Or.inl (by simpa [hyx] using hy)

variable [DecidableEq B]

lemma Inv.begin (h : Settled fields s) (hacyclic : KeepsAcyclic s a) (hsource : KeepsSource s a)
    (hs : beginStep fields s a = some s') : Inv fields s' := by
  cases a <;> simp only [beginStep, Option.ite_none_right_eq_some, Option.some.injEq] at hs
  case make x b =>
    obtain ⟨⟨hx, hb⟩, rfl⟩ := hs
    have hbegun : Settled fields (s.begin (.make x b) []) :=
      ⟨h.fault, h.boxes, h.usable, h.finite, h.acyclic⟩
    refine .quiet rfl (hbegun.make hx hb) fun a l other ha hsrc => ?_
    cases ha
    cases hsrc
  case copyCtor x other =>
    obtain ⟨⟨hx, hother⟩, rfl⟩ := hs
    exact .construct h hx hother (Or.inl rfl) rfl
  case moveCtor x other =>
    obtain ⟨⟨hx, hother⟩, rfl⟩ := hs
    exact .construct h hx hother (Or.inr rfl) rfl
  case copyAssign l other =>
    obtain ⟨⟨hl, hother⟩, rfl⟩ := hs
    split_ifs with heq
    · subst heq
      exact .self h rfl
    · refine .assign h hl hother heq (Or.inl rfl) rfl ?_ ?_
      · rintro c f rfl
        exact hsource heq
      · rintro c f b rfl
        exact hacyclic b
  case moveAssign l other =>
    obtain ⟨⟨hl, hother⟩, rfl⟩ := hs
    split_ifs with heq
    · subst heq
      exact .self h rfl
    · refine .assign h hl hother heq (Or.inr rfl) rfl ?_ ?_
      · rintro c f rfl
        exact hsource heq
      · rintro c f b rfl
        exact hacyclic b
  case destroy x =>
    obtain ⟨-, rfl⟩ := hs
    exact .destroy h x
  case run => cases hs

lemma Inv.step (h : Inv fields s) (hacyclic : KeepsAcyclic s a) (hsource : KeepsSource s a)
    (hs : step fields s a = some s') : Inv fields s' := by
  cases a with
  | run => exact h.run hs
  | _ =>
    simp only [RcPtr.step, Option.ite_none_right_eq_some, List.isEmpty_iff] at hs
    exact .begin (h.settled hs.1).1 hacyclic hsource hs.2

lemma reaches_inv
    (h : (system X fields).Reaches (fun s a => KeepsAcyclic s a ∧ KeepsSource s a) s) :
    Inv fields s := by
  refine h.invariant (I := Inv fields) ?_ fun _ _ _ _ hinv ha hs => hinv.step ha.1 ha.2 hs
  refine .quiet rfl init_settled fun a l other ha => ?_
  cases ha

/-! ### The end of an operation -/

section work
omit [DecidableEq X] [DecidableEq F]

/-- The tasks that are left, and those that the boxes in `boxes` can still add. -/
def work (fields : B → List F) (boxes : Finset B) (s : State X B F) : ℕ :=
  ∑ b ∈ boxes, (if (s.boxes b).isLive then (fields b).length + 3 else 0) + s.todo.length

/-- A box that goes adds as many tasks as it was counted for. -/
lemma work_kill {boxes : Finset B} {b : B} (hb : (s.boxes b).isLive = true) (hmem : b ∈ boxes) :
    work fields boxes { s with
      boxes := Function.update s.boxes b .dying
      todo := State.deleteBox fields b ++ .null l :: s.todo } ≤ work fields boxes s := by
  have hrest : ∀ c ∈ boxes.erase b,
      (if (Function.update s.boxes b .dying c).isLive then (fields c).length + 3 else 0) =
        if (s.boxes c).isLive then (fields c).length + 3 else 0 := by
    intro c hc
    rw [Function.update_of_ne (Finset.ne_of_mem_erase hc)]
  have hold := Finset.add_sum_erase boxes
    (fun c => if (s.boxes c).isLive then (fields c).length + 3 else 0) hmem
  have hnew := Finset.add_sum_erase boxes (fun c =>
    if (Function.update s.boxes b .dying c).isLive then (fields c).length + 3 else 0) hmem
  rw [Finset.sum_congr rfl hrest] at hnew
  simp only [hb, if_true] at hold
  have hdead : (Function.update s.boxes b .dying b).isLive = false := by simp [Box.isLive]
  simp only [hdead, Bool.false_eq_true, if_false] at hnew
  simp only [work, State.deleteBox, List.length_append, List.length_map, List.length_cons,
    List.length_nil]
  omega

omit [DecidableEq B] in
lemma work_of_live {boxes : Finset B} (hlive : ∀ b, (s'.boxes b).isLive = true →
    (s.boxes b).isLive = true) (htodo : s'.todo = s.todo) :
    work fields boxes s' ≤ work fields boxes s := by
  unfold work
  rw [htodo]
  refine Nat.add_le_add_right (Finset.sum_le_sum fun b _ => ?_) _
  split_ifs with hs' hs
  · exact le_rfl
  · exact absurd (hlive b hs') hs
  · exact Nat.zero_le _
  · exact le_rfl

omit [DecidableEq B] in
lemma access_work {boxes : Finset B} {u : State X B F}
    (h : work fields boxes u ≤ work fields boxes s) :
    work fields boxes (s.access l u) ≤ work fields boxes s := by
  unfold State.access
  split_ifs
  · exact h
  · exact work_of_live (fun _ hc => hc) rfl

lemma inc_live {box : Option B} {b : B} (hb : ((s.inc box).boxes b).isLive = true) :
    (s.boxes b).isLive = true := by
  unfold State.inc at hb
  split at hb
  · exact hb
  · rename_i c
    split at hb
    · rename_i n hn
      by_cases hbc : b = c
      · simp [hbc, hn, Box.isLive]
      · simpa [hbc] using hb
    · exact hb
    · exact hb
    · exact hb

end work

lemma dec_work {boxes : Finset B} (hboxes : ∀ k b, s.mBox k = some b → b ∈ boxes) :
    work fields boxes (s.dec fields l) ≤ work fields boxes s := by
  unfold State.dec
  split
  · exact le_rfl
  · rename_i b hb
    split
    · rename_i n hn
      split_ifs with hone
      · exact work_kill (by simp [hn, Box.isLive]) (hboxes l b hb)
      · refine work_of_live (fun c hc => ?_) rfl
        by_cases hcb : c = b
        · simp [hcb, hn, Box.isLive]
        · simpa [hcb] using hc
    · exact work_of_live (fun _ hc => hc) rfl
    · exact work_of_live (fun _ hc => hc) rfl
    · exact work_of_live (fun _ hc => hc) rfl

lemma runTask_work (fields : B → List F) (t : Task X B F) {boxes : Finset B}
    (hboxes : ∀ k b, s.mBox k = some b → b ∈ boxes) :
    work fields boxes (s.runTask fields t) ≤ work fields boxes s := by
  cases t with
  | dec l => exact access_work (dec_work hboxes)
  | null l => exact access_work (work_of_live (fun _ hc => hc) rfl)
  | free b =>
    refine work_of_live (fun c hc => ?_) rfl
    by_cases hcb : c = b
    · simp [State.runTask, State.free, hcb, Box.isLive] at hc
    · simpa [State.runTask, State.free, hcb] using hc
  | copyBox l other =>
    have hinc := inc_same (s := s.setBox l (s.mBox other)) (s.mBox other)
    exact access_work (access_work (work_of_live
      (fun c hc => inc_live (s := s.setBox l (s.mBox other)) hc) hinc.2.2))
  | takeBox l other => exact access_work (access_work (work_of_live (fun _ hc => hc) rfl))

omit [DecidableEq X] [DecidableEq B] in
/-- What a location holds in an operation it has held before. -/
lemma Inv.sub (h : Inv fields s) (htodo : s.todo ≠ []) :
    FinitelyHeld s.before ∧ ∀ k b, s.mBox k = some b → s.before k = some b := by
  cases h with
  | quiet hnil => exact absurd hnil htodo
  | destroying l cascade hrun => exact ⟨hrun.finite, hrun.sub⟩
  | assigning l other cascade t hreads hrun => exact ⟨hrun.finite, hrun.sub⟩

/-- Each operation ends. -/
lemma Inv.leads (h : Inv fields s) : (system X fields).Leads (fun _ a => a = .run)
    (fun _ _ => True) (fun t => t.todo = []) s := by
  by_cases htodo : s.todo = []
  · exact .now htodo
  obtain ⟨hfinite, -⟩ := h.sub htodo
  let boxes := hfinite.toFinset.biUnion fun k => (s.before k).toFinset
  have hboxes : ∀ k b, s.before k = some b → b ∈ boxes := by
    intro k b hk
    simp only [boxes, Finset.mem_biUnion, Option.mem_toFinset, Option.mem_def]
    exact ⟨k, hfinite.mem_toFinset.mpr (by simp [hk]), hk⟩
  refine System.leads_of_measure (I := fun t => Inv fields t ∧ t.before = s.before)
    (work fields boxes) ?_ ?_ ⟨h, rfl⟩
  · rintro t ⟨-, -⟩ hne
    obtain ⟨task, todo, ht⟩ := List.exists_cons_of_ne_nil hne
    exact ⟨.run, { t with todo := todo }.runTask fields task, rfl,
      by simp [system, RcPtr.step, runStep, ht]⟩
  · rintro t a t' ⟨hinv, hbefore⟩ hne rfl - hs
    have hrun : runStep fields t = some t' := hs
    obtain ⟨task, todo, ht⟩ := List.exists_cons_of_ne_nil hne
    have hsub := (hinv.sub hne).2
    refine ⟨⟨hinv.run hrun, ?_⟩, ?_⟩
    · simp only [runStep, ht, Option.some.injEq] at hrun
      rw [← hrun, (runTask_same fields { t with todo := todo } task).2.2, ← hbefore]
    · simp only [runStep, ht, Option.some.injEq] at hrun
      have hle := runTask_work (s := { t with todo := todo }) fields task
        fun k b hk => hboxes k b (hbefore ▸ hsub k b hk)
      rw [← hrun]
      refine lt_of_le_of_lt hle ?_
      simp [work, ht]

/-! ### A source that goes with the old box -/

/-- The operation in progress reads a deleted box, or has done so. -/
def Fated (fields : B → List F) (s : State X B F) : Prop :=
  s.fault = true ∨ ∃ l cascade t c f, Task.Reads t l (.field c f) ∧ Doomed s.before l c ∧
    Running fields l cascade [t] s

section fault
omit [DecidableEq X] [DecidableEq F]

omit [DecidableEq B] in
lemma access_fault {u : State X B F} (h : u.fault = true) : (s.access l u).fault = true := by
  unfold State.access
  split_ifs
  · exact h
  · rfl

lemma inc_fault {box : Option B} (h : s.fault = true) : (s.inc box).fault = true := by
  unfold State.inc
  split
  · exact h
  · split <;> first | exact h | rfl

end fault

lemma runTask_fault {t : Task X B F} (h : s.fault = true) : (s.runTask fields t).fault = true := by
  cases t with
  | dec l =>
    refine access_fault ?_
    unfold State.dec
    split
    · exact h
    · split
      · split_ifs <;> exact h
      · rfl
      · rfl
      · rfl
  | null l => exact access_fault h
  | free b => exact h
  | copyBox l other => exact access_fault (access_fault (inc_fault h))
  | takeBox l other => exact access_fault (access_fault h)

lemma step_fault (h : s.fault = true) (hs : step fields s a = some s') : s'.fault = true := by
  cases a with
  | run =>
    simp only [step, runStep] at hs
    split at hs
    · cases hs
    · cases hs
      exact runTask_fault h
  | _ =>
    simp only [step, beginStep, Option.ite_none_right_eq_some, Option.some.injEq] at hs
    obtain ⟨-, -, rfl⟩ := hs
    exact h

/-- The task finds the box of its source deleted. -/
lemma Running.reads_fault {t : Task X B F} {c : B} {f : F} (h : Running fields l [] [t] s)
    (ht : t.Reads l (.field c f)) (hc : Doomed s.before l c) :
    ({ s with todo := [] }.runTask fields t).fault = true := by
  have hstored : { s with todo := [] }.isStored (.field c f) = false := by
    have hdying : s.boxes c ≠ .dying := fun hdying => by cases (h.dying c).mp hdying
    simp [State.isStored, h.doomed_dead hc, hdying]
  rcases ht with rfl | rfl <;> simp [State.runTask, State.access, hstored]

lemma Fated.step (h : Fated fields s) (hs : step fields s a = some s') : Fated fields s' := by
  rcases h with hfault | ⟨l, cascade, t, c, f, ht, hc, hrun⟩
  · exact Or.inl (step_fault hfault hs)
  · cases a with
    | run =>
      cases cascade with
      | nil =>
        simp only [RcPtr.step, runStep, hrun.todo, List.nil_append, Option.some.injEq] at hs
        exact Or.inl (hs ▸ hrun.reads_fault ht hc)
      | cons t' cascade =>
        obtain ⟨cascade', hnext⟩ := hrun.runTask
        simp only [RcPtr.step, runStep, hrun.todo, List.cons_append, Option.some.injEq] at hs
        subst hs
        obtain ⟨-, -, hbefore⟩ := runTask_same fields { s with todo := cascade ++ [t] } t'
        exact Or.inr ⟨l, cascade', t, c, f, ht, hbefore.symm ▸ hc, hnext⟩
    | _ => simp [RcPtr.step, hrun.todo] at hs

omit [DecidableEq X] [DecidableEq B] in
lemma Settled.fated (h : Settled fields s) {t : Task X B F} {c : B} {f : F}
    (hl : s.isUsable fields l = true) (ht : t.Reads l (.field c f)) (hc : Doomed s.mBox l c) :
    Fated fields (s.begin a [.dec l, t]) :=
  Or.inr ⟨l, [.dec l], t, c, f, ht, hc, h.running (l := l) a s.alive [t] (Or.inl rfl)
    (fun _ _ hd => (isUsable_field (hd ▸ hl)).1) fun _ hx => Or.inl hx⟩

lemma Inv.fated (h : Inv fields s) (ha : ¬KeepsSource s a) (hs : RcPtr.step fields s a = some s') :
    Fated fields s' := by
  cases a with
  | copyAssign l other | moveAssign l other =>
    cases other with
    | var x => exact absurd trivial ha
    | field c f =>
      simp only [KeepsSource, Classical.not_imp, not_not] at ha
      simp only [RcPtr.step, beginStep, if_neg ha.1, Option.ite_none_right_eq_some,
        List.isEmpty_iff, Option.some.injEq] at hs
      obtain ⟨htodo, ⟨hl, -⟩, rfl⟩ := hs
      first
        | exact (h.settled htodo).1.fated hl (Or.inl rfl) ha.2
        | exact (h.settled htodo).1.fated hl (Or.inr rfl) ha.2
  | _ => exact absurd trivial ha

/-- As long as no assignment deletes the box that its source is stored in, the counts are those of
the holders after each operation, and each operation ends. An assignment that does reads a deleted
box. -/
theorem rc_counts_holders_iff
    (h : (system X fields).Reaches (fun s a => KeepsAcyclic s a ∧ KeepsSource s a) s) :
    (s.fault = false ∧ (s.todo = [] → CountsHolders fields s) ∧
      (system X fields).Leads (fun _ a => a = .run) (fun _ _ => True) (fun t => t.todo = []) s) ∧
    ∀ a s', step fields s a = some s' → ¬KeepsSource s a →
      ∀ as t, (system X fields).exec (fun _ _ => True) s' as = some t → t.todo = [] →
        t.fault = true := by
  have hinv := reaches_inv h
  refine ⟨⟨?_, fun htodo => ?_, hinv.leads⟩, fun a s' hs ha as t ht htodo => ?_⟩
  · cases hinv with
    | quiet _ hsettled => exact hsettled.fault
    | destroying _ _ hrun => exact hrun.fault
    | assigning _ _ _ _ _ hrun => exact hrun.fault
  · obtain ⟨hsettled, hassigned⟩ := hinv.settled htodo
    exact ⟨hsettled.fault, hsettled.boxes, hsettled.usable, hassigned⟩
  · have hlast := System.exec_invariant (I := Fated fields) (fun _ _ _ hu _ hs => hu.step hs)
      (hinv.fated ha hs) ht
    rcases hlast with hfault | ⟨l, cascade, u, c, f, -, -, hrun⟩
    · exact hfault
    · have hne := hrun.todo
      simp [htodo] at hne

/-! ### Lists of boxes -/

section leaf
omit [DecidableEq X] [DecidableEq F] [DecidableEq B]

/-- An assignment to a field has as its source a box without links. -/
def LeafSource (s : State X B F) : Action X B F → Prop
  | .copyAssign (.field c _) other | .moveAssign (.field c _) other =>
    ∀ b, s.mBox other = some b → b ≠ c ∧ ∀ f, s.mBox (.field b f) = none
  | _ => True

instance [Fintype B] [Fintype F] : ∀ a : Action X B F, Decidable (LeafSource s a)
  | .copyAssign (.field _ _) _ | .moveAssign (.field _ _) _ =>
    inferInstanceAs (Decidable (∀ _, _ → _ ∧ ∀ _, _))
  | .copyAssign (.var _) _ | .moveAssign (.var _) _ | .make _ _ | .copyCtor _ _ | .moveCtor _ _
  | .destroy _ | .run => inferInstanceAs (Decidable True)

/-- The source of an assignment is a variable, or a field of a box that is held by another variable
than the target. -/
def HeldSource (s : State X B F) : Action X B F → Prop
  | .copyAssign l (.field b _) | .moveAssign l (.field b _) =>
    ∃ x, .var x ≠ l ∧ s.mBox (.var x) = some b
  | _ => True

instance [Fintype X] : ∀ a : Action X B F, Decidable (HeldSource s a)
  | .copyAssign l (.field b _) | .moveAssign l (.field b _) =>
    inferInstanceAs (Decidable (∃ x, .var x ≠ l ∧ s.mBox (.var x) = some b))
  | .copyAssign _ (.var _) | .moveAssign _ (.var _) | .make _ _ | .copyCtor _ _ | .moveCtor _ _
  | .destroy _ | .run => inferInstanceAs (Decidable True)

lemma keepsSource_of_held (h : HeldSource s a) : KeepsSource s a := by
  have hheld : ∀ (l : Loc X B F) b, (∃ x, .var x ≠ l ∧ s.mBox (.var x) = some b) →
      ¬Doomed s.mBox l b := by
    rintro l b ⟨x, hx, hb⟩ hdoomed
    cases hdoomed with
    | intro _ hvar _ => exact hx (hvar x hb)
  cases a with
  | copyAssign l other | moveAssign l other =>
    cases other with
    | var x => trivial
    | field c f => exact fun _ => hheld l c h
  | _ => trivial

lemma keepsAcyclic_of_leaf (h : LeafSource s a) : KeepsAcyclic s a := by
  have hleaf : ∀ b c : B, b ≠ c → (∀ f, s.mBox (.field b f) = none) →
      ¬Relation.ReflTransGen (Edge s.mBox) b c := by
    intro b c hbc hnone hpath
    rcases Relation.ReflTransGen.cases_head hpath with rfl | ⟨d, ⟨f, hf⟩, -⟩
    · exact hbc rfl
    · simp [hnone f] at hf
  cases a with
  | copyAssign l other | moveAssign l other =>
    cases l with
    | var x => trivial
    | field c f => exact fun b hb => hleaf b c (h b hb).1 (h b hb).2
  | _ => trivial

end leaf

/-- `p = p->next` on a list of two boxes. -/
theorem assign_next_faults : ∃ s : State (Fin 2) (Fin 2) (Fin 1),
    (system (Fin 2) fun _ : Fin 2 => [(0 : Fin 1)]).Reaches KeepsAcyclic s ∧ s.todo = [] ∧
      s.fault = true := by
  obtain ⟨s, hs, htodo, hfault⟩ := System.exists_reaches
    (S := system (Fin 2) fun _ : Fin 2 => [(0 : Fin 1)]) LeafSource
    (fun s => s.todo = [] ∧ s.fault = true)
    [.make 0 0, .make 1 1, .moveAssign (.field 0 0) (.var 1), .run, .run,
      .copyAssign (.var 0) (.field 0 0), .run, .run, .run, .run, .run, .run, .run, .run] (by decide)
  exact ⟨s, hs.mono fun _ _ => keepsAcyclic_of_leaf, htodo, hfault⟩

/-- A box is made and deleted. A list of two boxes is built, assigned to its own variable and to
another one, and then `p = p->next`, where the other variable still holds the first box. -/
theorem rc_counts_holders_run : ∃ s : State (Fin 2) (Fin 3) (Fin 1),
    CountsHolders (fun _ => [(0 : Fin 1)]) s ∧
      s.operation = some (.copyAssign (.var 0) (.field 0 0)) ∧ s.mBox (.var 0) = some 1 ∧
      s.boxes 0 = .live 1 ∧ s.boxes 1 = .live 2 ∧ s.boxes 2 = .deleted := by
  obtain ⟨s, hs, htodo, hoperation, hbox, hzero, hone, htwo⟩ := System.exists_reaches
    (S := system (Fin 2) fun _ : Fin 3 => [(0 : Fin 1)])
    (fun s a => LeafSource s a ∧ HeldSource s a)
    (fun s => s.todo = [] ∧ s.operation = some (.copyAssign (.var 0) (.field 0 0)) ∧
      s.mBox (.var 0) = some 1 ∧ s.boxes 0 = .live 1 ∧ s.boxes 1 = .live 2 ∧ s.boxes 2 = .deleted)
    [.make 0 2, .destroy 0, .run, .run, .run, .run, .make 0 0, .make 1 1,
      .moveAssign (.field 0 0) (.var 1), .run, .run, .copyAssign (.var 0) (.var 0),
      .copyAssign (.var 1) (.var 0), .run, .run, .copyAssign (.var 0) (.field 0 0), .run, .run]
    (by decide)
  have hcounts := (rc_counts_holders_iff (hs.mono fun _ _ ha =>
    ⟨keepsAcyclic_of_leaf ha.1, keepsSource_of_held ha.2⟩)).1.2.1 htodo
  exact ⟨s, hcounts, hoperation, hbox, hzero, hone, htwo⟩

end Scoro.RcPtr

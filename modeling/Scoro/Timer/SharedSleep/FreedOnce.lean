import Scoro.Timer.SharedSleep.Invariant

/-!
# When a control box is freed

`await_suspend` stores the waiter before it raises the count for the task. A claimer may resume the
coroutine in between, which then leaves the `co_await` and ends the awaitable.
-/

namespace Scoro.SharedSleep
open Scoro.Lib

variable {Time A C K B : Type*} {s t : State A C K B} {a : A} {b : B} {c : C} {x : Holder A C}

/-! ### An `await_suspend` that comes too late -/

/-- What a step keeps: an awaitable without a box does not get another one, a coroutine that has
suspended does not start again, and its `await_suspend` does not go on where it has to read a box
and there is none. -/
structure Frame (s t : State A C K B) : Prop where
  gone : ∀ a, s.used a = true → s.ptrs.mPtr (.mCb a) = none →
    t.used a = true ∧ t.ptrs.mPtr (.mCb a) = none
  started : ∀ c, (s.coroutine c).starting = false → (t.coroutine c).starting = false
  suspend : ∀ c a, (s.coroutine c).starting = false → (s.suspend c).reads = some a →
    s.ptrs.mPtr (.mCb a) = none → t.suspend c = s.suspend c

lemma Frame.of_ptrs (hmPtr : ∀ a, t.ptrs.mPtr (.mCb a) = s.ptrs.mPtr (.mCb a))
    (hused : t.used = s.used) (hcoroutine : t.coroutine = s.coroutine)
    (hsuspend : t.suspend = s.suspend) : Frame s t :=
  ⟨fun a ha hnone => ⟨hused ▸ ha, (hmPtr a).trans hnone⟩, fun _ hc => hcoroutine ▸ hc,
    fun c _ _ _ _ => congrFun hsuspend c⟩

lemma Frame.setCoroutine [DecidableEq C] {pc : CoroutinePc A}
    (hpc : (s.coroutine c).starting = false → pc.starting = false) :
    Frame s (s.setCoroutine c pc) := by
  refine ⟨fun a ha hnone => ⟨ha, hnone⟩, fun d hd => ?_, fun _ _ _ _ _ => rfl⟩
  by_cases hdc : d = c
  · subst hdc
    simpa [State.setCoroutine] using hpc hd
  · simpa [State.setCoroutine, hdc] using hd

lemma resume_frame [DecidableEq C] {w : Option C} : Frame s (s.resume w) := by
  unfold State.resume
  split
  · split
    · exact Frame.setCoroutine (by simp [CoroutinePc.starting])
    · exact Frame.of_ptrs (fun _ => rfl) rfl rfl rfl
  · exact Frame.of_ptrs (fun _ => rfl) rfl rfl rfl

/-- An access faults, which keeps the rest of the state, or finds a box. -/
lemma access_frame {f : B → State A C K B} (hf : ∀ b, s.ptrs.mPtr x = some b → Frame s (f b)) :
    Frame s (s.access x f) := by
  have hfault : Frame s s.setFault := Frame.of_ptrs (fun _ => rfl) rfl rfl rfl
  simp only [State.access]
  split
  · rename_i b hb
    split_ifs
    exacts [hf b hb, hfault]
  · exact hfault

lemma construct_frame [DecidableEq A] {ptrs : IntrusivePtr.State (Holder A C) B}
    (hused : s.used a = false)
    (hmPtr : ∀ a', a' ≠ a → s.ptrs.mPtr (.mCb a') = none → ptrs.mPtr (.mCb a') = none) :
    Frame s (s.construct a ptrs) := by
  refine ⟨fun a' ha' hnone => ?_, fun _ hc => hc, fun _ _ _ _ _ => rfl⟩
  have haa : a' ≠ a := by
    rintro rfl
    simp [hused] at ha'
  exact ⟨by simpa [State.construct, haa] using ha', hmPtr a' haa hnone⟩

/-- `await_suspend` goes on. If that reads the box of an awaitable, there is one. -/
lemma Frame.of_suspend (hmPtr : ∀ a, t.ptrs.mPtr (.mCb a) = s.ptrs.mPtr (.mCb a))
    (hused : t.used = s.used) (hcoroutine : t.coroutine = s.coroutine)
    (hother : ∀ d, d ≠ c → t.suspend d = s.suspend d)
    (hbox : ∀ a, (s.suspend c).reads = some a → s.ptrs.mPtr (.mCb a) ≠ none) : Frame s t := by
  refine ⟨fun a ha hnone => ⟨hused ▸ ha, (hmPtr a).trans hnone⟩, fun _ hc => hcoroutine ▸ hc,
    fun d a _ hreads hnone => hother d ?_⟩
  rintro rfl
  exact hbox a hreads hnone

lemma awaitReady_frame [LinearOrder Time] [DecidableEq C] {wakeTime : A → Time} {now : Time}
    (hs : awaitReady wakeTime s c now = some t) : Frame s t := by
  unfold SharedSleep.awaitReady at hs
  split at hs
  · rename_i a hpc
    have hstarting : (s.coroutine c).starting = true := by simp [hpc, CoroutinePc.starting]
    have hpass : Frame s (s.setCoroutine c (.awaitResume a)) :=
      Frame.setCoroutine (by simp [CoroutinePc.starting])
    simp only [Option.some.injEq] at hs
    subst hs
    split_ifs
    · exact hpass
    · refine access_frame fun b hb => ?_
      split_ifs
      · exact hpass
      · have hsuspended : Frame s (s.setCoroutine c (.suspended a)) :=
          Frame.setCoroutine (by simp [CoroutinePc.starting])
        refine ⟨hsuspended.gone, hsuspended.started, fun d _ hd _ _ => ?_⟩
        have hdc : d ≠ c := by
          rintro rfl
          simp [hstarting] at hd
        simp [State.setCoroutine, hdc]
  · cases hs

section late
variable [LinearOrder Time] [DecidableEq A] [DecidableEq C] [DecidableEq K] [DecidableEq B]
  {wakeTime : A → Time}
  {act : Action Time A C K B}

omit [DecidableEq K] in
lemma awaitSuspend_frame (hs : awaitSuspend s c = some t) : Frame s t := by
  have hbox : ∀ {a b}, (s.suspend c).reads = some a → s.ptrs.mPtr (.mCb a) = some b →
      ∀ a', (s.suspend c).reads = some a' → s.ptrs.mPtr (.mCb a') ≠ none := by
    intro a b ha hb a' ha'
    obtain rfl : a = a' := Option.some.inj (ha.symm.trans ha')
    simp [hb]
  unfold SharedSleep.awaitSuspend at hs
  split at hs
  case h_1 a hpc | h_3 a hpc =>
    simp only [Option.some.injEq] at hs
    exact hs ▸ access_frame fun b hb => Frame.of_suspend (c := c) (fun _ => rfl) rfl rfl
      (fun d hd => by simp [State.setBox, hd]) (hbox (by simp [hpc, SuspendPc.reads]) hb)
  case h_2 a hpc =>
    simp only [Option.some.injEq] at hs
    exact hs ▸ access_frame fun b hb => Frame.of_suspend (c := c) (by simp) rfl rfl
      (fun d hd => by simp [hd]) (hbox (by simp [hpc, SuspendPc.reads]) hb)
  case h_4 b hpc =>
    simp only [Option.some.injEq] at hs
    exact hs ▸ Frame.of_suspend (c := c) (fun _ => rfl) rfl rfl (fun d hd => by simp [hd])
      (by simp [hpc, SuspendPc.reads])
  all_goals cases hs

lemma taskStep_frame (hs : taskStep s c = some t) : Frame s t := by
  unfold SharedSleep.taskStep at hs
  split at hs
  case h_1 =>
    simp only [Option.some.injEq] at hs
    exact hs ▸ Frame.of_ptrs (by simp) rfl rfl rfl
  case h_2 =>
    simp only [Option.some.injEq] at hs
    exact hs ▸ Frame.of_ptrs (by simp [releaseArg, IntrusivePtr.State.setAlive,
      IntrusivePtr.State.setPtr]) rfl rfl rfl
  case h_3 =>
    split at hs
    · simp only [Option.some.injEq] at hs
      exact hs ▸ Frame.of_ptrs (by simp) rfl rfl rfl
    · cases hs
  all_goals cases hs

omit [DecidableEq A] in
lemma claimStep_frame {p : Claimer K C} (hs : claimStep s p = some t) : Frame s t := by
  unfold SharedSleep.claimStep at hs
  split at hs
  case h_3 x hpc =>
    simp only [Option.some.injEq] at hs
    refine hs ▸ access_frame fun b _ => ?_
    have hresume : Frame s (s.resume (s.boxes b).waiter) := resume_frame
    exact ⟨hresume.gone, hresume.started, hresume.suspend⟩
  case h_1 =>
    simp only [Option.some.injEq] at hs
    refine hs ▸ access_frame fun b _ => ?_
    split_ifs <;> exact Frame.of_ptrs (fun _ => rfl) rfl rfl rfl
  case h_2 | h_4 =>
    simp only [Option.some.injEq] at hs
    exact hs ▸ access_frame fun b _ => Frame.of_ptrs (fun _ => rfl) rfl rfl rfl
  case h_5 => cases hs

lemma step_frame (hs : step wakeTime s act = some t) : Frame s t := by
  cases act with
  | make a b =>
    simp only [SharedSleep.step, Option.ite_none_right_eq_some, Option.some.injEq] at hs
    exact hs.2 ▸ construct_frame hs.1.1 fun a' ha' hnone => by simpa [newBox, ha'] using hnone
  | copy a oth =>
    simp only [SharedSleep.step, Option.ite_none_right_eq_some, Option.some.injEq] at hs
    exact hs.2 ▸ construct_frame hs.1.1 fun a' ha' hnone => by simpa [ha'] using hnone
  | move a oth =>
    simp only [SharedSleep.step, Option.ite_none_right_eq_some, Option.some.injEq] at hs
    refine hs.2 ▸ construct_frame hs.1.1 fun a' ha' hnone => ?_
    by_cases hoth : a' = oth
    · simp [IntrusivePtr.State.move, IntrusivePtr.State.setAlive, IntrusivePtr.State.setPtr, hoth,
        hoth ▸ ha']
    · simpa [IntrusivePtr.State.move, IntrusivePtr.State.setAlive, IntrusivePtr.State.setPtr, hoth,
        ha'] using hnone
  | destroy a =>
    simp only [SharedSleep.step, Option.ite_none_right_eq_some, Option.some.injEq] at hs
    refine hs.2 ▸ ⟨fun a' ha' hnone => ⟨ha', ?_⟩, fun _ hc => hc, fun _ _ _ _ _ => rfl⟩
    by_cases haa : a' = a
    · simp [haa]
    · simpa [haa] using hnone
  | coAwait c a =>
    simp only [SharedSleep.step] at hs
    split at hs
    · rename_i b hpc hbox
      simp only [Option.some.injEq] at hs
      exact hs ▸ Frame.setCoroutine (by simp [hpc, CoroutinePc.starting])
    · cases hs
  | awaitReady c now => exact awaitReady_frame hs
  | awaitSuspend c => exact awaitSuspend_frame hs
  | awaitResume c =>
    simp only [SharedSleep.step, SharedSleep.awaitResume] at hs
    split at hs
    · simp only [Option.some.injEq] at hs
      exact hs ▸ access_frame fun b _ => Frame.setCoroutine (by simp [CoroutinePc.starting])
    · cases hs
  | abandon c =>
    simp only [SharedSleep.step, SharedSleep.abandon] at hs
    split at hs
    · simp only [Option.some.injEq] at hs
      exact hs ▸ Frame.setCoroutine (by simp [CoroutinePc.starting])
    · cases hs
  | cancel k a =>
    simp only [SharedSleep.step] at hs
    split at hs
    · simp only [Option.some.injEq] at hs
      exact hs ▸ Frame.of_ptrs (fun _ => rfl) rfl rfl rfl
    · cases hs
  | fire c | cancelTask c =>
    simp only [SharedSleep.step, SharedSleep.take] at hs
    split at hs
    · simp only [Option.some.injEq] at hs
      exact hs ▸ Frame.of_ptrs (fun _ => rfl) rfl rfl rfl
    · cases hs
  | task c => exact taskStep_frame hs
  | claim p => exact claimStep_frame hs

/-- `await_suspend` is still to read the box of the awaitable `a`, which has none any more. -/
structure Late (s : State A C K B) (c : C) (a : A) : Prop where
  reads : (s.suspend c).reads = some a
  started : (s.coroutine c).starting = false
  used : s.used a = true
  gone : s.ptrs.mPtr (.mCb a) = none

omit [DecidableEq A] [DecidableEq B] [DecidableEq C] [DecidableEq K] [LinearOrder Time] in
lemma Late.of_frame (h : Late s c a) (hframe : Frame s t) : Late t c a := by
  obtain ⟨hused, hgone⟩ := hframe.gone a h.used h.gone
  refine ⟨?_, hframe.started c h.started, hused, hgone⟩
  rw [hframe.suspend c a h.started h.reads h.gone]
  exact h.reads

/-- It can only go on with an access to an awaitable that has ended. -/
lemma Late.faults (h : Late s c a) :
    ∃ t, step wakeTime s (.awaitSuspend c) = some t ∧ t.ptrs.fault = true := by
  have haccess : ∀ f, s.access (.mCb a) f = s.setFault := by simp [State.access, h.gone]
  have hreads := h.reads
  refine ⟨s.setFault, ?_, rfl⟩
  simp only [SharedSleep.step, SharedSleep.awaitSuspend]
  split
  case h_1 _ hpc | h_2 _ hpc | h_3 _ hpc =>
    simp only [hpc, SuspendPc.reads, Option.some.injEq] at hreads
    rw [hreads, haccess]
  all_goals
    rename_i hpc
    simp [hpc, SuspendPc.reads] at hreads

lemma Inv.late (h : Inv s) (htime : ¬InTime s act) (hs : SharedSleep.step wakeTime s act = some t) :
    ∃ c a, Late t c a := by
  have hreached : ∀ a, s.ptrs.alive (.mCb a) = true → s.used a = true := by
    intro a ha
    by_contra hused
    simp [h.unused a (by simpa using hused)] at ha
  have hstarted : ∀ c a, (s.suspend c).reads = some a → (s.coroutine c).starting = false := by
    intro c a hc
    refine h.not_starting fun hidle => ?_
    simp [hidle, SuspendPc.reads] at hc
  cases act with
  | destroy a =>
    obtain ⟨c, hc⟩ := not_not.mp htime
    simp only [SharedSleep.step, Option.ite_none_right_eq_some, Option.some.injEq] at hs
    obtain ⟨ha, rfl⟩ := hs
    exact ⟨c, a, hc, hstarted c _ hc, hreached a ha, by simp⟩
  | move a oth =>
    obtain ⟨c, hc⟩ := not_not.mp htime
    simp only [SharedSleep.step, Option.ite_none_right_eq_some, Option.some.injEq] at hs
    obtain ⟨⟨hused, ha⟩, rfl⟩ := hs
    have hoth : oth ≠ a := by
      rintro rfl
      simp [hreached oth ha] at hused
    refine ⟨c, oth, hc, hstarted c _ hc, ?_, ?_⟩
    · simpa [State.construct, hoth] using hreached oth ha
    · simp [State.construct, IntrusivePtr.State.move, IntrusivePtr.State.setAlive,
        IntrusivePtr.State.setPtr, hoth]
  | _ => exact absurd trivial htime

/-- As long as no awaitable ends before an `await_suspend` on it has read its box, the count of a
box is that of its awaitables, of its tasks and of the handles in the functions of tasks, the box is
deleted once, when these are gone, and nobody accesses it after that. Otherwise that `await_suspend`
can only go on with an access through an awaitable that has ended. -/
theorem control_box_freed_once (h : (system C K B wakeTime).Reaches Careful s) :
    FreedOnce s ∧ ∀ act s', step wakeTime s act = some s' → ¬InTime s act →
      ∃ c, ∀ as t, (system C K B wakeTime).exec (fun _ _ => True) s' as = some t →
        ∃ u, step wakeTime t (.awaitSuspend c) = some u ∧ u.ptrs.fault = true := by
  have hinv := reaches_inv h
  refine ⟨hinv.freedOnce, fun act s' hs htime => ?_⟩
  obtain ⟨c, a, hlate⟩ := hinv.late htime hs
  refine ⟨c, fun as t ht => Late.faults (a := a) ?_⟩
  exact System.exec_invariant (I := fun s => Late s c a)
    (fun _ _ _ hlate _ hs => hlate.of_frame (step_frame hs)) hlate ht

end late

section run
variable [DecidableEq A] [Fintype C]

instance : Decidable (s.Awaited a) :=
  inferInstanceAs (Decidable (∃ c, (s.coroutine c).awaits = some a))

instance : Decidable (s.Suspending a) :=
  inferInstanceAs (Decidable (∃ c, (s.suspend c).reads = some a))

instance : ∀ act : Action Time A C K B, Decidable (InTime s act)
  | .destroy a | .move _ a => inferInstanceAs (Decidable (¬s.Suspending a))
  | .make _ _ | .copy _ _ | .coAwait _ _ | .awaitReady _ _ | .awaitSuspend _ | .awaitResume _
  | .abandon _ | .cancel _ _ | .fire _ | .cancelTask _ | .task _ | .claim _ => .isTrue trivial

variable [DecidableEq C] [Fintype K]

instance : Decidable (s.Called a) :=
  inferInstanceAs (Decidable (∃ k, (s.claims (.call k)).reads = some (.mCb a)))

instance : ∀ act : Action Time A C K B, Decidable (KeptAlive s act)
  | .destroy a | .move _ a => inferInstanceAs (Decidable (¬s.Called a ∧ ¬s.Awaited a))
  | .make _ _ | .copy _ _ | .coAwait _ _ | .awaitReady _ _ | .awaitSuspend _ | .awaitResume _
  | .abandon _ | .cancel _ _ | .fire _ | .cancelTask _ | .task _ | .claim _ => .isTrue trivial

instance {act : Action Time A C K B} : Decidable (Careful s act) :=
  inferInstanceAs (Decidable (_ ∧ _))

/-- Both awaitables share a box. The coroutine awaits one of them, and `cancel` is called on the
other one when the waiter is stored and the count of the task is not. -/
def sharing : List (Action ℕ Bool Unit Unit Unit) :=
  [.make false (), .copy true false, .coAwait () false, .awaitReady () 3, .awaitSuspend (),
    .cancel () true, .claim (.call ()), .claim (.call ()), .claim (.call ())]

/-- The coroutine leaves and its awaitable ends, `cancel` returns and the other awaitable ends, and
only then does `await_suspend` go on, with a box that is deleted. -/
theorem control_box_outlived : ∃ s : State Bool Unit Unit Unit,
    (system Unit Unit Unit fun _ => (5 : ℕ)).Reaches KeptAlive s ∧
      s.ptrs.objs () = .deleted ∧ ¬FreedOnce s := by
  obtain ⟨s, hs, hdeleted, hfault⟩ := System.exists_reaches
    (S := system Unit Unit Unit fun _ => (5 : ℕ)) KeptAlive
    (fun s => s.ptrs.objs () = .deleted ∧ s.ptrs.fault = true)
    (sharing ++ [.awaitResume (), .destroy false, .claim (.call ()), .destroy true,
      .awaitSuspend ()]) (by decide)
  refine ⟨s, hs, hdeleted, fun hfreed => ?_⟩
  rw [hfreed.fault] at hfault
  cases hfault

/-- When `await_suspend` has returned before the awaitables end, the box ends with the function of
the task. -/
theorem control_box_freed_run : ∃ s : State Bool Unit Unit Unit,
    s.ptrs.objs () = .deleted ∧ FreedOnce s := by
  obtain ⟨s, hs, hdeleted⟩ := System.exists_reaches
    (S := system Unit Unit Unit fun _ => (5 : ℕ)) Careful
    (fun s => s.ptrs.objs () = .deleted)
    (sharing ++ [.awaitResume (), .awaitSuspend (), .awaitSuspend (), .destroy false,
      .awaitSuspend (), .claim (.call ()), .destroy true, .fire (), .task (), .task (),
      .claim (.task ()), .task ()]) (by decide)
  exact ⟨s, hdeleted, (control_box_freed_once hs).1⟩

end run

end Scoro.SharedSleep

import Scoro.Lib.Forest
import Scoro.Lib.Transition

/-!
# Who destroys a coroutine frame

Coroutine frames, the `Future`s that own them, and the tasks that sleeping coroutines have left
with a timer. A `Future` is held outside of all coroutines or lies in another frame and is destroyed
with it. Three parties have the handle of a sleeping coroutine: its `Future`, which destroys the
frame, and the callback and the `cancel` function of its task. Each action is a call or a step of
a coroutine up to its next one, and an `await` is one step.
-/

namespace Scoro.Frames
open Scoro.Lib

/-- Frames are numbered in the order of their allocation. -/
abbrev Frame := ℕ

/-- Where the `Future` is that owns a frame. A `TrivialFuture` does not own its frame. -/
inductive Owner where
  | outside
  | nested (p : Frame)
  | detached
  deriving DecidableEq

/-- A coroutine. It is `done` at its final suspension, and before it is called. -/
inductive FramePc where
  | running
  | sleeping
  | awaiting (f : Frame)
  | done
  deriving DecidableEq

/-- `future f` says that the `Future` of `f` lives, and `task f` that the timer has a task with the
handle of `f`. `destroyed` counts how often a frame has been destroyed. `fault` is set when a frame
is resumed, used or destroyed that has been destroyed. -/
structure State where
  count : ℕ
  owner : Frame → Owner
  pc : Frame → FramePc
  future : Frame → Bool
  task : Frame → Bool
  destroyed : Frame → ℕ
  fault : Bool

/-- A coroutine is called from outside, for a `Future` or for a `TrivialFuture`, or in a frame `p`;
it goes on until it sleeps, awaits a `Future` or ends. `fire` and `cancel` are the timer's calls of
a task's callback and of its `cancel`. `drop` and `dropIn` are the destruction of a `Future` outside
of all frames and in a frame whose coroutine is running. -/
inductive Action where
  | call
  | detach
  | callIn (p : Frame)
  | sleep (f : Frame)
  | await (f g : Frame)
  | fire (f : Frame)
  | cancel (f : Frame)
  | drop (f : Frame)
  | dropIn (p f : Frame)
  | finish (f : Frame)
  deriving DecidableEq

def init : State where
  count := 0
  owner := fun _ => .detached
  pc := fun _ => .done
  future := fun _ => false
  task := fun _ => false
  destroyed := fun _ => 0
  fault := false

namespace State

/-- The frame that a living `Future` to `g` lies in. -/
def parent (s : State) (g : Frame) : Option Frame :=
  match s.owner g with
  | .nested p => if s.future g then some p else none
  | _ => none

/-- The frame `g` is destroyed together with `f`. -/
def belongs (s : State) (f g : Frame) : Bool := under s.parent f g

/-- The frame `g` belongs to a `Future` in `f`, or in a frame that does. -/
def locals (s : State) (f g : Frame) : Bool := s.belongs f g && decide (g ≠ f)

def setPc (s : State) (f : Frame) (pc : FramePc) : State :=
  { s with pc := Function.update s.pc f pc }

def setTask (s : State) (f : Frame) (task : Bool) : State :=
  { s with task := Function.update s.task f task }

/-- A coroutine's own step is an access to its frame. -/
def use (s : State) (f : Frame) : State :=
  { s with fault := s.fault || decide (s.destroyed f ≠ 0) }

/-- `operator new` for a frame and the first steps of its coroutine. -/
def create (s : State) (o : Owner) : State :=
  { s with
    count := s.count + 1
    owner := Function.update s.owner s.count o
    pc := Function.update s.pc s.count .running
    future := Function.update s.future s.count (decide (o ≠ .detached)) }

/-- The frames `d` are destroyed, and the `Future`s to the frames `e`. -/
def destroy (s : State) (d e : Frame → Bool) : State :=
  { s with
    destroyed := fun g => if d g then s.destroyed g + 1 else s.destroyed g
    future := fun g => s.future g && !e g
    fault := s.fault || decide (∃ g < s.count, d g = true ∧ s.destroyed g ≠ 0) }

/-- `std::coroutine_handle<>::resume()`. -/
def resume (s : State) (f : Frame) : State :=
  if s.destroyed f = 0 ∧ s.pc f = .sleeping then s.setPc f .running else { s with fault := true }

/-- `final_suspend`: the frame of a `TrivialFuture` is destroyed, and a coroutine that awaits `f`
is resumed. -/
def finalSuspend (s : State) (f : Frame) : State :=
  match s.owner f with
  | .outside => s
  | .nested p => if s.pc p = .awaiting f then (s.use p).setPc p .running else s
  | .detached => s.destroy (fun g => decide (g = f)) fun _ => false

end State

def step (s : State) : Action → Option State
  | .call => some (s.create .outside)
  | .detach => some (s.create .detached)
  | .callIn p => if s.pc p = .running then some ((s.use p).create (.nested p)) else none
  | .sleep f =>
    if s.pc f = .running then some (((s.use f).setPc f .sleeping).setTask f true) else none
  | .await f g =>
    if s.pc f = .running ∧ s.parent g = some f then
      some (if s.pc g = .done then s.use f else (s.use f).setPc f (.awaiting g))
    else none
  | .fire f => if s.task f then some ((s.setTask f false).resume f) else none
  | .cancel f =>
    if s.task f then some ((s.setTask f false).destroy (s.belongs f) (s.locals f)) else none
  | .drop f =>
    if s.owner f = .outside ∧ s.future f = true then some (s.destroy (s.belongs f) (s.belongs f))
    else none
  | .dropIn p f =>
    if s.pc p = .running ∧ s.parent f = some p then
      some ((s.use p).destroy (s.belongs f) (s.belongs f))
    else none
  | .finish f =>
    if s.pc f = .running then
      some ((((s.use f).destroy (s.locals f) (s.locals f)).setPc f .done).finalSuspend f)
    else none

def system : System State Action where
  init := init
  step := step

variable {s s' : State} {f g p : Frame} {a : Action} {d e : Frame → Bool}

/-- Somebody is going to resume the frame or is in it. -/
def Busy (s : State) (f : Frame) : Prop := s.task f = true ∨ s.pc f = .running

instance (s : State) (f : Frame) : Decidable (Busy s f) :=
  inferInstanceAs (Decidable (s.task f = true ∨ s.pc f = .running))

/-- No frame is destroyed that is busy, and the timer cancels no task of a coroutine whose `Future`
lives. -/
def Undisturbed (s : State) : Action → Prop
  | .drop f | .dropIn _ f => ∀ g < s.count, s.belongs f g = true → ¬Busy s g
  | .finish f => ∀ g < s.count, s.locals f g = true → ¬Busy s g
  | .cancel f => s.future f = false ∧ ∀ g < s.count, s.locals f g = true → ¬Busy s g
  | _ => True

instance (s : State) : (a : Action) → Decidable (Undisturbed s a)
  | .drop f | .dropIn _ f => inferInstanceAs
      (Decidable (∀ g < s.count, s.belongs f g = true → ¬Busy s g))
  | .finish f => inferInstanceAs (Decidable (∀ g < s.count, s.locals f g = true → ¬Busy s g))
  | .cancel f => inferInstanceAs
      (Decidable (s.future f = false ∧ ∀ g < s.count, s.locals f g = true → ¬Busy s g))
  | .call | .detach | .callIn _ | .sleep _ | .await _ _ | .fire _ => .isTrue trivial

/-- A frame has not been destroyed as long as its `Future` lives, a task refers to it or its
coroutine runs, and its `Future` lies in such a frame. -/
structure Inv (s : State) : Prop where
  fresh : ∀ f, s.count ≤ f → s.owner f = .detached ∧ s.pc f = .done ∧ s.future f = false ∧
    s.task f = false ∧ s.destroyed f = 0
  older : ∀ f p, s.owner f = .nested p → p < f
  fault : s.fault = false
  kept : ∀ f, s.future f = true → s.destroyed f = 0 ∧ s.owner f ≠ .detached
  gone : ∀ f, s.owner f ≠ .detached → s.future f = false → s.destroyed f = 1
  once : ∀ f, s.destroyed f ≤ 1
  busy : ∀ f, Busy s f → s.destroyed f = 0
  task : ∀ f, s.task f = true → s.pc f = .sleeping
  parent : ∀ f p, s.parent f = some p → s.destroyed p = 0 ∧ s.pc p ≠ .done

lemma init_inv : Inv init := by
  refine ⟨?_, ?_, rfl, ?_, ?_, ?_, ?_, ?_, ?_⟩ <;> simp [init, Busy, State.parent]

lemma Inv.older_parent (h : Inv s) : Older s.parent := by
  intro g p hp
  unfold State.parent at hp
  split at hp
  · rename_i q howner
    split at hp
    · cases hp
      exact h.older g p howner
    · cases hp
  · cases hp

lemma parent_eq_some : s.parent g = some p ↔ s.owner g = .nested p ∧ s.future g = true := by
  unfold State.parent
  cases s.owner g <;> simp [and_comm]

lemma Inv.lt_of_future (h : Inv s) (hf : s.future f = true) : f < s.count := by
  by_contra hlt
  rw [(h.fresh f (not_lt.mp hlt)).2.2.1] at hf
  cases hf

lemma Inv.lt_of_busy (h : Inv s) (hf : Busy s f) : f < s.count := by
  by_contra hlt
  obtain ⟨-, hpc, -, htask, -⟩ := h.fresh f (not_lt.mp hlt)
  rcases hf with hf | hf
  · rw [htask] at hf
    cases hf
  · rw [hpc] at hf
    cases hf

lemma use_eq (hf : s.destroyed f = 0) : s.use f = s := by
  simp [State.use, hf]

lemma locals_iff : s.locals f g = true ↔ s.belongs f g = true ∧ g ≠ f := by
  simp [State.locals]

/-- A frame that belongs to `f` and is not `f` has a living `Future`. -/
lemma Inv.future_of_belongs (h : Inv s) (hg : s.belongs f g = true) (hne : g ≠ f) :
    s.future g = true := by
  obtain ⟨p, hp⟩ := exists_parent h.older_parent hg hne
  exact (parent_eq_some.mp hp).2

lemma Inv.belongs_child (h : Inv s) (hp : s.parent g = some p) (hb : s.belongs f p = true) :
    s.locals f g = true := by
  have hlt := h.older_parent g p hp
  have hle := under_le h.older_parent hb
  exact locals_iff.mpr ⟨under_child h.older_parent hp hb, (hle.trans_lt hlt).ne'⟩

/-- Frames that nobody uses are destroyed, together with their `Future`s and all that belongs to
them. -/
lemma Inv.destroy (h : Inv s)
    (hd : ∀ g, d g = true → g < s.count ∧ s.destroyed g = 0 ∧ ¬Busy s g)
    (hfuture : ∀ g, d g = true → s.future g = true → e g = true)
    (hsub : ∀ g, e g = true → d g = true)
    (hclosed : ∀ g p, s.parent g = some p → d p = true → d g = true) : Inv (s.destroy d e) := by
  have hpos : ∀ g, d g = true → (s.destroy d e).destroyed g = 1 := fun g hg => by
    simp [State.destroy, hg, (hd g hg).2.1]
  have hneg : ∀ g, d g = false → (s.destroy d e).destroyed g = s.destroyed g := fun g hg => by
    simp [State.destroy, hg]
  have hlives : ∀ g, (s.destroy d e).future g = true → s.future g = true ∧ d g = false := by
    intro g hg
    simp only [State.destroy, Bool.and_eq_true, Bool.not_eq_true'] at hg
    obtain ⟨hg, he⟩ := hg
    cases hdg : d g with
    | false => exact ⟨hg, rfl⟩
    | true =>
      rw [hfuture g hdg hg] at he
      cases he
  have hbusy : ∀ g, Busy s g → d g = false := fun g hg => by
    cases hdg : d g with
    | false => rfl
    | true => exact absurd hg (hd g hdg).2.2
  refine ⟨fun g hg => ?_, h.older, ?_, fun g hg => ?_, fun g howner hg => ?_, fun g => ?_,
    fun g hg => (hneg g (hbusy g hg)).trans (h.busy g hg), h.task, fun g p hp => ?_⟩
  · obtain ⟨howner, hpc, hfut, htask, hdes⟩ := h.fresh g hg
    have hdg : d g = false := by
      cases hdg : d g with
      | false => rfl
      | true => exact absurd (hd g hdg).1 (not_lt.mpr hg)
    exact ⟨howner, hpc, by simp [State.destroy, hfut], htask, (hneg g hdg).trans hdes⟩
  · have hnone : ¬∃ g < s.count, d g = true ∧ s.destroyed g ≠ 0 := by
      rintro ⟨g, -, hg, hdes⟩
      exact hdes (hd g hg).2.1
    simp only [State.destroy, h.fault, decide_eq_false hnone, Bool.or_self]
  · obtain ⟨hg, hdg⟩ := hlives g hg
    obtain ⟨hdes, howner⟩ := h.kept g hg
    exact ⟨(hneg g hdg).trans hdes, howner⟩
  · cases hdg : d g with
    | true => exact hpos g hdg
    | false =>
      refine (hneg g hdg).trans (h.gone g howner ?_)
      have he : e g = false := by
        cases he : e g with
        | false => rfl
        | true =>
          rw [hsub g he] at hdg
          cases hdg
      simpa [State.destroy, he] using hg
  · cases hdg : d g with
    | true => exact (hpos g hdg).le
    | false => exact (hneg g hdg).trans_le (h.once g)
  · obtain ⟨howner, hg⟩ := parent_eq_some.mp hp
    obtain ⟨hg, hdg⟩ := hlives g hg
    have hold : s.parent g = some p := parent_eq_some.mpr ⟨howner, hg⟩
    have hdp : d p = false := by
      cases hdp : d p with
      | false => rfl
      | true =>
        rw [hclosed g p hold hdp] at hdg
        cases hdg
    exact ⟨(hneg p hdp).trans (h.parent g p hold).1, (h.parent g p hold).2⟩

lemma Inv.setPc (h : Inv s) {pc : FramePc} (hf : f < s.count)
    (hrun : pc = .running → s.destroyed f = 0) (htask : s.task f = true → pc = .sleeping)
    (hdone : pc = .done → ∀ g, s.parent g ≠ some f) : Inv (s.setPc f pc) := by
  have hself : (s.setPc f pc).pc f = pc := Function.update_self ..
  have hother : ∀ g, g ≠ f → (s.setPc f pc).pc g = s.pc g := fun g hg =>
    Function.update_of_ne hg ..
  refine ⟨fun g hg => ?_, h.older, h.fault, h.kept, h.gone, h.once, fun g hg => ?_, fun g hg => ?_,
    fun g p hp => ⟨(h.parent g p hp).1, ?_⟩⟩
  · obtain ⟨howner, hpc, hrest⟩ := h.fresh g hg
    have hne : g ≠ f := by
      rintro rfl
      exact absurd hf (not_lt.mpr hg)
    exact ⟨howner, (hother g hne).trans hpc, hrest⟩
  · rcases hg with hg | hg
    · exact h.busy g (Or.inl hg)
    · by_cases hne : g = f
      · subst hne
        exact hrun (hself.symm.trans hg)
      · exact h.busy g (Or.inr ((hother g hne).symm.trans hg))
  · by_cases hne : g = f
    · subst hne
      exact hself.trans (htask hg)
    · exact (hother g hne).trans (h.task g hg)
  · by_cases hne : p = f
    · subst hne
      rw [hself]
      exact fun hpc => hdone hpc g hp
    · rw [hother p hne]
      exact (h.parent g p hp).2

lemma Inv.setTask (h : Inv s) {task : Bool} (hf : f < s.count)
    (hnew : task = true → s.pc f = .sleeping ∧ s.destroyed f = 0) : Inv (s.setTask f task) := by
  have hself : (s.setTask f task).task f = task := Function.update_self ..
  have hother : ∀ g, g ≠ f → (s.setTask f task).task g = s.task g := fun g hg =>
    Function.update_of_ne hg ..
  refine ⟨fun g hg => ?_, h.older, h.fault, h.kept, h.gone, h.once, fun g hg => ?_, fun g hg => ?_,
    h.parent⟩
  · obtain ⟨howner, hpc, hfut, htask, hdes⟩ := h.fresh g hg
    have hne : g ≠ f := by
      rintro rfl
      exact absurd hf (not_lt.mpr hg)
    exact ⟨howner, hpc, hfut, (hother g hne).trans htask, hdes⟩
  · rcases hg with hg | hg
    · by_cases hne : g = f
      · subst hne
        exact (hnew (hself.symm.trans hg)).2
      · exact h.busy g (Or.inl ((hother g hne).symm.trans hg))
    · exact h.busy g (Or.inr hg)
  · by_cases hne : g = f
    · subst hne
      exact (hnew (hself.symm.trans hg)).1
    · exact h.task g ((hother g hne).symm.trans hg)

/-- A frame is allocated, for a `Future` in a frame whose coroutine runs or outside. -/
lemma Inv.create (h : Inv s) {o : Owner} (ho : ∀ p, o = .nested p → s.pc p = .running) :
    Inv (s.create o) := by
  obtain ⟨-, hpc, hfut, htask, hdes⟩ := h.fresh s.count le_rfl
  have hlt : ∀ p, o = .nested p → p < s.count := fun p hp => h.lt_of_busy (Or.inr (ho p hp))
  have howner : ∀ g, g ≠ s.count → (s.create o).owner g = s.owner g := fun g hg =>
    Function.update_of_ne hg ..
  have hpc' : ∀ g, g ≠ s.count → (s.create o).pc g = s.pc g := fun g hg =>
    Function.update_of_ne hg ..
  have hfut' : ∀ g, g ≠ s.count → (s.create o).future g = s.future g := fun g hg =>
    Function.update_of_ne hg ..
  have hself : (s.create o).owner s.count = o ∧ (s.create o).pc s.count = .running ∧
      (s.create o).future s.count = decide (o ≠ .detached) :=
    ⟨Function.update_self .., Function.update_self .., Function.update_self ..⟩
  refine ⟨fun g hg => ?_, fun g p hg => ?_, h.fault, fun g hg => ?_, fun g hg hfg => ?_, h.once,
    fun g hg => ?_, fun g hg => ?_, fun g p hp => ?_⟩
  · change s.count + 1 ≤ g at hg
    have hne : g ≠ s.count := by omega
    rw [howner g hne, hpc' g hne, hfut' g hne]
    exact h.fresh g (by omega)
  · by_cases hne : g = s.count
    · subst hne
      rw [hself.1] at hg
      exact hlt p hg
    · rw [howner g hne] at hg
      exact h.older g p hg
  · by_cases hne : g = s.count
    · subst hne
      rw [hself.2.2, decide_eq_true_iff] at hg
      rw [hself.1]
      exact ⟨hdes, hg⟩
    · rw [hfut' g hne] at hg
      rw [howner g hne]
      exact h.kept g hg
  · by_cases hne : g = s.count
    · subst hne
      rw [hself.1] at hg
      rw [hself.2.2, decide_eq_false_iff_not] at hfg
      exact absurd hg hfg
    · rw [howner g hne] at hg
      rw [hfut' g hne] at hfg
      exact h.gone g hg hfg
  · by_cases hne : g = s.count
    · rw [hne]
      exact hdes
    · refine h.busy g (hg.imp_right fun hrun => ?_)
      exact (hpc' g hne).symm.trans hrun
  · by_cases hne : g = s.count
    · subst hne
      change s.task s.count = true at hg
      rw [htask] at hg
      cases hg
    · exact (hpc' g hne).trans (h.task g hg)
  · obtain ⟨hog, hfg⟩ := parent_eq_some.mp hp
    by_cases hne : g = s.count
    · subst hne
      rw [hself.1] at hog
      have hrun := ho p hog
      have hlt := hlt p hog
      refine ⟨h.busy p (Or.inr hrun), ?_⟩
      rw [hpc' p hlt.ne, hrun]
      simp
    · rw [howner g hne] at hog
      rw [hfut' g hne] at hfg
      have hlt := h.lt_of_future hfg
      have hold := h.older g p hog
      obtain ⟨hdes, hdone⟩ := h.parent g p (parent_eq_some.mpr ⟨hog, hfg⟩)
      refine ⟨hdes, ?_⟩
      rwa [hpc' p (hold.trans hlt).ne]

/-- A coroutine that sleeps is resumed. -/
lemma Inv.fire (h : Inv s) (hf : s.task f = true) : Inv ((s.setTask f false).resume f) := by
  have hlt := h.lt_of_busy (Or.inl hf)
  have hdes := h.busy f (Or.inl hf)
  have hpc := h.task f hf
  have hset : Inv (s.setTask f false) := h.setTask hlt (by simp)
  have hgo : (s.setTask f false).destroyed f = 0 ∧ (s.setTask f false).pc f = .sleeping :=
    ⟨hdes, hpc⟩
  rw [State.resume, if_pos hgo]
  exact hset.setPc hlt (fun _ => hdes) (by simp [State.setTask]) (by simp)

/-- The timer cancels the task of a detached coroutine. -/
lemma Inv.cancel (h : Inv s) (hf : s.task f = true) (hC : Undisturbed s (.cancel f)) :
    Inv ((s.setTask f false).destroy (s.belongs f) (s.locals f)) := by
  obtain ⟨hno, hbusy⟩ := hC
  have hlt := h.lt_of_busy (Or.inl hf)
  have hset : Inv (s.setTask f false) := h.setTask hlt (by simp)
  refine hset.destroy (fun g hg => ?_) (fun g hg hfut => ?_) (fun g hg => (locals_iff.mp hg).1) ?_
  · by_cases hne : g = f
    · subst hne
      refine ⟨hlt, h.busy g (Or.inl hf), ?_⟩
      rintro (htask | hrun)
      · simp [State.setTask] at htask
      · have hpc : s.pc g = .running := hrun
        rw [h.task g hf] at hpc
        cases hpc
    · have hfut := h.future_of_belongs hg hne
      have hltg := h.lt_of_future hfut
      refine ⟨hltg, (h.kept g hfut).1, ?_⟩
      rintro (htask | hrun)
      · have htask : s.task g = true := by simpa [State.setTask, hne] using htask
        exact hbusy g hltg (locals_iff.mpr ⟨hg, hne⟩) (Or.inl htask)
      · exact hbusy g hltg (locals_iff.mpr ⟨hg, hne⟩) (Or.inr hrun)
  · refine locals_iff.mpr ⟨hg, ?_⟩
    rintro rfl
    rw [show s.future g = true from hfut] at hno
    cases hno
  · exact fun g p hp hb => (locals_iff.mp (h.belongs_child hp hb)).1

/-- A `Future` is destroyed, and its frame. -/
lemma Inv.drop (h : Inv s) (hf : s.future f = true)
    (hbusy : ∀ g < s.count, s.belongs f g = true → ¬Busy s g) :
    Inv (s.destroy (s.belongs f) (s.belongs f)) := by
  have hfut : ∀ g, s.belongs f g = true → s.future g = true := fun g hg => by
    by_cases hne : g = f
    · rwa [hne]
    · exact h.future_of_belongs hg hne
  refine h.destroy (fun g hg => ?_) (fun g hg _ => hg) (fun g hg => hg) ?_
  · have hlt := h.lt_of_future (hfut g hg)
    exact ⟨hlt, (h.kept g (hfut g hg)).1, hbusy g hlt hg⟩
  · exact fun g p hp hb => (locals_iff.mp (h.belongs_child hp hb)).1

/-- The body of a coroutine ends. Its local variables are destroyed first. -/
lemma Inv.finishBody (h : Inv s) (hf : s.pc f = .running)
    (hbusy : ∀ g < s.count, s.locals f g = true → ¬Busy s g) :
    Inv ((s.destroy (s.locals f) (s.locals f)).setPc f .done) := by
  have hlt := h.lt_of_busy (Or.inr hf)
  have hlocals : Inv (s.destroy (s.locals f) (s.locals f)) := by
    refine h.destroy (fun g hg => ?_) (fun g hg _ => hg) (fun g hg => hg) ?_
    · obtain ⟨hb, hne⟩ := locals_iff.mp hg
      have hfut := h.future_of_belongs hb hne
      have hltg := h.lt_of_future hfut
      exact ⟨hltg, (h.kept g hfut).1, hbusy g hltg hg⟩
    · exact fun g p hp hl => h.belongs_child hp (locals_iff.mp hl).1
  refine hlocals.setPc hlt (by simp) (fun htask => ?_) fun _ g hp => ?_
  · have hpc := h.task f htask
    rw [hf] at hpc
    cases hpc
  · -- the `Future`s in the frame are gone
    obtain ⟨howner, hfut⟩ := parent_eq_some.mp hp
    simp only [State.destroy, Bool.and_eq_true, Bool.not_eq_true'] at hfut
    have hold : s.parent g = some f := parent_eq_some.mpr ⟨howner, hfut.1⟩
    rw [h.belongs_child hold under_self] at hfut
    cases hfut.2

/-- A coroutine at its final suspension hands over to the one that awaits it. -/
lemma Inv.finalSuspend (h : Inv s) (hlt : f < s.count) (hdone : s.pc f = .done)
    (hdes : s.destroyed f = 0) : Inv (s.finalSuspend f) := by
  unfold State.finalSuspend
  split
  · exact h
  · rename_i p howner
    split
    · rename_i hpc
      have hfut : s.future f = true := by
        by_contra hno
        have hgone := h.gone f (by simp [howner]) (by simpa using hno)
        rw [hdes] at hgone
        cases hgone
      have hparent : s.parent f = some p := parent_eq_some.mpr ⟨howner, hfut⟩
      obtain ⟨hdesp, -⟩ := h.parent f p hparent
      rw [use_eq hdesp]
      refine h.setPc ((h.older f p howner).trans hlt) (fun _ => hdesp) (fun htask => ?_) (by simp)
      have hsleep := h.task p htask
      rw [hpc] at hsleep
      cases hsleep
    · exact h
  · rename_i howner
    refine h.destroy (fun g hg => ?_) (fun g hg hfut => ?_) (by simp) (fun g p hp hd => ?_)
    · obtain rfl := of_decide_eq_true hg
      refine ⟨hlt, hdes, ?_⟩
      rintro (htask | hrun)
      · have hsleep := h.task g htask
        rw [hdone] at hsleep
        cases hsleep
      · rw [hdone] at hrun
        cases hrun
    · obtain rfl := of_decide_eq_true hg
      exact absurd howner (h.kept g hfut).2
    · obtain rfl := of_decide_eq_true hd
      exact absurd hdone (h.parent g p hp).2

/-- Every step keeps the invariant. -/
theorem Inv.step (h : Inv s) (hC : Undisturbed s a) (hs : step s a = some s') : Inv s' := by
  cases a with
  | call =>
    cases hs
    exact h.create (by simp)
  | detach =>
    cases hs
    exact h.create (by simp)
  | callIn p =>
    simp only [Frames.step] at hs
    split at hs <;> cases hs
    rename_i hrun
    rw [use_eq (h.busy p (Or.inr hrun))]
    refine h.create fun q hq => ?_
    cases hq
    exact hrun
  | sleep f =>
    simp only [Frames.step] at hs
    split at hs <;> cases hs
    rename_i hrun
    have hdes := h.busy f (Or.inr hrun)
    have hlt := h.lt_of_busy (Or.inr hrun)
    rw [use_eq hdes]
    have hset : Inv (s.setPc f .sleeping) := h.setPc hlt (by simp) (fun _ => rfl) (by simp)
    exact hset.setTask hlt fun _ => ⟨Function.update_self .., hdes⟩
  | await f g =>
    simp only [Frames.step] at hs
    split at hs <;> cases hs
    rename_i hrun
    have hdes := h.busy f (Or.inr hrun.1)
    rw [use_eq hdes]
    split
    · exact h
    · refine h.setPc (h.lt_of_busy (Or.inr hrun.1)) (by simp) (fun htask => ?_) (by simp)
      have hsleep := h.task f htask
      rw [hrun.1] at hsleep
      cases hsleep
  | fire f =>
    simp only [Frames.step] at hs
    split at hs <;> cases hs
    exact h.fire ‹_›
  | cancel f =>
    simp only [Frames.step] at hs
    split at hs <;> cases hs
    exact h.cancel ‹_› hC
  | drop f =>
    simp only [Frames.step] at hs
    split at hs <;> cases hs
    rename_i hf
    exact h.drop hf.2 hC
  | dropIn p f =>
    simp only [Frames.step] at hs
    split at hs <;> cases hs
    rename_i hf
    rw [use_eq (h.busy p (Or.inr hf.1))]
    exact h.drop (parent_eq_some.mp hf.2).2 hC
  | finish f =>
    simp only [Frames.step] at hs
    split at hs <;> cases hs
    rename_i hrun
    have hdes := h.busy f (Or.inr hrun)
    rw [use_eq hdes]
    refine (h.finishBody hrun hC).finalSuspend (h.lt_of_busy (Or.inr hrun))
      (Function.update_self ..) ?_
    simpa [State.setPc, State.destroy, State.locals] using hdes

lemma reaches_inv (h : system.Reaches Undisturbed s) : Inv s :=
  h.invariant (I := Inv) init_inv fun _ _ _ _ hinv hC hs => hinv.step hC hs

/-! ### A frame that is destroyed too early -/

/-- A destroyed frame whose `Future` lives, or that a task refers to, or whose coroutine runs. What
is left of it is going to use the frame. -/
def Dangling (s : State) (f : Frame) : Prop :=
  f < s.count ∧ s.destroyed f ≠ 0 ∧ (s.future f = true ∨ Busy s f)

def Fated (s : State) (f : Frame) : Prop := s.fault = true ∨ Dangling s f

lemma Fated.use (h : Fated s g) (f : Frame) : Fated (s.use f) g :=
  h.imp_left fun hfault => by simp [State.use, hfault]

/-- A step in a destroyed frame. -/
lemma Fated.fault_use (h : Fated s f) : (s.use f).fault = true := by
  rcases h with hfault | ⟨-, hdes, -⟩
  · simp [State.use, hfault]
  · simp [State.use, hdes]

lemma Fated.create (h : Fated s g) (o : Owner) : Fated (s.create o) g := by
  refine h.imp_right fun ⟨hlt, hdes, huse⟩ => ⟨hlt.trans (Nat.lt_succ_self _), hdes, ?_⟩
  simpa [State.create, Busy, Function.update_of_ne hlt.ne] using huse

lemma Fated.setPc (h : Fated s g) {pc : FramePc} (hpc : g = f → pc = .running) :
    Fated (s.setPc f pc) g := by
  refine h.imp_right fun ⟨hlt, hdes, huse⟩ => ⟨hlt, hdes, ?_⟩
  by_cases hgf : g = f
  · subst hgf
    exact Or.inr (Or.inr ((Function.update_self ..).trans (hpc rfl)))
  · simpa [State.setPc, Busy, Function.update_of_ne hgf] using huse

lemma Fated.setTask (h : Fated s g) {task : Bool} (hgf : g ≠ f) : Fated (s.setTask f task) g := by
  refine h.imp_right fun ⟨hlt, hdes, huse⟩ => ⟨hlt, hdes, ?_⟩
  simpa [State.setTask, Busy, Function.update_of_ne hgf] using huse

lemma Fated.destroy (h : Fated s g) (hsub : ∀ f, e f = true → d f = true) :
    Fated (s.destroy d e) g := by
  rcases h with hfault | ⟨hlt, hdes, huse⟩
  · exact Or.inl (by simp [State.destroy, hfault])
  · cases hd : d g with
    | true =>
      left
      have hsome : ∃ f < s.count, d f = true ∧ s.destroyed f ≠ 0 := ⟨g, hlt, hd, hdes⟩
      simp only [State.destroy, decide_eq_true hsome, Bool.or_true]
    | false =>
      have he : e g = false := by
        cases he : e g with
        | false => rfl
        | true =>
          rw [hsub g he] at hd
          cases hd
      right
      refine ⟨hlt, by simpa [State.destroy, hd] using hdes, huse.imp_left fun hfut => ?_⟩
      simp [State.destroy, hfut, he]

lemma Fated.resume (h : Fated s g) (f : Frame) : Fated (s.resume f) g := by
  unfold State.resume
  split
  · exact h.setPc fun _ => rfl
  · exact Or.inl rfl

lemma Fated.finalSuspend (h : Fated s g) (f : Frame) : Fated (s.finalSuspend f) g := by
  unfold State.finalSuspend
  split
  · exact h
  · split
    · exact (h.use _).setPc fun _ => rfl
    · exact h
  · exact h.destroy (by simp)

lemma locals_sub (f g : Frame) (hg : s.locals f g = true) : s.belongs f g = true :=
  (locals_iff.mp hg).1

/-- Whatever happens next, a frame that is used after its end has been or will be used so. -/
lemma Fated.step (h : Fated s g) (hs : step s a = some s') : Fated s' g := by
  cases a with
  | call | detach =>
    cases hs
    exact h.create _
  | callIn p =>
    simp only [Frames.step] at hs
    split at hs <;> cases hs
    exact (h.use p).create _
  | sleep f =>
    simp only [Frames.step] at hs
    split at hs <;> cases hs
    by_cases hgf : g = f
    · subst hgf
      exact Or.inl h.fault_use
    · exact ((h.use f).setPc fun heq => absurd heq hgf).setTask hgf
  | await f f' =>
    simp only [Frames.step] at hs
    split at hs <;> cases hs
    split
    · exact h.use f
    · by_cases hgf : g = f
      · subst hgf
        exact Or.inl h.fault_use
      · exact (h.use f).setPc fun heq => absurd heq hgf
  | fire f =>
    simp only [Frames.step] at hs
    split at hs <;> cases hs
    by_cases hgf : g = f
    · subst hgf
      rcases h with hfault | ⟨-, hdes, -⟩
      · have hset : Fated (s.setTask g false) g := Or.inl hfault
        exact hset.resume g
      · refine Or.inl ?_
        have hno : ¬((s.setTask g false).destroyed g = 0 ∧ (s.setTask g false).pc g = .sleeping) :=
          fun hgo => hdes hgo.1
        simp only [State.resume, if_neg hno]
    · exact (h.setTask hgf).resume f
  | cancel f =>
    simp only [Frames.step] at hs
    split at hs <;> cases hs
    by_cases hgf : g = f
    · subst hgf
      rcases h with hfault | ⟨hlt, hdes, -⟩
      · exact Fated.destroy (Or.inl hfault) (locals_sub g)
      · left
        have hsome : ∃ f < s.count, s.belongs g f = true ∧ s.destroyed f ≠ 0 :=
          ⟨g, hlt, under_self, hdes⟩
        refine (Bool.or_eq_true _ _).mpr (Or.inr ?_)
        exact decide_eq_true hsome
    · exact (h.setTask hgf).destroy (locals_sub f)
  | drop f =>
    simp only [Frames.step] at hs
    split at hs <;> cases hs
    exact h.destroy fun _ hf => hf
  | dropIn p f =>
    simp only [Frames.step] at hs
    split at hs <;> cases hs
    exact (h.use p).destroy fun _ hf => hf
  | finish f =>
    simp only [Frames.step] at hs
    split at hs <;> cases hs
    have hbody : Fated ((s.use f).destroy (s.locals f) (s.locals f)) g :=
      (h.use f).destroy fun _ hf => hf
    refine Fated.finalSuspend ?_ f
    by_cases hgf : g = f
    · subst hgf
      left
      change ((s.use g).fault || _) = true
      rw [h.fault_use, Bool.true_or]
    · exact hbody.setPc fun heq => absurd heq hgf

/-- A busy frame is destroyed. -/
lemma dangling_destroy (hlt : g < s.count) (hd : d g = true) (hbusy : Busy s g) :
    Dangling (s.destroy d e) g :=
  ⟨hlt, by simp [State.destroy, hd], Or.inr hbusy⟩

/-- The timer cancels the task of a coroutine that has a `Future`, and then the `Future` is
destroyed. Or an outer `Future` is destroyed while the inner coroutine sleeps, whose task is then
called. -/
theorem frame_used_after_destruction :
    (∃ s, system.Reachable s ∧ s.destroyed 0 = 2 ∧ s.fault = true) ∧
    ∃ s, system.Reachable s ∧ s.destroyed 1 = 1 ∧ s.fault = true := by
  refine ⟨?_, ?_⟩
  · exact System.exists_reaches _ _ [.call, .sleep 0, .cancel 0, .drop 0] (by decide)
  · exact System.exists_reaches _ _
      [.call, .callIn 0, .sleep 1, .await 0 1, .drop 0, .fire 1] (by decide)

/-- As long as no busy frame is destroyed and the timer cancels no coroutine that has a `Future`,
no frame is used after its destruction, and a frame is destroyed once, with its `Future`. A step
that breaks this leaves something that is going to use a destroyed frame. -/
theorem frame_destroyed_once_iff (h : system.Reaches Undisturbed s) :
    (s.fault = false ∧ ∀ f, s.destroyed f ≤ 1 ∧
      (s.owner f ≠ .detached → s.destroyed f = if s.future f then 0 else 1)) ∧
    ∀ a s', step s a = some s' → ¬Undisturbed s a → ∃ f, ∀ as t,
      system.exec (fun _ _ => True) s' as = some t → t.fault = true ∨ Dangling t f := by
  have hinv := reaches_inv h
  refine ⟨⟨hinv.fault, fun f => ⟨hinv.once f, fun howner => ?_⟩⟩, fun a s' hs ha => ?_⟩
  · cases hfut : s.future f with
    | true => exact (hinv.kept f hfut).1
    | false => exact hinv.gone f howner hfut
  suffices hfated : ∃ f, Fated s' f by
    obtain ⟨f, hf⟩ := hfated
    exact ⟨f, fun as t ht => System.exec_invariant (I := fun t => Fated t f)
      (fun _ _ _ hu _ hs => hu.step hs) hf ht⟩
  cases a with
  | drop f =>
    simp only [Undisturbed, not_forall, not_not] at ha
    obtain ⟨g, hlt, hb, hbusy⟩ := ha
    simp only [step] at hs
    split at hs <;> cases hs
    exact ⟨g, Or.inr (dangling_destroy hlt hb hbusy)⟩
  | dropIn p f =>
    simp only [Undisturbed, not_forall, not_not] at ha
    obtain ⟨g, hlt, hb, hbusy⟩ := ha
    simp only [step] at hs
    split at hs <;> cases hs
    exact ⟨g, Or.inr (dangling_destroy hlt hb hbusy)⟩
  | finish f =>
    simp only [Undisturbed, not_forall, not_not] at ha
    obtain ⟨g, hlt, hl, hbusy⟩ := ha
    simp only [step] at hs
    split at hs <;> cases hs
    have hbody : Fated ((s.use f).destroy (s.locals f) (s.locals f)) g :=
      Or.inr (dangling_destroy hlt hl hbusy)
    have hne := (locals_iff.mp hl).2
    exact ⟨g, (hbody.setPc fun heq => absurd heq hne).finalSuspend f⟩
  | cancel f =>
    simp only [step] at hs
    split at hs <;> cases hs
    rename_i htask
    have hlt := hinv.lt_of_busy (Or.inl htask)
    cases hfut : s.future f with
    | true =>
      refine ⟨f, Or.inr ⟨hlt, ?_, Or.inl ?_⟩⟩
      · have hself : s.belongs f f = true := under_self
        simp [State.destroy, hself]
      · simp [State.destroy, State.setTask, State.locals, hfut]
    | false =>
      simp only [Undisturbed, hfut, true_and, not_forall, not_not] at ha
      obtain ⟨g, hltg, hl, hbusy⟩ := ha
      obtain ⟨hb, hne⟩ := locals_iff.mp hl
      refine ⟨g, Or.inr (dangling_destroy hltg hb ?_)⟩
      simpa [Busy, State.setTask, hne] using hbusy
  | _ => exact absurd trivial ha

/-- The inner coroutine wakes up and ends, the outer one goes on, sleeps and ends, and its `Future`
is destroyed last. -/
theorem frame_destroyed_once_run : ∃ s : State, s.fault = false ∧ s.destroyed 0 = 1 ∧
    s.destroyed 1 = 1 ∧ s.count = 2 := by
  obtain ⟨s, hs, hzero, hone, hcount⟩ := System.exists_reaches (S := system) Undisturbed
    (fun s => s.destroyed 0 = 1 ∧ s.destroyed 1 = 1 ∧ s.count = 2)
    [.call, .callIn 0, .sleep 1, .await 0 1, .fire 1, .finish 1, .sleep 0, .fire 0, .finish 0,
      .drop 0] (by decide)
  exact ⟨s, (frame_destroyed_once_iff hs).1.1, hzero, hone, hcount⟩

end Scoro.Frames

import Scoro.Timer.SharedSleep.Model

/-!
# The counts of control boxes

An invariant over all positions: everybody who is to read a pointer finds a box there, the argument
of a task and the handle of its function point to the same box, and one claimer wins a box. From it
the counts of the boxes.
-/

namespace Scoro.SharedSleep
open Scoro.Lib
open Scoro.CancelableSleep (Phase)

variable {Time A C K B : Type*}

/-! ### One step -/

section invariant
variable {s : State A C K B} {a : A} {b : B} {c : C} {p : Claimer K C} {x : Holder A C}
  [DecidableEq B]

/-- The coroutine has not suspended yet. -/
def CoroutinePc.starting : CoroutinePc A → Bool
  | .idle | .ready _ => true
  | .suspended _ | .awaitResume _ | .continued _ | .destroyed => false

namespace State

/-- The claimer `p` may read the box through `x`: the call through the `m_cb` of an awaitable, the
function of a task through its own handle. -/
def Through (s : State A C K B) (p : Claimer K C) (x : Holder A C) : Prop :=
  s.ptrs.mPtr x ≠ none ∧
    match p with
    | .call _ => ∃ a, x = .mCb a
    | .task c => x = .cb c ∧ s.task c = .claiming

def InUse (s : State A C K B) (a : A) : Prop := s.Called a ∨ s.Awaited a ∨ s.Suspending a

/-- The CAS of `p` on the state of `b` has succeeded. -/
def Wins (s : State A C K B) (p : Claimer K C) (b : B) : Prop :=
  ∃ x, (s.claims p).won = some x ∧ s.ptrs.mPtr x = some b

end State

/-- Everybody who reads a pointer finds a box there, the references of the tasks are where the
positions say, and one claimer wins each box. -/
structure Inv (s : State A C K B) : Prop where
  balanced : IntrusivePtr.Balanced none s.ptrs
  counted : ∀ b, s.ptrs.objs b ≠ .live 0
  unused : ∀ a, s.used a = false → s.ptrs.alive (.mCb a) = false
  arg : ∀ c, s.ptrs.mPtr (.arg c) = s.registered c
  cb : ∀ c, (s.ptrs.mPtr (.cb c)).isSome = (s.task c).constructed
  argAlive : ∀ c, s.ptrs.alive (.arg c) = (s.ptrs.mPtr (.arg c)).isSome
  cbAlive : ∀ c, s.ptrs.alive (.cb c) = (s.ptrs.mPtr (.cb c)).isSome
  suspends : ∀ c a, (s.suspend c).reads = some a → s.ptrs.mPtr (.mCb a) ≠ none
  awaits : ∀ c a, (s.coroutine c).awaits = some a → s.ptrs.mPtr (.mCb a) ≠ none
  claims : ∀ p x, (s.claims p).reads = some x → s.Through p x
  unregistered : ∀ c, s.suspend c ≠ .returned → s.task c = .unregistered
  starting : ∀ c, (s.coroutine c).starting = true → s.suspend c = .idle
  casNext : ∀ p x, s.claims p ≠ .cas x .ePending
  taskNext : ∀ c, (∀ b, s.task c ≠ .construct b .ePending) ∧ s.task c ≠ .release .ePending
  claimed : ∀ p b, s.Wins p b → (s.boxes b).state ≠ .ePending
  sole : ∀ p q b, s.Wins p b → s.Wins q b → p = q
  resume : ∀ p x b, s.claims p = .resume x → s.ptrs.mPtr x = some b → (s.boxes b).waiter ≠ none

omit [DecidableEq B] in
lemma State.not_inUse_of (hkept : ¬s.Called a ∧ ¬s.Awaited a) (htime : ¬s.Suspending a) :
    ¬s.InUse a := by
  rintro (hcalled | hawaited | hsuspending)
  exacts [hkept.1 hcalled, hkept.2 hawaited, htime hsuspending]

lemma won_reads {X : Type*} {pc : ClaimPc X} {x : X} (h : pc.won = some x) : pc.reads = some x := by
  cases pc <;> first | exact h | cases h

lemma inv_init : Inv (init A C K B) := by
  constructor
  case balanced => exact IntrusivePtr.init_balanced
  all_goals simp [init, IntrusivePtr.init, State.registered, TaskPc.counts, TaskPc.constructed,
    SuspendPc.reads, CoroutinePc.awaits, ClaimPc.reads, State.Wins, ClaimPc.won]

/-- An access through a pointer that has a box finds it live. -/
lemma Inv.access (h : Inv s) (hx : s.ptrs.mPtr x ≠ none) :
    ∃ b, s.ptrs.mPtr x = some b ∧ ∀ f, s.access x f = f b := by
  obtain ⟨b, hb⟩ := Option.ne_none_iff_exists'.mp hx
  exact ⟨b, hb, fun f => by simp [State.access, hb, h.balanced.held x b hb]⟩

lemma Inv.setCoroutine [DecidableEq C] (h : Inv s) {pc : CoroutinePc A}
    (hawaits : ∀ a, pc.awaits = some a → s.ptrs.mPtr (.mCb a) ≠ none)
    (hstarting : pc.starting = true → s.suspend c = .idle) : Inv (s.setCoroutine c pc) := by
  refine { h with awaits := fun d a ha => ?_, starting := fun d hd => ?_ } <;>
    by_cases hdc : d = c
  · subst hdc
    exact hawaits a (by simpa [State.setCoroutine] using ha)
  · exact h.awaits d a (by simpa [State.setCoroutine, hdc] using ha)
  · subst hdc
    exact hstarting (by simpa [State.setCoroutine] using hd)
  · exact h.starting d (by simpa [State.setCoroutine, hdc] using hd)

/-- A claimer goes on. If it has won a box, it is the only one. -/
lemma Inv.setClaim [DecidableEq C] [DecidableEq K] (h : Inv s) {pc : ClaimPc (Holder A C)}
    (hreads : ∀ x, pc.reads = some x → s.Through p x) (hcas : ∀ x, pc ≠ .cas x .ePending)
    (hwon : ∀ x b, pc.won = some x → s.ptrs.mPtr x = some b →
      (s.boxes b).state ≠ .ePending ∧ ∀ q, s.Wins q b → q = p)
    (hresume : ∀ x b, pc = .resume x → s.ptrs.mPtr x = some b → (s.boxes b).waiter ≠ none) :
    Inv (s.setClaim p pc) := by
  have hwins : ∀ q b, (s.setClaim p pc).Wins q b →
      q = p ∧ (∃ x, pc.won = some x ∧ s.ptrs.mPtr x = some b) ∨ q ≠ p ∧ s.Wins q b := by
    rintro q b ⟨x, hx, hb⟩
    by_cases hqp : q = p
    · exact Or.inl ⟨hqp, x, by simpa [State.setClaim, hqp] using hx, hb⟩
    · exact Or.inr ⟨hqp, x, by simpa [State.setClaim, hqp] using hx, hb⟩
  refine { h with
    claims := fun q x hx => ?_
    casNext := fun q x hq => ?_
    claimed := fun q b hq => ?_
    sole := fun q r b hq hr => ?_
    resume := fun q x b hq hx => ?_ }
  · by_cases hqp : q = p
    · subst hqp
      exact hreads x (by simpa [State.setClaim] using hx)
    · exact h.claims q x (by simpa [State.setClaim, hqp] using hx)
  · by_cases hqp : q = p
    · exact hcas x (by simpa [State.setClaim, hqp] using hq)
    · exact h.casNext q x (by simpa [State.setClaim, hqp] using hq)
  · rcases hwins q b hq with ⟨-, x, hx, hb⟩ | ⟨-, hold⟩
    · exact (hwon x b hx hb).1
    · exact h.claimed q b hold
  · rcases hwins q b hq with ⟨hqp, x, hx, hb⟩ | ⟨-, hq⟩ <;>
      rcases hwins r b hr with ⟨hrp, y, hy, hc⟩ | ⟨-, hr⟩
    · exact hqp.trans hrp.symm
    · exact hqp.trans ((hwon x b hx hb).2 r hr).symm
    · exact ((hwon y b hy hc).2 q hq).trans hrp.symm
    · exact h.sole q r b hq hr
  · by_cases hqp : q = p
    · exact hresume x b (by simpa [State.setClaim, hqp] using hq) hx
    · exact h.resume q x b (by simpa [State.setClaim, hqp] using hq) hx

/-- A claimer that has won its box goes on. -/
lemma Inv.advance [DecidableEq C] [DecidableEq K] (h : Inv s) {pc : ClaimPc (Holder A C)}
    (hreads : ∀ x, pc.reads = some x → (s.claims p).won = some x)
    (hcas : ∀ x, pc ≠ .cas x .ePending)
    (hresume : ∀ x b, pc = .resume x → s.ptrs.mPtr x = some b → (s.boxes b).waiter ≠ none) :
    Inv (s.setClaim p pc) := by
  refine h.setClaim (fun x hx => h.claims p x (won_reads (hreads x hx))) hcas (fun x b hx hb => ?_)
    hresume
  have hwins : s.Wins p b := ⟨x, hreads x (won_reads hx), hb⟩
  exact ⟨h.claimed p b hwins, fun q hq => h.sole q p b hq hwins⟩

/-- A waiter is stored, or removed when no claimer is going to resume it. -/
lemma Inv.setWaiter (h : Inv s) {w : Option C}
    (hw : w = none → ∀ p x, s.claims p = .resume x → s.ptrs.mPtr x ≠ some b) :
    Inv (s.setBox b { s.boxes b with waiter := w }) := by
  refine { h with claimed := fun p b' hp => ?_, resume := fun p x b' hp hx => ?_ } <;>
    by_cases hbb : b' = b
  · subst hbb
    simpa [State.setBox] using h.claimed p b' hp
  · simpa [State.setBox, hbb] using h.claimed p b' hp
  · subst hbb
    intro hnone
    exact hw (by simpa [State.setBox] using hnone) p x hp hx
  · simpa [State.setBox, hbb] using h.resume p x b' hp hx

/-- The state of a box that nobody has won is stored. -/
lemma Inv.setState (h : Inv s) {next : Phase} (hnext : next ≠ .ePending) :
    Inv (s.setBox b { s.boxes b with state := next }) := by
  refine { h with claimed := fun p b' hp => ?_, resume := fun p x b' hp hx => ?_ } <;>
    by_cases hbb : b' = b
  · simpa [State.setBox, hbb] using hnext
  · simpa [State.setBox, hbb] using h.claimed p b' hp
  · subst hbb
    simpa [State.setBox] using h.resume p x b' hp hx
  · simpa [State.setBox, hbb] using h.resume p x b' hp hx

/-- `await_suspend` goes on, when the reference of the task stays what it is. -/
lemma Inv.setSuspend [DecidableEq C] (h : Inv s) {pc : SuspendPc A B}
    (hreads : ∀ a, pc.reads = some a → s.ptrs.mPtr (.mCb a) ≠ none)
    (hregistered : (s.setSuspend c pc).registered c = s.registered c)
    (htask : s.task c = .unregistered) (hstarting : (s.coroutine c).starting = false) :
    Inv (s.setSuspend c pc) := by
  refine { h with
    arg := fun d => (h.arg d).trans ?_
    suspends := fun d a ha => ?_
    unregistered := fun d hd => ?_
    starting := fun d hd => ?_ } <;> by_cases hdc : d = c
  · subst hdc
    exact hregistered.symm
  · simp [State.registered, State.setSuspend, hdc]
  · subst hdc
    exact hreads a (by simpa [State.setSuspend] using ha)
  · exact h.suspends d a (by simpa [State.setSuspend, hdc] using ha)
  · exact hdc ▸ htask
  · exact h.unregistered d (by simpa [State.setSuspend, hdc] using hd)
  · exact absurd hd (by simp [State.setSuspend, hdc, hstarting])
  · simpa [State.setSuspend, hdc] using h.starting d hd

/-- The pointers of awaitables change that nobody uses. -/
lemma Inv.setPtrs (h : Inv s) {ptrs : IntrusivePtr.State (Holder A C) B} {used : A → Bool}
    (hbalanced : IntrusivePtr.Balanced none ptrs) (hcounted : ∀ b, ptrs.objs b ≠ .live 0)
    (hunused : ∀ a, used a = false → ptrs.alive (.mCb a) = false)
    (hkept : ∀ x, (∀ a, x = .mCb a → s.InUse a) →
      ptrs.mPtr x = s.ptrs.mPtr x ∧ ptrs.alive x = s.ptrs.alive x) :
    Inv { s with ptrs := ptrs, used := used } := by
  have hmCb : ∀ a, s.InUse a → ptrs.mPtr (.mCb a) = s.ptrs.mPtr (.mCb a) := by
    intro a ha
    exact (hkept _ fun a' heq => Holder.mCb.inj heq ▸ ha).1
  have harg : ∀ c, ptrs.mPtr (.arg c) = s.ptrs.mPtr (.arg c) ∧
      ptrs.alive (.arg c) = s.ptrs.alive (.arg c) := fun c => hkept _ (by simp)
  have hcb : ∀ c, ptrs.mPtr (.cb c) = s.ptrs.mPtr (.cb c) ∧
      ptrs.alive (.cb c) = s.ptrs.alive (.cb c) := fun c => hkept _ (by simp)
  have hreads : ∀ p x, (s.claims p).reads = some x → ptrs.mPtr x = s.ptrs.mPtr x := by
    intro p x hx
    obtain ⟨-, hp⟩ := h.claims p x hx
    cases p with
    | call k =>
      obtain ⟨a, rfl⟩ := hp
      exact hmCb a (Or.inl ⟨k, hx⟩)
    | task c => exact hp.1 ▸ (hcb c).1
  have hwins : ∀ p b, State.Wins { s with ptrs := ptrs, used := used } p b → s.Wins p b := by
    rintro p b ⟨x, hx, hb⟩
    exact ⟨x, hx, hreads p x (won_reads hx) ▸ hb⟩
  exact {
    balanced := hbalanced
    counted := hcounted
    unused := hunused
    arg := fun c => by
      refine (harg c).1.trans ((h.arg c).trans ?_)
      simp only [State.registered, (hcb c).1]
      split
      · rename_i a ha
        exact (hmCb a (Or.inr (Or.inr ⟨c, by simp [ha, SuspendPc.reads]⟩))).symm
      all_goals rfl
    cb := fun c => by simpa only [(hcb c).1] using h.cb c
    argAlive := fun c => by simpa only [(harg c).1, (harg c).2] using h.argAlive c
    cbAlive := fun c => by simpa only [(hcb c).1, (hcb c).2] using h.cbAlive c
    suspends := fun c a ha => by
      simpa only [hmCb a (Or.inr (Or.inr ⟨c, ha⟩))] using h.suspends c a ha
    awaits := fun c a ha => by
      simpa only [hmCb a (Or.inr (Or.inl ⟨c, ha⟩))] using h.awaits c a ha
    claims := fun p x hx => ⟨by simpa only [hreads p x hx] using (h.claims p x hx).1,
      (h.claims p x hx).2⟩
    unregistered := h.unregistered
    starting := h.starting
    casNext := h.casNext
    taskNext := h.taskNext
    claimed := fun p b hp => h.claimed p b (hwins p b hp)
    sole := fun p q b hp hq => h.sole p q b (hwins p b hp) (hwins q b hq)
    resume := fun p x b hp hx => by
      have hpc : s.claims p = .resume x := hp
      exact h.resume p x b hpc (hreads p x (by rw [hpc]; rfl) ▸ hx) }

/-- An awaitable that has no box is not in use. -/
lemma Inv.not_inUse (h : Inv s) (ha : s.ptrs.mPtr (.mCb a) = none) : ¬s.InUse a := by
  rintro (⟨k, hk⟩ | ⟨c, hc⟩ | ⟨c, hc⟩)
  · exact (h.claims _ _ hk).1 ha
  · exact h.awaits c a hc ha
  · exact h.suspends c a hc ha

section awaitables
variable [DecidableEq A] [DecidableEq C]

/-- The pointers of an awaitable that is constructed and of the one that it is moved from. -/
lemma Inv.construct (h : Inv s) {ptrs : IntrusivePtr.State (Holder A C) B}
    (hbalanced : IntrusivePtr.Balanced none ptrs) (hcounted : ∀ b, ptrs.objs b ≠ .live 0)
    (hused : s.used a = false) (halive : ptrs.alive = Function.update s.ptrs.alive (.mCb a) true)
    (hkept : ∀ x, x ≠ .mCb a → (∀ a', x = .mCb a' → s.InUse a') → ptrs.mPtr x = s.ptrs.mPtr x) :
    Inv (s.construct a ptrs) := by
  have hnone := h.balanced.dead _ (h.unused a hused)
  refine h.setPtrs hbalanced hcounted (fun a' ha' => ?_) fun x hx => ?_
  · by_cases haa : a' = a
    · simp [haa] at ha'
    · simpa [halive, haa] using h.unused a' (by simpa [haa] using ha')
  · have hxa : x ≠ .mCb a := fun heq => h.not_inUse hnone (hx a heq)
    exact ⟨hkept x hxa hx, by simp [halive, hxa]⟩

lemma Inv.make (h : Inv s) (hused : s.used a = false) (hb : s.ptrs.objs b = .fresh) :
    Inv (s.construct a ((newBox s b).fromRaw (.mCb a) (some b))) := by
  have hnew : IntrusivePtr.Balanced none (newBox s b) := (h.balanced.new hb).1
  have hlive : (newBox s b).isRaw (some b) = true := by
    simp [newBox, IntrusivePtr.State.isRaw, IntrusivePtr.Obj.isLive]
  refine h.construct (hnew.fromRaw (h.unused a hused) hlive).1 (fun b' hb' => ?_) hused
    (by simp [newBox]) fun x hxa _ => by simp [newBox, hxa]
  by_cases hbb : b' = b
  · simp [hbb, IntrusivePtr.State.fromRaw, IntrusivePtr.State.setAlive, IntrusivePtr.State.addRef,
      IntrusivePtr.State.setPtr, newBox] at hb'
  · have hold := IntrusivePtr.fromRaw_zero hb'
    exact h.counted b' (by simpa [newBox, hbb] using hold)

lemma Inv.copy (h : Inv s) {oth : A} (hused : s.used a = false) :
    Inv (s.construct a (s.ptrs.fromRaw (.mCb a) (s.ptrs.mPtr (.mCb oth)))) :=
  h.construct (h.balanced.fromRaw (h.unused a hused) (h.balanced.isRaw _)).1
    (fun b hb => h.counted b (IntrusivePtr.fromRaw_zero hb)) hused (by simp)
    fun x hxa _ => by simp [hxa]

lemma Inv.move (h : Inv s) {oth : A} (hused : s.used a = false)
    (hoth : s.ptrs.alive (.mCb oth) = true) (huse : ¬s.InUse oth) :
    Inv (s.construct a (s.ptrs.move (.mCb a) (.mCb oth))) := by
  refine h.construct (h.balanced.move (h.unused a hused) hoth).1 h.counted hused rfl
    fun x hxa hx => ?_
  have hxoth : x ≠ .mCb oth := fun heq => huse (hx oth heq)
  simp [IntrusivePtr.State.move, IntrusivePtr.State.setAlive, IntrusivePtr.State.setPtr, hxa, hxoth]

lemma Inv.destroy (h : Inv s) (ha : s.ptrs.alive (.mCb a) = true) (huse : ¬s.InUse a) :
    Inv { s with ptrs := s.ptrs.destroy (.mCb a) } := by
  refine h.setPtrs (h.balanced.destroy ha).1
    (fun b hb => h.counted b (IntrusivePtr.destroy_zero hb)) (fun a' ha' => ?_) fun x hx => ?_
  · by_cases haa : a' = a
    · simp [haa]
    · simpa [haa] using h.unused a' ha'
  · have hxa : x ≠ .mCb a := fun heq => huse (hx a heq)
    simp [hxa]

end awaitables

/-- The task of `c` goes on, while no claimer uses its handle. -/
structure TaskMove (s : State A C K B) (c : C) (ptrs : IntrusivePtr.State (Holder A C) B)
    (suspend : C → SuspendPc A B) (task : C → TaskPc B) : Prop where
  balanced : IntrusivePtr.Balanced none ptrs
  counted : ∀ b, ptrs.objs b ≠ .live 0
  mPtr : ∀ x, x ≠ .arg c → x ≠ .cb c → ptrs.mPtr x = s.ptrs.mPtr x
  alive : ∀ x, x ≠ .arg c → x ≠ .cb c → ptrs.alive x = s.ptrs.alive x
  other : ∀ d, d ≠ c → suspend d = s.suspend d ∧ task d = s.task d
  claims : (s.claims (.task c)).reads = none
  arg : ptrs.mPtr (.arg c) =
    State.registered { s with ptrs := ptrs, suspend := suspend, task := task } c
  cb : (ptrs.mPtr (.cb c)).isSome = (task c).constructed
  argAlive : ptrs.alive (.arg c) = (ptrs.mPtr (.arg c)).isSome
  cbAlive : ptrs.alive (.cb c) = (ptrs.mPtr (.cb c)).isSome
  reads : ∀ a, (suspend c).reads = some a → (s.suspend c).reads = some a
  unregistered : suspend c ≠ .returned → task c = .unregistered
  starting : (s.coroutine c).starting = true → suspend c = .idle
  next : (∀ b, task c ≠ .construct b .ePending) ∧ task c ≠ .release .ePending

lemma Inv.setTask (h : Inv s) (c : C) {ptrs : IntrusivePtr.State (Holder A C) B}
    {suspend : C → SuspendPc A B} {task : C → TaskPc B} (hmove : TaskMove s c ptrs suspend task) :
    Inv { s with ptrs := ptrs, suspend := suspend, task := task } := by
  have hmCb : ∀ a, ptrs.mPtr (.mCb a) = s.ptrs.mPtr (.mCb a) :=
    fun a => hmove.mPtr _ (by simp) (by simp)
  have hthrough : ∀ p x, (s.claims p).reads = some x → ptrs.mPtr x = s.ptrs.mPtr x ∧
      State.Through { s with ptrs := ptrs, suspend := suspend, task := task } p x := by
    intro p x hx
    obtain ⟨hbox, hp⟩ := h.claims p x hx
    cases p with
    | call k =>
      obtain ⟨a, rfl⟩ := hp
      exact ⟨hmCb a, by simpa only [hmCb a] using hbox, a, rfl⟩
    | task d =>
      obtain ⟨rfl, hd⟩ := hp
      have hdc : d ≠ c := by
        rintro rfl
        rw [hmove.claims] at hx
        cases hx
      have heq := hmove.mPtr (.cb d) (by simp) (by simpa using hdc)
      exact ⟨heq, by simpa only [heq] using hbox, rfl, (hmove.other d hdc).2.trans hd⟩
  have hwins : ∀ p b, State.Wins { s with ptrs := ptrs, suspend := suspend, task := task } p b →
      s.Wins p b := by
    rintro p b ⟨x, hx, hb⟩
    exact ⟨x, hx, (hthrough p x (won_reads hx)).1 ▸ hb⟩
  refine
    { balanced := hmove.balanced
      counted := hmove.counted
      unused := fun a ha => (hmove.alive _ (by simp) (by simp)).trans (h.unused a ha)
      arg := fun d => ?_
      cb := fun d => ?_
      argAlive := fun d => ?_
      cbAlive := fun d => ?_
      suspends := fun d a ha => ?_
      awaits := fun d a ha => (hmCb a).trans_ne (h.awaits d a ha)
      claims := fun p x hx => (hthrough p x hx).2
      unregistered := fun d hd => ?_
      starting := fun d hd => ?_
      casNext := h.casNext
      taskNext := fun d => ?_
      claimed := fun p b hp => h.claimed p b (hwins p b hp)
      sole := fun p q b hp hq => h.sole p q b (hwins p b hp) (hwins q b hq)
      resume := fun p x b hp hx => by
        have hpc : s.claims p = .resume x := hp
        exact h.resume p x b hpc ((hthrough p x (by rw [hpc]; rfl)).1 ▸ hx) } <;>
    by_cases hdc : d = c
  · exact hdc ▸ hmove.arg
  · have hold := h.arg d
    simp only [State.registered] at hold ⊢
    simpa only [(hmove.other d hdc).1, (hmove.other d hdc).2, hmCb,
      hmove.mPtr (.arg d) (by simpa using hdc) (by simp),
      hmove.mPtr (.cb d) (by simp) (by simpa using hdc)]
      using hold
  · exact hdc ▸ hmove.cb
  · have heq := hmove.mPtr (.cb d) (by simp) (by simpa using hdc)
    simpa only [(hmove.other d hdc).2, heq] using h.cb d
  · exact hdc ▸ hmove.argAlive
  · have heq := hmove.mPtr (.arg d) (by simpa using hdc) (by simp)
    simpa only [heq, hmove.alive (.arg d) (by simpa using hdc) (by simp)] using h.argAlive d
  · exact hdc ▸ hmove.cbAlive
  · have heq := hmove.mPtr (.cb d) (by simp) (by simpa using hdc)
    simpa only [heq, hmove.alive (.cb d) (by simp) (by simpa using hdc)] using h.cbAlive d
  · subst hdc
    exact (hmCb a).trans_ne (h.suspends d a (hmove.reads a ha))
  · exact (hmCb a).trans_ne (h.suspends d a ((hmove.other d hdc).1 ▸ ha))
  · exact hdc ▸ hmove.unregistered (hdc ▸ hd)
  · exact (hmove.other d hdc).2.trans
      (h.unregistered d fun heq => hd ((hmove.other d hdc).1.trans heq))
  · subst hdc
    exact hmove.starting hd
  · exact (hmove.other d hdc).1.trans (h.starting d hd)
  · exact hdc ▸ hmove.next
  · simpa only [(hmove.other d hdc).2] using h.taskNext d

section steps
variable {t : State A C K B}

lemma Inv.reads_none (h : Inv s) (hpc : s.task c ≠ .claiming) :
    (s.claims (.task c)).reads = none := by
  by_contra hreads
  obtain ⟨x, hx⟩ := Option.ne_none_iff_exists'.mp hreads
  exact hpc (h.claims _ x hx).2.2

lemma Inv.not_starting (h : Inv s) (hpc : s.suspend c ≠ .idle) :
    (s.coroutine c).starting = false := by
  by_contra hstarting
  exact hpc (h.starting c (by simpa using hstarting))

lemma Inv.awaitReady [LinearOrder Time] [DecidableEq C] (h : Inv s) {wakeTime : A → Time}
    {now : Time} (hs : awaitReady wakeTime s c now = some t) : Inv t := by
  unfold SharedSleep.awaitReady at hs
  split at hs
  · rename_i a hpc
    have hbox : s.ptrs.mPtr (.mCb a) ≠ none := h.awaits c a (by simp [hpc, CoroutinePc.awaits])
    have hidle := h.starting c (by simp [hpc, CoroutinePc.starting])
    have hpass : Inv (s.setCoroutine c (.awaitResume a)) :=
      h.setCoroutine (by simpa [CoroutinePc.awaits] using hbox) (by simp [CoroutinePc.starting])
    obtain ⟨b, -, haccess⟩ := h.access hbox
    simp only [haccess, Option.some.injEq] at hs
    split_ifs at hs
    · exact hs ▸ hpass
    · exact hs ▸ hpass
    · subst hs
      have hsuspended : Inv (s.setCoroutine c (.suspended a)) :=
        h.setCoroutine (by simpa [CoroutinePc.awaits] using hbox) (by simp [CoroutinePc.starting])
      refine hsuspended.setSuspend (by simpa [SuspendPc.reads] using hbox) ?_
        (h.unregistered c (by simp [hidle])) (by simp [State.setCoroutine, CoroutinePc.starting])
      simp [State.registered, State.setSuspend, State.setCoroutine, hidle]
  · cases hs

lemma Inv.awaitSuspend [DecidableEq A] [DecidableEq C] (h : Inv s)
    (hs : awaitSuspend s c = some t) : Inv t := by
  unfold SharedSleep.awaitSuspend at hs
  split at hs
  case h_1 a hpc =>
    have hbox := h.suspends c a (by simp [hpc, SuspendPc.reads])
    have htask := h.unregistered c (by simp [hpc])
    obtain ⟨b, -, haccess⟩ := h.access hbox
    simp only [haccess, Option.some.injEq] at hs
    subst hs
    have hstored : Inv (s.setBox b { s.boxes b with waiter := some c }) := h.setWaiter (by simp)
    refine hstored.setSuspend (by simpa [SuspendPc.reads] using hbox) ?_ htask
      (h.not_starting (by simp [hpc]))
    simp [State.registered, State.setSuspend, State.setBox, hpc]
  case h_2 a hpc =>
    have hbox := h.suspends c a (by simp [hpc, SuspendPc.reads])
    have htask := h.unregistered c (by simp [hpc])
    have hnone : s.ptrs.mPtr (.arg c) = none := by
      rw [h.arg c]
      simp [State.registered, hpc, htask, TaskPc.counts]
    obtain ⟨b, hb, haccess⟩ := h.access hbox
    simp only [haccess, Option.some.injEq] at hs
    subst hs
    have hfree : s.ptrs.alive (.arg c) = false := by simp [h.argAlive c, hnone]
    have hraw : s.ptrs.isRaw (some b) = true := hb ▸ h.balanced.isRaw (.mCb a)
    have hidle : (s.task c).constructed = false := by simp [htask, TaskPc.constructed]
    exact h.setTask c {
      balanced := (h.balanced.fromRaw hfree hraw).1
      counted := fun b' hb' => h.counted b' (IntrusivePtr.fromRaw_zero hb')
      mPtr := fun x hx _ => by simp [hx]
      alive := fun x hx _ => by simp [hx]
      other := fun d hd => by simp [hd]
      claims := h.reads_none (by simp [htask])
      arg := by simp [State.registered, hb]
      cb := by simpa [hidle] using h.cb c
      argAlive := by simp
      cbAlive := by simpa using h.cbAlive c
      reads := fun a' ha' => by simpa [hpc, SuspendPc.reads] using ha'
      unregistered := fun _ => htask
      starting := by simp [h.not_starting (c := c) (by simp [hpc])]
      next := by simp [htask] }
  case h_3 a hpc =>
    have hbox := h.suspends c a (by simp [hpc, SuspendPc.reads])
    obtain ⟨b, hb, haccess⟩ := h.access hbox
    simp only [haccess, Option.some.injEq] at hs
    subst hs
    refine h.setSuspend (by simp [SuspendPc.reads]) ?_ (h.unregistered c (by simp [hpc]))
      (h.not_starting (by simp [hpc]))
    simp [State.registered, hpc, ← hb, State.setSuspend]
  case h_4 b hpc =>
    have htask := h.unregistered c (by simp [hpc])
    simp only [Option.some.injEq] at hs
    subst hs
    exact h.setTask c {
      balanced := h.balanced
      counted := h.counted
      mPtr := fun _ _ _ => rfl
      alive := fun _ _ _ => rfl
      other := fun d hd => by simp [hd]
      claims := h.reads_none (by simp [htask])
      arg := by simp [h.arg c, State.registered, hpc, TaskPc.counts]
      cb := by simpa [htask, TaskPc.constructed] using h.cb c
      argAlive := h.argAlive c
      cbAlive := h.cbAlive c
      reads := by simp [SuspendPc.reads]
      unregistered := by simp
      starting := by simp [h.not_starting (c := c) (by simp [hpc])]
      next := by simp }
  all_goals cases hs

lemma Inv.awaitResume [DecidableEq C] (h : Inv s) (hs : awaitResume s c = some t) : Inv t := by
  unfold SharedSleep.awaitResume at hs
  split at hs
  · rename_i a hpc
    obtain ⟨b, -, haccess⟩ := h.access (h.awaits c a (by simp [hpc, CoroutinePc.awaits]))
    simp only [haccess, Option.some.injEq] at hs
    exact hs ▸ h.setCoroutine (by simp [CoroutinePc.awaits]) (by simp [CoroutinePc.starting])
  · cases hs

lemma Inv.abandon [DecidableEq C] (h : Inv s) (hs : abandon s c = some t) : Inv t := by
  unfold SharedSleep.abandon at hs
  split at hs
  · simp only [Option.some.injEq] at hs
    exact hs ▸ h.setCoroutine (by simp [CoroutinePc.awaits]) (by simp [CoroutinePc.starting])
  · cases hs

/-- The position of a task that has been registered. -/
lemma Inv.returned (h : Inv s) (hpc : s.task c ≠ .unregistered) : s.suspend c = .returned := by
  by_contra hsuspend
  exact hpc (h.unregistered c hsuspend)

lemma Inv.take [DecidableEq C] (h : Inv s) {next : Phase} (hnext : next ≠ .ePending)
    (hs : take s c next = some t) : Inv t := by
  unfold SharedSleep.take at hs
  split at hs
  · rename_i b hpc
    have hreturned := h.returned (c := c) (by simp [hpc])
    simp only [Option.some.injEq] at hs
    subst hs
    exact h.setTask c {
      balanced := h.balanced
      counted := h.counted
      mPtr := fun _ _ _ => rfl
      alive := fun _ _ _ => rfl
      other := fun d hd => by simp [hd]
      claims := h.reads_none (by simp [hpc])
      arg := by simp [h.arg c, State.registered, hreturned, hpc, TaskPc.counts]
      cb := by simpa [hpc, TaskPc.constructed] using h.cb c
      argAlive := h.argAlive c
      cbAlive := h.cbAlive c
      reads := by simp
      unregistered := by simp [hreturned]
      starting := by simp [h.not_starting (c := c) (by simp [hreturned])]
      next := by simp [hnext] }
  · cases hs

section task
variable [DecidableEq A] [DecidableEq C]

/-- The handle of the function is constructed from the argument. -/
lemma Inv.constructCb (h : Inv s) {next : Phase} (hpc : s.task c = .construct b next) :
    Inv { s.setTask c (.release next) with ptrs := s.ptrs.fromRaw (.cb c) (some b) } := by
  have hreturned := h.returned (c := c) (by simp [hpc])
  have harg : s.ptrs.mPtr (.arg c) = some b := by
    rw [h.arg c]
    simp [State.registered, hreturned, hpc, TaskPc.counts]
  have hnone : s.ptrs.mPtr (.cb c) = none := by
    simpa [hpc, TaskPc.constructed] using h.cb c
  have hfree : s.ptrs.alive (.cb c) = false := by simp [h.cbAlive c, hnone]
  have hraw : s.ptrs.isRaw (some b) = true := harg ▸ h.balanced.isRaw (.arg c)
  have hnext : next ≠ .ePending := by
    rintro rfl
    exact (h.taskNext c).1 b hpc
  exact h.setTask c {
    balanced := (h.balanced.fromRaw hfree hraw).1
    counted := fun b' hb' => h.counted b' (IntrusivePtr.fromRaw_zero hb')
    mPtr := fun x _ hx => by simp [hx]
    alive := fun x _ hx => by simp [hx]
    other := fun d hd => by simp [hd]
    claims := h.reads_none (by simp [hpc])
    arg := by simp [State.registered, hreturned, TaskPc.counts, harg]
    cb := by simp [TaskPc.constructed]
    argAlive := by simpa using h.argAlive c
    cbAlive := by simp
    reads := by simp
    unregistered := by simp [hreturned]
    starting := by simp [h.not_starting (c := c) (by simp [hreturned])]
    next := by simp [hnext] }

/-- The handle and the argument point to the same box, so that the count that the handle gives up
is the one of the argument. -/
lemma Inv.releaseArg (h : Inv s) {next : Phase} (hpc : s.task c = .release next) :
    Inv { s.setTask c .claiming with ptrs := releaseArg s c } := by
  have hreturned := h.returned (c := c) (by simp [hpc])
  have harg : s.ptrs.mPtr (.arg c) = s.ptrs.mPtr (.cb c) := by
    rw [h.arg c]
    simp [State.registered, hreturned, hpc, TaskPc.counts]
  have hcb : (s.ptrs.mPtr (.cb c)).isSome = true := by
    simpa [hpc, TaskPc.constructed] using h.cb c
  have hrelease : SharedSleep.releaseArg s c = s.ptrs.destroy (.arg c) := by
    rw [SharedSleep.releaseArg, IntrusivePtr.State.destroy, harg]
  rw [hrelease]
  exact h.setTask c {
    balanced := (h.balanced.destroy (by simp [h.argAlive c, harg, hcb])).1
    counted := fun b' hb' => h.counted b' (IntrusivePtr.destroy_zero hb')
    mPtr := fun x hx _ => by simp [hx]
    alive := fun x hx _ => by simp [hx]
    other := fun d hd => by simp [hd]
    claims := h.reads_none (by simp [hpc])
    arg := by simp [State.registered, hreturned, TaskPc.counts]
    cb := by simp [TaskPc.constructed, hcb]
    argAlive := by simp
    cbAlive := by simpa using h.cbAlive c
    reads := by simp
    unregistered := by simp [hreturned]
    starting := by simp [h.not_starting (c := c) (by simp [hreturned])]
    next := by simp }

lemma Inv.destroyCb (h : Inv s) (hpc : s.task c = .claiming)
    (hclaims : (s.claims (.task c)).reads = none) :
    Inv { s.setTask c .finished with ptrs := s.ptrs.destroy (.cb c) } := by
  have hreturned := h.returned (c := c) (by simp [hpc])
  have harg : s.ptrs.mPtr (.arg c) = none := by
    rw [h.arg c]
    simp [State.registered, hreturned, hpc, TaskPc.counts]
  have hcb : (s.ptrs.mPtr (.cb c)).isSome = true := by
    simpa [hpc, TaskPc.constructed] using h.cb c
  exact h.setTask c {
    balanced := (h.balanced.destroy (by simp [h.cbAlive c, hcb])).1
    counted := fun b' hb' => h.counted b' (IntrusivePtr.destroy_zero hb')
    mPtr := fun x _ hx => by simp [hx]
    alive := fun x _ hx => by simp [hx]
    other := fun d hd => by simp [hd]
    claims := hclaims
    arg := by simp [State.registered, hreturned, TaskPc.counts, harg]
    cb := by simp [TaskPc.constructed]
    argAlive := by simpa using h.argAlive c
    cbAlive := by simp
    reads := by simp
    unregistered := by simp [hreturned]
    starting := by simp [h.not_starting (c := c) (by simp [hreturned])]
    next := by simp }

lemma Inv.taskStep [DecidableEq K] (h : Inv s) (hs : taskStep s c = some t) : Inv t := by
  unfold SharedSleep.taskStep at hs
  split at hs
  case h_1 b next hpc =>
    simp only [Option.some.injEq] at hs
    exact hs ▸ h.constructCb hpc
  case h_2 next hpc =>
    simp only [Option.some.injEq] at hs
    subst hs
    have hrelease := h.releaseArg hpc
    have hnext : next ≠ .ePending := by
      rintro rfl
      exact (h.taskNext c).2 hpc
    refine hrelease.setClaim (p := .task c) (fun x hx => ?_) (by simp [hnext])
      (by simp [ClaimPc.won]) (by simp)
    obtain rfl : .cb c = x := Option.some.inj hx
    have hcb := hrelease.cb c
    simp only [State.setTask_task, Function.update_self, TaskPc.constructed] at hcb
    exact ⟨Option.isSome_iff_ne_none.mp hcb, rfl, by simp⟩
  case h_3 hpc =>
    split at hs
    · rename_i canceled hclaim
      simp only [Option.some.injEq] at hs
      exact hs ▸ h.destroyCb hpc (by simp [hclaim, ClaimPc.reads])
    · cases hs
  all_goals cases hs

end task

lemma Inv.resumeWaiter [DecidableEq C] (h : Inv s) : Inv (s.resume (some c)) := by
  simp only [State.resume]
  split
  · rename_i a hpc
    refine h.setCoroutine (fun a' ha' => ?_) (by simp [CoroutinePc.starting])
    obtain rfl : a = a' := Option.some.inj ha'
    exact h.awaits c a (by simp [hpc, CoroutinePc.awaits])
  · exact h

omit [DecidableEq B] in
lemma resume_claims [DecidableEq C] : (s.resume (some c)).claims = s.claims := by
  simp only [State.resume]
  split <;> rfl

lemma Inv.claimStep [DecidableEq C] [DecidableEq K] (h : Inv s) (hs : claimStep s p = some t) :
    Inv t := by
  have hbox : ∀ x, (s.claims p).reads = some x →
      ∃ b, s.ptrs.mPtr x = some b ∧ ∀ f, s.access x f = f b := by
    intro x hx
    exact h.access (h.claims p x hx).1
  unfold SharedSleep.claimStep at hs
  split at hs
  case h_1 x next hpc =>
    obtain ⟨b, hb, haccess⟩ := hbox x (by simp [hpc, ClaimPc.reads])
    simp only [haccess, Option.some.injEq] at hs
    split_ifs at hs with hpending
    · subst hs
      have hnext : next ≠ .ePending := by
        rintro rfl
        exact h.casNext p x hpc
      have hset : Inv (s.setBox b { s.boxes b with state := next }) := h.setState hnext
      refine hset.setClaim (fun y hy => hset.claims p y ?_) (by simp) (fun y b' hy hb' => ?_)
        (by simp)
      · rw [show (s.setBox b _).claims p = .cas x next from hpc]
        exact hy
      · obtain rfl : x = y := Option.some.inj hy
        obtain rfl : b = b' := Option.some.inj (hb.symm.trans hb')
        refine ⟨by simpa [State.setBox] using hnext, fun q hq => ?_⟩
        exact absurd hpending (h.claimed q b hq)
    · exact hs ▸ h.advance (by simp [ClaimPc.reads]) (by simp) (by simp)
  case h_2 x hpc =>
    obtain ⟨b, hb, haccess⟩ := hbox x (by simp [hpc, ClaimPc.reads])
    simp only [haccess, Option.some.injEq] at hs
    split_ifs at hs with hwaiter
    · subst hs
      refine h.advance (by simp [ClaimPc.reads, hpc, ClaimPc.won]) (by simp) fun y b' hy hb' => ?_
      cases hy
      obtain rfl : b = b' := Option.some.inj (hb.symm.trans hb')
      exact Option.isSome_iff_ne_none.mp hwaiter
    · exact hs ▸ h.advance (by simp [ClaimPc.reads]) (by simp) (by simp)
  case h_3 x hpc =>
    obtain ⟨b, hb, haccess⟩ := hbox x (by simp [hpc, ClaimPc.reads])
    obtain ⟨c, hc⟩ := Option.ne_none_iff_exists'.mp (h.resume p x b hpc hb)
    simp only [haccess, hc, Option.some.injEq] at hs
    subst hs
    refine h.resumeWaiter.advance (fun y hy => ?_) (by simp) (by simp)
    rw [resume_claims, hpc]
    exact hy
  case h_4 x hpc =>
    obtain ⟨b, hb, haccess⟩ := hbox x (by simp [hpc, ClaimPc.reads])
    simp only [haccess, Option.some.injEq] at hs
    subst hs
    -- Another claimer that is going to resume the waiter would have won the box as well.
    have hclear : Inv (s.setBox b { s.boxes b with waiter := none }) := by
      refine h.setWaiter fun _ q y hq hy => ?_
      have hqp := h.sole q p b ⟨y, by simp [hq, ClaimPc.won], hy⟩
        ⟨x, by simp [hpc, ClaimPc.won], hb⟩
      rw [hqp, hpc] at hq
      cases hq
    exact hclear.advance (by simp [ClaimPc.reads]) (by simp) (by simp)
  case h_5 => cases hs

section run
variable [LinearOrder Time] [DecidableEq A] [DecidableEq C] [DecidableEq K] {wakeTime : A → Time}
  {act : Action Time A C K B}

lemma Inv.step (h : Inv s) (hkept : KeptAlive s act) (htime : InTime s act)
    (hs : step wakeTime s act = some t) : Inv t := by
  cases act with
  | make a b =>
    simp only [SharedSleep.step, Option.ite_none_right_eq_some, Option.some.injEq] at hs
    exact hs.2 ▸ h.make hs.1.1 hs.1.2
  | copy a oth =>
    simp only [SharedSleep.step, Option.ite_none_right_eq_some, Option.some.injEq] at hs
    exact hs.2 ▸ h.copy hs.1.1
  | move a oth =>
    simp only [SharedSleep.step, Option.ite_none_right_eq_some, Option.some.injEq] at hs
    exact hs.2 ▸ h.move hs.1.1 hs.1.2 (State.not_inUse_of hkept htime)
  | destroy a =>
    simp only [SharedSleep.step, Option.ite_none_right_eq_some, Option.some.injEq] at hs
    exact hs.2 ▸ h.destroy hs.1 (State.not_inUse_of hkept htime)
  | coAwait c a =>
    simp only [SharedSleep.step] at hs
    split at hs
    · rename_i b hpc hbox
      simp only [Option.some.injEq] at hs
      have hidle := h.starting c (by simp [hpc, CoroutinePc.starting])
      refine hs ▸ h.setCoroutine (fun a' ha' => ?_) fun _ => hidle
      obtain rfl : a = a' := Option.some.inj ha'
      simp [hbox]
    · cases hs
  | awaitReady c now => exact h.awaitReady hs
  | awaitSuspend c => exact h.awaitSuspend hs
  | awaitResume c => exact h.awaitResume hs
  | abandon c => exact h.abandon hs
  | cancel k a =>
    simp only [SharedSleep.step] at hs
    split at hs
    · rename_i canceled b hpc hbox
      simp only [Option.some.injEq] at hs
      refine hs ▸ h.setClaim (fun x hx => ?_) (by simp) (by simp [ClaimPc.won]) (by simp)
      obtain rfl : .mCb a = x := Option.some.inj hx
      exact ⟨by simp [hbox], a, rfl⟩
    · cases hs
  | fire c => exact h.take (by simp) hs
  | cancelTask c => exact h.take (by simp) hs
  | task c => exact h.taskStep hs
  | claim p => exact h.claimStep hs

lemma reaches_inv (h : (system C K B wakeTime).Reaches Careful s) : Inv s :=
  h.invariant inv_init fun _ _ _ _ hinv hcareful hs => hinv.step hcareful.1 hcareful.2 hs

end run

/-! ### The counts -/

/-- The holders of a box, one kind after the other. -/
lemma Inv.held_eq (h : Inv s) (b : B) :
    held s.ptrs.mPtr b = s.handles b + s.registrations b + s.temporaries b := by
  have hinl := h.balanced.finite.held_add (g := Holder.mCb) (k := Sum.elim Holder.arg Holder.cb)
    (fun _ _ => Holder.mCb.inj) (by rintro (c | c) (d | d) hcd <;> cases hcd <;> rfl)
    (by rintro a (c | c) <;> simp) (by rintro (a | c | c) <;> simp) b
  have hfinite : FinitelyHeld (s.ptrs.mPtr ∘ Sum.elim Holder.arg Holder.cb) := by
    refine Set.Finite.preimage (Function.Injective.injOn ?_) h.balanced.finite
    rintro (c | c) (d | d) hcd <;> cases hcd <;> rfl
  have hinr := hfinite.held_add Sum.inl_injective Sum.inr_injective (by simp) (by simp) b
  have harg : (s.ptrs.mPtr ∘ Sum.elim Holder.arg Holder.cb) ∘ Sum.inl = s.registered :=
    funext h.arg
  have hcb :
      held ((s.ptrs.mPtr ∘ Sum.elim Holder.arg Holder.cb) ∘ Sum.inr) b = s.temporaries b := by
    refine congrArg Set.ncard (Set.ext fun c => ?_)
    have hsome := h.cb c
    constructor
    · intro (hc : s.ptrs.mPtr (.cb c) = some b)
      exact ⟨by simpa [hc] using hsome.symm, hc⟩
    · exact fun hc => hc.2
  rw [hinl, hinr, harg, hcb, add_assoc]
  rfl

lemma Inv.freedOnce (h : Inv s) : FreedOnce s := by
  refine ⟨h.balanced.fault, h.balanced.finite, fun b n hb => ?_, fun b => ?_, h.balanced.deletions⟩
  · rw [← h.held_eq b]
    simpa using h.balanced.count b n hb
  · rw [← h.held_eq b]
    constructor
    · intro hdel
      refine ⟨by simp [hdel], ?_⟩
      by_contra hheld
      obtain ⟨x, hx⟩ := exists_of_held hheld
      have hlive := h.balanced.held x b hx
      simp [hdel, IntrusivePtr.Obj.isLive] at hlive
    · rintro ⟨hfresh, hzero⟩
      cases hobj : s.ptrs.objs b with
      | fresh => exact absurd hobj hfresh
      | deleted => rfl
      | live n =>
        have hcount := h.balanced.count b n hobj
        simp only [hzero, reduceCtorEq, if_false] at hcount
        rw [hcount] at hobj
        exact absurd hobj (h.counted b)

end steps

end invariant

end Scoro.SharedSleep

import Scoro.Coro.Composition.Model

/-!
# What the coroutines of a thread keep

The frames, their owners and the control stack in runs in which a `Future` goes out of scope only
after its coroutine is done. `Move` says once what a step does in such a run; the invariant is
derived from it.
-/

namespace Scoro.Composition
open Scoro.Lib

/-- Where the `Future` of a frame is: outside of all coroutines, among the local variables of the
coroutine `p`, or out of scope with the frame still to be destroyed. -/
inductive Owner where
  | nobody
  | outside
  | nested (p : Frame)
  | dying
  deriving DecidableEq

section
variable {L V E κ : Type*}

namespace FramePc

/-- The coroutine that is awaited. -/
def target : FramePc L V E κ → Option Frame
  | .awaiting g _ => some g
  | _ => none

def resumes : FramePc L V E κ → Option Frame
  | .awaitResume g _ => some g
  | _ => none

def ended : FramePc L V E κ → Bool
  | .done | .destroyed => true
  | _ => false

def isDestroyed : FramePc L V E κ → Bool
  | .destroyed => true
  | _ => false

def isOperation : FramePc L V E κ → Bool
  | .operation .. => true
  | _ => false

/-- The body has not ended yet. -/
def inBody : FramePc L V E κ → Bool
  | .running _ | .operation .. | .awaiting .. | .awaitResume .. => true
  | .ending e => e.isSome
  | .done | .destroyed => false

/-- The number of `Future`s in scope is that of the program. -/
def Scoped (P : Program L V E κ) (n : ℕ) : FramePc L V E κ → Prop
  | .running k => P.scope k = n
  | .operation _ next | .awaiting _ next | .awaitResume _ next => ∀ o, P.scope (next o) = n
  | .ending _ | .done | .destroyed => True

end FramePc

/-- The role of a coroutine on the control stack. -/
def Coroutine.role (c : Coroutine L V E κ) (o : Owner) : Option (Role E) :=
  match c.pc with
  | .running _ | .awaitResume .. => some .body
  | .ending e => some (.final e)
  | .operation .. | .awaiting .. | .done | .destroyed => if o = .dying then some .destroy else none

namespace State
variable (s : State L V E κ)

def place (owner : Frame → Owner) (f : Frame) : Option (Role E) :=
  (s.frames f).bind fun c => c.role (owner f)

def target (p : Frame) : Option Frame := (s.frames p).bind fun c => c.pc.target

def resumes (p : Frame) : Option Frame := (s.frames p).bind fun c => c.pc.resumes

def caller (g : Frame) : Option Frame := (s.frames g).bind fun c => c.promise.mCallerCoroutine

/-- The coroutine has not come to its final suspension. -/
def live (g : Frame) : Bool := (s.frames g).any fun c => !c.pc.ended

def isDone (g : Frame) : Bool := (s.frames g).any fun c => c.pc.isDone

end State

/-- The stored callers are the coroutines that await. -/
structure Handshake (owner : Frame → Owner) (live isDone : Frame → Bool)
    (caller target resumes : Frame → Option Frame) : Prop where
  link : ∀ g p, live g = true → (caller g = some p ↔ target p = some g)
  target : ∀ p g, target p = some g → owner g = .nested p ∧ live g = true
  resumes : ∀ p g, resumes p = some g → owner g = .nested p ∧ isDone g = true

/-- What holds of a frame and its owner. -/
structure Local (P : Program L V E κ) (owner : Frame → Owner) (f : Frame)
    (c : Coroutine L V E κ) : Prop where
  nodup : c.futures.Nodup
  nested : ∀ g, g ∈ c.futures ↔ owner g = .nested f
  nobody : owner f = .nobody ↔ c.kind = .trivial ∨ c.pc.isDestroyed = true
  lt : ∀ p, owner f = .nested p → p < f
  dying : owner f = .dying → c.pc.isDone = true
  ended : c.pc.ended = true → c.futures = []
  done : c.pc.isDone = true → ∃ o, c.promise.get = some o
  ending : c.pc = .ending none → ∃ o, c.outcome = some o ∧ c.promise.get = some o
  inBody : c.pc.inBody = true → c.outcome = none ∧ c.promise.mException = none
  /-- Nobody but a coroutine that awaits the `Future` reads its result. -/
  outside : owner f = .outside → c.pc.isDone = true → c.promise.get = c.outcome
  registered : c.registered = c.pc.isOperation
  destroyed : c.destroyed = if c.pc.isDestroyed then 1 else 0
  scope : c.pc.Scoped P c.futures.length
  /-- The frame of a `TrivialFuture` ends without a final suspension. -/
  detached : c.kind = .trivial → c.pc.isDone = false

structure Inv (P : Program L V E κ) (s : State L V E κ) (owner : Frame → Owner) : Prop where
  fault : s.fault = false
  alloc : ∀ f, s.frames f = none ↔ s.count ≤ f
  unowned : ∀ f, s.count ≤ f → owner f = .nobody
  stack : Represents s.stack (s.place owner)
  roots : s.roots.Nodup ∧ ∀ f, f ∈ s.roots ↔ owner f = .outside
  frames : ∀ f c, s.frames f = some c → Local P owner f c
  handshake : Handshake owner s.live s.isDone s.caller s.target s.resumes

variable {P : Program L V E κ} {world : L → Except E V} {moved : V → V}

/-- The steps, by the action that is taken. -/
inductive Move (P : Program L V E κ) (world : L → Except E V) (moved : V → V)
    (s : State L V E κ) : Action κ → State L V E κ → Prop
  | call {kind body} (hscope : P.scope body = 0) : Move P world moved s (.call kind body)
      { s.create kind body with roots := match kind with
        | .trivial => s.roots
        | .future _ => s.roots ++ [s.count] }
  | ret {ready f c rest k v} (hstack : s.stack = (f, .body) :: rest) (hf : s.frames f = some c)
      (hpc : c.pc = .running k) (hk : P.code k = .ret v) : Move P world moved s (.run ready)
        ((s.setFrame f { c with
          pc := .ending none, promise := c.promise.returnValue v,
          outcome := some (.ok v) }).setStack ((f, .final none) :: rest))
  | throw {ready f c rest k e} (hstack : s.stack = (f, .body) :: rest) (hf : s.frames f = some c)
      (hpc : c.pc = .running k) (hk : P.code k = .throw e) : Move P world moved s (.run ready)
        ((s.setFrame f { c with pc := .ending (some e) }).setStack ((f, .final (some e)) :: rest))
  | callIn {ready f c rest k nothrow body next} (hstack : s.stack = (f, .body) :: rest)
      (hf : s.frames f = some c) (hpc : c.pc = .running k)
      (hk : P.code k = .call nothrow body next) : Move P world moved s (.run ready)
        ((s.setFrame f { c with
          pc := .running next, futures := c.futures ++ [s.count] }).create (.future nothrow) body)
  | awaitReady {ready f c rest k i next g d} (hstack : s.stack = (f, .body) :: rest)
      (hf : s.frames f = some c) (hpc : c.pc = .running k) (hk : P.code k = .await i next)
      (hi : c.futures[i]? = some g) (hg : s.frames g = some d) (hd : d.pc.isDone = true) :
      Move P world moved s (.run ready) (s.setFrame f { c with pc := .awaitResume g next })
  | awaitSuspend {ready f c rest k i next g d} (hstack : s.stack = (f, .body) :: rest)
      (hf : s.frames f = some c) (hpc : c.pc = .running k) (hk : P.code k = .await i next)
      (hi : c.futures[i]? = some g) (hg : s.frames g = some d) (hd : d.pc.ended = false) :
      Move P world moved s (.run ready)
        (((s.setFrame f { c with pc := .awaiting g next }).setFrame g
          { d with promise := d.promise.setCaller f }).setStack rest)
  | awaitResume {ready f c rest g next d o} (hstack : s.stack = (f, .body) :: rest)
      (hf : s.frames f = some c) (hpc : c.pc = .awaitResume g next) (hg : s.frames g = some d)
      (hd : d.pc.isDone = true) (ho : d.promise.get = some o) : Move P world moved s (.run ready)
        ((s.setFrame f { c with pc := .running (next o) }).setFrame g
          { d with promise := d.promise.moveOut moved })
  | performReady {f c rest k l next} (hstack : s.stack = (f, .body) :: rest)
      (hf : s.frames f = some c) (hpc : c.pc = .running k) (hk : P.code k = .perform l next) :
      Move P world moved s (.run true) (s.setFrame f { c with
        pc := .running (next (world l)), operations := c.operations ++ [l] })
  | performSuspend {f c rest k l next} (hstack : s.stack = (f, .body) :: rest)
      (hf : s.frames f = some c) (hpc : c.pc = .running k) (hk : P.code k = .perform l next) :
      Move P world moved s (.run false) ((s.setFrame f { c with
        pc := .operation l next, operations := c.operations ++ [l], registered := true }).setStack
          rest)
  | drop {ready f c rest k next g} (hstack : s.stack = (f, .body) :: rest)
      (hf : s.frames f = some c) (hpc : c.pc = .running k) (hk : P.code k = .drop next)
      (hg : c.futures.getLast? = some g)
      (hdone : ∀ d, s.frames g = some d → d.pc.isDone = true) :
      Move P world moved s (.run ready) ((s.setFrame f { c with
        pc := .running next, futures := c.futures.dropLast }).setStack
          ((g, .destroy) :: (f, .body) :: rest))
  | finalDrop {ready f c rest e g} (hstack : s.stack = (f, .final e) :: rest)
      (hf : s.frames f = some c) (hpc : c.pc = .ending e) (hg : c.futures.getLast? = some g)
      (hdone : ∀ d, s.frames g = some d → d.pc.isDone = true) : Move P world moved s (.run ready)
        ((s.setFrame f { c with futures := c.futures.dropLast }).setStack
          ((g, .destroy) :: (f, .final e) :: rest))
  | unhandled {ready f c rest e} (hstack : s.stack = (f, .final (some e)) :: rest)
      (hf : s.frames f = some c) (hpc : c.pc = .ending (some e)) (hfutures : c.futures = [])
      (hkind : c.kind = .future false) : Move P world moved s (.run ready)
        ((s.setFrame f { c with
          pc := .ending none, promise := c.promise.unhandledException e,
          outcome := some (.error e) }).setStack ((f, .final none) :: rest))
  | terminate {ready f c rest e} (hstack : s.stack = (f, .final (some e)) :: rest)
      (hf : s.frames f = some c) (hpc : c.pc = .ending (some e)) (hfutures : c.futures = [])
      (hkind : c.kind ≠ .future false) :
      Move P world moved s (.run ready) { s with terminated := true }
  | finalTrivial {ready f c rest} (hstack : s.stack = (f, .final none) :: rest)
      (hf : s.frames f = some c) (hpc : c.pc = .ending none) (hfutures : c.futures = [])
      (hkind : c.kind = .trivial) : Move P world moved s (.run ready)
        ((s.setFrame f { c with pc := .destroyed, destroyed := c.destroyed + 1 }).setStack rest)
  | finalDone {ready f c rest} (hstack : s.stack = (f, .final none) :: rest)
      (hf : s.frames f = some c) (hpc : c.pc = .ending none) (hfutures : c.futures = [])
      (hkind : c.kind ≠ .trivial) (hcaller : c.promise.mCallerCoroutine = none) :
      Move P world moved s (.run ready) ((s.setFrame f { c with pc := .done }).setStack rest)
  | finalTransfer {ready f c rest p d next} (hstack : s.stack = (f, .final none) :: rest)
      (hf : s.frames f = some c) (hpc : c.pc = .ending none) (hfutures : c.futures = [])
      (hkind : c.kind ≠ .trivial) (hcaller : c.promise.mCallerCoroutine = some p)
      (hp : s.frames p = some d) (hd : d.pc = .awaiting f next) : Move P world moved s (.run ready)
        (((s.setFrame f { c with pc := .done }).setFrame p
          { d with pc := .awaitResume f next }).setStack ((p, .body) :: rest))
  | destroy {ready f c rest} (hstack : s.stack = (f, .destroy) :: rest) (hf : s.frames f = some c)
      (hpc : c.pc = .done) (hfutures : c.futures = []) : Move P world moved s (.run ready)
        ((s.setFrame f { c with pc := .destroyed, destroyed := c.destroyed + 1 }).setStack rest)
  | resume {f c l next} (hf : s.frames f = some c) (hpc : c.pc = .operation l next) :
      Move P world moved s (.resume f) ((s.setFrame f { c with
        pc := .running (next (world l)), registered := false }).setStack ((f, .body) :: s.stack))
  | release {f} (hf : f ∈ s.roots) (hdone : ∀ d, s.frames f = some d → d.pc.isDone = true) :
      Move P world moved s (.release f)
        ({ s with roots := s.roots.erase f }.setStack ((f, .destroy) :: s.stack))

variable {s s' : State L V E κ} {owner : Frame → Owner} {f : Frame} {c : Coroutine L V E κ}
  {rest : List (Frame × Role E)} {role : Role E}

lemma Inv.top (h : Inv P s owner) (hstack : s.stack = (f, role) :: rest) :
    ∃ c, s.frames f = some c ∧ c.role (owner f) = some role := by
  have hstacked := h.stack
  rw [hstack] at hstacked
  exact Option.bind_eq_some_iff.mp hstacked.top

lemma Coroutine.role_body {o : Owner} (h : c.role o = some .body) :
    (∃ k, c.pc = .running k) ∨ ∃ g next, c.pc = .awaitResume g next := by
  unfold Coroutine.role at h
  split at h
  · exact Or.inl ⟨_, ‹_›⟩
  · exact Or.inr ⟨_, _, ‹_›⟩
  · cases h
  all_goals
    split at h <;> cases h

lemma Coroutine.role_final {o : Owner} {e : Option E} (h : c.role o = some (.final e)) :
    c.pc = .ending e := by
  unfold Coroutine.role at h
  split at h
  case h_3 hpc =>
    cases h
    exact hpc
  case h_1 | h_2 => cases h
  all_goals
    split at h <;> cases h

lemma Coroutine.role_destroy {o : Owner} (h : c.role o = some .destroy) : o = .dying := by
  unfold Coroutine.role at h
  split at h
  case h_1 | h_2 | h_3 => cases h
  all_goals
    split at h
    · assumption
    · cases h

lemma FramePc.eq_done {pc : FramePc L V E κ} (h : pc.isDone = true) : pc = .done := by
  cases pc <;> first | rfl | cases h

/-- A local `Future` belongs to a frame that is not destroyed. -/
lemma Inv.child (h : Inv P s owner) (hf : s.frames f = some c) {g : Frame} (hg : g ∈ c.futures) :
    ∃ d, s.frames g = some d ∧ d.pc ≠ .destroyed ∧ d.kind ≠ .trivial := by
  have hnested := ((h.frames f c hf).nested g).mp hg
  cases hd : s.frames g with
  | none =>
    rw [h.unowned g ((h.alloc g).mp hd)] at hnested
    cases hnested
  | some d =>
    have hnobody := (h.frames g d hd).nobody.not.mp (by rw [hnested]; simp)
    rw [not_or] at hnobody
    refine ⟨d, rfl, ?_, hnobody.1⟩
    intro hpc
    rw [hpc] at hnobody
    exact hnobody.2 rfl

lemma Inv.execute (h : Inv P s owner) {ready : Bool} {k : κ}
    (hJ : Joined P s (.run ready)) (hstack : s.stack = (f, .body) :: rest)
    (hf : s.frames f = some c) (hpc : c.pc = .running k)
    (hs : execute P world s f c rest ready k = some s') : Move P world moved s (.run ready) s' := by
  have hdropped : ∀ next g, P.code k = .drop next → c.futures.getLast? = some g →
      ∀ d, s.frames g = some d → d.pc.isDone = true := by
    intro next g hk hg
    refine hJ g ?_
    simp [dropped, hstack, hf, hpc, hk, hg]
  unfold Composition.execute at hs
  cases hk : P.code k with
  | ret v =>
    rw [hk] at hs
    cases hs
    exact .ret hstack hf hpc hk
  | throw e =>
    rw [hk] at hs
    cases hs
    exact .throw hstack hf hpc hk
  | call nothrow body next =>
    rw [hk] at hs
    cases hs
    exact .callIn hstack hf hpc hk
  | await i next =>
    rw [hk] at hs
    dsimp only at hs
    cases hi : c.futures[i]? with
    | none =>
      rw [hi] at hs
      cases hs
    | some g =>
      obtain ⟨d, hg, hd, -⟩ := h.child hf (List.mem_of_getElem? hi)
      rw [hi] at hs
      dsimp only at hs
      rw [hg] at hs
      dsimp only at hs
      split at hs
      · exact absurd ‹_› hd
      · cases hs
        exact .awaitReady hstack hf hpc hk hi hg (by rw [‹d.pc = _›]; rfl)
      · cases hs
        refine .awaitSuspend hstack hf hpc hk hi hg ?_
        cases hdpc : d.pc <;> first | rfl | contradiction
  | perform l next =>
    rw [hk] at hs
    cases ready <;> cases hs
    · exact .performSuspend hstack hf hpc hk
    · exact .performReady hstack hf hpc hk
  | drop next =>
    rw [hk] at hs
    dsimp only at hs
    cases hg : c.futures.getLast? with
    | none =>
      rw [hg] at hs
      cases hs
    | some g =>
      rw [hg] at hs
      cases hs
      exact .drop hstack hf hpc hk hg (hdropped next g hk hg)

lemma Inv.finalStep (h : Inv P s owner) {ready : Bool} {e : Option E}
    (hJ : Joined P s (.run ready)) (hstack : s.stack = (f, .final e) :: rest)
    (hf : s.frames f = some c) (hpc : c.pc = .ending e)
    (hs : finalStep s f c rest e = some s') : Move P world moved s (.run ready) s' := by
  unfold Composition.finalStep at hs
  cases hg : c.futures.getLast? with
  | some g =>
    rw [hg, hstack] at hs
    cases hs
    exact .finalDrop hstack hf hpc hg (hJ g (by simp [dropped, hstack, hf, hg]))
  | none =>
    have hfutures := List.getLast?_eq_none_iff.mp hg
    rw [hg] at hs
    dsimp only at hs
    split at hs
    · cases hs
      exact .unhandled hstack hf hpc hfutures ‹_›
    · rename_i hkind
      cases hs
      exact .terminate hstack hf hpc hfutures hkind
    · cases hs
      exact .finalTrivial hstack hf hpc hfutures ‹_›
    · rename_i nothrow hkind
      have htrivial : c.kind ≠ .trivial := by simp [hkind]
      cases hcaller : c.promise.mCallerCoroutine with
      | none =>
        rw [hcaller] at hs
        cases hs
        exact .finalDone hstack hf hpc hfutures htrivial hcaller
      | some p =>
        have htarget := (h.handshake.link f p (by simp [State.live, hf, hpc, FramePc.ended])).mp
          (by simp [State.caller, hf, hcaller])
        obtain ⟨d, hp, htarget⟩ := Option.bind_eq_some_iff.mp htarget
        rw [hcaller] at hs
        dsimp only at hs
        rw [hp] at hs
        dsimp only at hs
        cases hd : d.pc with
        | awaiting g next =>
          rw [hd] at hs htarget
          cases hs
          cases htarget
          exact .finalTransfer hstack hf hpc hfutures htrivial hcaller hp hd
        | running | operation | awaitResume | ending | done | destroyed =>
          rw [hd] at htarget
          cases htarget

/-- What a step does. -/
theorem Inv.move (h : Inv P s owner) {a : Action κ} (hJ : Joined P s a)
    (hs : step P world moved s a = some s') : Move P world moved s a s' := by
  unfold step at hs
  split at hs
  · cases hs
  cases a with
  | call kind body =>
    dsimp only at hs
    split at hs <;> cases hs
    exact .call ‹_›
  | run ready =>
    simp only [runStep] at hs
    cases hstack : s.stack with
    | nil =>
      rw [hstack] at hs
      cases hs
    | cons top rest =>
      obtain ⟨f, role⟩ := top
      obtain ⟨c, hf, hrole⟩ := h.top hstack
      rw [hstack] at hs
      dsimp only at hs
      rw [hf] at hs
      dsimp only at hs
      cases role with
      | body =>
        rcases Coroutine.role_body hrole with ⟨k, hpc⟩ | ⟨g, next, hpc⟩
        · rw [hpc] at hs
          exact h.execute hJ hstack hf hpc hs
        · rw [hpc] at hs
          obtain ⟨-, hd⟩ := h.handshake.resumes f g
            (by simp [State.resumes, hf, hpc, FramePc.resumes])
          obtain ⟨d, hg, hd⟩ := (Option.any_eq_true _ _).mp hd
          obtain ⟨o, ho⟩ := (h.frames g d hg).done hd
          have hmove : Move P world moved s (.run ready) _ := .awaitResume hstack hf hpc hg hd ho
          have hdone := FramePc.eq_done hd
          simp only [Composition.awaitResume, hg, hdone, ho, Option.some.injEq] at hs
          subst hs
          rwa [hdone] at hmove
      | final e => exact h.finalStep hJ hstack hf (Coroutine.role_final hrole) hs
      | destroy =>
        have hlocal := h.frames f c hf
        have hdone := hlocal.dying (Coroutine.role_destroy hrole)
        have hpc := FramePc.eq_done hdone
        have hfutures := hlocal.ended (by rw [hpc]; rfl)
        simp only [destroyStep, hpc, hfutures, List.getLast?_nil, Option.some.injEq] at hs
        subst hs
        have hmove : Move P world moved s (.run ready) _ := .destroy hstack hf hpc hfutures
        rwa [hfutures] at hmove
  | resume f =>
    dsimp only at hs
    cases hf : s.frames f with
    | none =>
      rw [hf] at hs
      cases hs
    | some c =>
      rw [hf] at hs
      dsimp only at hs
      split at hs
      · rename_i hregistered
        rw [(h.frames f c hf).registered] at hregistered
        cases hpc : c.pc with
        | operation l next =>
          rw [hpc] at hs
          cases hs
          exact .resume hf hpc
        | running | awaiting | awaitResume | ending | done | destroyed =>
          rw [hpc] at hregistered
          cases hregistered
      · cases hs
  | release f =>
    dsimp only at hs
    split at hs <;> cases hs
    exact .release ‹_› (hJ f rfl)

end

end Scoro.Composition

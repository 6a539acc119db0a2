import Scoro.Coro.Composition.Moves

/-!
# The invariant of the coroutines of a thread

Each step keeps the invariant, with a new owner for at most one frame. The hand-shakes between
awaiting and ending coroutines are followed on the functions that give the fields of all frames.
-/

namespace Scoro.Composition
open Scoro.Lib

/-- To set two values of a function to what they are changes nothing. -/
lemma update_update_self {ι α : Type*} [DecidableEq ι] {v : ι → α} {i j : ι} {x y : α}
    (hi : v i = x) (hj : v j = y) : Function.update (Function.update v i x) j y = v := by
  rw [← hi, ← hj, Function.update_eq_self, Function.update_eq_self]

section handshake
variable {owner : Frame → Owner} {live isDone : Frame → Bool}
  {caller target resumes : Frame → Option Frame} {f g p : Frame}

/-- Nobody awaits a frame that is not a local variable. -/
lemma Handshake.not_awaited (h : Handshake owner live isDone caller target resumes)
    (hg : ∀ p, owner g ≠ .nested p) (p : Frame) : target p ≠ some g ∧ resumes p ≠ some g :=
  ⟨fun hp => hg p (h.target p g hp).1, fun hp => hg p (h.resumes p g hp).1⟩

lemma Handshake.setOwner (h : Handshake owner live isDone caller target resumes) {o : Owner}
    (hg : ∀ p, target p ≠ some g ∧ resumes p ≠ some g) :
    Handshake (Function.update owner g o) live isDone caller target resumes := by
  refine ⟨h.link, fun p x hx => ?_, fun p x hx => ?_⟩
  · have hxg : x ≠ g := fun heq => (hg p).1 (heq ▸ hx)
    rw [Function.update_of_ne hxg]
    exact h.target p x hx
  · have hxg : x ≠ g := fun heq => (hg p).2 (heq ▸ hx)
    rw [Function.update_of_ne hxg]
    exact h.resumes p x hx

lemma Handshake.awaitReady (h : Handshake owner live isDone caller target resumes)
    (howner : owner g = .nested f) (hdone : isDone g = true) :
    Handshake owner live isDone caller target (Function.update resumes f (some g)) := by
  refine ⟨h.link, h.target, fun p x hx => ?_⟩
  by_cases hp : p = f
  · subst hp
    rw [Function.update_self] at hx
    cases hx
    exact ⟨howner, hdone⟩
  · rw [Function.update_of_ne hp] at hx
    exact h.resumes p x hx

lemma Handshake.awaitResume (h : Handshake owner live isDone caller target resumes) :
    Handshake owner live isDone caller target (Function.update resumes f none) := by
  refine ⟨h.link, h.target, fun p x hx => ?_⟩
  by_cases hp : p = f
  · subst hp
    rw [Function.update_self] at hx
    cases hx
  · rw [Function.update_of_ne hp] at hx
    exact h.resumes p x hx

/-- The owner of a live frame, which awaits nobody, becomes its caller. -/
lemma Handshake.awaitSuspend (h : Handshake owner live isDone caller target resumes)
    (howner : owner g = .nested f) (hlive : live g = true) (hf : target f = none) :
    Handshake owner live isDone (Function.update caller g (some f))
      (Function.update target f (some g)) resumes := by
  refine ⟨fun x p hx => ?_, fun p x hx => ?_, h.resumes⟩
  · by_cases hxg : x = g
    · subst hxg
      rw [Function.update_self]
      by_cases hp : p = f
      · subst hp
        simp
      · rw [Function.update_of_ne hp]
        constructor
        · intro hpf
          cases hpf
          exact absurd rfl hp
        · intro hpx
          have hnested := (h.target p x hpx).1
          rw [howner] at hnested
          cases hnested
          exact absurd rfl hp
    · rw [Function.update_of_ne hxg, h.link x p hx]
      by_cases hp : p = f
      · subst hp
        simp [hf, Ne.symm hxg]
      · rw [Function.update_of_ne hp]
  · by_cases hp : p = f
    · subst hp
      rw [Function.update_self] at hx
      cases hx
      exact ⟨howner, hlive⟩
    · rw [Function.update_of_ne hp] at hx
      exact h.target p x hx

/-- A frame that nobody awaits comes to its final suspension, or is destroyed after it. -/
lemma Handshake.retire (h : Handshake owner live isDone caller target resumes) (done : Bool)
    (hf : ∀ p, target p ≠ some f ∧ resumes p ≠ some f) :
    Handshake owner (Function.update live f false) (Function.update isDone f done) caller target
      resumes := by
  refine ⟨fun x p hx => ?_, fun p x hx => ?_, fun p x hx => ?_⟩
  · by_cases hxf : x = f
    · subst hxf
      rw [Function.update_self] at hx
      cases hx
    · rw [Function.update_of_ne hxf] at hx
      exact h.link x p hx
  · have hxf : x ≠ f := fun heq => (hf p).1 (heq ▸ hx)
    rw [Function.update_of_ne hxf]
    exact h.target p x hx
  · have hxf : x ≠ f := fun heq => (hf p).2 (heq ▸ hx)
    rw [Function.update_of_ne hxf]
    exact h.resumes p x hx

/-- A frame comes to its final suspension and resumes its caller. -/
lemma Handshake.transfer (h : Handshake owner live isDone caller target resumes)
    (hlive : live f = true) (hcaller : caller f = some p) :
    Handshake owner (Function.update live f false) (Function.update isDone f true) caller
      (Function.update target p none) (Function.update resumes p (some f)) := by
  have htarget := (h.link f p hlive).mp hcaller
  have howner := (h.target p f htarget).1
  refine ⟨fun x q hx => ?_, fun q x hx => ?_, fun q x hx => ?_⟩
  · by_cases hxf : x = f
    · subst hxf
      rw [Function.update_self] at hx
      cases hx
    · rw [Function.update_of_ne hxf] at hx
      rw [h.link x q hx]
      by_cases hq : q = p
      · subst hq
        simp [htarget, Ne.symm hxf]
      · rw [Function.update_of_ne hq]
  · by_cases hq : q = p
    · subst hq
      rw [Function.update_self] at hx
      cases hx
    · rw [Function.update_of_ne hq] at hx
      obtain ⟨hnested, hxlive⟩ := h.target q x hx
      refine ⟨hnested, ?_⟩
      by_cases hxf : x = f
      · subst hxf
        rw [howner] at hnested
        cases hnested
        exact absurd rfl hq
      · rwa [Function.update_of_ne hxf]
  · by_cases hq : q = p
    · subst hq
      rw [Function.update_self] at hx
      cases hx
      exact ⟨howner, Function.update_self ..⟩
    · rw [Function.update_of_ne hq] at hx
      obtain ⟨hnested, hxdone⟩ := h.resumes q x hx
      refine ⟨hnested, ?_⟩
      by_cases hxf : x = f
      · subst hxf
        exact Function.update_self ..
      · rwa [Function.update_of_ne hxf]

/-- A new frame, which nobody awaits and which has no caller. -/
lemma Handshake.create (h : Handshake owner live isDone caller target resumes) {o : Owner}
    (hf : owner f = .nobody) (hcaller : caller f = none) (htarget : target f = none)
    (hresumes : resumes f = none) :
    Handshake (Function.update owner f o) (Function.update live f true)
      (Function.update isDone f false) (Function.update caller f none)
      (Function.update target f none) (Function.update resumes f none) := by
  have hnot := h.not_awaited (g := f) (by simp [hf])
  have hcaller' : Function.update caller f none = caller :=
    Function.update_eq_self_iff.mpr hcaller.symm
  have htarget' : Function.update target f none = target :=
    Function.update_eq_self_iff.mpr htarget.symm
  have hresumes' : Function.update resumes f none = resumes :=
    Function.update_eq_self_iff.mpr hresumes.symm
  rw [hcaller', htarget', hresumes']
  refine ⟨fun x p hx => ?_, fun p x hx => ?_, fun p x hx => ?_⟩
  · by_cases hxf : x = f
    · subst hxf
      rw [hcaller]
      constructor
      · intro hp
        cases hp
      · intro hp
        exact absurd hp (hnot p).1
    · rw [Function.update_of_ne hxf] at hx
      exact h.link x p hx
  · have hxf : x ≠ f := fun heq => (hnot p).1 (heq ▸ hx)
    rw [Function.update_of_ne hxf, Function.update_of_ne hxf]
    exact h.target p x hx
  · have hxf : x ≠ f := fun heq => (hnot p).2 (heq ▸ hx)
    rw [Function.update_of_ne hxf, Function.update_of_ne hxf]
    exact h.resumes p x hx

end handshake

section
variable {L V E κ : Type*} {P : Program L V E κ} {world : L → Except E V} {moved : V → V}
  {s s' : State L V E κ} {owner : Frame → Owner} {f g : Frame} {c d : Coroutine L V E κ}
  {rest : List (Frame × Role E)}

namespace State

@[simp] lemma setStack_frames (stack : List (Frame × Role E)) :
    (s.setStack stack).frames = s.frames :=
  rfl

@[simp] lemma setFrame_frames : (s.setFrame f c).frames = Function.update s.frames f (some c) := rfl

lemma target_eq (hf : s.frames f = some c) : s.target f = c.pc.target := by simp [target, hf]

lemma resumes_eq (hf : s.frames f = some c) : s.resumes f = c.pc.resumes := by simp [resumes, hf]

lemma caller_eq (hf : s.frames f = some c) : s.caller f = c.promise.mCallerCoroutine := by
  simp [caller, hf]

lemma live_eq (hf : s.frames f = some c) : s.live f = !c.pc.ended := by simp [live, hf]

lemma isDone_eq (hf : s.frames f = some c) : s.isDone f = c.pc.isDone := by simp [isDone, hf]

lemma setFrame_place : (s.setFrame f c).place owner =
    Function.update (s.place owner) f (c.role (owner f)) := by
  funext x
  by_cases hx : x = f
  · subst hx
    simp [place]
  · simp [place, Function.update_of_ne hx]

lemma place_setOwner {o : Owner} : s.place (Function.update owner g o) =
    Function.update (s.place owner) g ((s.frames g).bind fun c => c.role o) := by
  funext x
  by_cases hx : x = g
  · subst hx
    simp [place]
  · simp [place, Function.update_of_ne hx]

lemma setFrame_target : (s.setFrame f c).target = Function.update s.target f c.pc.target := by
  funext x
  by_cases hx : x = f
  · subst hx
    simp [target]
  · simp [target, Function.update_of_ne hx]

lemma setFrame_resumes : (s.setFrame f c).resumes = Function.update s.resumes f c.pc.resumes := by
  funext x
  by_cases hx : x = f
  · subst hx
    simp [resumes]
  · simp [resumes, Function.update_of_ne hx]

lemma setFrame_caller :
    (s.setFrame f c).caller = Function.update s.caller f c.promise.mCallerCoroutine := by
  funext x
  by_cases hx : x = f
  · subst hx
    simp [caller]
  · simp [caller, Function.update_of_ne hx]

lemma setFrame_live : (s.setFrame f c).live = Function.update s.live f (!c.pc.ended) := by
  funext x
  by_cases hx : x = f
  · subst hx
    simp [live]
  · simp [live, Function.update_of_ne hx]

lemma setFrame_isDone : (s.setFrame f c).isDone = Function.update s.isDone f c.pc.isDone := by
  funext x
  by_cases hx : x = f
  · subst hx
    simp [isDone]
  · simp [isDone, Function.update_of_ne hx]

end State

/-! ### One frame -/

lemma FramePc.of_inBody {pc : FramePc L V E κ} (h : pc.inBody = true) :
    pc.ended = false ∧ pc.isDone = false ∧ pc.isDestroyed = false ∧ pc ≠ .ending none := by
  cases pc with
  | running | operation | awaiting | awaitResume => exact ⟨rfl, rfl, rfl, by simp⟩
  | ending e =>
    refine ⟨rfl, rfl, rfl, ?_⟩
    intro heq
    cases heq
    cases h
  | done | destroyed => cases h

lemma Local.alive (h : Local P owner f c) (hin : c.pc.inBody = true) : owner f ≠ .dying := by
  intro hdying
  have hdone := h.dying hdying
  rw [(FramePc.of_inBody hin).2.1] at hdone
  cases hdone

/-- The body goes on, with the same `Future`s. -/
lemma Local.inBody_step (h : Local P owner f c) (hin : c.pc.inBody = true)
    {pc : FramePc L V E κ} {operations : List L} {registered : Bool} (hin' : pc.inBody = true)
    (hregistered : registered = pc.isOperation) (hscope : pc.Scoped P c.futures.length) :
    Local P owner f { c with
      pc := pc, operations := operations, registered := registered } := by
  obtain ⟨-, -, hdestroyed, -⟩ := FramePc.of_inBody hin
  obtain ⟨hended', hdone', hdestroyed', hending'⟩ := FramePc.of_inBody hin'
  have hnobody := h.nobody
  have hcount := h.destroyed
  rw [hdestroyed] at hnobody hcount
  refine ⟨h.nodup, h.nested, ?_, h.lt, fun ho => absurd ho (h.alive hin), fun ht => ?_,
    fun ht => ?_, fun ht => absurd ht hending', fun _ => h.inBody hin, fun _ ht => ?_,
    hregistered, ?_, hscope, fun _ => hdone'⟩
  · rwa [hdestroyed']
  · rw [hended'] at ht
    cases ht
  · rw [hdone'] at ht
    cases ht
  · rw [hdone'] at ht
    cases ht
  · rwa [hdestroyed']

/-- The body has ended: the promise holds its outcome. -/
lemma Local.outcome_step (h : Local P owner f c) (hin : c.pc.inBody = true)
    (hregistered : c.pc.isOperation = false) {promise : Promise V E} {o : Except E V}
    (ho : promise.get = some o) :
    Local P owner f { c with pc := .ending none, promise := promise, outcome := some o } := by
  obtain ⟨-, -, hdestroyed, -⟩ := FramePc.of_inBody hin
  have hnobody := h.nobody
  have hcount := h.destroyed
  have hreg := h.registered
  rw [hdestroyed] at hnobody hcount
  rw [hregistered] at hreg
  exact ⟨h.nodup, h.nested, hnobody, h.lt, fun ho => absurd ho (h.alive hin), nofun, nofun,
    fun _ => ⟨o, rfl, ho⟩, nofun, fun _ => nofun, hreg, hcount, trivial, fun _ => rfl⟩

/-- The final suspension. -/
lemma Local.final_step (h : Local P owner f c) (hpc : c.pc = .ending none)
    (hfutures : c.futures = []) (hkind : c.kind ≠ .trivial) :
    Local P owner f { c with pc := .done } := by
  obtain ⟨o, houtcome, hget⟩ := h.ending hpc
  have hnobody := h.nobody
  have hcount := h.destroyed
  have hreg := h.registered
  rw [hpc] at hnobody hcount hreg
  exact ⟨h.nodup, h.nested, hnobody, h.lt, fun _ => rfl, fun _ => hfutures, fun _ => ⟨o, hget⟩,
    nofun, nofun, fun _ _ => hget.trans houtcome.symm, hreg, hcount, trivial,
    fun ht => absurd ht hkind⟩

/-- The owner of another frame changes. -/
lemma Local.setOwner (h : Local P owner f c) {o : Owner} (hf : f ≠ g)
    (hold : owner g ≠ .nested f) (hnew : o ≠ .nested f) :
    Local P (Function.update owner g o) f c := by
  have hself : Function.update owner g o f = owner f := Function.update_of_ne hf ..
  refine ⟨h.nodup, fun x => ?_, ?_, ?_, ?_, h.ended, h.done, h.ending, h.inBody, ?_, h.registered,
    h.destroyed, h.scope, h.detached⟩
  · rw [h.nested x]
    by_cases hx : x = g
    · subst hx
      rw [Function.update_self]
      simp [hold, hnew]
    · rw [Function.update_of_ne hx]
  · rw [hself]
    exact h.nobody
  · rw [hself]
    exact h.lt
  · rw [hself]
    exact h.dying
  · rw [hself]
    exact h.outside

/-- The last `Future` goes out of scope. -/
lemma Local.drop_step (h : Local P owner f c) (hin : c.pc.ended = false)
    (hg : c.futures.getLast? = some g) (hfg : f ≠ g) {pc : FramePc L V E κ}
    (hin' : pc.inBody = c.pc.inBody) (hending : pc = .ending none → c.pc = .ending none)
    (hended' : pc.ended = false) (hregistered : pc.isOperation = c.pc.isOperation)
    (hscope : pc.Scoped P (c.futures.length - 1)) :
    Local P (Function.update owner g .dying) f { c with
      pc := pc, futures := c.futures.dropLast } := by
  have hself : Function.update owner g .dying f = owner f := Function.update_of_ne hfg ..
  obtain ⟨init, hinit⟩ := List.getLast?_eq_some_iff.mp hg
  have hdrop : c.futures.dropLast = init := by rw [hinit, List.dropLast_concat]
  have hnodup := h.nodup
  rw [hinit] at hnodup
  obtain ⟨hnodup, -, hdisjoint⟩ := List.nodup_append.mp hnodup
  have hdestroyed : ∀ q : FramePc L V E κ, q.ended = false → q.isDestroyed = false := by
    intro q hq
    cases q <;> first | rfl | cases hq
  have hdone : ∀ q : FramePc L V E κ, q.ended = false → q.isDone = false := by
    intro q hq
    cases q <;> first | rfl | cases hq
  have hnobody := h.nobody
  have hcount := h.destroyed
  have hreg := h.registered
  rw [hdestroyed _ hin] at hnobody hcount
  rw [← hregistered] at hreg
  refine ⟨?_, fun x => ?_, ?_, ?_, ?_, ?_, ?_, fun ht => h.ending (hending ht), ?_, ?_, hreg, ?_,
    ?_, fun _ => hdone _ hended'⟩
  · rwa [hdrop]
  · rw [hdrop]
    by_cases hx : x = g
    · subst hx
      rw [Function.update_self]
      simp only [reduceCtorEq, iff_false]
      exact fun hmem => hdisjoint x hmem x List.mem_cons_self rfl
    · rw [Function.update_of_ne hx, ← h.nested x, hinit]
      simp [hx]
  · rw [hself, hdestroyed _ hended']
    exact hnobody
  · rw [hself]
    exact h.lt
  · rw [hself]
    intro ho
    have hd := h.dying ho
    rw [hdone _ hin] at hd
    cases hd
  · intro ht
    rw [hended'] at ht
    cases ht
  · intro ht
    rw [hdone _ hended'] at ht
    cases ht
  · rw [hin']
    exact h.inBody
  · intro _ ht
    rw [hdone _ hended'] at ht
    cases ht
  · rw [hdestroyed _ hended']
    exact hcount
  · rwa [List.length_dropLast]

/-! ### The steps -/

lemma State.alloc_setFrame (h : ∀ x, s.frames x = none ↔ s.count ≤ x) (hf : s.frames f = some c)
    (x : Frame) : (s.setFrame f d).frames x = none ↔ s.count ≤ x := by
  rw [← h x]
  by_cases hx : x = f
  · subst hx
    simp [hf]
  · simp [Function.update_of_ne hx]

lemma State.forall_setFrame {Q : Frame → Coroutine L V E κ → Prop} (hf : Q f c)
    (h : ∀ x d, x ≠ f → s.frames x = some d → Q x d) (x : Frame) (d : Coroutine L V E κ)
    (hx : (s.setFrame f c).frames x = some d) : Q x d := by
  by_cases hxf : x = f
  · subst hxf
    simp only [setFrame_frames, Function.update_self, Option.some.injEq] at hx
    exact hx ▸ hf
  · rw [setFrame_frames, Function.update_of_ne hxf] at hx
    exact h x d hxf hx

/-- A frame is replaced by one with the same hand-shakes. -/
lemma Inv.replace (h : Inv P s owner) (hf : s.frames f = some c)
    {stack : List (Frame × Role E)} (hlocal : Local P owner f d)
    (hstack : Represents stack (Function.update (s.place owner) f (d.role (owner f))))
    (hended : d.pc.ended = c.pc.ended) (hdone : d.pc.isDone = c.pc.isDone)
    (hcaller : d.promise.mCallerCoroutine = c.promise.mCallerCoroutine)
    (htarget : d.pc.target = c.pc.target) (hresumes : d.pc.resumes = c.pc.resumes) :
    Inv P ((s.setFrame f d).setStack stack) owner := by
  refine ⟨h.fault, State.alloc_setFrame h.alloc hf, h.unowned, ?_, h.roots,
    State.forall_setFrame hlocal fun x d _ hx => h.frames x d hx, ?_⟩
  · change Represents stack ((s.setFrame f d).place owner)
    rwa [State.setFrame_place]
  · change Handshake owner (s.setFrame f d).live (s.setFrame f d).isDone (s.setFrame f d).caller
      (s.setFrame f d).target (s.setFrame f d).resumes
    rw [State.setFrame_live, State.setFrame_isDone, State.setFrame_caller, State.setFrame_target,
      State.setFrame_resumes, hended, hdone, hcaller, htarget, hresumes,
      ← State.live_eq hf, ← State.isDone_eq hf, ← State.caller_eq hf, ← State.target_eq hf,
      ← State.resumes_eq hf]
    simp only [Function.update_eq_self]
    exact h.handshake

lemma Inv.place_of_stack (h : Inv P s owner) {role : Role E}
    (hstack : s.stack = (f, role) :: rest) :
    Represents ((f, role) :: rest) (s.place owner) := by
  have hstacked := h.stack
  rwa [hstack] at hstacked

lemma Promise.get_returnValue {p : Promise V E} {v : V} (h : p.mException = none) :
    (p.returnValue v).get = some (.ok v) := by
  simp [Promise.get, Promise.returnValue, h]

lemma Promise.get_unhandledException {p : Promise V E} {e : E} :
    (p.unhandledException e).get = some (.error e) := rfl

lemma Promise.get_moveOut {p : Promise V E} {o : Except E V} (h : p.get = some o) :
    (p.moveOut moved).get = some (o.map moved) := by
  unfold Promise.get Promise.moveOut at *
  dsimp only
  split at h
  · cases h
    rfl
  · obtain ⟨v, hv, rfl⟩ := Option.map_eq_some_iff.mp h
    rw [hv]
    rfl

lemma Inv.ret (h : Inv P s owner) {k : κ} {v : V} (hstack : s.stack = (f, .body) :: rest)
    (hf : s.frames f = some c) (hpc : c.pc = .running k) : Inv P
      ((s.setFrame f { c with
        pc := .ending none, promise := c.promise.returnValue v, outcome := some (.ok v) }).setStack
          ((f, .final none) :: rest)) owner := by
  have hlocal := h.frames f c hf
  have hin : c.pc.inBody = true := by rw [hpc]; rfl
  refine h.replace hf (hlocal.outcome_step hin (by rw [hpc]; rfl)
    (Promise.get_returnValue (hlocal.inBody hin).2)) ?_ ?_ ?_ rfl ?_ ?_
  · exact (h.place_of_stack hstack).replace
  all_goals
    rw [hpc]
    rfl

lemma Inv.throw (h : Inv P s owner) {k : κ} {e : E} (hstack : s.stack = (f, .body) :: rest)
    (hf : s.frames f = some c) (hpc : c.pc = .running k) : Inv P
      ((s.setFrame f { c with pc := .ending (some e) }).setStack
        ((f, .final (some e)) :: rest)) owner := by
  have hlocal := h.frames f c hf
  have hreg := hlocal.registered
  rw [hpc] at hreg
  refine h.replace hf (hlocal.inBody_step (by rw [hpc]; rfl) rfl hreg trivial) ?_ ?_ ?_ rfl ?_ ?_
  · exact (h.place_of_stack hstack).replace
  all_goals
    rw [hpc]
    rfl

/-- The instruction of a running coroutine is well scoped. -/
lemma Inv.scoped (h : Inv P s owner) {k : κ} (hf : s.frames f = some c) (hpc : c.pc = .running k) :
    (P.code k).Scoped P.scope c.futures.length := by
  have hscope := (h.frames f c hf).scope
  rw [hpc] at hscope
  have hscoped := P.wellScoped k
  rwa [show P.scope k = c.futures.length from hscope] at hscoped

lemma Inv.performReady (h : Inv P s owner) {k : κ} {l : L} {next : Except E V → κ}
    (hstack : s.stack = (f, .body) :: rest) (hf : s.frames f = some c) (hpc : c.pc = .running k)
    (hk : P.code k = .perform l next) : Inv P
      (s.setFrame f { c with
        pc := .running (next (world l)), operations := c.operations ++ [l] }) owner := by
  have hlocal := h.frames f c hf
  have hreg := hlocal.registered
  have hscoped := h.scoped hf hpc
  rw [hpc] at hreg
  rw [hk] at hscoped
  change Inv P ((s.setFrame f _).setStack s.stack) owner
  refine h.replace hf (hlocal.inBody_step (by rw [hpc]; rfl) rfl hreg (hscoped (world l)))
    ?_ ?_ ?_ rfl ?_ ?_
  · rw [hstack]
    exact (h.place_of_stack hstack).replace
  all_goals
    rw [hpc]
    rfl

lemma Inv.performSuspend (h : Inv P s owner) {k : κ} {l : L} {next : Except E V → κ}
    (hstack : s.stack = (f, .body) :: rest) (hf : s.frames f = some c) (hpc : c.pc = .running k)
    (hk : P.code k = .perform l next) : Inv P
      ((s.setFrame f { c with
        pc := .operation l next, operations := c.operations ++ [l], registered := true }).setStack
          rest) owner := by
  have hlocal := h.frames f c hf
  have hin : c.pc.inBody = true := by rw [hpc]; rfl
  have hscoped := h.scoped hf hpc
  rw [hk] at hscoped
  refine h.replace hf (hlocal.inBody_step hin rfl rfl hscoped) ?_ ?_ ?_ rfl ?_ ?_
  · have hrole : Coroutine.role { c with
        pc := .operation l next, operations := c.operations ++ [l], registered := true }
        (owner f) = none := by
      simp [Coroutine.role, hlocal.alive hin]
    rw [hrole]
    exact (h.place_of_stack hstack).pop
  all_goals
    rw [hpc]
    rfl

lemma Inv.resume (h : Inv P s owner) {l : L} {next : Except E V → κ} (hf : s.frames f = some c)
    (hpc : c.pc = .operation l next) : Inv P
      ((s.setFrame f { c with
        pc := .running (next (world l)), registered := false }).setStack
          ((f, .body) :: s.stack)) owner := by
  have hlocal := h.frames f c hf
  have hin : c.pc.inBody = true := by rw [hpc]; rfl
  have hscope := hlocal.scope
  rw [hpc] at hscope
  refine h.replace hf (hlocal.inBody_step hin rfl rfl (hscope (world l))) ?_ ?_ ?_ rfl ?_ ?_
  · refine h.stack.push ?_
    simp [State.place, hf, Coroutine.role, hpc, hlocal.alive hin]
  all_goals
    rw [hpc]
    rfl

lemma Inv.unhandled (h : Inv P s owner) {e : E} (hstack : s.stack = (f, .final (some e)) :: rest)
    (hf : s.frames f = some c) (hpc : c.pc = .ending (some e)) : Inv P
      ((s.setFrame f { c with
        pc := .ending none, promise := c.promise.unhandledException e,
        outcome := some (.error e) }).setStack ((f, .final none) :: rest)) owner := by
  have hlocal := h.frames f c hf
  refine h.replace hf (hlocal.outcome_step (by rw [hpc]; rfl) (by rw [hpc]; rfl)
    Promise.get_unhandledException) ?_ ?_ ?_ rfl ?_ ?_
  · exact (h.place_of_stack hstack).replace
  all_goals
    rw [hpc]
    rfl

lemma Inv.awaitReady (h : Inv P s owner) {k : κ} {i : ℕ} {next : Except E V → κ}
    (hstack : s.stack = (f, .body) :: rest) (hf : s.frames f = some c) (hpc : c.pc = .running k)
    (hk : P.code k = .await i next) (hi : c.futures[i]? = some g) (hg : s.frames g = some d)
    (hd : d.pc.isDone = true) :
    Inv P (s.setFrame f { c with pc := .awaitResume g next }) owner := by
  have hlocal := h.frames f c hf
  have hreg := hlocal.registered
  have hscoped := h.scoped hf hpc
  have howner := (hlocal.nested g).mp (List.mem_of_getElem? hi)
  rw [hpc] at hreg
  rw [hk] at hscoped
  refine ⟨h.fault, State.alloc_setFrame h.alloc hf, h.unowned, ?_, h.roots,
    State.forall_setFrame (hlocal.inBody_step (by rw [hpc]; rfl) rfl hreg hscoped.2)
      fun x d _ hx => h.frames x d hx, ?_⟩
  · rw [State.setFrame_place]
    change Represents s.stack _
    rw [hstack]
    exact (h.place_of_stack hstack).replace
  · rw [State.setFrame_live, State.setFrame_isDone, State.setFrame_caller, State.setFrame_target,
      State.setFrame_resumes,
      Function.update_eq_self_iff.mpr (by simp [State.live, hf, hpc, FramePc.ended]),
      Function.update_eq_self_iff.mpr (by simp [State.isDone, hf, hpc, FramePc.isDone]),
      Function.update_eq_self_iff.mpr (by simp [State.caller, hf]),
      Function.update_eq_self_iff.mpr (by simp [State.target, hf, hpc, FramePc.target])]
    exact h.handshake.awaitReady howner (by simp [State.isDone, hg, hd])

lemma Inv.ne_child (h : Inv P s owner) (hf : s.frames f = some c) (hg : g ∈ c.futures) : f < g := by
  obtain ⟨d, hd, -⟩ := h.child hf hg
  exact (h.frames g d hd).lt f (((h.frames f c hf).nested g).mp hg)

lemma Inv.awaitSuspend (h : Inv P s owner) {k : κ} {i : ℕ} {next : Except E V → κ}
    (hstack : s.stack = (f, .body) :: rest) (hf : s.frames f = some c) (hpc : c.pc = .running k)
    (hk : P.code k = .await i next) (hi : c.futures[i]? = some g) (hg : s.frames g = some d)
    (hd : d.pc.ended = false) :
    Inv P (((s.setFrame f { c with pc := .awaiting g next }).setFrame g
      { d with promise := d.promise.setCaller f }).setStack rest) owner := by
  have hlocal := h.frames f c hf
  have hin : c.pc.inBody = true := by rw [hpc]; rfl
  have hmem := List.mem_of_getElem? hi
  have hfg : g ≠ f := (h.ne_child hf hmem).ne'
  have hreg := hlocal.registered
  have hscoped := h.scoped hf hpc
  have howner := (hlocal.nested g).mp hmem
  have hdlocal := h.frames g d hg
  rw [hpc] at hreg
  rw [hk] at hscoped
  have hnew : Local P owner f { c with pc := .awaiting g next } :=
    hlocal.inBody_step hin rfl hreg hscoped.2
  have hg' : (s.setFrame f { c with pc := .awaiting g next }).frames g = some d := by
    rw [State.setFrame_frames, Function.update_of_ne hfg, hg]
  refine ⟨h.fault, State.alloc_setFrame (State.alloc_setFrame h.alloc hf) hg', h.unowned, ?_,
    h.roots, State.forall_setFrame ?_ fun x e _ hx => State.forall_setFrame hnew
      (fun x d _ hx => h.frames x d hx) x e hx, ?_⟩
  · change Represents rest (State.place (State.setFrame _ g _) owner)
    rw [State.setFrame_place, State.setFrame_place]
    have hplace : Function.update (s.place owner) f none g = d.role (owner g) := by
      simp [State.place, Function.update_of_ne hfg, hg]
    have hrole : Coroutine.role { c with pc := .awaiting g next } (owner f) = none := by
      simp [Coroutine.role, hlocal.alive hin]
    rw [hrole, Function.update_eq_self_iff.mpr hplace.symm]
    exact (h.place_of_stack hstack).pop
  · exact ⟨hdlocal.nodup, hdlocal.nested, hdlocal.nobody, hdlocal.lt, hdlocal.dying, hdlocal.ended,
      hdlocal.done, hdlocal.ending, hdlocal.inBody, hdlocal.outside, hdlocal.registered,
      hdlocal.destroyed, hdlocal.scope,
      hdlocal.detached⟩
  · change Handshake owner (State.live (State.setFrame _ g _)) (State.isDone (State.setFrame _ g _))
      (State.caller (State.setFrame _ g _)) (State.target (State.setFrame _ g _))
      (State.resumes (State.setFrame _ g _))
    simp only [State.setFrame_live, State.setFrame_isDone, State.setFrame_caller,
      State.setFrame_target, State.setFrame_resumes]
    have hhand := h.handshake.awaitSuspend howner (by rw [State.live_eq hg, hd]; rfl)
      (by rw [State.target_eq hf, hpc]; rfl)
    have htarget : Function.update s.target f (some g) g = d.pc.target := by
      rw [Function.update_of_ne hfg, State.target_eq hg]
    convert hhand using 1
    · exact update_update_self (by rw [State.live_eq hf, hpc]; rfl) (State.live_eq hg)
    · exact update_update_self (by rw [State.isDone_eq hf, hpc]; rfl) (State.isDone_eq hg)
    · rw [← State.caller_eq hf, Function.update_eq_self]
      rfl
    · exact Function.update_eq_self_iff.mpr htarget.symm
    · exact update_update_self (by rw [State.resumes_eq hf, hpc]; rfl) (State.resumes_eq hg)

lemma Inv.awaitResume (h : Inv P s owner) {next : Except E V → κ} {o : Except E V}
    (hstack : s.stack = (f, .body) :: rest) (hf : s.frames f = some c)
    (hpc : c.pc = .awaitResume g next) (hg : s.frames g = some d) (hd : d.pc.isDone = true)
    (ho : d.promise.get = some o) :
    Inv P ((s.setFrame f { c with pc := .running (next o) }).setFrame g
      { d with promise := d.promise.moveOut moved }) owner := by
  have hlocal := h.frames f c hf
  have hin : c.pc.inBody = true := by rw [hpc]; rfl
  have howner := (h.handshake.resumes f g (by rw [State.resumes_eq hf, hpc]; rfl)).1
  have hfg : g ≠ f := by
    rintro rfl
    rw [hf] at hg
    cases hg
    rw [hpc] at hd
    cases hd
  have hreg := hlocal.registered
  have hscope := hlocal.scope
  have hdlocal := h.frames g d hg
  rw [hpc] at hreg hscope
  have hnew : Local P owner f { c with pc := .running (next o) } :=
    hlocal.inBody_step hin rfl hreg (hscope o)
  have hg' : (s.setFrame f { c with pc := .running (next o) }).frames g = some d := by
    rw [State.setFrame_frames, Function.update_of_ne hfg, hg]
  refine ⟨h.fault, State.alloc_setFrame (State.alloc_setFrame h.alloc hf) hg', h.unowned, ?_,
    h.roots, State.forall_setFrame ?_ fun x e _ hx => State.forall_setFrame hnew
      (fun x d _ hx => h.frames x d hx) x e hx, ?_⟩
  · change Represents s.stack (State.place (State.setFrame _ g _) owner)
    rw [State.setFrame_place, State.setFrame_place, hstack]
    have hplace : Function.update (s.place owner) f (some .body) g = d.role (owner g) := by
      simp [State.place, Function.update_of_ne hfg, hg]
    have hrole : Coroutine.role { c with pc := .running (next o) } (owner f) = some .body := rfl
    rw [hrole, Function.update_eq_self_iff.mpr hplace.symm]
    exact (h.place_of_stack hstack).replace
  · have hdone := FramePc.eq_done hd
    refine ⟨hdlocal.nodup, hdlocal.nested, hdlocal.nobody, hdlocal.lt, hdlocal.dying, hdlocal.ended,
      fun _ => ⟨o.map moved, Promise.get_moveOut ho⟩, fun hend => ?_, fun hend => ?_,
      fun hout => ?_, hdlocal.registered, hdlocal.destroyed, hdlocal.scope, hdlocal.detached⟩
    · rw [hdone] at hend
      cases hend
    · rw [hdone] at hend
      cases hend
    · rw [howner] at hout
      cases hout
  · have htarget : s.target f = none := by rw [State.target_eq hf, hpc]; rfl
    have hresumes : Function.update s.resumes f none g = d.pc.resumes := by
      rw [Function.update_of_ne hfg, State.resumes_eq hg]
    simp only [State.setFrame_live, State.setFrame_isDone, State.setFrame_caller,
      State.setFrame_target, State.setFrame_resumes]
    convert h.handshake.awaitResume (f := f) using 1
    · exact update_update_self (by rw [State.live_eq hf, hpc]; rfl) (State.live_eq hg)
    · exact update_update_self (by rw [State.isDone_eq hf, hpc]; rfl) (State.isDone_eq hg)
    · exact update_update_self (State.caller_eq hf) (State.caller_eq hg)
    · exact update_update_self htarget (State.target_eq hg)
    · exact Function.update_eq_self_iff.mpr hresumes.symm

/-- The last `Future` of the coroutine on top goes out of scope. -/
lemma Inv.dropFuture (h : Inv P s owner) {role : Role E} {pc : FramePc L V E κ}
    (hstack : s.stack = (f, role) :: rest) (hf : s.frames f = some c)
    (hg : c.futures.getLast? = some g) (hdone : ∀ d, s.frames g = some d → d.pc.isDone = true)
    (hlocal : Local P (Function.update owner g .dying) f { c with
      pc := pc, futures := c.futures.dropLast })
    (hrole : ∀ o, Coroutine.role { c with pc := pc, futures := c.futures.dropLast } o = some role)
    (hlive : c.pc.ended = false) (hended : pc.ended = false) (htarget : c.pc.target = none)
    (htarget' : pc.target = none) (hresumes : c.pc.resumes = none) (hresumes' : pc.resumes = none) :
    Inv P ((s.setFrame f { c with pc := pc, futures := c.futures.dropLast }).setStack
      ((g, .destroy) :: (f, role) :: rest)) (Function.update owner g .dying) := by
  have hmem := List.mem_of_getLast? hg
  have howner := ((h.frames f c hf).nested g).mp hmem
  obtain ⟨d, hd, -⟩ := h.child hf hmem
  have hddone := FramePc.eq_done (hdone d hd)
  have hfg : g ≠ f := (h.ne_child hf hmem).ne'
  have hcdone : ∀ q : FramePc L V E κ, q.ended = false → q.isDone = false := by
    intro q hq
    cases q <;> first | rfl | cases hq
  have hfree : ∀ p, s.target p ≠ some g ∧ s.resumes p ≠ some g := by
    intro p
    by_cases hp : p = f
    · subst hp
      rw [State.target_eq hf, State.resumes_eq hf, htarget, hresumes]
      simp
    · constructor
      · intro hx
        have hnested := (h.handshake.target p g hx).1
        rw [howner] at hnested
        cases hnested
        exact absurd rfl hp
      · intro hx
        have hnested := (h.handshake.resumes p g hx).1
        rw [howner] at hnested
        cases hnested
        exact absurd rfl hp
  refine ⟨h.fault, State.alloc_setFrame h.alloc hf, fun x hx => ?_, ?_, ⟨h.roots.1, fun x => ?_⟩,
    State.forall_setFrame hlocal fun x e hxf hx => ?_, ?_⟩
  · have hxg : x ≠ g := by
      rintro rfl
      rw [h.unowned x hx] at howner
      cases howner
    rw [Function.update_of_ne hxg]
    exact h.unowned x hx
  · change Represents _ (State.place (State.setFrame s f _) (Function.update owner g .dying))
    have hg' : (Function.update s.frames f
        (some { c with pc := pc, futures := c.futures.dropLast })) g = some d := by
      rw [Function.update_of_ne hfg, hd]
    have hdying : d.role .dying = some .destroy := by simp [Coroutine.role, hddone]
    rw [State.place_setOwner, State.setFrame_place, hrole, State.setFrame_frames, hg',
      Option.bind_some, hdying]
    refine (h.place_of_stack hstack).replace.push ?_
    rw [Function.update_of_ne hfg]
    simp [State.place, hd, Coroutine.role, hddone, howner]
  · change x ∈ s.roots ↔ _
    rw [h.roots.2 x]
    by_cases hx : x = g
    · subst hx
      simp [howner]
    · rw [Function.update_of_ne hx]
  · by_cases hxg : x = g
    · subst hxg
      rw [hd] at hx
      cases hx
      have hdlocal := h.frames x d hd
      have hnobody := hdlocal.nobody
      rw [howner, hddone] at hnobody
      refine ⟨hdlocal.nodup, fun y => ?_, ?_, ?_, fun _ => hdone d hd, hdlocal.ended, hdlocal.done,
        hdlocal.ending, hdlocal.inBody, ?_, hdlocal.registered, hdlocal.destroyed, hdlocal.scope,
      hdlocal.detached⟩
      · rw [hdlocal.nested y]
        by_cases hy : y = x
        · subst hy
          rw [Function.update_self, howner]
          simp [Ne.symm hfg]
        · rw [Function.update_of_ne hy]
      · rw [Function.update_self, hddone]
        simpa [FramePc.isDestroyed] using hnobody
      · rw [Function.update_self]
        exact nofun
      · rw [Function.update_self]
        exact nofun
    · refine (h.frames x e hx).setOwner hxg ?_ (by simp)
      rw [howner]
      simp [Ne.symm hxf]
  · change Handshake _ (State.live (State.setFrame s f _)) (State.isDone (State.setFrame s f _))
      (State.caller (State.setFrame s f _)) (State.target (State.setFrame s f _))
      (State.resumes (State.setFrame s f _))
    simp only [State.setFrame_live, State.setFrame_isDone, State.setFrame_caller,
      State.setFrame_target, State.setFrame_resumes, htarget', hresumes', hended, hcdone pc hended]
    convert h.handshake.setOwner hfree using 1
    · exact Function.update_eq_self_iff.mpr (by rw [State.live_eq hf, hlive])
    · exact Function.update_eq_self_iff.mpr (by rw [State.isDone_eq hf, hcdone _ hlive])
    · exact Function.update_eq_self_iff.mpr (State.caller_eq hf).symm
    · exact Function.update_eq_self_iff.mpr (by rw [State.target_eq hf, htarget])
    · exact Function.update_eq_self_iff.mpr (by rw [State.resumes_eq hf, hresumes])

/-- A frame that nobody awaits comes to its final suspension or is destroyed. -/
lemma Inv.retire (h : Inv P s owner) {role : Role E} {o : Owner}
    (hstack : s.stack = (f, role) :: rest) (hf : s.frames f = some c)
    (hfree : ∀ p, s.target p ≠ some f ∧ s.resumes p ≠ some f)
    (hlocal : Local P (Function.update owner f o) f d)
    (hothers : ∀ x e, x ≠ f → s.frames x = some e → Local P (Function.update owner f o) x e)
    (houtside : o = .outside ↔ owner f = .outside) (hrole : d.role o = none)
    (hcaller : d.promise.mCallerCoroutine = c.promise.mCallerCoroutine) (hended : d.pc.ended = true)
    (htarget : c.pc.target = none) (hresumes : c.pc.resumes = none) :
    Inv P ((s.setFrame f d).setStack rest) (Function.update owner f o) := by
  have htarget' : d.pc.target = none := by
    cases hpc : d.pc <;> first | rfl | (rw [hpc] at hended; cases hended)
  have hresumes' : d.pc.resumes = none := by
    cases hpc : d.pc <;> first | rfl | (rw [hpc] at hended; cases hended)
  refine ⟨h.fault, State.alloc_setFrame h.alloc hf, fun x hx => ?_, ?_, ⟨h.roots.1, fun x => ?_⟩,
    State.forall_setFrame hlocal hothers, ?_⟩
  · have hxf : x ≠ f := by
      rintro rfl
      rw [(h.alloc x).mpr hx] at hf
      cases hf
    rw [Function.update_of_ne hxf]
    exact h.unowned x hx
  · change Represents rest (State.place (State.setFrame s f d) (Function.update owner f o))
    rw [State.place_setOwner, State.setFrame_place, State.setFrame_frames, Function.update_self,
      Option.bind_some, hrole, Function.update_idem]
    exact (h.place_of_stack hstack).pop
  · change x ∈ s.roots ↔ _
    rw [h.roots.2 x]
    by_cases hx : x = f
    · subst hx
      rw [Function.update_self, houtside]
    · rw [Function.update_of_ne hx]
  · change Handshake _ (State.live (State.setFrame s f d)) (State.isDone (State.setFrame s f d))
      (State.caller (State.setFrame s f d)) (State.target (State.setFrame s f d))
      (State.resumes (State.setFrame s f d))
    simp only [State.setFrame_live, State.setFrame_isDone, State.setFrame_caller,
      State.setFrame_target, State.setFrame_resumes, htarget', hresumes', hended]
    convert (h.handshake.retire d.pc.isDone hfree).setOwner hfree using 1
    · rfl
    · exact Function.update_eq_self_iff.mpr (by rw [State.caller_eq hf, hcaller])
    · exact Function.update_eq_self_iff.mpr (by rw [State.target_eq hf, htarget])
    · exact Function.update_eq_self_iff.mpr (by rw [State.resumes_eq hf, hresumes])

/-- Nobody awaits a coroutine without a caller that has not come to its final suspension. -/
lemma Inv.free_of_caller (h : Inv P s owner) (hf : s.frames f = some c)
    (hpc : c.pc = .ending none) (hcaller : c.promise.mCallerCoroutine = none) (p : Frame) :
    s.target p ≠ some f ∧ s.resumes p ≠ some f := by
  constructor
  · intro hp
    have hlink := (h.handshake.link f p (h.handshake.target p f hp).2).mpr hp
    rw [State.caller_eq hf, hcaller] at hlink
    cases hlink
  · intro hp
    have hdone := (h.handshake.resumes p f hp).2
    rw [State.isDone_eq hf, hpc] at hdone
    cases hdone

lemma Inv.finalTrivial (h : Inv P s owner) (hstack : s.stack = (f, .final none) :: rest)
    (hf : s.frames f = some c) (hpc : c.pc = .ending none) (hfutures : c.futures = [])
    (hkind : c.kind = .trivial) : Inv P
      ((s.setFrame f { c with pc := .destroyed, destroyed := c.destroyed + 1 }).setStack rest)
      owner := by
  have hlocal := h.frames f c hf
  have hnobody : owner f = .nobody := hlocal.nobody.mpr (Or.inl hkind)
  have hreg := hlocal.registered
  have hcount := hlocal.destroyed
  rw [hpc] at hreg hcount
  have hretire := h.retire (o := owner f) (d := { c with
    pc := .destroyed, destroyed := c.destroyed + 1 }) hstack hf
    (h.handshake.not_awaited (by simp [hnobody])) ?_ ?_ Iff.rfl
    (by simp [Coroutine.role, hnobody]) rfl rfl (by rw [hpc]; rfl) (by rw [hpc]; rfl)
  · rwa [Function.update_eq_self] at hretire
  · rw [Function.update_eq_self]
    refine ⟨hlocal.nodup, hlocal.nested, by simp [hnobody, hkind], hlocal.lt, fun ho => ?_,
      fun _ => hfutures, nofun, nofun, nofun, fun _ => nofun, hreg, ?_, trivial, fun _ => rfl⟩
    · rw [hnobody] at ho
      cases ho
    · change c.destroyed + 1 = 1
      rw [hcount]
      rfl
  · rw [Function.update_eq_self]
    exact fun x e _ hx => h.frames x e hx

lemma Inv.finalDone (h : Inv P s owner) (hstack : s.stack = (f, .final none) :: rest)
    (hf : s.frames f = some c) (hpc : c.pc = .ending none) (hfutures : c.futures = [])
    (hkind : c.kind ≠ .trivial) (hcaller : c.promise.mCallerCoroutine = none) :
    Inv P ((s.setFrame f { c with pc := .done }).setStack rest) owner := by
  have hlocal := h.frames f c hf
  have hdying : owner f ≠ .dying := by
    intro ho
    have hdone := hlocal.dying ho
    rw [hpc] at hdone
    cases hdone
  have hretire := h.retire (o := owner f) (d := { c with pc := .done }) hstack hf
    (h.free_of_caller hf hpc hcaller) ?_ ?_ Iff.rfl (by simp [Coroutine.role, hdying]) rfl rfl
    (by rw [hpc]; rfl) (by rw [hpc]; rfl)
  · rwa [Function.update_eq_self] at hretire
  · rw [Function.update_eq_self]
    exact hlocal.final_step hpc hfutures hkind
  · rw [Function.update_eq_self]
    exact fun x e _ hx => h.frames x e hx

lemma Inv.destroy (h : Inv P s owner) (hstack : s.stack = (f, .destroy) :: rest)
    (hf : s.frames f = some c) (hpc : c.pc = .done) (hfutures : c.futures = []) : Inv P
      ((s.setFrame f { c with pc := .destroyed, destroyed := c.destroyed + 1 }).setStack rest)
      (Function.update owner f .nobody) := by
  have hlocal := h.frames f c hf
  obtain ⟨c', hf', hrole⟩ := h.top hstack
  rw [hf] at hf'
  cases hf'
  have hdying := Coroutine.role_destroy hrole
  have hreg := hlocal.registered
  have hcount := hlocal.destroyed
  rw [hpc] at hreg hcount
  refine h.retire hstack hf (h.handshake.not_awaited (by simp [hdying])) ?_ ?_ (by simp [hdying])
    (by simp [Coroutine.role]) rfl rfl (by rw [hpc]; rfl) (by rw [hpc]; rfl)
  · refine ⟨hlocal.nodup, fun x => ?_, ?_, ?_, ?_, fun _ => hfutures, nofun, nofun, nofun,
      fun _ => nofun, hreg, ?_, trivial, fun _ => rfl⟩
    · rw [hlocal.nested x]
      by_cases hx : x = f
      · subst hx
        simp [hdying]
      · rw [Function.update_of_ne hx]
    · rw [Function.update_self]
      exact ⟨fun _ => Or.inr rfl, fun _ => rfl⟩
    · rw [Function.update_self]
      exact nofun
    · rw [Function.update_self]
      exact nofun
    · change c.destroyed + 1 = 1
      rw [hcount]
      rfl
  · intro x e hxf hx
    exact (h.frames x e hx).setOwner hxf (by simp [hdying]) (by simp)

lemma Inv.finalTransfer (h : Inv P s owner) {p : Frame} {next : Except E V → κ}
    (hstack : s.stack = (f, .final none) :: rest) (hf : s.frames f = some c)
    (hpc : c.pc = .ending none) (hfutures : c.futures = []) (hkind : c.kind ≠ .trivial)
    (hcaller : c.promise.mCallerCoroutine = some p) (hp : s.frames p = some d)
    (hd : d.pc = .awaiting f next) :
    Inv P (((s.setFrame f { c with pc := .done }).setFrame p
      { d with pc := .awaitResume f next }).setStack ((p, .body) :: rest)) owner := by
  have hlocal := h.frames f c hf
  have hplocal := h.frames p d hp
  have hin : d.pc.inBody = true := by rw [hd]; rfl
  have hpf : p ≠ f := by
    rintro rfl
    rw [hf] at hp
    cases hp
    rw [hpc] at hd
    cases hd
  have hdying : owner f ≠ .dying := by
    intro ho
    have hdone := hlocal.dying ho
    rw [hpc] at hdone
    cases hdone
  have hreg := hplocal.registered
  have hscope := hplocal.scope
  rw [hd] at hreg hscope
  have hnew : Local P owner p { d with pc := .awaitResume f next } :=
    hplocal.inBody_step hin rfl hreg hscope
  have hp' : (s.setFrame f { c with pc := .done }).frames p = some d := by
    rw [State.setFrame_frames, Function.update_of_ne hpf, hp]
  refine ⟨h.fault, State.alloc_setFrame (State.alloc_setFrame h.alloc hf) hp', h.unowned, ?_,
    h.roots, State.forall_setFrame hnew fun x e _ hx => State.forall_setFrame
      (hlocal.final_step hpc hfutures hkind) (fun x d _ hx => h.frames x d hx) x e hx, ?_⟩
  · change Represents _ (State.place (State.setFrame _ p _) owner)
    rw [State.setFrame_place, State.setFrame_place]
    have hrole : Coroutine.role { c with pc := .done } (owner f) = none := by
      simp [Coroutine.role, hdying]
    rw [hrole]
    refine (h.place_of_stack hstack).pop.push ?_
    rw [Function.update_of_ne hpf]
    simp [State.place, hp, Coroutine.role, hd, hplocal.alive hin]
  · have hpdone : d.pc.isDone = false := by rw [hd]; rfl
    have hplive : Function.update s.live f false p = !d.pc.ended := by
      rw [Function.update_of_ne hpf, State.live_eq hp]
    change Handshake owner (State.live (State.setFrame _ p _)) (State.isDone (State.setFrame _ p _))
      (State.caller (State.setFrame _ p _)) (State.target (State.setFrame _ p _))
      (State.resumes (State.setFrame _ p _))
    simp only [State.setFrame_live, State.setFrame_isDone, State.setFrame_caller,
      State.setFrame_target, State.setFrame_resumes]
    convert h.handshake.transfer (f := f) (p := p) (by rw [State.live_eq hf, hpc]; rfl)
      (by rw [State.caller_eq hf, hcaller]) using 1
    · refine Function.update_eq_self_iff.mpr ?_
      change _ = Function.update s.live f false p
      rw [hplive, hd]
      rfl
    · refine Function.update_eq_self_iff.mpr ?_
      rw [Function.update_of_ne hpf, State.isDone_eq hp, hpdone]
      rfl
    · exact update_update_self (State.caller_eq hf) (State.caller_eq hp)
    · congr 1
      exact Function.update_eq_self_iff.mpr (by rw [State.target_eq hf, hpc]; rfl)
    · congr 1
      exact Function.update_eq_self_iff.mpr (by rw [State.resumes_eq hf, hpc]; rfl)

lemma Inv.release (h : Inv P s owner) (hf : f ∈ s.roots)
    (hdone : ∀ d, s.frames f = some d → d.pc.isDone = true) :
    Inv P ({ s with roots := s.roots.erase f }.setStack ((f, .destroy) :: s.stack))
      (Function.update owner f .dying) := by
  have howner := (h.roots.2 f).mp hf
  obtain ⟨c, hc⟩ : ∃ c, s.frames f = some c := by
    cases hc : s.frames f with
    | some c => exact ⟨c, rfl⟩
    | none =>
      rw [h.unowned f ((h.alloc f).mp hc)] at howner
      cases howner
  have hlocal := h.frames f c hc
  have hcdone := FramePc.eq_done (hdone c hc)
  have hnobody := hlocal.nobody
  rw [howner] at hnobody
  refine ⟨h.fault, h.alloc, fun x hx => ?_, ?_, ⟨h.roots.1.erase f, fun x => ?_⟩,
    fun x e hx => ?_, ?_⟩
  · have hxf : x ≠ f := by
      rintro rfl
      rw [(h.alloc x).mpr hx] at hc
      cases hc
    rw [Function.update_of_ne hxf]
    exact h.unowned x hx
  · change Represents _ (s.place (Function.update owner f .dying))
    have hrole : c.role .dying = some .destroy := by simp [Coroutine.role, hcdone]
    rw [State.place_setOwner, hc, Option.bind_some, hrole]
    refine h.stack.push ?_
    simp [State.place, hc, Coroutine.role, hcdone, howner]
  · change x ∈ s.roots.erase f ↔ _
    rw [h.roots.1.mem_erase_iff, h.roots.2 x]
    by_cases hx : x = f
    · subst hx
      simp
    · rw [Function.update_of_ne hx]
      simp [hx]
  · change s.frames x = some e at hx
    by_cases hxf : x = f
    · subst hxf
      rw [hc] at hx
      cases hx
      refine ⟨hlocal.nodup, fun y => ?_, ?_, ?_, fun _ => hdone c hc, hlocal.ended, hlocal.done,
        hlocal.ending, hlocal.inBody, ?_, hlocal.registered, hlocal.destroyed, hlocal.scope,
        hlocal.detached⟩
      · rw [hlocal.nested y]
        by_cases hy : y = x
        · subst hy
          simp [howner]
        · rw [Function.update_of_ne hy]
      · rw [Function.update_self]
        simpa using hnobody
      · rw [Function.update_self]
        exact nofun
      · rw [Function.update_self]
        exact nofun
    · exact (h.frames x e hx).setOwner hxf (by simp [howner]) (by simp)
  · exact h.handshake.setOwner (h.handshake.not_awaited (by simp [howner]))

/-- A coroutine is called, by `f` if `o` says so. -/
lemma inv_create {kind : Kind} {body : κ} {o : Owner} {roots : List Frame}
    (hfault : s.fault = false) (halloc : ∀ x, s.frames x = none ↔ s.count ≤ x)
    (hunowned : ∀ x, s.count ≤ x → owner x = .nobody) (hstack : Represents s.stack (s.place owner))
    (hroots : roots.Nodup ∧ ∀ x, x ∈ roots ↔ Function.update owner s.count o x = .outside)
    (hframes : ∀ x e, s.frames x = some e → Local P (Function.update owner s.count o) x e)
    (hhand : Handshake owner s.live s.isDone s.caller s.target s.resumes)
    (hscope : P.scope body = 0) (hkind : o = .nobody ↔ kind = .trivial) (ho : o ≠ .dying)
    (hnested : ∀ g, Function.update owner s.count o g ≠ .nested s.count)
    (hlt : ∀ p, o = .nested p → p < s.count) :
    Inv P { s.create kind body with roots := roots } (Function.update owner s.count o) := by
  have hnone : s.frames s.count = none := (halloc s.count).mpr le_rfl
  refine ⟨hfault, fun x => ?_, fun x hx => ?_, ?_, hroots, State.forall_setFrame ?_
    fun x e _ hx => hframes x e hx, ?_⟩
  · change Function.update s.frames s.count _ x = none ↔ s.count + 1 ≤ x
    by_cases hx : x = s.count
    · subst hx
      simp
    · rw [Function.update_of_ne hx, halloc x]
      exact ⟨fun hle => lt_of_le_of_ne hle (Ne.symm hx), Nat.le_of_succ_le⟩
  · change s.count + 1 ≤ x at hx
    rw [Function.update_of_ne (Nat.lt_of_succ_le hx).ne']
    exact hunowned x (Nat.le_of_succ_le hx)
  · change Represents ((s.count, .body) :: s.stack)
      (State.place (State.setFrame s s.count _) (Function.update owner s.count o))
    rw [State.place_setOwner, State.setFrame_place, State.setFrame_frames, Function.update_self,
      Option.bind_some, Function.update_idem]
    exact hstack.push (by simp [State.place, hnone])
  · refine ⟨List.nodup_nil, fun g => ?_, ?_, ?_, ?_, nofun, nofun, nofun, fun _ => ⟨rfl, rfl⟩,
      fun _ => nofun, rfl, rfl, hscope, fun _ => rfl⟩
    · simpa using hnested g
    · rw [Function.update_self, hkind]
      simp [FramePc.isDestroyed]
    · rw [Function.update_self]
      exact hlt
    · rw [Function.update_self]
      exact fun hdying => absurd hdying ho
  · change Handshake _ (State.live (State.setFrame s s.count _))
      (State.isDone (State.setFrame s s.count _)) (State.caller (State.setFrame s s.count _))
      (State.target (State.setFrame s s.count _)) (State.resumes (State.setFrame s s.count _))
    simp only [State.setFrame_live, State.setFrame_isDone, State.setFrame_caller,
      State.setFrame_target, State.setFrame_resumes]
    exact hhand.create (hunowned s.count le_rfl) (by simp [State.caller, hnone])
      (by simp [State.target, hnone]) (by simp [State.resumes, hnone])

lemma Inv.not_nested_count (h : Inv P s owner) (g : Frame) : owner g ≠ .nested s.count := by
  intro howner
  cases hg : s.frames g with
  | none =>
    rw [h.unowned g ((h.alloc g).mp hg)] at howner
    cases howner
  | some d =>
    have hlt := (h.frames g d hg).lt _ howner
    have hcount : ¬s.count ≤ g := by
      rw [← h.alloc g, hg]
      simp
    exact hcount hlt.le

lemma Inv.call (h : Inv P s owner) {kind : Kind} {body : κ} (hscope : P.scope body = 0) :
    ∃ owner', Inv P { s.create kind body with roots := match kind with
        | .trivial => s.roots
        | .future _ => s.roots ++ [s.count] } owner' := by
  have hcount := h.unowned s.count le_rfl
  have hothers : ∀ o : Owner, (∀ p, o ≠ .nested p) → ∀ x e, s.frames x = some e →
      Local P (Function.update owner s.count o) x e := by
    intro o ho x e hx
    refine (h.frames x e hx).setOwner ?_ (by simp [hcount]) (ho x)
    rintro rfl
    rw [(h.alloc _).mpr le_rfl] at hx
    cases hx
  have hnested : ∀ o : Owner, (∀ p, o ≠ .nested p) →
      ∀ g, Function.update owner s.count o g ≠ .nested s.count := by
    intro o ho g
    by_cases hg : g = s.count
    · subst hg
      rw [Function.update_self]
      exact ho _
    · rw [Function.update_of_ne hg]
      exact h.not_nested_count g
  cases kind with
  | trivial =>
    refine ⟨_, inv_create (o := .nobody) h.fault h.alloc h.unowned h.stack ⟨h.roots.1, fun x => ?_⟩
      (hothers _ (by simp)) h.handshake hscope (by simp) (by simp) (hnested _ (by simp)) (by simp)⟩
    rw [← hcount, Function.update_eq_self]
    exact h.roots.2 x
  | future nothrow =>
    refine ⟨_, inv_create (o := .outside) h.fault h.alloc h.unowned h.stack ⟨?_, fun x => ?_⟩
      (hothers _ (by simp)) h.handshake hscope (by simp) (by simp) (hnested _ (by simp)) (by simp)⟩
    · refine h.roots.1.append (List.nodup_singleton _) ?_
      rw [List.disjoint_singleton, h.roots.2, hcount]
      simp
    · rw [List.mem_append, h.roots.2 x, List.mem_singleton]
      by_cases hx : x = s.count
      · subst hx
        simp
      · rw [Function.update_of_ne hx]
        simp [hx]

lemma Inv.callIn (h : Inv P s owner) {k body next : κ} {nothrow : Bool}
    (hstack : s.stack = (f, .body) :: rest) (hf : s.frames f = some c) (hpc : c.pc = .running k)
    (hk : P.code k = .call nothrow body next) :
    Inv P ((s.setFrame f { c with
      pc := .running next, futures := c.futures ++ [s.count] }).create (.future nothrow) body)
      (Function.update owner s.count (.nested f)) := by
  have hlocal := h.frames f c hf
  have hin : c.pc.inBody = true := by rw [hpc]; rfl
  have hscoped := h.scoped hf hpc
  have hcount := h.unowned s.count le_rfl
  have hlt : f < s.count := by
    rw [← not_le, ← h.alloc f, hf]
    simp
  have hreg := hlocal.registered
  have hdestroyed := hlocal.destroyed
  have hnobody := hlocal.nobody
  rw [hpc] at hreg hdestroyed hnobody
  rw [hk] at hscoped
  have hself : Function.update owner s.count (.nested f) f = owner f :=
    Function.update_of_ne hlt.ne ..
  have hfnew : Local P (Function.update owner s.count (.nested f)) f { c with
      pc := .running next, futures := c.futures ++ [s.count] } := by
    refine ⟨?_, fun x => ?_, ?_, ?_, ?_, nofun, nofun, nofun, fun _ => hlocal.inBody hin,
      fun _ => nofun, hreg, hdestroyed, ?_, fun _ => rfl⟩
    · refine hlocal.nodup.append (List.nodup_singleton _) ?_
      rw [List.disjoint_singleton, hlocal.nested, hcount]
      simp
    · rw [List.mem_append, hlocal.nested x, List.mem_singleton]
      by_cases hx : x = s.count
      · subst hx
        simp
      · rw [Function.update_of_ne hx]
        simp [hx]
    · rw [hself]
      exact hnobody
    · rw [hself]
      exact hlocal.lt
    · rw [hself]
      exact fun ho => absurd ho (hlocal.alive hin)
    · change P.scope next = (c.futures ++ [s.count]).length
      rw [List.length_append]
      exact hscoped.2
  refine inv_create (s := s.setFrame f { c with
      pc := .running next, futures := c.futures ++ [s.count] }) h.fault
    (State.alloc_setFrame h.alloc hf) h.unowned ?_ ⟨h.roots.1, fun x => ?_⟩
    (State.forall_setFrame hfnew fun x e hxf hx => ?_) ?_ hscoped.1 (by simp) (by simp)
    (fun g => ?_) (fun p hp => ?_)
  · rw [State.setFrame_place]
    change Represents s.stack _
    rw [hstack]
    exact (h.place_of_stack hstack).replace
  · change x ∈ s.roots ↔ _
    rw [h.roots.2 x]
    change _ ↔ Function.update owner s.count _ x = _
    by_cases hx : x = s.count
    · subst hx
      simp [hcount]
    · rw [Function.update_of_ne hx]
  · change Local P (Function.update owner s.count (.nested f)) x e
    refine (h.frames x e hx).setOwner ?_ (by simp [hcount]) ?_
    · rintro rfl
      rw [(h.alloc _).mpr le_rfl] at hx
      cases hx
    · intro heq
      cases heq
      exact hxf rfl
  · simp only [State.setFrame_live, State.setFrame_isDone, State.setFrame_caller,
      State.setFrame_target, State.setFrame_resumes]
    convert h.handshake using 1
    · exact Function.update_eq_self_iff.mpr (by rw [State.live_eq hf, hpc]; rfl)
    · exact Function.update_eq_self_iff.mpr (by rw [State.isDone_eq hf, hpc]; rfl)
    · exact Function.update_eq_self_iff.mpr (State.caller_eq hf).symm
    · exact Function.update_eq_self_iff.mpr (by rw [State.target_eq hf, hpc]; rfl)
    · exact Function.update_eq_self_iff.mpr (by rw [State.resumes_eq hf, hpc]; rfl)
  · change Function.update owner s.count (.nested f) g ≠ .nested s.count
    by_cases hg : g = s.count
    · subst hg
      rw [Function.update_self]
      intro heq
      cases heq
      exact lt_irrefl _ hlt
    · rw [Function.update_of_ne hg]
      exact h.not_nested_count g
  · cases hp
    exact hlt

/-- Each step keeps the invariant. -/
theorem Inv.step (h : Inv P s owner) {a : Action κ} (hm : Move P world moved s a s') :
    ∃ owner', Inv P s' owner' := by
  cases hm with
  | call hscope => exact h.call hscope
  | ret hstack hf hpc _ => exact ⟨_, h.ret hstack hf hpc⟩
  | throw hstack hf hpc _ => exact ⟨_, h.throw hstack hf hpc⟩
  | callIn hstack hf hpc hk => exact ⟨_, h.callIn hstack hf hpc hk⟩
  | awaitReady hstack hf hpc hk hi hg hd => exact ⟨_, h.awaitReady hstack hf hpc hk hi hg hd⟩
  | awaitSuspend hstack hf hpc hk hi hg hd => exact ⟨_, h.awaitSuspend hstack hf hpc hk hi hg hd⟩
  | awaitResume hstack hf hpc hg hd ho => exact ⟨_, h.awaitResume hstack hf hpc hg hd ho⟩
  | performReady hstack hf hpc hk => exact ⟨_, h.performReady hstack hf hpc hk⟩
  | performSuspend hstack hf hpc hk => exact ⟨_, h.performSuspend hstack hf hpc hk⟩
  | @drop _ f c rest k next g hstack hf hpc hk hg hdone =>
    have hfg : f ≠ g := (h.ne_child hf (List.mem_of_getLast? hg)).ne
    have hscoped := h.scoped hf hpc
    rw [hk] at hscoped
    have hlength : P.scope next = c.futures.length - 1 := by
      change c.futures.length = P.scope next + 1 at hscoped
      omega
    refine ⟨_, h.dropFuture hstack hf hg hdone ?_ (fun _ => rfl) (by rw [hpc]; rfl) rfl
      (by rw [hpc]; rfl) rfl (by rw [hpc]; rfl) rfl⟩
    exact (h.frames f c hf).drop_step (by rw [hpc]; rfl) hg hfg (by rw [hpc]; rfl) (by simp) rfl
      (by rw [hpc]; rfl) hlength
  | @finalDrop _ f c rest e g hstack hf hpc hg hdone =>
    have hfg : f ≠ g := (h.ne_child hf (List.mem_of_getLast? hg)).ne
    refine ⟨_, h.dropFuture hstack hf hg hdone ?_ (fun _ => by simp [Coroutine.role, hpc])
      (by rw [hpc]; rfl) (by rw [hpc]; rfl) (by rw [hpc]; rfl) (by rw [hpc]; rfl) (by rw [hpc]; rfl)
      (by rw [hpc]; rfl)⟩
    exact (h.frames f c hf).drop_step (by rw [hpc]; rfl) hg hfg rfl id (by rw [hpc]; rfl) rfl
      (by rw [hpc]; trivial)
  | unhandled hstack hf hpc _ _ => exact ⟨_, h.unhandled hstack hf hpc⟩
  | terminate => exact ⟨owner, h.fault, h.alloc, h.unowned, h.stack, h.roots, h.frames, h.handshake⟩
  | finalTrivial hstack hf hpc hfutures hkind =>
    exact ⟨_, h.finalTrivial hstack hf hpc hfutures hkind⟩
  | finalDone hstack hf hpc hfutures hkind hcaller =>
    exact ⟨_, h.finalDone hstack hf hpc hfutures hkind hcaller⟩
  | finalTransfer hstack hf hpc hfutures hkind hcaller hp hd =>
    exact ⟨_, h.finalTransfer hstack hf hpc hfutures hkind hcaller hp hd⟩
  | destroy hstack hf hpc hfutures => exact ⟨_, h.destroy hstack hf hpc hfutures⟩
  | resume hf hpc => exact ⟨_, h.resume hf hpc⟩
  | release hf hdone => exact ⟨_, h.release hf hdone⟩

lemma inv_init : Inv P (init L V E κ) fun _ => .nobody := by
  refine ⟨rfl, fun _ => by simp [init], fun _ _ => rfl, ?_, by simp [init], by simp [init], ?_⟩
  · exact Represents.nil
  · refine ⟨fun g p hg => ?_, fun p g hp => ?_, fun p g hp => ?_⟩
    · cases hg
    · cases hp
    · cases hp

theorem reaches_inv {C : State L V E κ → Action κ → Prop} (hC : ∀ s a, C s a → Joined P s a)
    (h : (system P world moved).Reaches C s) : ∃ owner, Inv P s owner := by
  refine h.invariant (I := fun s => ∃ owner, Inv P s owner) ⟨_, inv_init⟩ ?_
  rintro s a s' - ⟨owner, hinv⟩ hCa hs
  exact hinv.step (hinv.move (hC s a hCa) hs)

end

end Scoro.Composition

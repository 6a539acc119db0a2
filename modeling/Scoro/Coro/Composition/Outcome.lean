import Scoro.Coro.Composition.Invariant

/-!
# Coroutines compute what direct style computes

The outcome of a coroutine is the one that its body has in direct style, where each call runs to
its end at once, whatever the order in which operations come to their ends and coroutines are
resumed. The invariant says of a coroutine in its body that its meaning is the meaning of the
rest, for any results of its `Future`s that direct style allows.
-/

namespace Scoro.Composition
open Scoro.Lib

section
variable {L V E κ : Type*} (P : Program L V E κ) (world : L → Except E V) (moved : V → V)

/-- A result that the `Future` of `g` may give: what its promise holds if it is done, and what
direct style allows otherwise. -/
def State.Holds (s : State L V E κ) (g : Frame) (o : Except E V) : Prop :=
  ∃ d, s.frames g = some d ∧ if d.pc.isDone then d.promise.get = some o else
    (∃ t, Evaluates P world moved d.body [] t o) ∧ (d.kind = .future true → ∃ v, o = .ok v)

def State.Env (s : State L V E κ) (futures : List Frame) (env : List (Except E V)) : Prop :=
  env.length = futures.length ∧
    ∀ (i : ℕ) g o, futures[i]? = some g → env[i]? = some o → s.Holds P world moved g o

/-- How the body ends that is `ending e`. -/
def Coroutine.ends (c : Coroutine L V E κ) : Option E → Option (Except E V)
  | some e => some (.error e)
  | none => c.outcome

/-- What is left of the body completes its meaning. -/
def Coroutine.Meaning (s : State L V E κ) (c : Coroutine L V E κ) : Prop :=
  match c.pc with
  | .running k => ∀ env, s.Env P world moved c.futures env → ∀ t r,
      Evaluates P world moved k env t r → Evaluates P world moved c.body [] (c.operations ++ t) r
  | .operation l next => ∀ env, s.Env P world moved c.futures env → ∀ t r,
      Evaluates P world moved (next (world l)) env t r →
        Evaluates P world moved c.body [] (c.operations ++ t) r
  | .awaiting g next | .awaitResume g next => ∃ i, c.futures[i]? = some g ∧
      ∀ env, s.Env P world moved c.futures env → ∀ o, env[i]? = some o → ∀ t r,
        Evaluates P world moved (next o) (env.set i (o.map moved)) t r →
          Evaluates P world moved c.body [] (c.operations ++ t) r
  | .ending e => ∃ r, c.ends e = some r ∧
      (e = none → c.kind = .future true → ∃ v, r = .ok v) ∧
      ∀ env, s.Env P world moved c.futures env → Evaluates P world moved c.body [] c.operations r
  | .done | .destroyed => ∃ r, c.outcome = some r ∧ (c.kind = .future true → ∃ v, r = .ok v) ∧
      Evaluates P world moved c.body [] c.operations r

/-- The bodies mean what direct style says, and the program has been terminated by an exception
that leaves a coroutine that must not throw. -/
structure Meaningful (s : State L V E κ) : Prop where
  frames : ∀ f c, s.frames f = some c → c.Meaning P world moved s
  terminated : s.terminated = true → ∃ f c e, s.frames f = some c ∧ c.kind ≠ .future false ∧
    Evaluates P world moved c.body [] c.operations (.error e)

end

section
variable {L V E κ : Type*} {P : Program L V E κ} {world : L → Except E V} {moved : V → V}
  {s s' : State L V E κ} {owner : Frame → Owner} {f g : Frame} {c d : Coroutine L V E κ}
  {rest : List (Frame × Role E)} {env : List (Except E V)} {o : Except E V}
  {futures : List Frame}

lemma State.Env.mono (h : s'.Env P world moved futures env)
    (hs : ∀ g ∈ futures, ∀ o, s'.Holds P world moved g o → s.Holds P world moved g o) :
    s.Env P world moved futures env :=
  ⟨h.1, fun i g o hg ho => hs g (List.mem_of_getElem? hg) o (h.2 i g o hg ho)⟩

lemma State.Env.nil : s.Env P world moved [] [] := ⟨rfl, fun i g o hg => by simp at hg⟩

lemma State.Env.concat (h : s.Env P world moved futures env) (hg : s.Holds P world moved g o) :
    s.Env P world moved (futures ++ [g]) (env ++ [o]) := by
  refine ⟨by simp [h.1], fun i x q hx hq => ?_⟩
  by_cases hi : i < futures.length
  · rw [List.getElem?_append_left hi] at hx
    rw [List.getElem?_append_left (h.1 ▸ hi)] at hq
    exact h.2 i x q hx hq
  · rw [List.getElem?_append_right (by omega), List.getElem?_singleton] at hx
    rw [List.getElem?_append_right (by rw [h.1]; omega), h.1, List.getElem?_singleton] at hq
    split at hx
    · rename_i hlast
      rw [if_pos hlast] at hq
      cases hx
      cases hq
      exact hg
    · cases hx

lemma State.Env.of_concat (h : s.Env P world moved (futures ++ [g]) env) :
    ∃ env' o, env = env' ++ [o] ∧ s.Env P world moved futures env' ∧
      s.Holds P world moved g o := by
  obtain ⟨hlength, hholds⟩ := h
  rw [List.length_append, List.length_singleton] at hlength
  rcases env.eq_nil_or_concat with rfl | ⟨env', o, rfl⟩
  · simp at hlength
  · rw [List.concat_eq_append, List.length_append, List.length_singleton] at hlength
    have heq : env'.length = futures.length := by omega
    refine ⟨env', o, List.concat_eq_append .., ⟨heq, fun i x q hx hq => ?_⟩, ?_⟩
    · refine hholds i x q ?_ ?_
      · rw [List.getElem?_append_left (List.getElem?_eq_some_iff.mp hx).1, hx]
      · rw [List.concat_eq_append,
          List.getElem?_append_left (List.getElem?_eq_some_iff.mp hq).1, hq]
    · refine hholds futures.length g o ?_ ?_
      · simp
      · simp [← heq]

/-- Fewer results are possible. -/
lemma Coroutine.Meaning.mono (h : c.Meaning P world moved s)
    (hs : ∀ g ∈ c.futures, ∀ o, s'.Holds P world moved g o → s.Holds P world moved g o) :
    c.Meaning P world moved s' := by
  unfold Coroutine.Meaning at h ⊢
  cases hpc : c.pc <;> rw [hpc] at h
  case running | operation => exact fun env henv => h env (henv.mono hs)
  case awaiting | awaitResume =>
    obtain ⟨i, hi, h⟩ := h
    exact ⟨i, hi, fun env henv => h env (henv.mono hs)⟩
  case ending =>
    obtain ⟨r, hr, hthrow, h⟩ := h
    exact ⟨r, hr, hthrow, fun env henv => h env (henv.mono hs)⟩
  case done | destroyed => exact h

/-- The results that a frame may give do not change while it is not done. -/
lemma State.holds_setFrame (hf : s.frames f = some c) (hbody : d.body = c.body)
    (hkind : d.kind = c.kind) (hc : c.pc.isDone = false) (hd : d.pc.isDone = false) (g : Frame)
    (o : Except E V) :
    (s.setFrame f d).Holds P world moved g o ↔ s.Holds P world moved g o := by
  unfold State.Holds
  by_cases hg : g = f
  · subst hg
    simp [hf, hbody, hkind, hc, hd]
  · simp [Function.update_of_ne hg]

lemma State.holds_setFrame_ne (hg : g ≠ f) :
    (s.setFrame f d).Holds P world moved g o ↔ s.Holds P world moved g o := by
  unfold State.Holds
  simp [Function.update_of_ne hg]

/-- The meaning of all frames, where one has been replaced that is not done. -/
lemma Meaningful.replace (h : Meaningful P world moved s) (hf : s.frames f = some c)
    (stack : List (Frame × Role E)) (hbody : d.body = c.body) (hkind : d.kind = c.kind)
    (hc : c.pc.isDone = false) (hd : d.pc.isDone = false) (hlive : s.terminated = false)
    (hmeaning : d.Meaning P world moved s) :
    Meaningful P world moved ((s.setFrame f d).setStack stack) := by
  have hholds : ∀ g o, ((s.setFrame f d).setStack stack).Holds P world moved g o →
      s.Holds P world moved g o := fun g o hgo =>
    (State.holds_setFrame hf hbody hkind hc hd g o).mp hgo
  refine ⟨State.forall_setFrame ?_ fun x e hx hxs => ?_, fun ht => ?_⟩
  · exact hmeaning.mono fun g _ => hholds g
  · exact (h.frames x e hxs).mono fun g _ => hholds g
  · change s.terminated = true at ht
    rw [hlive] at ht
    cases ht

/-- What a running coroutine means, by its instruction. -/
lemma Coroutine.Meaning.running {k : κ} (h : c.Meaning P world moved s) (hpc : c.pc = .running k)
    (henv : s.Env P world moved c.futures env) {t : List L} {r : Except E V}
    (hk : Evaluates P world moved k env t r) :
    Evaluates P world moved c.body [] (c.operations ++ t) r := by
  unfold Coroutine.Meaning at h
  rw [hpc] at h
  exact h env henv t r hk

/-- An instruction without a trace of its own. -/
lemma Coroutine.Meaning.ending {e : Option E} (h : c.Meaning P world moved s)
    (hpc : c.pc = .ending e) : ∃ r, c.ends e = some r ∧
      (e = none → c.kind = .future true → ∃ v, r = .ok v) ∧
      ∀ env, s.Env P world moved c.futures env →
        Evaluates P world moved c.body [] c.operations r := by
  unfold Coroutine.Meaning at h
  rwa [hpc] at h

/-- A coroutine comes to its final suspension: its promise holds what direct style allows. -/
lemma Meaningful.finish (h : Meaningful P world moved s) (hinv : Inv P s owner)
    (hf : s.frames f = some c) (hpc : c.pc = .ending none) (hfutures : c.futures = [])
    (hlive : s.terminated = false) :
    Meaningful P world moved (s.setFrame f { c with pc := .done }) := by
  obtain ⟨r, hr, hthrow, heval⟩ := (h.frames f c hf).ending hpc
  have hbody := heval [] (by rw [hfutures]; exact State.Env.nil)
  obtain ⟨o, ho, hget⟩ := (hinv.frames f c hf).ending hpc
  have hor : o = r := by
    change c.outcome = some r at hr
    rw [ho] at hr
    cases hr
    rfl
  subst hor
  have hholds : ∀ g q, (s.setFrame f { c with pc := .done }).Holds P world moved g q →
      s.Holds P world moved g q := by
    intro g q hgq
    by_cases hg : g = f
    · subst hg
      obtain ⟨d, hd, hq⟩ := hgq
      rw [State.setFrame_frames, Function.update_self] at hd
      cases hd
      have hq' : c.promise.get = some q := hq
      rw [hget] at hq'
      cases hq'
      have hdone : c.pc.isDone = false := by rw [hpc]; rfl
      exact ⟨c, hf, by rw [hdone]; exact ⟨⟨_, hbody⟩, hthrow rfl⟩⟩
    · exact (State.holds_setFrame_ne hg).mp hgq
  refine ⟨State.forall_setFrame ?_ fun x e hx hxs => ?_, fun ht => ?_⟩
  · exact ⟨o, ho, hthrow rfl, hbody⟩
  · exact (h.frames x e hxs).mono fun g _ => hholds g
  · change s.terminated = true at ht
    rw [hlive] at ht
    cases ht

/-- The results of the frames that there are do not change when a coroutine is called. -/
lemma State.holds_create {kind : Kind} {body : κ} {roots : List Frame} (hg : g ≠ s.count) :
    State.Holds P world moved { s.create kind body with roots := roots } g o ↔
      s.Holds P world moved g o := by
  unfold State.Holds State.create
  simp [Function.update_of_ne hg]

lemma State.meaning_create {kind : Kind} {body : κ} :
    Coroutine.Meaning P world moved s
      { kind := kind, body := body, pc := .running body, futures := [], promise := .init,
        registered := false, operations := [], outcome := none, destroyed := 0 } := by
  intro env henv t r h
  rwa [List.eq_nil_of_length_eq_zero henv.1] at h

lemma Meaningful.call (h : Meaningful P world moved s) (hinv : Inv P s owner) {kind : Kind}
    {body : κ} {roots : List Frame} (hlive : s.terminated = false) :
    Meaningful P world moved { s.create kind body with roots := roots } := by
  refine ⟨State.forall_setFrame State.meaning_create fun x e hx hxs => ?_, fun ht => ?_⟩
  · refine (h.frames x e hxs).mono fun g hg q => (State.holds_create ?_).mp
    rintro rfl
    obtain ⟨d, hd, -⟩ := hinv.child hxs hg
    rw [(hinv.alloc _).mpr le_rfl] at hd
    cases hd
  · change s.terminated = true at ht
    rw [hlive] at ht
    cases ht

lemma Meaningful.callIn (h : Meaningful P world moved s) (hinv : Inv P s owner) {k body next : κ}
    {nothrow : Bool} (hf : s.frames f = some c) (hpc : c.pc = .running k)
    (hk : P.code k = .call nothrow body next) (hlive : s.terminated = false) :
    Meaningful P world moved ((s.setFrame f { c with
      pc := .running next, futures := c.futures ++ [s.count] }).create (.future nothrow) body) := by
  have hlt : f ≠ s.count := by
    rintro rfl
    rw [(hinv.alloc _).mpr le_rfl] at hf
    cases hf
  have hold : ∀ x e, s.frames x = some e → ∀ g ∈ e.futures, g ≠ s.count := by
    rintro x e hx g hg rfl
    obtain ⟨d, hd, -⟩ := hinv.child hx hg
    rw [(hinv.alloc _).mpr le_rfl] at hd
    cases hd
  have hholds : ∀ g, g ≠ s.count → ∀ q, State.Holds P world moved
      ((s.setFrame f { c with
        pc := .running next, futures := c.futures ++ [s.count] }).create (.future nothrow) body) g
        q → s.Holds P world moved g q := by
    intro g hg q hgq
    have hgq' : State.Holds P world moved (s.setFrame f { c with
        pc := .running next, futures := c.futures ++ [s.count] }) g q := by
      obtain ⟨d, hd, hq⟩ := hgq
      refine ⟨d, ?_, hq⟩
      rw [← hd]
      exact (Function.update_of_ne hg ..).symm
    have hc : c.pc.isDone = false := by rw [hpc]; rfl
    exact (State.holds_setFrame (d := { c with
      pc := .running next, futures := c.futures ++ [s.count] }) hf rfl rfl hc rfl g q).mp hgq'
  refine ⟨State.forall_setFrame State.meaning_create fun x e hxc hx => ?_, fun ht => ?_⟩
  · by_cases hxf : x = f
    · subst hxf
      rw [State.setFrame_frames, Function.update_self] at hx
      cases hx
      intro env henv t r heval
      obtain ⟨env', q, rfl, henv', hq⟩ := henv.of_concat
      obtain ⟨d, hd, hq⟩ := hq
      simp only [State.create, State.setFrame, Function.update_self, Option.some.injEq] at hd
      subst hd
      obtain ⟨⟨t', hbody⟩, hthrow⟩ := hq
      refine (h.frames x c hf).running hpc (henv'.mono fun g hg => hholds g (hold x c hf g hg)) ?_
      exact .call hk hbody (fun hn => hthrow (by rw [hn])) heval
    · rw [State.setFrame_frames, Function.update_of_ne hxf] at hx
      exact (h.frames x e hx).mono fun g hg => hholds g (hold x e hx g hg)
  · change s.terminated = true at ht
    rw [hlive] at ht
    cases ht

/-- A result is read, and moved out of the promise. -/
lemma Meaningful.awaitResume (h : Meaningful P world moved s) (hinv : Inv P s owner)
    {next : Except E V → κ} (hf : s.frames f = some c) (hpc : c.pc = .awaitResume g next)
    (hg : s.frames g = some d) (hd : d.pc.isDone = true) (ho : d.promise.get = some o)
    (hlive : s.terminated = false) :
    Meaningful P world moved ((s.setFrame f { c with pc := .running (next o) }).setFrame g
      { d with promise := d.promise.moveOut moved }) := by
  have howner := (hinv.handshake.resumes f g (by rw [State.resumes_eq hf, hpc]; rfl)).1
  have hfg : f ≠ g := by
    rintro rfl
    rw [hf] at hg
    cases hg
    rw [hpc] at hd
    cases hd
  have hholds : ∀ x, x ≠ g → ∀ q, State.Holds P world moved
      ((s.setFrame f { c with pc := .running (next o) }).setFrame g
        { d with promise := d.promise.moveOut moved }) x q → s.Holds P world moved x q := by
    intro x hx q hxq
    have hxq' := (State.holds_setFrame_ne hx).mp hxq
    have hc : c.pc.isDone = false := by rw [hpc]; rfl
    exact (State.holds_setFrame (d := { c with pc := .running (next o) }) hf rfl rfl hc rfl x q).mp
      hxq'
  refine ⟨State.forall_setFrame ?_ fun x e hxg hx => ?_, fun ht => ?_⟩
  · have hmeaning := h.frames g d hg
    unfold Coroutine.Meaning at hmeaning ⊢
    rw [FramePc.eq_done hd] at hmeaning ⊢
    exact hmeaning
  · by_cases hxf : x = f
    · subst hxf
      rw [State.setFrame_frames, Function.update_self] at hx
      cases hx
      have hmeaning := h.frames x c hf
      unfold Coroutine.Meaning at hmeaning
      rw [hpc] at hmeaning
      obtain ⟨i, hi, hmeaning⟩ := hmeaning
      intro env henv t r heval
      have hilt : i < env.length := by
        rw [henv.1]
        exact (List.getElem?_eq_some_iff.mp hi).1
      -- before the result was moved out the environment had `o` in its place
      have hread : env[i]? = some (o.map moved) := by
        obtain ⟨q, hq⟩ : ∃ q, env[i]? = some q := ⟨_, List.getElem?_eq_getElem hilt⟩
        obtain ⟨d', hd', hq'⟩ := henv.2 i g q hi hq
        rw [State.setFrame_frames, Function.update_self] at hd'
        cases hd'
        dsimp only at hq'
        rw [hd, if_pos rfl, Promise.get_moveOut ho] at hq'
        rw [hq, hq']
      have hback : (env.set i o).set i (o.map moved) = env := by
        rw [List.set_set]
        obtain ⟨hi', hvalue⟩ := List.getElem?_eq_some_iff.mp hread
        rw [← hvalue, List.set_getElem_self]
      refine hmeaning (env.set i o) ⟨by rw [List.length_set, henv.1], fun j y q hy hq => ?_⟩ o
        (by rw [List.getElem?_set_self hilt]) t r (by rwa [hback])
      by_cases hij : i = j
      · subst hij
        rw [hi] at hy
        cases hy
        rw [List.getElem?_set_self hilt] at hq
        cases hq
        exact ⟨d, hg, by rw [hd, if_pos rfl, ho]⟩
      · rw [List.getElem?_set_ne hij] at hq
        refine hholds y ?_ q (henv.2 j y q hy hq)
        rintro rfl
        have hnodup := (hinv.frames x c hf).nodup
        have hlt := (List.getElem?_eq_some_iff.mp hi).1
        exact hij ((List.getElem?_inj hlt hnodup).mp (hi.trans hy.symm))
    · rw [State.setFrame_frames, Function.update_of_ne hxf] at hx
      refine (h.frames x e hx).mono fun y hy => hholds y ?_
      rintro rfl
      have hnested := ((hinv.frames x e hx).nested y).mp hy
      rw [howner] at hnested
      cases hnested
      exact hxf rfl
  · change s.terminated = true at ht
    rw [hlive] at ht
    cases ht

/-- Frames that are not touched keep their meaning when a frame is destroyed whose `Future` has gone
out of scope. -/
lemma Meaningful.destroy (h : Meaningful P world moved s) (hinv : Inv P s owner)
    (hstack : s.stack = (f, .destroy) :: rest) (hf : s.frames f = some c) (hpc : c.pc = .done)
    (hlive : s.terminated = false) : Meaningful P world moved
      ((s.setFrame f { c with pc := .destroyed, destroyed := c.destroyed + 1 }).setStack rest) := by
  obtain ⟨c', hf', hrole⟩ := hinv.top hstack
  rw [hf] at hf'
  cases hf'
  have hdying := Coroutine.role_destroy hrole
  refine ⟨State.forall_setFrame ?_ fun x e hxf hx => ?_, fun ht => ?_⟩
  · have hmeaning := h.frames f c hf
    unfold Coroutine.Meaning at hmeaning
    rw [hpc] at hmeaning
    exact hmeaning
  · refine (h.frames x e hx).mono fun g hg q hgq => (State.holds_setFrame_ne ?_).mp hgq
    rintro rfl
    have hnested := ((hinv.frames x e hx).nested g).mp hg
    rw [hdying] at hnested
    cases hnested
  · change s.terminated = true at ht
    rw [hlive] at ht
    cases ht

/-- The last `Future` goes out of scope: it is done, so that it has a result. -/
lemma State.Env.of_dropLast (hinv : Inv P s owner) (hg : c.futures.getLast? = some g)
    (hf : s.frames f = some c) (hdone : ∀ d, s.frames g = some d → d.pc.isDone = true)
    (henv : s.Env P world moved c.futures.dropLast env) :
    ∃ o, s.Env P world moved c.futures (env ++ [o]) := by
  obtain ⟨init, hinit⟩ := List.getLast?_eq_some_iff.mp hg
  obtain ⟨d, hd, -⟩ := hinv.child hf (List.mem_of_getLast? hg)
  obtain ⟨o, ho⟩ := (hinv.frames g d hd).done (hdone d hd)
  rw [hinit, List.dropLast_concat] at henv
  refine ⟨o, ?_⟩
  rw [hinit]
  exact henv.concat ⟨d, hd, by rw [hdone d hd, if_pos rfl, ho]⟩

/-- Each step keeps the meaning of all coroutines. -/
theorem Meaningful.step (h : Meaningful P world moved s) (hinv : Inv P s owner) {a : Action κ}
    (hlive : s.terminated = false) (hm : Move P world moved s a s') :
    Meaningful P world moved s' := by
  cases hm with
  | call _ => exact h.call hinv hlive
  | @ret _ f c rest k v hstack hf hpc hk =>
    have hc : c.pc.isDone = false := by rw [hpc]; rfl
    refine h.replace hf _ rfl rfl hc rfl hlive ⟨_, rfl, fun _ _ => ⟨v, rfl⟩, fun env henv => ?_⟩
    have heval := (h.frames f c hf).running hpc henv (.ret hk)
    rwa [List.append_nil] at heval
  | @throw _ f c rest k e hstack hf hpc hk =>
    have hc : c.pc.isDone = false := by rw [hpc]; rfl
    refine h.replace hf _ rfl rfl hc rfl hlive ⟨_, rfl, nofun, fun env henv => ?_⟩
    have heval := (h.frames f c hf).running hpc henv (.throw hk)
    rwa [List.append_nil] at heval
  | callIn hstack hf hpc hk => exact h.callIn hinv hf hpc hk hlive
  | @awaitReady _ f c rest k i next g d hstack hf hpc hk hi hg hd =>
    have hc : c.pc.isDone = false := by rw [hpc]; rfl
    refine h.replace hf s.stack rfl rfl hc rfl hlive
      ⟨i, hi, fun env henv o ho t r heval => ?_⟩
    exact (h.frames f c hf).running hpc henv (.await hk ho heval)
  | @awaitSuspend _ f c rest k i next g d hstack hf hpc hk hi hg hd =>
    have hc : c.pc.isDone = false := by rw [hpc]; rfl
    have hddone : d.pc.isDone = false := by
      cases hdpc : d.pc <;> first | rfl | (rw [hdpc] at hd; cases hd)
    have hfg : g ≠ f := (hinv.ne_child hf (List.mem_of_getElem? hi)).ne'
    have hfirst : Meaningful P world moved (s.setFrame f { c with pc := .awaiting g next }) := by
      refine h.replace hf s.stack rfl rfl hc rfl hlive
        ⟨i, hi, fun env henv o ho t r heval => ?_⟩
      exact (h.frames f c hf).running hpc henv (.await hk ho heval)
    have hg' : (s.setFrame f { c with pc := .awaiting g next }).frames g = some d := by
      rw [State.setFrame_frames, Function.update_of_ne hfg, hg]
    refine hfirst.replace hg' _ rfl rfl hddone hddone hlive ?_
    have hmeaning := hfirst.frames g d hg'
    unfold Coroutine.Meaning at hmeaning ⊢
    exact hmeaning
  | awaitResume hstack hf hpc hg hd ho => exact h.awaitResume hinv hf hpc hg hd ho hlive
  | @performReady f c rest k l next hstack hf hpc hk =>
    have hc : c.pc.isDone = false := by rw [hpc]; rfl
    refine h.replace hf s.stack rfl rfl hc rfl hlive fun env henv t r heval => ?_
    have hbody := (h.frames f c hf).running hpc henv (.perform hk heval)
    rwa [List.append_cons] at hbody
  | @performSuspend f c rest k l next hstack hf hpc hk =>
    have hc : c.pc.isDone = false := by rw [hpc]; rfl
    refine h.replace hf _ rfl rfl hc rfl hlive fun env henv t r heval => ?_
    have hbody := (h.frames f c hf).running hpc henv (.perform hk heval)
    rwa [List.append_cons] at hbody
  | @drop _ f c rest k next g hstack hf hpc hk hg hdone =>
    have hc : c.pc.isDone = false := by rw [hpc]; rfl
    refine h.replace hf _ rfl rfl hc rfl hlive fun env henv t r heval => ?_
    obtain ⟨o, ho⟩ := henv.of_dropLast hinv hg hf hdone
    exact (h.frames f c hf).running hpc ho (.drop hk (by rwa [List.dropLast_concat]))
  | @finalDrop _ f c rest e g hstack hf hpc hg hdone =>
    have hc : c.pc.isDone = false := by rw [hpc]; rfl
    refine h.replace hf _ rfl rfl hc hc hlive ?_
    obtain ⟨r, hr, hthrow, hmeaning⟩ := (h.frames f c hf).ending hpc
    unfold Coroutine.Meaning
    rw [hpc]
    refine ⟨r, hr, hthrow, fun env henv => ?_⟩
    obtain ⟨o, ho⟩ := henv.of_dropLast hinv hg hf hdone
    exact hmeaning _ ho
  | @unhandled _ f c rest e hstack hf hpc hfutures hkind =>
    have hc : c.pc.isDone = false := by rw [hpc]; rfl
    obtain ⟨r, hr, -, hmeaning⟩ := (h.frames f c hf).ending hpc
    cases hr
    refine h.replace hf _ rfl rfl hc rfl hlive ⟨_, rfl, fun _ hk => ?_, hmeaning⟩
    rw [hkind] at hk
    cases hk
  | @terminate _ f c rest e hstack hf hpc hfutures hkind =>
    obtain ⟨r, hr, -, hmeaning⟩ := (h.frames f c hf).ending hpc
    cases hr
    exact ⟨h.frames, fun _ => ⟨f, c, e, hf, hkind,
      hmeaning [] (by rw [hfutures]; exact State.Env.nil)⟩⟩
  | @finalTrivial _ f c rest hstack hf hpc hfutures hkind =>
    have hc : c.pc.isDone = false := by rw [hpc]; rfl
    obtain ⟨r, hr, -, hmeaning⟩ := (h.frames f c hf).ending hpc
    refine h.replace hf _ rfl rfl hc rfl hlive ⟨r, hr, fun hk => ?_,
      hmeaning [] (by rw [hfutures]; exact State.Env.nil)⟩
    change c.kind = _ at hk
    rw [hkind] at hk
    cases hk
  | finalDone hstack hf hpc hfutures _ _ =>
    have hfinish := h.finish hinv hf hpc hfutures hlive
    exact ⟨hfinish.frames, hfinish.terminated⟩
  | @finalTransfer _ f c rest p d next hstack hf hpc hfutures _ hcaller hp hd =>
    have hfirst := h.finish hinv hf hpc hfutures hlive
    have hpf : p ≠ f := by
      rintro rfl
      rw [hf] at hp
      cases hp
      rw [hpc] at hd
      cases hd
    have hp' : (s.setFrame f { c with pc := .done }).frames p = some d := by
      rw [State.setFrame_frames, Function.update_of_ne hpf, hp]
    refine hfirst.replace hp' _ rfl rfl (by rw [hd]; rfl) rfl hlive ?_
    have hmeaning := hfirst.frames p d hp'
    unfold Coroutine.Meaning at hmeaning
    rw [hd] at hmeaning
    exact hmeaning
  | destroy hstack hf hpc _ => exact h.destroy hinv hstack hf hpc hlive
  | @resume f c l next hf hpc =>
    have hc : c.pc.isDone = false := by rw [hpc]; rfl
    have hmeaning := h.frames f c hf
    unfold Coroutine.Meaning at hmeaning
    rw [hpc] at hmeaning
    exact h.replace hf _ rfl rfl hc rfl hlive hmeaning
  | release _ _ => exact ⟨h.frames, h.terminated⟩

lemma step_live {a : Action κ} (hs : step P world moved s a = some s') :
    s.terminated = false := by
  unfold Composition.step at hs
  split at hs
  · cases hs
  · rename_i hlive
    rw [Bool.or_eq_true, not_or] at hlive
    exact Bool.eq_false_iff.mpr hlive.1

theorem reaches_meaningful (h : (system P world moved).Reaches (Joined P) s) :
    Meaningful P world moved s := by
  refine h.invariant (I := Meaningful P world moved)
    ⟨fun _ _ hf => (by cases hf), fun ht => (by cases ht)⟩ ?_
  intro s a s' run ih hJ hs
  obtain ⟨owner, hinv⟩ := reaches_inv (fun _ _ hJ => hJ) run
  exact ih.step hinv (step_live hs) (hinv.move hJ hs)

/-- A body that has ended has the outcome of direct style. -/
lemma Meaningful.outcome (h : Meaningful P world moved s) (hf : s.frames f = some c)
    (hended : c.pc.ended = true) :
    ∃ r, c.outcome = some r ∧ Evaluates P world moved c.body [] c.operations r := by
  have hmeaning := h.frames f c hf
  unfold Coroutine.Meaning at hmeaning
  cases hpc : c.pc <;> rw [hpc] at hended hmeaning <;> try cases hended
  all_goals
    obtain ⟨r, hr, -, heval⟩ := hmeaning
    exact ⟨r, hr, heval⟩

/-- Every coroutine that has ended has ended as its body does in direct style, with the operations
that it performs there; a `Future` that nobody has awaited yet gives that outcome. Nothing is used
after its end, and the program is terminated only by an exception that leaves a coroutine which
must not throw. -/
theorem coroutines_compute_direct_style (h : (system P world moved).Reaches (Joined P) s) :
    s.fault = false ∧
    (∀ f c, s.frames f = some c → c.pc = .done ∨ c.pc = .destroyed →
      ∃ r, c.outcome = some r ∧ Evaluates P world moved c.body [] c.operations r) ∧
    (∀ f c, s.frames f = some c → f ∈ s.roots → c.pc = .done → c.promise.get = c.outcome) ∧
    (s.terminated = true → ∃ f c e, s.frames f = some c ∧ c.kind ≠ .future false ∧
      Evaluates P world moved c.body [] c.operations (.error e)) := by
  obtain ⟨owner, hinv⟩ := reaches_inv (fun _ _ hJ => hJ) h
  have hmeaningful := reaches_meaningful h
  refine ⟨hinv.fault, fun f c hf hpc => hmeaningful.outcome hf ?_, fun f c hf hroot hpc => ?_,
    hmeaningful.terminated⟩
  · rcases hpc with hpc | hpc <;> rw [hpc] <;> rfl
  · exact (hinv.frames f c hf).outside ((hinv.roots.2 f).mp hroot) (by rw [hpc]; rfl)

/-- Both `Future`s of the caller are suspended when it awaits the second one. The first one ends
before it is awaited. -/
theorem test_success_computes_direct_style :
    ∃ s c, (system testSuccess (fun _ => .ok 0) id).Reaches (Joined testSuccess) s ∧
      s.count = 3 ∧ s.frames 0 = some c ∧ c.body = .entry ∧ c.outcome = some (.ok 42) ∧
      c.promise.get = c.outcome ∧
      Evaluates testSuccess (fun _ => .ok 0) id c.body [] c.operations (.ok 42) := by
  have hs := System.reaches_of_exec (S := system testSuccess (fun _ => .ok 0) id)
    (C := Joined testSuccess)
    (.call (.future true) .entry :: List.replicate 5 (.run false) ++
      .resume 1 :: List.replicate 2 (.run false) ++
      .resume 2 :: List.replicate 11 (.run false)) rfl
  obtain ⟨-, houtcome, hget, -⟩ := coroutines_compute_direct_style hs
  obtain ⟨r, hr, heval⟩ := houtcome 0 _ rfl (.inl rfl)
  cases hr
  exact ⟨_, _, hs, rfl, rfl, rfl, rfl, hget 0 _ rfl (List.mem_singleton_self 0) rfl, heval⟩

end

end Scoro.Composition

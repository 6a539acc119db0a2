import Scoro.Coro.Composition.Ends

/-!
# Coroutines end in every order

For bodies that come to an end in direct style and await what they call. Each coroutine has a
result that it will give, and a number of instructions to go until then, which no order of
completions and resumptions changes. So every run ends, with all coroutines finished.
-/

namespace Scoro.Composition
open Scoro.Lib

section
variable {L V E κ : Type*} (P : Program L V E κ) (world : L → Except E V) (moved : V → V)
  (read : κ → Finset ℕ)

/-- The results at the indices in `read` have been awaited, so that their coroutines are done. -/
def ReadDone (isDone : Frame → Bool) (futures : List Frame) (indices : Set ℕ) : Prop :=
  ∀ (i : ℕ) g, i ∈ indices → futures[i]? = some g → isDone g = true

/-- The coroutine comes to its end with the result `r` in `n` more instructions, when each local
`Future` gives its `fate`. -/
def Coroutine.Fated (fate : Frame → Except E V) (isDone : Frame → Bool) (n : ℕ) (r : Except E V)
    (c : Coroutine L V E κ) : Prop :=
  match c.pc with
  | .running k => EvaluatesIn P world moved n k (c.futures.map fate) r ∧
      ReadDone isDone c.futures {i | i ∈ read k}
  | .operation l next => EvaluatesIn P world moved n (next (world l)) (c.futures.map fate) r ∧
      ReadDone isDone c.futures {i | i ∈ read (next (world l))}
  | .awaiting g next | .awaitResume g next => ∃ i, c.futures[i]? = some g ∧
      EvaluatesIn P world moved n (next (fate g))
        ((c.futures.map fate).set i ((fate g).map moved)) r ∧
      ReadDone isDone c.futures {j | j ∈ read (next (fate g)) ∧ j ≠ i}
  | .ending (some e) => r = .error e ∧ ReadDone isDone c.futures Set.univ
  | .ending none => c.promise.get = some r ∧ ReadDone isDone c.futures Set.univ
  | .done => c.promise.get = some r
  | .destroyed => True

/-- All coroutines come to their ends, and those that must not throw do not. -/
structure Fated (fate : Frame → Except E V) (fuel : Frame → ℕ) (s : State L V E κ) : Prop where
  terminated : s.terminated = false
  nothrow : ∀ f c, s.frames f = some c → c.kind ≠ .future false → ∃ v, fate f = .ok v
  frames : ∀ f c, s.frames f = some c → c.Fated P world moved read fate s.isDone (fuel f) (fate f)

end

section
variable {L V E κ : Type*}

/-- The steps that a coroutine takes at most between two instructions and after the last one. -/
def FramePc.rank : FramePc L V E κ → ℕ
  | .operation .. | .awaiting .. => 6
  | .awaitResume .. => 5
  | .running _ => 4
  | .ending (some _) => 3
  | .ending none => 2
  | .done => 1
  | .destroyed => 0

def Coroutine.weight (n : ℕ) (c : Coroutine L V E κ) : ℕ := 8 * n + c.pc.rank + c.futures.length

def State.weight (fuel : Frame → ℕ) (s : State L V E κ) (f : Frame) : ℕ :=
  (s.frames f).elim 0 (Coroutine.weight (fuel f))

/-- A bound on the number of steps that the coroutines take. -/
def State.rank (fuel : Frame → ℕ) (s : State L V E κ) : ℕ :=
  ∑ f ∈ Finset.range s.count, s.weight fuel f

variable {P : Program L V E κ} {world : L → Except E V} {moved : V → V} {read : κ → Finset ℕ}
  {fate fate' : Frame → Except E V} {fuel : Frame → ℕ} {s s' : State L V E κ}
  {owner : Frame → Owner} {f g : Frame} {c d : Coroutine L V E κ} {rest : List (Frame × Role E)}
  {isDone isDone' : Frame → Bool} {n : ℕ} {r : Except E V}

/-! ### The rank -/

lemma Inv.lt_count (h : Inv P s owner) (hf : s.frames f = some c) : f < s.count := by
  rw [← not_le, ← h.alloc f, hf]
  simp

variable (fuel) in
lemma State.rank_replace (hlt : f < s.count) (hf : s.frames f = some c) (n : ℕ)
    (d : Coroutine L V E κ) (stack : List (Frame × Role E)) :
    ((s.setFrame f d).setStack stack).rank (Function.update fuel f n) + c.weight (fuel f) =
      s.rank fuel + d.weight n := by
  have hmem : f ∈ Finset.range s.count := Finset.mem_range.mpr hlt
  have hold : s.weight fuel f = c.weight (fuel f) := by simp [State.weight, hf]
  have hnew : ((s.setFrame f d).setStack stack).weight (Function.update fuel f n) =
      Function.update (s.weight fuel) f (d.weight n) := by
    funext x
    by_cases hx : x = f
    · subst hx
      simp [State.weight]
    · simp [State.weight, hx]
  have hcount : ((s.setFrame f d).setStack stack).count = s.count := rfl
  rw [State.rank, State.rank, hnew, hcount, Finset.sum_update_of_mem hmem, ← hold,
    ← Finset.sum_sdiff (Finset.singleton_subset_iff.mpr hmem), Finset.sum_singleton]
  omega

lemma State.rank_create (n : ℕ) (kind : Kind) (body : κ) :
    (s.create kind body).rank (Function.update fuel s.count n) = s.rank fuel + 8 * n + 4 := by
  have hcount : (s.create kind body).count = s.count + 1 := rfl
  rw [State.rank, hcount, Finset.sum_range_succ]
  have hlast : (s.create kind body).weight (Function.update fuel s.count n) s.count =
      8 * n + 4 := by
    simp [State.weight, State.create, Coroutine.weight, FramePc.rank]
  have hrest : ∀ x ∈ Finset.range s.count,
      (s.create kind body).weight (Function.update fuel s.count n) x = s.weight fuel x := by
    intro x hx
    have hne := (Finset.mem_range.mp hx).ne
    simp [State.weight, State.create, hne]
  have hsum : ∑ x ∈ Finset.range s.count,
      (s.create kind body).weight (Function.update fuel s.count n) x = s.rank fuel :=
    Finset.sum_congr rfl hrest
  rw [hsum, hlast, add_assoc]

/-! ### What a coroutine is promised -/

lemma map_update_of_getElem? {ι α : Type*} [DecidableEq ι] {l : List ι} (hl : l.Nodup) {i : ℕ}
    {x : ι} (hi : l[i]? = some x) {v : ι → α} {y : α} :
    l.map (Function.update v x y) = (l.map v).set i y := by
  obtain ⟨hlt, rfl⟩ := List.getElem?_eq_some_iff.mp hi
  rw [hl.map_update, if_pos (List.getElem_mem hlt), hl.idxOf_getElem i hlt]

lemma ReadDone.mono {futures : List Frame} {indices indices' : Set ℕ}
    (h : ReadDone isDone futures indices) (hindices : indices' ⊆ indices)
    (hdone : ∀ g ∈ futures, isDone g = true → isDone' g = true) :
    ReadDone isDone' futures indices' :=
  fun i g hi hg => hdone g (List.mem_of_getElem? hg) (h i g (hindices hi) hg)

lemma Coroutine.Fated.mono (h : c.Fated P world moved read fate isDone n r)
    (hfate : ∀ g ∈ c.futures, fate' g = fate g)
    (hdone : ∀ g ∈ c.futures, isDone g = true → isDone' g = true) :
    c.Fated P world moved read fate' isDone' n r := by
  have hmap : c.futures.map fate' = c.futures.map fate := List.map_congr_left hfate
  unfold Coroutine.Fated at h ⊢
  cases hpc : c.pc with
  | running k =>
    rw [hpc] at h
    exact ⟨by rw [hmap]; exact h.1, h.2.mono subset_rfl hdone⟩
  | operation l next =>
    rw [hpc] at h
    exact ⟨by rw [hmap]; exact h.1, h.2.mono subset_rfl hdone⟩
  | awaiting g next | awaitResume g next =>
    rw [hpc] at h
    obtain ⟨i, hi, heval, hread⟩ := h
    dsimp only
    rw [hmap, hfate g (List.mem_of_getElem? hi)]
    exact ⟨i, hi, heval, hread.mono subset_rfl hdone⟩
  | ending e =>
    rw [hpc] at h
    cases e with
    | none => exact ⟨h.1, h.2.mono subset_rfl hdone⟩
    | some e => exact ⟨h.1, h.2.mono subset_rfl hdone⟩
  | done =>
    rw [hpc] at h
    exact h
  | destroyed => trivial

lemma Coroutine.Fated.running {k : κ} (h : c.Fated P world moved read fate isDone n r)
    (hpc : c.pc = .running k) : EvaluatesIn P world moved n k (c.futures.map fate) r ∧
      ReadDone isDone c.futures {i | i ∈ read k} := by
  unfold Coroutine.Fated at h
  rwa [hpc] at h

lemma Coroutine.Fated.ending_done {e : Option E} (h : c.Fated P world moved read fate isDone n r)
    (hpc : c.pc = .ending e) : ReadDone isDone c.futures Set.univ := by
  unfold Coroutine.Fated at h
  rw [hpc] at h
  cases e with
  | none => exact h.2
  | some e => exact h.2

/-- A frame is replaced by one that keeps its promise. -/
lemma Fated.replace (h : Fated P world moved read fate fuel s) (hf : s.frames f = some c)
    (d : Coroutine L V E κ) (hkind : d.kind = c.kind)
    (hdone : ∀ x e, s.frames x = some e → f ∈ e.futures → c.pc.isDone = true → d.pc.isDone = true)
    (hself : f ∉ d.futures)
    (hd : d.Fated P world moved read fate s.isDone n (fate f)) (stack : List (Frame × Role E)) :
    Fated P world moved read fate (Function.update fuel f n)
      ((s.setFrame f d).setStack stack) := by
  have hmono : ∀ x e, s.frames x = some e → ∀ g ∈ e.futures, s.isDone g = true →
      ((s.setFrame f d).setStack stack).isDone g = true := by
    intro x e hx g hg hgdone
    change (s.setFrame f d).isDone g = true
    rw [State.setFrame_isDone]
    by_cases hgf : g = f
    · subst hgf
      rw [Function.update_self]
      rw [State.isDone_eq hf] at hgdone
      exact hdone x e hx hg hgdone
    · rwa [Function.update_of_ne hgf]
  refine ⟨h.terminated, State.forall_setFrame ?_ fun x e _ hx => h.nothrow x e hx,
    State.forall_setFrame ?_ fun x e hxf hx => ?_⟩
  · rw [hkind]
    exact h.nothrow f c hf
  · rw [Function.update_self]
    refine hd.mono (fun _ _ => rfl) fun g hg hgdone => ?_
    change (s.setFrame f d).isDone g = true
    rwa [State.setFrame_isDone, Function.update_of_ne (ne_of_mem_of_not_mem hg hself)]
  · rw [Function.update_of_ne hxf]
    exact (h.frames x e hx).mono (fun _ _ => rfl) (hmono x e hx)

lemma Fated.replace_same (h : Fated P world moved read fate fuel s) (hlt : f < s.count)
    (hf : s.frames f = some c) (d : Coroutine L V E κ) (hkind : d.kind = c.kind)
    (hdone : ∀ x e, s.frames x = some e → f ∈ e.futures → c.pc.isDone = true → d.pc.isDone = true)
    (hself : f ∉ d.futures)
    (hd : d.Fated P world moved read fate s.isDone (fuel f) (fate f))
    (stack : List (Frame × Role E)) :
    Fated P world moved read fate fuel ((s.setFrame f d).setStack stack) ∧
    ((s.setFrame f d).setStack stack).rank fuel + c.weight (fuel f) =
      s.rank fuel + d.weight (fuel f) := by
  have hreplace := h.replace hf d hkind hdone hself hd stack
  have hrank := State.rank_replace fuel hlt hf (fuel f) d stack
  rw [Function.update_eq_self] at hreplace hrank
  exact ⟨hreplace, hrank⟩

/-- The promise of a coroutine that is awaited gets the caller. -/
lemma Fated.setCaller (h : Fated P world moved read fate fuel s) (hlt : f < s.count)
    (hf : s.frames f = some c) (hself : f ∉ c.futures) (p : Frame)
    (stack : List (Frame × Role E)) :
    Fated P world moved read fate fuel
      ((s.setFrame f { c with promise := c.promise.setCaller p }).setStack stack) ∧
    ((s.setFrame f { c with promise := c.promise.setCaller p }).setStack stack).rank fuel =
      s.rank fuel := by
  obtain ⟨hfated, hrank⟩ := h.replace_same hlt hf { c with promise := c.promise.setCaller p } rfl
    (fun _ _ _ _ => id) hself (h.frames f c hf) stack
  exact ⟨hfated, Nat.add_right_cancel hrank⟩

/-- A new coroutine is promised the result of its body. -/
lemma Fated.create (h : Fated P world moved read fate fuel s) (hinv : Inv P s owner) (kind : Kind)
    {body : κ} (heval : EvaluatesIn P world moved n body [] r)
    (hnothrow : kind ≠ .future false → ∃ v, r = .ok v) :
    Fated P world moved read (Function.update fate s.count r) (Function.update fuel s.count n)
      (s.create kind body) := by
  have hfresh : ∀ x e, s.frames x = some e → x ≠ s.count ∧ s.count ∉ e.futures := by
    intro x e hx
    refine ⟨(hinv.lt_count hx).ne, fun hmem => ?_⟩
    obtain ⟨d, hd, -⟩ := hinv.child hx hmem
    exact lt_irrefl _ (hinv.lt_count hd)
  have hframes : ∀ x e, (s.create kind body).frames x = some e → s.frames x = some e ∨
      x = s.count ∧ e = Coroutine.mk kind body (.running body) [] .init false [] none 0 := by
    intro x e hx
    by_cases hxc : x = s.count
    · subst hxc
      simp only [State.create, Function.update_self, Option.some.injEq] at hx
      exact Or.inr ⟨rfl, hx.symm⟩
    · simp only [State.create, Function.update_of_ne hxc] at hx
      exact Or.inl hx
  refine ⟨h.terminated, fun x e hx hkind => ?_, fun x e hx => ?_⟩
  · rcases hframes x e hx with hx | ⟨rfl, rfl⟩
    · rw [Function.update_of_ne (hfresh x e hx).1]
      exact h.nothrow x e hx hkind
    · rw [Function.update_self]
      exact hnothrow hkind
  · rcases hframes x e hx with hx | ⟨rfl, rfl⟩
    · obtain ⟨hne, hnot⟩ := hfresh x e hx
      rw [Function.update_of_ne hne, Function.update_of_ne hne]
      refine (h.frames x e hx).mono (fun g hg => ?_) fun g hg hgdone => ?_
      · exact Function.update_of_ne (ne_of_mem_of_not_mem hg hnot) ..
      · have hne : g ≠ s.count := ne_of_mem_of_not_mem hg hnot
        simpa [State.isDone, State.create, hne] using hgdone
    · rw [Function.update_self, Function.update_self]
      exact ⟨heval, fun i g _ hg => by simp at hg⟩

/-- The coroutines keep their promises, with fewer steps to go. -/
def Advances (P : Program L V E κ) (world : L → Except E V) (moved : V → V) (read : κ → Finset ℕ)
    (bound : ℕ) (s : State L V E κ) : Prop :=
  ∃ fate fuel, Fated P world moved read fate fuel s ∧ s.rank fuel < bound

lemma Inv.not_mem_self (h : Inv P s owner) (hf : s.frames f = some c) : f ∉ c.futures :=
  fun hmem => lt_irrefl f (h.ne_child hf hmem)

/-- One frame changes, and gets closer to its end. -/
lemma Fated.advance (h : Fated P world moved read fate fuel s) (hinv : Inv P s owner)
    (hf : s.frames f = some c) (hkind : d.kind = c.kind) (hc : c.pc.isDone = false)
    (hsub : ∀ g ∈ d.futures, g ∈ c.futures)
    (hd : d.Fated P world moved read fate s.isDone n (fate f))
    (hlt : d.weight n < c.weight (fuel f)) (stack : List (Frame × Role E)) :
    Advances P world moved read (s.rank fuel) ((s.setFrame f d).setStack stack) := by
  have hself : f ∉ d.futures := fun hmem => hinv.not_mem_self hf (hsub f hmem)
  refine ⟨fate, _, h.replace hf d hkind (fun _ _ _ _ hdone => ?_) hself hd stack, ?_⟩
  · rw [hc] at hdone
    cases hdone
  · have hrank := State.rank_replace fuel (hinv.lt_count hf) hf n d stack
    omega

/-- At the end of a body all its `Future`s have been awaited. -/
lemma Fated.all_read (h : Fated P world moved read fate fuel s) (hinv : Inv P s owner) {k : κ}
    (hf : s.frames f = some c) (hpc : c.pc = .running k) (hall : ∀ i < P.scope k, i ∈ read k) :
    ReadDone s.isDone c.futures Set.univ := by
  have hscope := (hinv.frames f c hf).scope
  rw [hpc] at hscope
  change P.scope k = c.futures.length at hscope
  intro i g _ hg
  refine ((h.frames f c hf).running hpc).2 i g (hall i ?_) hg
  rw [hscope]
  exact (List.getElem?_eq_some_iff.mp hg).1

section joins
variable (hjoins : P.Joins read) (h : Fated P world moved read fate fuel s) (hinv : Inv P s owner)
include hjoins h hinv

lemma Fated.ret {k : κ} {v : V} (hf : s.frames f = some c) (hpc : c.pc = .running k)
    (hk : P.code k = .ret v) (stack : List (Frame × Role E)) :
    Advances P world moved read (s.rank fuel) ((s.setFrame f { c with
      pc := .ending none, promise := c.promise.returnValue v,
      outcome := some (.ok v) }).setStack stack) := by
  have heval := ((h.frames f c hf).running hpc).1.cases_code
  have hcode := hjoins.code k
  rw [hk] at heval hcode
  have hread := h.all_read hinv hf hpc hcode
  refine h.advance (n := fuel f) hinv hf ?_ ?_ ?_ ?_ ?_ stack
  · rfl
  · rw [hpc]
    rfl
  · exact fun _ => id
  · rw [heval]
    exact ⟨Promise.get_returnValue ((hinv.frames f c hf).inBody (by rw [hpc]; rfl)).2, hread⟩
  · simp only [Coroutine.weight, FramePc.rank, hpc]
    omega

lemma Fated.throw {k : κ} {e : E} (hf : s.frames f = some c) (hpc : c.pc = .running k)
    (hk : P.code k = .throw e) (stack : List (Frame × Role E)) :
    Advances P world moved read (s.rank fuel)
      ((s.setFrame f { c with pc := .ending (some e) }).setStack stack) := by
  have heval := ((h.frames f c hf).running hpc).1.cases_code
  have hcode := hjoins.code k
  rw [hk] at heval hcode
  have hread := h.all_read hinv hf hpc hcode
  refine h.advance (n := fuel f) hinv hf ?_ ?_ ?_ ?_ ?_ stack
  · rfl
  · rw [hpc]
    rfl
  · exact fun _ => id
  · exact ⟨heval, hread⟩
  · simp only [Coroutine.weight, FramePc.rank, hpc]
    omega

/-- The operation is performed, and goes on at once or later. -/
lemma Fated.perform {k : κ} {l : L} {next : Except E V → κ} (hf : s.frames f = some c)
    (hpc : c.pc = .running k) (hk : P.code k = .perform l next) {pc : FramePc L V E κ}
    (hd : pc = .running (next (world l)) ∨ pc = .operation l next) (registered : Bool)
    (stack : List (Frame × Role E)) : Advances P world moved read (s.rank fuel)
      ((s.setFrame f { c with
        pc := pc, operations := c.operations ++ [l],
        registered := registered }).setStack stack) := by
  obtain ⟨heval, hread⟩ := (h.frames f c hf).running hpc
  have hcode := hjoins.code k
  have hcases := heval.cases_code
  rw [hk] at hcases hcode
  obtain ⟨n, hn, hnext⟩ := hcases
  refine h.advance (n := n) hinv hf ?_ ?_ ?_ ?_ ?_ stack
  · rfl
  · rw [hpc]
    rfl
  · exact fun _ => id
  · have hfated : EvaluatesIn P world moved n (next (world l)) (c.futures.map fate) (fate f) ∧
        ReadDone s.isDone c.futures {i | i ∈ read (next (world l))} :=
      ⟨hnext, hread.mono (hcode _) fun _ _ => id⟩
    rcases hd with rfl | rfl <;> exact hfated
  · rw [Coroutine.weight, Coroutine.weight, hpc, hn]
    rcases hd with rfl | rfl <;> simp only [FramePc.rank] <;> omega

/-- The coroutine begins to await. -/
lemma Fated.await {k : κ} {i : ℕ} {next : Except E V → κ} (hf : s.frames f = some c)
    (hpc : c.pc = .running k) (hk : P.code k = .await i next) (hi : c.futures[i]? = some g)
    {pc : FramePc L V E κ} (hd : pc = .awaitResume g next ∨ pc = .awaiting g next)
    (stack : List (Frame × Role E)) :
    Advances P world moved read (s.rank fuel)
      ((s.setFrame f { c with pc := pc }).setStack stack) := by
  obtain ⟨heval, hread⟩ := (h.frames f c hf).running hpc
  have hcode := hjoins.code k
  have hcases := heval.cases_code
  rw [hk] at hcases hcode
  obtain ⟨n, o, hn, ho, hnext⟩ := hcases
  rw [List.getElem?_map, hi] at ho
  cases ho
  refine h.advance (n := n) hinv hf ?_ ?_ ?_ ?_ ?_ stack
  · rfl
  · rw [hpc]
    rfl
  · exact fun _ => id
  · have hsub : {j | j ∈ read (next (fate g)) ∧ j ≠ i} ⊆ {j | j ∈ read k} := by
      rintro j ⟨hj, hne⟩
      exact (hcode _ j hj).resolve_left hne
    have hfated : ∃ j, c.futures[j]? = some g ∧ EvaluatesIn P world moved n (next (fate g))
        ((c.futures.map fate).set j ((fate g).map moved)) (fate f) ∧
        ReadDone s.isDone c.futures {x | x ∈ read (next (fate g)) ∧ x ≠ j} :=
      ⟨i, hi, hnext, hread.mono hsub fun _ _ => id⟩
    rcases hd with rfl | rfl <;> exact hfated
  · rw [Coroutine.weight, Coroutine.weight, hpc, hn]
    rcases hd with rfl | rfl <;> simp only [FramePc.rank] <;> omega

lemma Fated.drop {k next : κ} (hf : s.frames f = some c) (hpc : c.pc = .running k)
    (hk : P.code k = .drop next) (stack : List (Frame × Role E)) :
    Advances P world moved read (s.rank fuel) ((s.setFrame f { c with
      pc := .running next, futures := c.futures.dropLast }).setStack stack) := by
  obtain ⟨heval, hread⟩ := (h.frames f c hf).running hpc
  have hcode := hjoins.code k
  have hcases := heval.cases_code
  rw [hk] at hcases hcode
  obtain ⟨n, hn, hnext⟩ := hcases
  refine h.advance (n := n) hinv hf ?_ ?_ ?_ ?_ ?_ stack
  · rfl
  · rw [hpc]
    rfl
  · exact fun _ => List.mem_of_mem_dropLast
  · refine ⟨?_, fun i x hi hx => hread i x (hcode.2 i hi) ?_⟩
    · dsimp only
      rw [List.map_dropLast]
      exact hnext
    · rw [List.getElem?_dropLast] at hx
      split at hx
      · exact hx
      · cases hx
  · simp only [Coroutine.weight, FramePc.rank, hpc, hn, List.length_dropLast]
    omega

/-- A coroutine is called, and its result is awaited later. -/
lemma Fated.callIn {k body next : κ} {nothrow : Bool} (hf : s.frames f = some c)
    (hpc : c.pc = .running k) (hk : P.code k = .call nothrow body next) :
    Advances P world moved read (s.rank fuel) ((s.setFrame f { c with
      pc := .running next, futures := c.futures ++ [s.count] }).create (.future nothrow) body) := by
  obtain ⟨heval, hread⟩ := (h.frames f c hf).running hpc
  have hcode := hjoins.code k
  have hcases := heval.cases_code
  rw [hk] at hcases hcode
  obtain ⟨m, n, o, hmn, hbody, hthrow, hnext⟩ := hcases
  have hscope := (hinv.frames f c hf).scope
  rw [hpc] at hscope
  change P.scope k = c.futures.length at hscope
  have hlt := hinv.lt_count hf
  have hold : ∀ g ∈ c.futures, g ≠ s.count := by
    rintro g hg rfl
    obtain ⟨d, hd, -⟩ := hinv.child hf hg
    exact lt_irrefl _ (hinv.lt_count hd)
  have hnothrow : Kind.future nothrow ≠ .future false → ∃ v, o = .ok v := by
    intro hne
    refine hthrow ?_
    cases nothrow
    · exact absurd rfl hne
    · rfl
  have hcreate := h.create hinv (.future nothrow) hbody hnothrow
  have hf' : (s.create (.future nothrow) body).frames f = some c := by
    rw [← hf]
    exact Function.update_of_ne hlt.ne ..
  have hself : f ∉ c.futures ++ [s.count] := by
    rw [List.mem_append, List.mem_singleton, not_or]
    exact ⟨hinv.not_mem_self hf, hlt.ne⟩
  have hfated : Coroutine.Fated P world moved read (Function.update fate s.count o)
      (s.create (.future nothrow) body).isDone n (Function.update fate s.count o f)
      { c with pc := .running next, futures := c.futures ++ [s.count] } := by
    refine ⟨?_, fun i g hi hg => ?_⟩
    · have hmap : c.futures.map (Function.update fate s.count o) = c.futures.map fate :=
        List.map_congr_left fun g hg => Function.update_of_ne (hold g hg) ..
      rw [List.map_append, hmap, Function.update_of_ne hlt.ne]
      simpa using hnext
    · have hik := hcode i hi
      rw [List.getElem?_append_left (hscope ▸ hjoins.bound k i hik)] at hg
      have hne := hold g (List.mem_of_getElem? hg)
      simpa [State.isDone, State.create, hne] using hread i g hik hg
  have hdone : ∀ x e, (s.create (.future nothrow) body).frames x = some e → f ∈ e.futures →
      c.pc.isDone = true → FramePc.isDone (L := L) (V := V) (E := E) (.running next) = true := by
    intro x e _ _ hc
    rw [hpc] at hc
    cases hc
  have hstate : (s.setFrame f { c with
      pc := .running next, futures := c.futures ++ [s.count] }).create (.future nothrow) body =
      (((s.create (.future nothrow) body).setFrame f { c with
        pc := .running next, futures := c.futures ++ [s.count] }).setStack
          ((s.count, .body) :: s.stack)) := by
    simp only [State.create, State.setFrame, State.setStack,
      Function.update_comm hlt.ne]
  rw [hstate]
  refine ⟨_, _, hcreate.replace hf' { c with
    pc := .running next, futures := c.futures ++ [s.count] } rfl hdone hself hfated _, ?_⟩
  have hrank := State.rank_replace (Function.update fuel s.count m)
    (hlt.trans (Nat.lt_succ_self _) : f < (s.create (.future nothrow) body).count) hf' n
    { c with pc := .running next, futures := c.futures ++ [s.count] }
    ((s.count, .body) :: s.stack)
  rw [State.rank_create, Function.update_of_ne hlt.ne] at hrank
  simp only [Coroutine.weight, FramePc.rank, hpc, hmn, List.length_append,
    List.length_singleton] at hrank
  omega

end joins

section
variable (h : Fated P world moved read fate fuel s) (hinv : Inv P s owner)
include h hinv

/-- A result is read, and moved out of the promise. -/
lemma Fated.awaitResume {next : Except E V → κ} {o : Except E V} (hf : s.frames f = some c)
    (hpc : c.pc = .awaitResume g next) (hg : s.frames g = some d) (hd : d.pc.isDone = true)
    (ho : d.promise.get = some o) : Advances P world moved read (s.rank fuel)
      ((s.setFrame f { c with pc := .running (next o) }).setFrame g
        { d with promise := d.promise.moveOut moved }) := by
  have howner := (hinv.handshake.resumes f g (by rw [State.resumes_eq hf, hpc]; rfl)).1
  have hfg : f ≠ g := by
    rintro rfl
    rw [hf] at hg
    cases hg
    rw [hpc] at hd
    cases hd
  have hfate : o = fate g := by
    have hfated := h.frames g d hg
    unfold Coroutine.Fated at hfated
    rw [FramePc.eq_done hd] at hfated
    exact Option.some.inj (ho.symm.trans hfated)
  have hg' : (s.setFrame f { c with pc := .running (next o) }).frames g = some d := by
    rw [State.setFrame_frames, Function.update_of_ne hfg.symm, hg]
  have hdone : ((s.setFrame f { c with pc := .running (next o) }).setFrame g
      { d with promise := d.promise.moveOut moved }).isDone = s.isDone := by
    rw [State.setFrame_isDone, ← State.isDone_eq hg', Function.update_eq_self,
      State.setFrame_isDone, Function.update_eq_self_iff, State.isDone_eq hf, hpc]
    rfl
  refine ⟨Function.update fate g (o.map moved), fuel, ⟨h.terminated, ?_, ?_⟩, ?_⟩
  · refine State.forall_setFrame (fun hkind => ?_) fun x e hxg hx hkind => ?_
    · obtain ⟨v, hv⟩ := h.nothrow g d hg hkind
      rw [Function.update_self, hfate, hv]
      exact ⟨moved v, rfl⟩
    · rw [Function.update_of_ne hxg]
      by_cases hxf : x = f
      · subst hxf
        rw [State.setFrame_frames, Function.update_self] at hx
        cases hx
        exact h.nothrow x c hf hkind
      · rw [State.setFrame_frames, Function.update_of_ne hxf] at hx
        exact h.nothrow x e hx hkind
  · rw [hdone]
    refine State.forall_setFrame ?_ fun x e hxg hx => ?_
    · unfold Coroutine.Fated
      rw [FramePc.eq_done hd, Function.update_self]
      exact Promise.get_moveOut ho
    · rw [Function.update_of_ne hxg]
      by_cases hxf : x = f
      · subst hxf
        rw [State.setFrame_frames, Function.update_self] at hx
        cases hx
        have hfated := h.frames x c hf
        unfold Coroutine.Fated at hfated
        rw [hpc] at hfated
        obtain ⟨i, hi, heval, hread⟩ := hfated
        rw [← hfate] at heval hread
        refine ⟨?_, fun j y hj hy => ?_⟩
        · dsimp only
          rw [map_update_of_getElem? (hinv.frames x c hf).nodup hi]
          exact heval
        · by_cases hji : j = i
          · subst hji
            rw [hi] at hy
            cases hy
            rw [State.isDone_eq hg, hd]
          · exact hread j y ⟨hj, hji⟩ hy
      · rw [State.setFrame_frames, Function.update_of_ne hxf] at hx
        refine (h.frames x e hx).mono (fun y hy => Function.update_of_ne ?_ ..) fun _ _ => id
        rintro rfl
        have hnested := ((hinv.frames x e hx).nested y).mp hy
        rw [howner] at hnested
        cases hnested
        exact hxf rfl
  · have hfirst := State.rank_replace fuel (hinv.lt_count hf) hf (fuel f)
      { c with pc := .running (next o) } s.stack
    have hsecond := State.rank_replace (s := s.setFrame f { c with pc := .running (next o) })
      fuel (hinv.lt_count hg) hg' (fuel g)
      { d with promise := d.promise.moveOut moved } s.stack
    rw [Function.update_eq_self] at hfirst hsecond
    change (s.setFrame f { c with pc := .running (next o) }).rank fuel + _ = _ at hfirst
    change ((s.setFrame f { c with pc := .running (next o) }).setFrame g
      { d with promise := d.promise.moveOut moved }).rank fuel + _ = _ at hsecond
    simp only [Coroutine.weight, FramePc.rank, hpc] at hfirst hsecond
    omega

lemma Fated.finalDrop {e : Option E} (hf : s.frames f = some c) (hpc : c.pc = .ending e)
    (hg : c.futures.getLast? = some g) (stack : List (Frame × Role E)) :
    Advances P world moved read (s.rank fuel)
      ((s.setFrame f { c with futures := c.futures.dropLast }).setStack stack) := by
  have hfated := h.frames f c hf
  have hread := hfated.ending_done hpc
  have hreadLast : ReadDone s.isDone c.futures.dropLast Set.univ := by
    intro i x hi hx
    rw [List.getElem?_dropLast] at hx
    split at hx
    · exact hread i x hi hx
    · cases hx
  have hlength : 0 < c.futures.length := List.length_pos_of_mem (List.mem_of_getLast? hg)
  refine h.advance (n := fuel f) hinv hf ?_ ?_ ?_ ?_ ?_ stack
  · rfl
  · rw [hpc]
    rfl
  · exact fun _ => List.mem_of_mem_dropLast
  · unfold Coroutine.Fated at hfated ⊢
    rw [hpc] at hfated ⊢
    cases e with
    | none => exact ⟨hfated.1, hreadLast⟩
    | some e => exact ⟨hfated.1, hreadLast⟩
  · simp only [Coroutine.weight, List.length_dropLast]
    omega

lemma Fated.unhandled {e : E} (hf : s.frames f = some c) (hpc : c.pc = .ending (some e))
    (stack : List (Frame × Role E)) : Advances P world moved read (s.rank fuel)
      ((s.setFrame f { c with
        pc := .ending none, promise := c.promise.unhandledException e,
        outcome := some (.error e) }).setStack stack) := by
  have hfated := h.frames f c hf
  unfold Coroutine.Fated at hfated
  rw [hpc] at hfated
  refine h.advance (n := fuel f) hinv hf ?_ ?_ ?_ ?_ ?_ stack
  · rfl
  · rw [hpc]
    rfl
  · exact fun _ => id
  · rw [hfated.1]
    exact ⟨Promise.get_unhandledException, hfated.2⟩
  · simp only [Coroutine.weight, FramePc.rank, hpc]
    omega

/-- A coroutine at its end has the result that it was promised. -/
lemma Fated.finish (hf : s.frames f = some c) (hpc : c.pc = .ending none)
    (stack : List (Frame × Role E)) :
    Fated P world moved read fate fuel ((s.setFrame f { c with pc := .done }).setStack stack) ∧
    ((s.setFrame f { c with pc := .done }).setStack stack).rank fuel < s.rank fuel := by
  have hfated := h.frames f c hf
  unfold Coroutine.Fated at hfated
  rw [hpc] at hfated
  have hself := hinv.not_mem_self hf
  obtain ⟨hsame, hrank⟩ := h.replace_same (hinv.lt_count hf) hf { c with pc := .done } rfl
    (fun _ _ _ _ _ => rfl) hself hfated.1 stack
  refine ⟨hsame, ?_⟩
  simp only [Coroutine.weight, FramePc.rank, hpc] at hrank
  omega

lemma Fated.finalTransfer {p : Frame} {next : Except E V → κ} (hf : s.frames f = some c)
    (hpc : c.pc = .ending none) (hp : s.frames p = some d) (hd : d.pc = .awaiting f next)
    (stack : List (Frame × Role E)) : Advances P world moved read (s.rank fuel)
      (((s.setFrame f { c with pc := .done }).setFrame p
        { d with pc := .awaitResume f next }).setStack stack) := by
  obtain ⟨hfirst, hlt⟩ := h.finish hinv hf hpc s.stack
  have hpf : p ≠ f := by
    rintro rfl
    rw [hf] at hp
    cases hp
    rw [hpc] at hd
    cases hd
  have hp' : ((s.setFrame f { c with pc := .done }).setStack s.stack).frames p = some d := by
    rw [State.setStack_frames, State.setFrame_frames, Function.update_of_ne hpf, hp]
  have hfated := hfirst.frames p d hp'
  unfold Coroutine.Fated at hfated
  rw [hd] at hfated
  have hself := hinv.not_mem_self hp
  obtain ⟨hsame, hrank⟩ := hfirst.replace_same (hinv.lt_count hp) hp'
    { d with pc := .awaitResume f next } rfl (fun _ _ _ _ hdone => by rw [hd] at hdone; cases hdone)
    hself hfated stack
  refine ⟨fate, fuel, hsame, ?_⟩
  simp only [Coroutine.weight, FramePc.rank, hd] at hrank
  change ((((s.setFrame f { c with pc := .done }).setStack s.stack).setFrame p
    { d with pc := .awaitResume f next }).setStack stack).rank fuel < _
  omega

/-- The frame is destroyed, and nobody awaits it any more. -/
lemma Fated.destroy (hstack : s.stack = (f, .destroy) :: rest) (hf : s.frames f = some c)
    (hpc : c.pc = .done) (stack : List (Frame × Role E)) :
    Advances P world moved read (s.rank fuel) ((s.setFrame f { c with
      pc := .destroyed, destroyed := c.destroyed + 1 }).setStack stack) := by
  obtain ⟨c', hf', hrole⟩ := hinv.top hstack
  rw [hf] at hf'
  cases hf'
  have hdying := Coroutine.role_destroy hrole
  have hself := hinv.not_mem_self hf
  have hnot : ∀ x e, s.frames x = some e → f ∉ e.futures := by
    intro x e hx hmem
    have hnested := ((hinv.frames x e hx).nested f).mp hmem
    rw [hdying] at hnested
    cases hnested
  obtain ⟨hsame, hrank⟩ := h.replace_same (hinv.lt_count hf) hf { c with
    pc := .destroyed, destroyed := c.destroyed + 1 } rfl
    (fun x e hx hmem _ => absurd hmem (hnot x e hx)) hself trivial stack
  refine ⟨fate, fuel, hsame, ?_⟩
  simp only [Coroutine.weight, FramePc.rank, hpc] at hrank
  omega

/-- The frame of a `TrivialFuture` ends. -/
lemma Fated.finalTrivial (hf : s.frames f = some c) (hpc : c.pc = .ending none)
    (stack : List (Frame × Role E)) : Advances P world moved read (s.rank fuel)
      ((s.setFrame f { c with pc := .destroyed, destroyed := c.destroyed + 1 }).setStack
        stack) := by
  refine h.advance (n := fuel f) hinv hf ?_ ?_ ?_ ?_ ?_ stack
  · rfl
  · rw [hpc]
    rfl
  · exact fun _ => id
  · trivial
  · simp only [Coroutine.weight, FramePc.rank, hpc]
    omega

lemma Fated.resume {l : L} {next : Except E V → κ} (hf : s.frames f = some c)
    (hpc : c.pc = .operation l next) (stack : List (Frame × Role E)) :
    Advances P world moved read (s.rank fuel) ((s.setFrame f { c with
      pc := .running (next (world l)), registered := false }).setStack stack) := by
  have hfated := h.frames f c hf
  unfold Coroutine.Fated at hfated
  rw [hpc] at hfated
  refine h.advance (n := fuel f) hinv hf ?_ ?_ ?_ ?_ ?_ stack
  · rfl
  · rw [hpc]
    rfl
  · exact fun _ => id
  · exact hfated
  · simp only [Coroutine.weight, FramePc.rank, hpc]
    omega

/-- A `Future` that goes out of scope has been awaited. -/
lemma Fated.joined (hjoins : P.Joins read) (ready : Bool) : Joined P s (.run ready) := by
  intro g hg d hd
  rw [← State.isDone_eq hd]
  unfold dropped at hg
  cases hstack : s.stack with
  | nil =>
    rw [hstack] at hg
    cases hg
  | cons top rest =>
    obtain ⟨f, role⟩ := top
    obtain ⟨c, hf, hrole⟩ := hinv.top hstack
    have hlast : ∀ x, c.futures.getLast? = some x →
        c.futures[c.futures.length - 1]? = some x := by
      intro x hx
      rwa [← List.getLast?_eq_getElem?]
    simp only [hstack, hf] at hg
    cases role with
    | body =>
      rcases Coroutine.role_body hrole with ⟨k, hpc⟩ | ⟨y, next, hpc⟩
      · simp only [hpc] at hg
        have hcode := hjoins.code k
        have hscoped := hinv.scoped hf hpc
        cases hk : P.code k with
        | drop next =>
          rw [hk] at hg hcode hscoped
          refine ((h.frames f c hf).running hpc).2 (P.scope next) g hcode.1 ?_
          have hlength : c.futures.length - 1 = P.scope next := by
            rw [hscoped]
            rfl
          rw [← hlength]
          exact hlast g hg
        | ret | throw | call | await | perform =>
          rw [hk] at hg
          cases hg
      · simp only [hpc] at hg
        cases hg
    | final e =>
      have hread := (h.frames f c hf).ending_done (Coroutine.role_final hrole)
      exact hread _ g trivial (hlast g hg)
    | destroy =>
      have hlocal := hinv.frames f c hf
      have hdone := FramePc.eq_done (hlocal.dying (Coroutine.role_destroy hrole))
      rw [hlocal.ended (by rw [hdone]; rfl)] at hg
      cases hg

end

/-- A step of a coroutine brings it closer to its end. -/
theorem Fated.step (hjoins : P.Joins read) (h : Fated P world moved read fate fuel s)
    (hinv : Inv P s owner) {a : Action κ} (hm : Move P world moved s a s')
    (hcall : ∀ kind body, a ≠ .call kind body) (hrelease : ∀ f, a ≠ .release f) :
    Advances P world moved read (s.rank fuel) s' := by
  cases hm with
  | @call kind body _ => exact absurd rfl (hcall kind body)
  | ret hstack hf hpc hk => exact h.ret hjoins hinv hf hpc hk _
  | throw hstack hf hpc hk => exact h.throw hjoins hinv hf hpc hk _
  | callIn hstack hf hpc hk => exact h.callIn hjoins hinv hf hpc hk
  | awaitReady hstack hf hpc hk hi hg hd =>
    exact h.await hjoins hinv hf hpc hk hi (.inl rfl) s.stack
  | @awaitSuspend _ f c rest k i next g d hstack hf hpc hk hi hg hd =>
    have hfg : g ≠ f := (hinv.ne_child hf (List.mem_of_getElem? hi)).ne'
    obtain ⟨fate', fuel', hfirst, hlt⟩ := h.await hjoins hinv hf hpc hk hi (.inr rfl) s.stack
    have hg' : ((s.setFrame f { c with pc := .awaiting g next }).setStack s.stack).frames g =
        some d := by
      rw [State.setStack_frames, State.setFrame_frames, Function.update_of_ne hfg, hg]
    have hself := hinv.not_mem_self hg
    obtain ⟨hsecond, hrank⟩ := hfirst.setCaller (hinv.lt_count hg) hg' hself f rest
    exact ⟨fate', fuel', hsecond, hrank.trans_lt hlt⟩
  | awaitResume hstack hf hpc hg hd ho => exact h.awaitResume hinv hf hpc hg hd ho
  | performReady hstack hf hpc hk =>
    exact h.perform hjoins hinv hf hpc hk (.inl rfl) _ s.stack
  | performSuspend hstack hf hpc hk => exact h.perform hjoins hinv hf hpc hk (.inr rfl) _ _
  | drop hstack hf hpc hk hg _ => exact h.drop hjoins hinv hf hpc hk _
  | finalDrop hstack hf hpc hg _ => exact h.finalDrop hinv hf hpc hg _
  | unhandled hstack hf hpc _ _ => exact h.unhandled hinv hf hpc _
  | @terminate _ f c _ e hstack hf hpc _ hkind =>
    have hfated := h.frames f c hf
    unfold Coroutine.Fated at hfated
    rw [hpc] at hfated
    obtain ⟨v, hv⟩ := h.nothrow f c hf hkind
    rw [hv] at hfated
    cases hfated.1
  | finalTrivial hstack hf hpc _ _ => exact h.finalTrivial hinv hf hpc _
  | finalDone hstack hf hpc _ _ _ => exact ⟨fate, fuel, h.finish hinv hf hpc _⟩
  | finalTransfer hstack hf hpc _ _ _ hp hd => exact h.finalTransfer hinv hf hpc hp hd _
  | destroy hstack hf hpc _ => exact h.destroy hinv hstack hf hpc _
  | resume hf hpc => exact h.resume hinv hf hpc _
  | @release f _ _ => exact absurd rfl (hrelease f)

/-! ### All runs -/

/-- Calls from outside are of bodies that have a meaning in direct style, without an exception if
they must not throw, and a `Future` that is held outside ends when its coroutine is done. -/
def Meant (P : Program L V E κ) (world : L → Except E V) (moved : V → V) (s : State L V E κ) :
    Action κ → Prop
  | .call kind body => ∃ t r, Evaluates P world moved body [] t r ∧
      (kind ≠ .future false → ∃ v, r = .ok v)
  | .run _ | .resume _ => True
  | .release f => ∀ c ∈ s.frames f, c.pc.isDone = true

/-- The coroutines go on, and operations come to their ends. -/
def Action.inner : Action κ → Prop
  | .run _ | .resume _ => True
  | .call .. | .release _ => False

lemma Fated.joined_of_meant (hjoins : P.Joins read) (h : Fated P world moved read fate fuel s)
    (hinv : Inv P s owner) {a : Action κ} (hmeant : Meant P world moved s a) : Joined P s a := by
  cases a with
  | call kind body => nofun
  | run ready => exact h.joined hinv hjoins ready
  | resume f => nofun
  | release f =>
    intro g hg
    cases hg
    exact hmeant

lemma Fated.call (h : Fated P world moved read fate fuel s) (hinv : Inv P s owner) {kind : Kind}
    {body : κ} (hmeant : Meant P world moved s (.call kind body)) (roots : List Frame) :
    ∃ fate fuel, Fated P world moved read fate fuel
      { s.create kind body with roots := roots } := by
  obtain ⟨t, r, heval, hnothrow⟩ := hmeant
  obtain ⟨n, hn⟩ := heval.exists_in
  have hcreate := h.create hinv kind hn hnothrow
  exact ⟨_, _, hcreate.terminated, hcreate.nothrow, hcreate.frames⟩

/-- What all runs keep. -/
structure Completing (P : Program L V E κ) (world : L → Except E V) (moved : V → V)
    (read : κ → Finset ℕ) (s : State L V E κ) : Prop where
  inv : ∃ owner, Inv P s owner
  meaningful : Meaningful P world moved s
  fated : ∃ fate fuel, Fated P world moved read fate fuel s

lemma Completing.move (hjoins : P.Joins read) (h : Completing P world moved read s) {a : Action κ}
    (hmeant : Meant P world moved s a) (hs : step P world moved s a = some s') :
    Move P world moved s a s' := by
  obtain ⟨⟨owner, hinv⟩, -, fate, fuel, hfated⟩ := h
  exact hinv.move (hfated.joined_of_meant hjoins hinv hmeant) hs

lemma Completing.step (hjoins : P.Joins read) (h : Completing P world moved read s) {a : Action κ}
    (hmeant : Meant P world moved s a) (hs : step P world moved s a = some s') :
    Completing P world moved read s' := by
  have hm := h.move hjoins hmeant hs
  obtain ⟨⟨owner, hinv⟩, hmeaningful, fate, fuel, hfated⟩ := h
  refine ⟨hinv.step hm, hmeaningful.step hinv hfated.terminated hm, ?_⟩
  cases a with
  | call kind body =>
    cases hm
    exact hfated.call hinv hmeant _
  | run ready =>
    obtain ⟨fate', fuel', hfated', -⟩ := hfated.step hjoins hinv hm nofun nofun
    exact ⟨fate', fuel', hfated'⟩
  | resume f =>
    obtain ⟨fate', fuel', hfated', -⟩ := hfated.step hjoins hinv hm nofun nofun
    exact ⟨fate', fuel', hfated'⟩
  | release f =>
    cases hm
    exact ⟨fate, fuel, hfated.terminated, hfated.nothrow, hfated.frames⟩

theorem reaches_completing [Inhabited V] (hjoins : P.Joins read)
    (h : (system P world moved).Reaches (Meant P world moved) s) :
    Completing P world moved read s := by
  refine h.invariant ⟨⟨_, inv_init⟩, ⟨nofun, nofun⟩,
    ⟨fun _ => .ok default, fun _ => 0, rfl, nofun, nofun⟩⟩ ?_
  intro s a s' _ ih hmeant hs
  exact ih.step hjoins hmeant hs

/-- As long as the program is not finished a coroutine can go on, or be resumed. -/
lemma Inv.inner_enabled (h : Inv P s owner) (hmeaningful : Meaningful P world moved s)
    (hlive : s.terminated = false) (hnot : ¬Finished P world moved s) :
    ∃ a s', Action.inner a ∧ (system P world moved).step s a = some s' := by
  by_cases hstack : s.stack = []
  · obtain ⟨f, c, hf, hregistered⟩ : ∃ f c, s.frames f = some c ∧ c.registered = true := by
      by_contra hnone
      push Not at hnone
      exact hnot (h.finished hmeaningful hstack fun f c hf => Bool.eq_false_iff.mpr (hnone f c hf))
    obtain ⟨s', hs'⟩ := h.resume_enabled hlive hf hregistered
    exact ⟨.resume f, s', trivial, hs'⟩
  · obtain ⟨s', hs'⟩ := h.run_enabled hlive hstack true
    exact ⟨.run true, s', trivial, hs'⟩

/-- Where bodies come to their ends in direct style and await all that they call, the program comes
to its end in every order of completions and resumptions. -/
theorem coroutines_end_in_every_order [Inhabited V] (hjoins : P.Joins read)
    (h : (system P world moved).Reaches (Meant P world moved) s) :
    s.fault = false ∧ s.terminated = false ∧
    (system P world moved).Leads (fun _ a => a.inner) (fun _ _ => True)
      (Finished P world moved) s := by
  obtain ⟨⟨owner, hinv⟩, hmeaningful, fate, fuel, hfated⟩ := reaches_completing hjoins h
  refine ⟨hinv.fault, hfated.terminated, ?_⟩
  refine System.leads_of_rank (n := s.rank fuel) (I := fun n s => (∃ owner, Inv P s owner) ∧
    Meaningful P world moved s ∧
    ∃ fate fuel, Fated P world moved read fate fuel s ∧ s.rank fuel = n) ?_ ?_
    ⟨⟨owner, hinv⟩, hmeaningful, fate, fuel, hfated, rfl⟩
  · rintro n s ⟨⟨owner, hinv⟩, hmeaningful, fate, fuel, hfated, -⟩ hnot
    exact hinv.inner_enabled hmeaningful hfated.terminated hnot
  · rintro n s a s' ⟨⟨owner, hinv⟩, hmeaningful, fate, fuel, hfated, rfl⟩ - hinner - hs
    have hmeant : Meant P world moved s a := by
      cases a <;> trivial
    have hm := hinv.move (hfated.joined_of_meant hjoins hinv hmeant) hs
    obtain ⟨fate', fuel', hfated', hlt⟩ := hfated.step hjoins hinv hm
      (by rintro kind body rfl; exact hinner) (by rintro f rfl; exact hinner)
    exact ⟨_, hlt, hinv.step hm, hmeaningful.step hinv hfated.terminated hm, fate', fuel', hfated',
      rfl⟩

/-- The steps of the coroutines, and calls of the caller from outside. -/
def EntryCalls (_ : State Unit ℤ Empty TestPoint) : Action TestPoint → Prop
  | .call _ body => body = .entry
  | .run _ | .resume _ => True
  | .release _ => False

instance (s : State Unit ℤ Empty TestPoint) : ∀ a, Decidable (EntryCalls s a)
  | .call _ body => inferInstanceAs (Decidable (body = .entry))
  | .run _ | .resume _ => isTrue trivial
  | .release _ => isFalse id

lemma evaluates_testSuccess :
    Evaluates testSuccess (fun _ => .ok 0) id .entry [] [] (.ok 42) := by
  have hsleep : Evaluates testSuccess (fun _ => .ok 0) id .sleep [] [()] (.ok 42) :=
    .perform rfl (.ret rfl)
  have hnothrow : true = true → ∃ v : ℤ, (.ok 42 : Except Empty ℤ) = .ok v := fun _ => ⟨42, rfl⟩
  refine .call rfl hsleep hnothrow ?_
  refine .call rfl hsleep hnothrow ?_
  have hsecond : testSuccess.code .secondCalled = .await 1 fun _ => .secondRead := rfl
  refine .await hsecond rfl ?_
  refine .drop rfl ?_
  exact .await rfl rfl (.ret rfl)

lemma EntryCalls.meant {s : State Unit ℤ Empty TestPoint} {a : Action TestPoint}
    (h : EntryCalls s a) : Meant testSuccess (fun _ => .ok 0) id s a := by
  cases a with
  | call kind body =>
    obtain rfl : body = .entry := h
    exact ⟨_, _, evaluates_testSuccess, fun _ => ⟨_, rfl⟩⟩
  | run | resume => trivial
  | release => exact h.elim

/-- The caller waits for its second `Future`, and both `Future`s are suspended. -/
theorem test_success_ends_in_every_order :
    ∃ s, (system testSuccess (fun _ => .ok 0) id).Reaches
        (Meant testSuccess (fun _ => .ok 0) id) s ∧ s.count = 3 ∧ s.stack = [] ∧
      (s.frames 1).any Coroutine.registered ∧ (s.frames 2).any Coroutine.registered ∧
      (system testSuccess (fun _ => .ok 0) id).Leads (fun _ a => a.inner) (fun _ _ => True)
        (Finished testSuccess (fun _ => .ok 0) id) s := by
  obtain ⟨s, hs, hcount, hstack, hfirst, hsecond⟩ := System.exists_reaches
    (S := system testSuccess (fun _ => .ok 0) id) EntryCalls
    (fun s => s.count = 3 ∧ s.stack.isEmpty ∧ (s.frames 1).any Coroutine.registered ∧
      (s.frames 2).any Coroutine.registered)
    (.call (.future true) .entry :: List.replicate 5 (.run false)) (by decide)
  have hmeant := hs.mono fun _ _ ha => EntryCalls.meant ha
  exact ⟨s, hmeant, hcount, List.isEmpty_iff.mp hstack, hfirst, hsecond,
    (coroutines_end_in_every_order testSuccess_joins hmeant).2.2⟩

end

end Scoro.Composition

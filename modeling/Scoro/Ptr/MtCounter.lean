import Scoro.Ptr.IntrusivePtr

/-!
# `intrusive_ref_counter_mt`

Threads that share objects, each with `intrusive_ptr` variables of its own, which it may give to
another thread. A step is one operation on one count (`fetch_add`, `fetch_sub`), and the deleter
runs in a later step than the `fetch_sub` that has read `1`. A thread knows of an access by another
one when the access happens before what it does: `fetch_sub` acquires and releases, `fetch_add` is
relaxed, and all of them belong to the release sequences of the count.
-/

namespace Scoro.MtCounter
open Scoro.Lib
open IntrusivePtr (Obj Plain Balanced CountsHolders)

/-- How many accesses of each thread are known. -/
abbrev Clock (T : Type*) := T → ℕ

/-- A variable belongs to a thread, or it is on its way to one, with what its last thread has
known. -/
inductive Place (T : Type*) where
  | thread (t : T)
  | between (v : Clock T)

/-- `released o` is what a `fetch_sub` on the count of `o` acquires. `deleting` is the thread that
will run the deleter. The last access to each object by each thread, and the clocks with which the
deleter has run, are history. `fault` is set by an access to an object that is not live. -/
structure State (T X O : Type*) where
  ptrs : IntrusivePtr.State X O
  place : X → Place T
  clock : T → Clock T
  released : O → Clock T
  deleting : O → Option T
  used : O → Clock T
  freed : O → List (Clock T)
  fault : Bool

/-- `make` is `make_intrusive`. An assignment is a copy, a swap and the destruction of the temporary
variable. `sync` stands for any synchronisation from `t` to `u` besides. -/
inductive Action (T X O : Type*) where
  | make (t : T) (x : X) (o : O)
  | copy (t : T) (x oth : X)
  | move (t : T) (x oth : X)
  | swap (t : T) (x rhs : X)
  | reset (t : T) (x : X)
  | destroy (t : T) (x : X)
  | use (t : T) (x : X)
  | deleter (t : T) (o : O)
  | send (t : T) (x : X)
  | receive (t : T) (x : X)
  | sync (t u : T)

section step
variable {T X O : Type*} [DecidableEq T] [DecidableEq X] [DecidableEq O]

def init (T X O : Type*) : State T X O where
  ptrs := IntrusivePtr.init X O
  place := fun _ => .between 0
  clock := fun _ => 0
  released := fun _ => 0
  deleting := fun _ => none
  used := fun _ => 0
  freed := fun _ => []
  fault := false

namespace State

def owns (s : State T X O) (t : T) (x : X) : Bool :=
  match s.place x with
  | .thread u => u = t
  | .between _ => false

def setPtrs (s : State T X O) (ptrs : IntrusivePtr.State X O) : State T X O :=
  { s with ptrs := ptrs }

/-- The thread `t` accesses `o`. -/
def touch (s : State T X O) (t : T) (o : O) : State T X O :=
  { s with
    clock := Function.update s.clock t (Function.update (s.clock t) t (s.clock t t + 1))
    used := Function.update s.used o (Function.update (s.used o) t (s.clock t t + 1)) }

/-- `fetch_sub` with `memory_order_acq_rel` by `t`, for the pointer that a variable had. -/
def fetchSub (s : State T X O) (t : T) : Option O → State T X O
  | none => s
  | some o =>
    { s with
      clock := Function.update s.clock t (s.clock t ⊔ s.released o)
      released := Function.update s.released o (s.clock t ⊔ s.released o)
      deleting := if s.ptrs.objs o = .live 1 then Function.update s.deleting o (some t)
        else s.deleting }

end State

/-- A thread uses its own variables only. -/
def step (s : State T X O) : Action T X O → Option (State T X O)
  | .make t x o => if s.owns t x then
      ((IntrusivePtr.step s.ptrs (.new o)).bind fun p =>
        IntrusivePtr.step p (.fromRaw x (some o))).map fun p => (s.setPtrs p).touch t o
    else none
  | .copy t x oth => if s.owns t x ∧ s.owns t oth then
      (IntrusivePtr.step s.ptrs (.copy x oth)).map s.setPtrs else none
  | .move t x oth => if s.owns t x ∧ s.owns t oth then
      (IntrusivePtr.step s.ptrs (.move x oth)).map s.setPtrs else none
  | .swap t x rhs => if s.owns t x ∧ s.owns t rhs then
      (IntrusivePtr.step s.ptrs (.swap x rhs)).map s.setPtrs else none
  | .reset t x => if s.owns t x then
      (IntrusivePtr.step s.ptrs (.reset x)).map (s.fetchSub t (s.ptrs.mPtr x)).setPtrs else none
  | .destroy t x => if s.owns t x then
      (IntrusivePtr.step s.ptrs (.destroy x)).map (s.fetchSub t (s.ptrs.mPtr x)).setPtrs else none
  | .use t x => if s.owns t x then
      (s.ptrs.mPtr x).map fun o =>
        if (s.ptrs.objs o).isLive then s.touch t o else { s with fault := true }
    else none
  | .deleter t o => if s.deleting o = some t then
      some { s with
        deleting := Function.update s.deleting o none
        freed := Function.update s.freed o (s.freed o ++ [s.clock t]) }
    else none
  | .send t x => if s.owns t x then
      some { s with place := Function.update s.place x (.between (s.clock t)) } else none
  | .receive t x =>
    match s.place x with
    | .thread _ => none
    | .between v => some { s with
        place := Function.update s.place x (.thread t)
        clock := Function.update s.clock t (s.clock t ⊔ v) }
  | .sync t u => some { s with clock := Function.update s.clock u (s.clock u ⊔ s.clock t) }

def system (T X O : Type*) [DecidableEq T] [DecidableEq X] [DecidableEq O] :
    System (State T X O) (Action T X O) where
  init := init T X O
  step := step

end step

variable {T X O : Type*} {s s' : State T X O} {t u : T} {x y : X} {o : O}

/-- What is known to whom a variable belongs. -/
def State.known (s : State T X O) (x : X) : Clock T :=
  match s.place x with
  | .thread t => s.clock t
  | .between v => v

/-- The accesses to an object are known to those that have given up their pointers, or to one that
has a pointer still. -/
def Covered (s : State T X O) (o : O) : Prop :=
  ∀ t, s.used o t ≤ s.released o t ∨ ∃ x, s.ptrs.mPtr x = some o ∧ s.used o t ≤ s.known x t

structure Inv (s : State T X O) [DecidableEq X] [DecidableEq O] : Prop where
  ptrs : (IntrusivePtr.system X O).Reaches Plain s.ptrs
  fault : s.fault = false
  counted : ∀ o, s.ptrs.objs o ≠ .live 0
  covered : ∀ o, (s.ptrs.objs o).isLive = true → Covered s o
  fresh : ∀ o, s.ptrs.objs o = .fresh → s.used o = 0
  deleting : ∀ o t, s.deleting o = some t → s.ptrs.objs o = .deleted ∧ s.used o ≤ s.clock t
  freed : ∀ o v, v ∈ s.freed o → s.used o ≤ v
  once : ∀ o, (s.freed o).length + (if (s.deleting o).isSome then 1 else 0) =
    if s.ptrs.objs o = .deleted then 1 else 0

/-- Forgets the count. -/
def erase : Obj → Obj
  | .live _ => .live 0
  | .fresh => .fresh
  | .deleted => .deleted

lemma isLive_of_erase {a b : Obj} (h : erase a = erase b) (hb : b.isLive = true) :
    a.isLive = true := by
  cases a <;> cases b <;> simp_all [erase, Obj.isLive]

lemma fresh_of_erase {a b : Obj} (h : erase a = erase b) : a = .fresh ↔ b = .fresh := by
  cases a <;> cases b <;> simp_all [erase]

lemma deleted_of_erase {a b : Obj} (h : erase a = erase b) : a = .deleted ↔ b = .deleted := by
  cases a <;> cases b <;> simp_all [erase]

lemma Covered.mono (h : Covered s o) (hused : s'.used o = s.used o)
    (hreleased : s.released o ≤ s'.released o)
    (hholders : ∀ x, s.ptrs.mPtr x = some o →
      ∃ y, s'.ptrs.mPtr y = some o ∧ s.known x ≤ s'.known y) : Covered s' o := by
  intro t
  rw [hused]
  rcases h t with ht | ⟨x, hx, ht⟩
  · exact Or.inl (ht.trans (hreleased t))
  · obtain ⟨y, hy, hle⟩ := hholders x hx
    exact Or.inr ⟨y, hy, ht.trans (hle t)⟩

section
variable [DecidableEq X] [DecidableEq O] {p : IntrusivePtr.State X O}

omit [DecidableEq X] [DecidableEq O] in
@[simp] lemma setPtrs_ptrs : (s.setPtrs p).ptrs = p := rfl

omit [DecidableEq X] in
lemma addRef_erase (p : IntrusivePtr.State X O) (q : Option O) (o : O) :
    erase ((p.addRef q).objs o) = erase (p.objs o) := by
  cases q with
  | none => rfl
  | some a =>
    unfold IntrusivePtr.State.addRef
    cases ha : p.objs a with
    | live n =>
      by_cases ho : o = a
      · simp [ho, ha, erase]
      · simp [ho, ha]
    | fresh | deleted => simp [ha]

/-- Counts and pointers change, but no object goes or loses what is known of it. -/
lemma Inv.setPtrs (h : Inv s) (hp : (IntrusivePtr.system X O).Reaches Plain p)
    (herase : ∀ o, erase (p.objs o) = erase (s.ptrs.objs o))
    (hzero : ∀ o, p.objs o = .live 0 → s.ptrs.objs o = .live 0)
    (hholders : ∀ x o, s.ptrs.mPtr x = some o → ∃ y, p.mPtr y = some o ∧ s.known x = s.known y) :
    Inv (s.setPtrs p) := by
  refine ⟨hp, h.fault, fun o ho => h.counted o (hzero o ho), fun o ho => ?_, fun o ho => ?_,
    fun o t ht => ?_, h.freed, fun o => ?_⟩
  · refine (h.covered o (isLive_of_erase (herase o).symm ho)).mono rfl le_rfl fun x hx => ?_
    obtain ⟨y, hy, hknown⟩ := hholders x o hx
    exact ⟨y, hy, hknown.le⟩
  · exact h.fresh o ((fresh_of_erase (herase o)).mp ho)
  · obtain ⟨ho, hle⟩ := h.deleting o t ht
    exact ⟨(deleted_of_erase (herase o)).mpr ho, hle⟩
  · have honce := h.once o
    simp only [← deleted_of_erase (herase o)] at honce
    exact honce

lemma Inv.balanced (h : Inv s) : Balanced none s.ptrs := IntrusivePtr.reaches_balanced h.ptrs

lemma Inv.once_le (h : Inv s) (o : O) :
    (s.freed o).length + (if (s.deleting o).isSome then 1 else 0) ≤ 1 := by
  rw [h.once o]
  split <;> simp

/-- No deleter has run, or will run, for an object before its last release. -/
lemma Inv.undeleted (h : Inv s) (ho : s.ptrs.objs o ≠ .deleted) :
    s.deleting o = none ∧ s.freed o = [] := by
  have honce := h.once o
  rw [if_neg ho] at honce
  refine ⟨?_, List.eq_nil_of_length_eq_zero (by omega)⟩
  cases hdel : s.deleting o with
  | none => rfl
  | some u => simp [hdel] at honce

/-- Threads come to know more, and variables change hands with what is known. -/
lemma Inv.mono (h : Inv s) {place : X → Place T} (clock : T → Clock T)
    (hclock : ∀ t, s.clock t ≤ clock t)
    (hknown : ∀ x, s.known x ≤ State.known { s with place := place, clock := clock } x) :
    Inv { s with place := place, clock := clock } :=
  ⟨h.ptrs, h.fault, h.counted,
    fun o ho => (h.covered o ho).mono rfl le_rfl fun x hx => ⟨x, hx, hknown x⟩, h.fresh,
    fun o t ht => ⟨(h.deleting o t ht).1, (h.deleting o t ht).2.trans (hclock t)⟩, h.freed, h.once⟩

/-- The object of a pointer is live, with a count that is not zero. -/
lemma Inv.live (h : Inv s) (hx : s.ptrs.mPtr x = some o) :
    ∃ n, s.ptrs.objs o = .live (n + 1) ∧ n + 1 = held s.ptrs.mPtr o := by
  obtain ⟨n, hn⟩ := IntrusivePtr.isLive_iff.mp (h.balanced.held x o hx)
  have hcount := h.balanced.countsHolders.count o n hn
  cases n with
  | zero => exact absurd hn (h.counted o)
  | succ n => exact ⟨n, hn, hcount⟩

omit [DecidableEq X] [DecidableEq O] in
/-- A thread comes to know more. -/
lemma known_mono (hplace : s'.place = s.place) (hclock : ∀ t, s.clock t ≤ s'.clock t) (x : X) :
    s.known x ≤ s'.known x := by
  unfold State.known
  rw [hplace]
  split
  · exact hclock _
  · exact le_rfl

variable [DecidableEq T]

omit [DecidableEq X] [DecidableEq O] in
lemma known_of_owns (h : s.owns t x = true) : s.known x = s.clock t := by
  unfold State.owns at h
  unfold State.known
  cases hplace : s.place x with
  | thread u =>
    rw [hplace] at h
    rw [of_decide_eq_true h]
  | between v =>
    rw [hplace] at h
    cases h

omit [DecidableEq X] [DecidableEq O] in
lemma clock_le_update {v : Clock T} (hv : s.clock t ≤ v) (u : T) :
    s.clock u ≤ Function.update s.clock t v u := by
  by_cases hu : u = t
  · subst hu
    rwa [Function.update_self]
  · rw [Function.update_of_ne hu]

/-- The last pointer to an object goes, and its thread will run the deleter. All accesses happen
before: the others have released what they knew. -/
lemma Inv.releaseLast (h : Inv s) (howns : s.owns t x = true) (hx : s.ptrs.mPtr x = some o)
    (hone : s.ptrs.objs o = .live 1) (hp : (IntrusivePtr.system X O).Reaches Plain p)
    (hmPtr : p.mPtr = Function.update s.ptrs.mPtr x none)
    (hobjs : p.objs = Function.update s.ptrs.objs o .deleted) :
    Inv ((s.fetchSub t (some o)).setPtrs p) := by
  have hheld : held s.ptrs.mPtr o = 1 := (h.balanced.countsHolders.count o 1 hone).symm
  have hclock := clock_le_update (s := s) (t := t) (le_sup_left (b := s.released o))
  have hknown : ∀ y, s.known y ≤ ((s.fetchSub t (some o)).setPtrs p).known y :=
    known_mono rfl hclock
  have hreleased : ((s.fetchSub t (some o)).setPtrs p).released =
    Function.update s.released o (s.clock t ⊔ s.released o) := rfl
  have hdeleting : ((s.fetchSub t (some o)).setPtrs p).deleting =
      Function.update s.deleting o (some t) := if_pos hone
  refine ⟨hp, h.fault, fun a ha => ?_, fun a ha => ?_, fun a ha => ?_, fun a u hu => ?_, h.freed,
    fun a => ?_⟩
  · by_cases hao : a = o
    · simp [hobjs, hao] at ha
    · exact h.counted a (by simpa [hobjs, hao] using ha)
  · have hao : a ≠ o := by
      rintro rfl
      simp [hobjs, Obj.isLive] at ha
    have hold := h.covered a (by simpa [hobjs, hao] using ha)
    refine hold.mono rfl (by simp [hreleased, hao]) fun y hy => ⟨y, ?_, hknown y⟩
    have hyx : y ≠ x := by
      rintro rfl
      exact hao (Option.some.inj (hy.symm.trans hx))
    change p.mPtr y = some a
    rwa [hmPtr, Function.update_of_ne hyx]
  · have hao : a ≠ o := by
      rintro rfl
      simp [hobjs] at ha
    exact h.fresh a (by simpa [hobjs, hao] using ha)
  · rw [hdeleting] at hu
    by_cases hao : a = o
    · subst hao
      rw [Function.update_self] at hu
      cases hu
      refine ⟨by simp [hobjs], fun v => ?_⟩
      change s.used a v ≤ Function.update s.clock t (s.clock t ⊔ s.released a) t v
      rw [Function.update_self]
      rcases h.covered a (by rw [hone]; rfl) v with hle | ⟨y, hy, hle⟩
      · exact hle.trans le_sup_right
      · rw [eq_of_held_one hheld hy hx, known_of_owns howns] at hle
        exact hle.trans le_sup_left
    · rw [Function.update_of_ne hao] at hu
      obtain ⟨hdeleted, hle⟩ := h.deleting a u hu
      exact ⟨by simpa [hobjs, hao] using hdeleted, hle.trans (hclock u)⟩
  · have honce := h.once a
    by_cases hao : a = o
    · subst hao
      rw [hone] at honce
      have hnone : (s.freed a).length = 0 := by
        simp only [reduceCtorEq, if_false] at honce
        omega
      change (s.freed a).length + _ = if p.objs a = .deleted then 1 else 0
      simp [hdeleting, hobjs, hnone]
    · change (s.freed a).length + _ = if p.objs a = .deleted then 1 else 0
      rwa [hdeleting, hobjs, Function.update_of_ne hao, Function.update_of_ne hao]

/-- Another pointer to the object is left. -/
lemma Inv.releaseOther (h : Inv s) (howns : s.owns t x = true) (hx : s.ptrs.mPtr x = some o)
    {n : ℕ} (hn : s.ptrs.objs o = .live (n + 2))
    (hp : (IntrusivePtr.system X O).Reaches Plain p)
    (hmPtr : p.mPtr = Function.update s.ptrs.mPtr x none)
    (hobjs : p.objs = Function.update s.ptrs.objs o (.live (n + 1))) :
    Inv ((s.fetchSub t (some o)).setPtrs p) := by
  have hclock := clock_le_update (s := s) (t := t) (le_sup_left (b := s.released o))
  have hknown : ∀ y, s.known y ≤ ((s.fetchSub t (some o)).setPtrs p).known y :=
    known_mono rfl hclock
  have hreleased : ((s.fetchSub t (some o)).setPtrs p).released =
    Function.update s.released o (s.clock t ⊔ s.released o) := rfl
  have hdeleting : ((s.fetchSub t (some o)).setPtrs p).deleting = s.deleting :=
    if_neg (by simp [hn])
  have herase : ∀ a, erase (p.objs a) = erase (s.ptrs.objs a) := by
    intro a
    by_cases hao : a = o
    · simp [hobjs, hao, hn, erase]
    · simp [hobjs, hao]
  refine ⟨hp, h.fault, fun a ha => ?_, fun a ha v => ?_, fun a ha => ?_, fun a u hu => ?_, h.freed,
    fun a => ?_⟩
  · by_cases hao : a = o
    · simp [hobjs, hao] at ha
    · exact h.counted a (by simpa [hobjs, hao] using ha)
  · rcases h.covered a (isLive_of_erase (herase a).symm ha) v with hle | ⟨y, hy, hle⟩
    · refine Or.inl (hle.trans ?_)
      rw [hreleased]
      by_cases hao : a = o
      · simp [hao]
      · simp [hao]
    · by_cases hyx : y = x
      · subst hyx
        cases hx.symm.trans hy
        rw [known_of_owns howns] at hle
        exact Or.inl (hle.trans (by simp [hreleased]))
      · refine Or.inr ⟨y, ?_, hle.trans (hknown y v)⟩
        change p.mPtr y = some a
        rwa [hmPtr, Function.update_of_ne hyx]
  · exact h.fresh a ((fresh_of_erase (herase a)).mp ha)
  · rw [hdeleting] at hu
    obtain ⟨hdeleted, hle⟩ := h.deleting a u hu
    exact ⟨(deleted_of_erase (herase a)).mpr hdeleted, hle.trans (hclock u)⟩
  · have honce := h.once a
    simp only [← deleted_of_erase (herase a)] at honce
    rwa [← hdeleting] at honce

/-- A pointer goes. What its thread has known is released with it, or it runs the deleter. -/
lemma Inv.release (h : Inv s) (howns : s.owns t x = true)
    (hp : (IntrusivePtr.system X O).Reaches Plain p)
    (hmPtr : p.mPtr = Function.update s.ptrs.mPtr x none)
    (hobjs : p.objs = (s.ptrs.release (s.ptrs.mPtr x)).objs) :
    Inv ((s.fetchSub t (s.ptrs.mPtr x)).setPtrs p) := by
  cases hx : s.ptrs.mPtr x with
  | none =>
    rw [hx] at hobjs
    refine h.setPtrs hp (fun a => by rw [hobjs]; rfl) (fun a ha => by rwa [hobjs] at ha)
      fun y a hy => ⟨y, ?_, rfl⟩
    rw [hmPtr, Function.update_of_ne (by rintro rfl; rw [hx] at hy; cases hy), hy]
  | some o =>
    obtain ⟨n, hn, -⟩ := h.live hx
    rw [hx, IntrusivePtr.State.release, hn] at hobjs
    cases n with
    | zero => exact h.releaseLast howns hx hn hp hmPtr hobjs
    | succ n => exact h.releaseOther howns hx hn hp hmPtr hobjs

/-- An access through a pointer of the thread. -/
lemma Inv.touch (h : Inv s) (howns : s.owns t x = true) (hx : s.ptrs.mPtr x = some o) :
    Inv (s.touch t o) := by
  have hlive := h.balanced.held x o hx
  have htick : s.clock t ≤ Function.update (s.clock t) t (s.clock t t + 1) := by
    intro v
    by_cases hv : v = t
    · subst hv
      simp
    · simp [hv]
  have hclock := clock_le_update htick
  have hknown : ∀ y, s.known y ≤ (s.touch t o).known y := known_mono rfl hclock
  have hused : ∀ a, a ≠ o → (s.touch t o).used a = s.used a := by
    intro a hao
    exact Function.update_of_ne hao ..
  refine ⟨h.ptrs, h.fault, h.counted, fun a ha v => ?_, fun a ha => ?_, fun a u hu => ?_,
    fun a v hv => ?_, h.once⟩
  · by_cases hao : a = o
    · subst hao
      by_cases hv : v = t
      · subst hv
        refine Or.inr ⟨x, hx, ?_⟩
        have howns' : (s.touch v a).owns v x = true := howns
        rw [known_of_owns howns']
        simp [State.touch]
      · have hsame : (s.touch t a).used a v = s.used a v := by simp [State.touch, hv]
        rw [hsame]
        rcases h.covered a ha v with hle | ⟨y, hy, hle⟩
        · exact Or.inl hle
        · exact Or.inr ⟨y, hy, hle.trans (hknown y v)⟩
    · exact ((h.covered a ha).mono (hused a hao) le_rfl fun y hy => ⟨y, hy, hknown y⟩) v
  · have hao : a ≠ o := by
      rintro rfl
      rw [show s.ptrs.objs a = .fresh from ha] at hlive
      cases hlive
    rw [hused a hao]
    exact h.fresh a ha
  · obtain ⟨hdeleted, hle⟩ := h.deleting a u hu
    have hao : a ≠ o := by
      rintro rfl
      rw [hdeleted] at hlive
      cases hlive
    rw [hused a hao]
    exact ⟨hdeleted, hle.trans (hclock u)⟩
  · have hao : a ≠ o := by
      rintro rfl
      have hnone := h.undeleted (o := a) fun hdeleted => by simp [hdeleted, Obj.isLive] at hlive
      rw [show (s.touch t a).freed a = s.freed a from rfl, hnone.2] at hv
      cases hv
    rw [hused a hao]
    exact h.freed a v hv

omit [DecidableEq T] in
/-- A new object gets its first pointer. -/
lemma Inv.make (h : Inv s) {p₁ : IntrusivePtr.State X O}
    (hnew : IntrusivePtr.step s.ptrs (.new o) = some p₁)
    (hraw : IntrusivePtr.step p₁ (.fromRaw x (some o)) = some p) :
    Inv (s.setPtrs p) ∧ p.mPtr x = some o := by
  have hplain : Plain s.ptrs (.new o) := trivial
  have hplain' : Plain p₁ (.fromRaw x (some o)) := trivial
  have hp := (h.ptrs.step hplain hnew).step hplain' hraw
  simp only [IntrusivePtr.step, Option.ite_none_right_eq_some, Option.some.injEq] at hnew hraw
  obtain ⟨hfresh, rfl⟩ := hnew
  obtain ⟨⟨hdead, -⟩, rfl⟩ := hraw
  have hobjs : ∀ a, ((IntrusivePtr.State.fromRaw
      { s.ptrs with objs := Function.update s.ptrs.objs o (.live 0) } x (some o))).objs a =
      Function.update s.ptrs.objs o (.live 1) a := by
    intro a
    simp [IntrusivePtr.State.fromRaw, IntrusivePtr.State.setPtr, IntrusivePtr.State.setAlive,
      IntrusivePtr.State.addRef]
  have hnone := h.undeleted (o := o) (by simp [hfresh])
  refine ⟨⟨hp, h.fault, fun a ha => ?_, fun a ha => ?_, fun a ha => ?_, fun a u hu => ?_, h.freed,
    fun a => ?_⟩, by simp⟩
  · rw [setPtrs_ptrs, hobjs] at ha
    by_cases hao : a = o
    · simp [hao] at ha
    · exact h.counted a (by simpa [hao] using ha)
  · rw [setPtrs_ptrs, hobjs] at ha
    by_cases hao : a = o
    · subst hao
      intro v
      refine Or.inl ?_
      change s.used a v ≤ _
      rw [h.fresh a hfresh]
      exact Nat.zero_le _
    · refine (h.covered a (by simpa [hao] using ha)).mono rfl le_rfl fun y hy => ⟨y, ?_, le_rfl⟩
      have hyx : y ≠ x := by
        rintro rfl
        rw [h.balanced.dead y hdead] at hy
        cases hy
      simpa [hyx] using hy
  · rw [setPtrs_ptrs, hobjs] at ha
    by_cases hao : a = o
    · simp [hao] at ha
    · exact h.fresh a (by simpa [hao] using ha)
  · obtain ⟨hdeleted, hle⟩ := h.deleting a u hu
    refine ⟨?_, hle⟩
    have hao : a ≠ o := by
      rintro rfl
      rw [hfresh] at hdeleted
      cases hdeleted
    rw [setPtrs_ptrs, hobjs, Function.update_of_ne hao, hdeleted]
  · have honce := h.once a
    rw [setPtrs_ptrs, hobjs]
    by_cases hao : a = o
    · subst hao
      simp [State.setPtrs, hnone.1, hnone.2]
    · rwa [Function.update_of_ne hao]

omit [DecidableEq T] in
/-- A copy. -/
lemma Inv.copy (h : Inv s) (hs : IntrusivePtr.step s.ptrs (.copy x y) = some p) :
    Inv (s.setPtrs p) := by
  have hplain : Plain s.ptrs (.copy x y) := trivial
  have hp := h.ptrs.step hplain hs
  simp only [IntrusivePtr.step, Option.ite_none_right_eq_some, Option.some.injEq] at hs
  obtain ⟨⟨hdead, -⟩, rfl⟩ := hs
  refine h.setPtrs hp (addRef_erase _ _) (fun o => IntrusivePtr.fromRaw_zero) fun z o hz =>
    ⟨z, ?_, rfl⟩
  have hzx : z ≠ x := by
    rintro rfl
    rw [h.balanced.dead z hdead] at hz
    cases hz
  simpa [hzx] using hz

/-- A move, between two variables of a thread. -/
lemma Inv.move (h : Inv s) (hx : s.owns t x = true) (hy : s.owns t y = true)
    (hs : IntrusivePtr.step s.ptrs (.move x y) = some p) : Inv (s.setPtrs p) := by
  have hplain : Plain s.ptrs (.move x y) := trivial
  have hp := h.ptrs.step hplain hs
  simp only [IntrusivePtr.step, Option.ite_none_right_eq_some, Option.some.injEq] at hs
  obtain ⟨⟨hdead, -⟩, rfl⟩ := hs
  refine h.setPtrs hp (fun o => rfl) (fun o => id) fun z o hz => ?_
  by_cases hzy : z = y
  · subst hzy
    refine ⟨x, ?_, by rw [known_of_owns hx, known_of_owns hy]⟩
    simp [IntrusivePtr.State.move, IntrusivePtr.State.setPtr, IntrusivePtr.State.setAlive, hz]
  · have hzx : z ≠ x := by
      rintro rfl
      rw [h.balanced.dead z hdead] at hz
      cases hz
    refine ⟨z, ?_, rfl⟩
    simpa [IntrusivePtr.State.move, IntrusivePtr.State.setPtr, IntrusivePtr.State.setAlive, hzx,
      hzy] using hz

lemma Inv.swap (h : Inv s) (hx : s.owns t x = true) (hy : s.owns t y = true)
    (hs : IntrusivePtr.step s.ptrs (.swap x y) = some p) : Inv (s.setPtrs p) := by
  have hplain : Plain s.ptrs (.swap x y) := trivial
  have hp := h.ptrs.step hplain hs
  simp only [IntrusivePtr.step, Option.ite_none_right_eq_some, Option.some.injEq] at hs
  obtain ⟨-, rfl⟩ := hs
  have hknown : s.known x = s.known y := by rw [known_of_owns hx, known_of_owns hy]
  refine h.setPtrs hp (fun o => rfl) (fun o => id) fun z o hz => ?_
  simp only [IntrusivePtr.State.swap, IntrusivePtr.State.setPtr]
  by_cases hzx : z = x
  · subst hzx
    exact ⟨y, by simp [hz], hknown⟩
  · by_cases hzy : z = y
    · subst hzy
      exact ⟨x, by simp [Ne.symm hzx, hz], hknown.symm⟩
    · exact ⟨z, by simp [hzx, hzy, hz], rfl⟩

/-- A destruction or a `reset()`. -/
lemma Inv.drop (h : Inv s) {a : IntrusivePtr.Action X O} (hx : s.owns t x = true)
    (ha : a = .reset x ∨ a = .destroy x) (hs : IntrusivePtr.step s.ptrs a = some p) :
    Inv ((s.fetchSub t (s.ptrs.mPtr x)).setPtrs p) := by
  have hplain : Plain s.ptrs a := by
    rcases ha with rfl | rfl <;> trivial
  have hp := h.ptrs.step hplain hs
  rcases ha with rfl | rfl <;>
    simp only [IntrusivePtr.step, Option.ite_none_right_eq_some, Option.some.injEq] at hs <;>
    obtain ⟨-, rfl⟩ := hs
  · refine h.release hx hp ?_ ?_
    · simp [IntrusivePtr.State.reset, IntrusivePtr.State.swapTemporary, IntrusivePtr.State.setPtr]
    · rw [IntrusivePtr.State.reset, IntrusivePtr.State.swapTemporary,
        ← IntrusivePtr.release_setPtr]
      rfl
  · exact h.release hx hp (by simp) rfl

omit [DecidableEq T] in
lemma Inv.deleter (h : Inv s) (ho : s.deleting o = some t) : Inv { s with
    deleting := Function.update s.deleting o none
    freed := Function.update s.freed o (s.freed o ++ [s.clock t]) } := by
  refine ⟨h.ptrs, h.fault, h.counted, h.covered, h.fresh, fun a u hu => ?_, fun a v hv => ?_,
    fun a => ?_⟩
  · by_cases hao : a = o
    · simp [hao] at hu
    · exact h.deleting a u (by simpa [hao] using hu)
  · by_cases hao : a = o
    · subst hao
      have hv' : v ∈ s.freed a ++ [s.clock t] := by simpa using hv
      rcases List.mem_append.mp hv' with hv | hv
      · exact h.freed a v hv
      · cases List.mem_singleton.mp hv
        exact (h.deleting a t ho).2
    · exact h.freed a v (by simpa [hao] using hv)
  · have honce := h.once a
    by_cases hao : a = o
    · subst hao
      simpa [ho] using honce
    · simpa [hao] using honce

/-- The steps keep the invariant. -/
theorem Inv.step (h : Inv s) {a : Action T X O} (hs : MtCounter.step s a = some s') : Inv s' := by
  cases a with
  | make t x o =>
    simp only [MtCounter.step, Option.ite_none_right_eq_some, Option.map_eq_some_iff,
      Option.bind_eq_some_iff] at hs
    obtain ⟨howns, p, ⟨p₁, hnew, hraw⟩, rfl⟩ := hs
    obtain ⟨hmake, hx⟩ := h.make hnew hraw
    exact hmake.touch (x := x) howns hx
  | copy t x oth =>
    simp only [MtCounter.step, Option.ite_none_right_eq_some, Option.map_eq_some_iff] at hs
    obtain ⟨-, p, hp, rfl⟩ := hs
    exact h.copy hp
  | move t x oth =>
    simp only [MtCounter.step, Option.ite_none_right_eq_some, Option.map_eq_some_iff] at hs
    obtain ⟨⟨hx, hy⟩, p, hp, rfl⟩ := hs
    exact h.move hx hy hp
  | swap t x rhs =>
    simp only [MtCounter.step, Option.ite_none_right_eq_some, Option.map_eq_some_iff] at hs
    obtain ⟨⟨hx, hy⟩, p, hp, rfl⟩ := hs
    exact h.swap hx hy hp
  | reset t x =>
    simp only [MtCounter.step, Option.ite_none_right_eq_some, Option.map_eq_some_iff] at hs
    obtain ⟨howns, p, hp, rfl⟩ := hs
    exact h.drop howns (.inl rfl) hp
  | destroy t x =>
    simp only [MtCounter.step, Option.ite_none_right_eq_some, Option.map_eq_some_iff] at hs
    obtain ⟨howns, p, hp, rfl⟩ := hs
    exact h.drop howns (.inr rfl) hp
  | use t x =>
    simp only [MtCounter.step, Option.ite_none_right_eq_some, Option.map_eq_some_iff] at hs
    obtain ⟨howns, o, hx, rfl⟩ := hs
    rw [if_pos (h.balanced.held x o hx)]
    exact h.touch howns hx
  | deleter t o =>
    simp only [MtCounter.step, Option.ite_none_right_eq_some, Option.some.injEq] at hs
    obtain ⟨hdeleting, rfl⟩ := hs
    exact h.deleter hdeleting
  | send t x =>
    simp only [MtCounter.step, Option.ite_none_right_eq_some, Option.some.injEq] at hs
    obtain ⟨howns, rfl⟩ := hs
    refine h.mono s.clock (fun _ => le_rfl) fun y => ?_
    by_cases hyx : y = x
    · subst hyx
      rw [known_of_owns howns]
      simp [State.known]
    · simp [State.known, hyx]
  | receive t x =>
    simp only [MtCounter.step] at hs
    split at hs
    · cases hs
    · rename_i v hplace
      cases hs
      have hclock := clock_le_update (s := s) (t := t) (le_sup_left (b := v))
      refine h.mono _ hclock fun y => ?_
      by_cases hyx : y = x
      · subst hyx
        simp [State.known, hplace]
      · simp only [State.known, Function.update_of_ne hyx]
        split
        · exact hclock _
        · exact le_rfl
  | sync t u =>
    simp only [MtCounter.step, Option.some.injEq] at hs
    subst hs
    have hclock := clock_le_update (s := s) (t := u) (le_sup_left (b := s.clock t))
    exact h.mono _ hclock (known_mono rfl hclock)

omit [DecidableEq T] in
lemma init_inv : Inv (init T X O) := by
  refine ⟨.init, rfl, ?_, ?_, ?_, ?_, ?_, ?_⟩ <;> simp [init, IntrusivePtr.init, Obj.isLive]

/-- For threads that share objects: no thread accesses an object, or its count, after the last
release. An object is live as long as a variable holds it, with the number of these as its count.
After the last release its deleter runs in one thread, once, and every access by any thread happens
before. -/
theorem mt_counter_orders_deletion (h : (system T X O).Reachable s) :
    s.fault = false ∧ CountsHolders s.ptrs ∧
    (∀ o, (s.ptrs.objs o).isLive = true ↔ ∃ x, s.ptrs.mPtr x = some o) ∧
    (∀ o, s.ptrs.objs o = .deleted ↔ (s.deleting o).isSome ∨ s.freed o ≠ []) ∧
    ∀ o, (s.freed o).length ≤ 1 ∧ ∀ v ∈ s.freed o, s.deleting o = none ∧ s.used o ≤ v := by
  have hinv : Inv s := by
    refine h.invariant (I := fun s => Inv s) init_inv ?_
    intro s a s' _ ih _ hs
    exact ih.step hs
  refine ⟨hinv.fault, hinv.balanced.countsHolders, fun o => ⟨fun ho => ?_, ?_⟩, fun o => ?_,
    fun o => ⟨?_, fun v hv => ⟨?_, hinv.freed o v hv⟩⟩⟩
  · obtain ⟨n, hn⟩ := IntrusivePtr.isLive_iff.mp ho
    have hcount := hinv.balanced.countsHolders.count o n hn
    refine exists_of_held fun hzero => hinv.counted o ?_
    rw [hn, hcount, hzero]
  · rintro ⟨x, hx⟩
    exact hinv.balanced.held x o hx
  · have honce := hinv.once o
    by_cases hdeleted : s.ptrs.objs o = .deleted
    · rw [if_pos hdeleted] at honce
      refine iff_of_true hdeleted ?_
      by_contra hnot
      push Not at hnot
      simp [hnot.1, hnot.2] at honce
    · obtain ⟨hnone, hnil⟩ := hinv.undeleted hdeleted
      simp [hdeleted, hnone, hnil]
  · have honce := hinv.once_le o
    omega
  · have honce := hinv.once_le o
    have hpos := List.length_pos_of_mem hv
    cases hdel : s.deleting o with
    | none => rfl
    | some t =>
      simp only [hdel, Option.isSome_some, if_true] at honce
      omega

end

/-- A thread gives a pointer to another one, which uses the object and is done with it first. -/
theorem mt_counter_orders_deletion_run : ∃ s : State Bool ℕ Unit,
    (system Bool ℕ Unit).Reachable s ∧ s.freed () ≠ [] ∧ s.used () true = 1 ∧ s.used () false = 3 ∧
      ∀ v ∈ s.freed (), s.used () ≤ v := by
  have hs := System.reaches_of_exec (S := system Bool ℕ Unit) (C := fun _ _ => True)
    [.receive false 0, .receive false 1, .make false 0 (), .copy false 1 0, .use false 1,
      .send false 1, .receive true 1, .use true 1, .destroy true 1, .use false 0,
      .destroy false 0, .deleter false ()] rfl
  refine ⟨_, hs, List.cons_ne_nil _ _, rfl, rfl, fun v hv => ?_⟩
  exact (((mt_counter_orders_deletion hs).2.2.2.2 ()).2 v hv).2

end Scoro.MtCounter

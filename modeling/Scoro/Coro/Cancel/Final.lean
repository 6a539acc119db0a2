import Scoro.Coro.Cancel.Once

/-!
# Cancellation is final

The exchanges of `m_state` put the calls of `cancel` in an order. The first of them returns true
and takes the waiter, all later ones return false. From that exchange on no `wait_cancel` suspends.
Nothing is assumed of the coroutines: handles may be overwritten and resumed twice.
-/

namespace Scoro.Cancel
open Scoro.Lib

variable {C K : Type*} {k l : K} {c : C}

/-- The calls of `cancel` in the order of their exchanges: how many there were, the `place` of each
call that is in progress, what the calls have returned, and which of them have resumed a handle. -/
structure Calls (K : Type*) where
  exchanges : ℕ
  place : K → ℕ
  returned : List (ℕ × Bool)
  resumers : List ℕ

/-- The call has exchanged `m_state` and has not returned. -/
def CancelPc.exchanged : CancelPc C → Bool
  | .readWaiter | .resume _ | .ret _ => true
  | .idle | .exchangeState => false

section note
variable [DecidableEq K]

def noteCancel (k : K) (n : Calls K) : CancelPc C → Calls K
  | .exchangeState =>
    { n with exchanges := n.exchanges + 1, place := Function.update n.place k n.exchanges }
  | .resume _ => { n with resumers := n.place k :: n.resumers }
  | .ret canceled => { n with returned := (n.place k, canceled) :: n.returned }
  | .idle | .readWaiter => n

def note (s : State C K) (a : Action C K) (n : Calls K) : Calls K :=
  match a with
  | .cancel k => noteCancel k n (s.cancels k)
  | .waitCancel _ | .wait _ | .callCancel _ => n

def calls (C K : Type*) [DecidableEq C] [DecidableEq K] :
    System (System.Noted (State C K) (Calls K)) (Action C K) :=
  (system C K).observe note ⟨0, fun _ => 0, [], []⟩

end note

/-! ### The order of the calls -/

/-- Each place is that of one call, which is in progress or has returned, and the first call is the
one that succeeds. -/
structure Ordered (s : State C K) (n : Calls K) : Prop where
  state : s.mState = .eCanceled ↔ n.exchanges ≠ 0
  lt : ∀ k, (s.cancels k).exchanged = true → n.place k < n.exchanges
  first : ∀ k, (s.cancels k).exchanged = true → ((s.cancels k).succeeds = true ↔ n.place k = 0)
  differ : ∀ k l, (s.cancels k).exchanged = true → (s.cancels l).exchanged = true →
    n.place k = n.place l → k = l
  gone : ∀ k, (s.cancels k).exchanged = true → n.place k ∉ n.returned.map Prod.fst
  nodup : (n.returned.map Prod.fst).Nodup
  results : ∀ p ∈ n.returned, p.1 < n.exchanges ∧ (p.2 = true ↔ p.1 = 0)
  present : ∀ i < n.exchanges, i ∈ n.returned.map Prod.fst ∨
    ∃ k, (s.cancels k).exchanged = true ∧ n.place k = i
  resumers : ∀ i ∈ n.resumers, i = 0

variable {s s' : State C K} {n : Calls K}

lemma Ordered.frame (h : Ordered s n) (hcancels : s'.cancels = s.cancels)
    (hstate : s'.mState = .eCanceled ↔ s.mState = .eCanceled) : Ordered s' n :=
  { h with
    state := hstate.trans h.state
    lt := hcancels ▸ h.lt
    first := hcancels ▸ h.first
    differ := hcancels ▸ h.differ
    gone := hcancels ▸ h.gone
    present := hcancels ▸ h.present }

/-- With no call in progress behind its exchange, the calls that have taken a place have
returned. -/
lemma Ordered.all_returned (h : Ordered s n) (hidle : ∀ k, (s.cancels k).exchanged = false)
    (i : ℕ) : i < n.exchanges ↔ i ∈ n.returned.map Prod.fst := by
  constructor
  · intro hi
    rcases h.present i hi with hret | ⟨k, hk, -⟩
    · exact hret
    · simp [hidle k] at hk
  · intro hi
    obtain ⟨p, hp, rfl⟩ := List.mem_map.mp hi
    exact (h.results p hp).1

lemma init_ordered : Ordered (init C K) ⟨0, fun _ => 0, [], []⟩ := by
  constructor <;> simp [init, CancelPc.exchanged]

section cancel
variable [DecidableEq K]

/-- The call goes on, and its exchange stays where it was. -/
lemma Ordered.setCancel (h : Ordered s n) {p : CancelPc C}
    (hexchanged : p.exchanged = (s.cancels k).exchanged)
    (hsucceeds : p.succeeds = (s.cancels k).succeeds) : Ordered (s.setCancel k p) n := by
  have hsame : ∀ l, ((s.setCancel k p).cancels l).exchanged = (s.cancels l).exchanged ∧
      ((s.setCancel k p).cancels l).succeeds = (s.cancels l).succeeds := by
    intro l
    by_cases hl : l = k
    · simp [hl, hexchanged, hsucceeds]
    · simp [hl]
  constructor
  case state => exact h.state
  case nodup => exact h.nodup
  case results => exact h.results
  case resumers => exact h.resumers
  case lt => exact fun l => (hsame l).1 ▸ h.lt l
  case first => exact fun l => (hsame l).1 ▸ (hsame l).2 ▸ h.first l
  case differ => exact fun l m => (hsame l).1 ▸ (hsame m).1 ▸ h.differ l m
  case gone => exact fun l => (hsame l).1 ▸ h.gone l
  case present =>
    intro i hi
    rcases h.present i hi with hret | ⟨l, hl, hplace⟩
    · exact Or.inl hret
    · exact Or.inr ⟨l, (hsame l).1.trans hl, hplace⟩

/-- A call exchanges `m_state`, and takes the next place. -/
lemma Ordered.exchange (h : Ordered s n) {pc : CancelPc C} (hk : (s.cancels k).exchanged = false)
    (hexchanged : pc.exchanged = true) (hpc : pc.succeeds = true ↔ s.mState ≠ .eCanceled) :
    Ordered { s.setCancel k pc with mState := .eCanceled }
      { n with exchanges := n.exchanges + 1, place := Function.update n.place k n.exchanges } := by
  have hfresh : ∀ i, i ∈ n.returned.map Prod.fst → i < n.exchanges := by
    intro i hi
    obtain ⟨p, hp, rfl⟩ := List.mem_map.mp hi
    exact (h.results p hp).1
  constructor
  case state => simp
  case lt =>
    intro l hl
    by_cases hlk : l = k
    · simp [hlk]
    · have hlt := h.lt l (by simpa [hlk] using hl)
      simp only [Function.update_apply, hlk, if_false]
      omega
  case first =>
    intro l hl
    by_cases hlk : l = k
    · have hzero := h.state
      simp [hlk, hpc, hzero]
    · simpa [hlk] using h.first l (by simpa [hlk] using hl)
  case differ =>
    intro l m hl hm hplace
    by_cases hlk : l = k <;> by_cases hmk : m = k
    · exact hlk.trans hmk.symm
    · have hlt := h.lt m (by simpa [hmk] using hm)
      simp only [Function.update_apply, hlk, hmk, if_true, if_false] at hplace
      omega
    · have hlt := h.lt l (by simpa [hlk] using hl)
      simp only [Function.update_apply, hlk, hmk, if_true, if_false] at hplace
      omega
    · exact h.differ l m (by simpa [hlk] using hl) (by simpa [hmk] using hm)
        (by simpa [hlk, hmk] using hplace)
  case gone =>
    intro l hl hret
    by_cases hlk : l = k
    · simp only [Function.update_apply, hlk, if_true] at hret
      exact absurd (hfresh _ hret) (lt_irrefl _)
    · simp only [Function.update_apply, hlk, if_false] at hret
      exact h.gone l (by simpa [hlk] using hl) hret
  case nodup => exact h.nodup
  case results =>
    intro p hp
    obtain ⟨hlt, hfirst⟩ := h.results p hp
    exact ⟨Nat.lt_succ_of_lt hlt, hfirst⟩
  case present =>
    intro i hi
    rcases Nat.lt_succ_iff_lt_or_eq.mp hi with hlt | rfl
    · rcases h.present i hlt with hret | ⟨l, hl, hplace⟩
      · exact Or.inl hret
      · have hlk : l ≠ k := by
          rintro rfl
          simp [hk] at hl
        exact Or.inr ⟨l, by simpa [hlk] using hl, by simpa [hlk] using hplace⟩
    · exact Or.inr ⟨k, by simpa using hexchanged, by simp⟩
  case resumers => exact h.resumers

/-- A call returns. -/
lemma Ordered.ret (h : Ordered s n) {canceled b : Bool} (hk : s.cancels k = .ret canceled) :
    Ordered { s.setCancel k .idle with canceled := b }
      { n with returned := (n.place k, canceled) :: n.returned } := by
  have hkx : (s.cancels k).exchanged = true := by simp [hk, CancelPc.exchanged]
  have hkept : ∀ l, ((s.setCancel k .idle).cancels l).exchanged = true →
      l ≠ k ∧ (s.cancels l).exchanged = true := by
    intro l hl
    by_cases hlk : l = k
    · simp [hlk, CancelPc.exchanged] at hl
    · exact ⟨hlk, by simpa [hlk] using hl⟩
  constructor
  case state => exact h.state
  case lt => exact fun l hl => h.lt l (hkept l hl).2
  case first =>
    intro l hl
    obtain ⟨hlk, hlx⟩ := hkept l hl
    simpa [hlk] using h.first l hlx
  case differ => exact fun l m hl hm => h.differ l m (hkept l hl).2 (hkept m hm).2
  case gone =>
    intro l hl hret
    obtain ⟨hlk, hlx⟩ := hkept l hl
    rcases List.mem_cons.mp hret with heq | hret
    · exact hlk (h.differ l k hlx hkx heq)
    · exact h.gone l hlx hret
  case nodup => exact List.nodup_cons.mpr ⟨h.gone k hkx, h.nodup⟩
  case results =>
    intro p hp
    rcases List.mem_cons.mp hp with rfl | hp
    · have hfirst := h.first k hkx
      refine ⟨h.lt k hkx, ?_⟩
      cases canceled <;> simpa [hk, CancelPc.succeeds] using hfirst
    · exact h.results p hp
  case present =>
    intro i hi
    rcases h.present i hi with hret | ⟨l, hl, hplace⟩
    · exact Or.inl (List.mem_cons_of_mem _ hret)
    · by_cases hlk : l = k
      · subst hlk
        exact Or.inl (by simp [hplace])
      · exact Or.inr ⟨l, by simpa [hlk] using hl, hplace⟩
  case resumers => exact h.resumers

variable [DecidableEq C]

lemma Ordered.cancel (h : Ordered s n) (hs : cancelStep s k = some s') :
    Ordered s' (noteCancel k n (s.cancels k)) := by
  cases hpc : s.cancels k <;> simp only [cancelStep, hpc, reduceCtorEq, Option.some.injEq] at hs <;>
    subst hs
  case exchangeState =>
    apply h.exchange
    · simp [hpc, CancelPc.exchanged]
    · cases s.mState <;> simp [CancelPc.exchanged]
    · cases hstate : s.mState <;> simp [CancelPc.succeeds]
  case readWaiter =>
    apply h.setCancel <;> simp [hpc, CancelPc.exchanged, CancelPc.succeeds]
  case resume waiter =>
    have hfirst : n.place k = 0 :=
      (h.first k (by simp [hpc, CancelPc.exchanged])).mp (by simp [hpc, CancelPc.succeeds])
    obtain ⟨hcancels, -, hstate⟩ := resume_frame (s := s) waiter
    have hres := h.frame hcancels (by rw [hstate])
    have hset := hres.setCancel (k := k) (p := .ret true)
      (by simp [hcancels, hpc, CancelPc.exchanged]) (by simp [hcancels, hpc, CancelPc.succeeds])
    refine { hset with resumers := fun i hi => ?_ }
    rcases List.mem_cons.mp hi with rfl | hi
    · exact hfirst
    · exact h.resumers i hi
  case ret canceled => exact h.ret hpc

end cancel

/-! ### After the first exchange -/

section wait
variable [DecidableEq C]

/-- `resume` has nothing to do with who is registered. -/
lemma resume_suspensions (waiter : Option C) :
    (s.resume waiter).suspensions = s.suspensions := by
  cases waiter with
  | none => rfl
  | some w =>
    simp only [State.resume]
    split_ifs <;> rfl

/-- A step of `wait_cancel` does not cancel the promise, and registers nobody with a canceled
one. -/
lemma waitStep_canceled (hs : waitStep s c = some s') :
    (s'.mState = .eCanceled ↔ s.mState = .eCanceled) ∧
      (s.mState = .eCanceled → s'.suspensions = s.suspensions) := by
  cases hpc : s.waits c <;> simp only [waitStep, hpc, reduceCtorEq, Option.some.injEq] at hs <;>
    subst hs
  case resetCas =>
    split_ifs with hstate
    · simp [hstate]
    · exact ⟨Iff.rfl, fun _ => rfl⟩
  case exchangeWaiter =>
    split <;> exact ⟨Iff.rfl, fun _ => rfl⟩
  case resumeOld w =>
    obtain ⟨-, -, hstate⟩ := resume_frame (s := s) (some w)
    exact ⟨by rw [setWait_mState, hstate], fun _ => resume_suspensions (some w)⟩
  case storeWaiter => exact ⟨Iff.rfl, fun _ => rfl⟩
  case setCas =>
    split_ifs with hstate
    · simp [hstate]
    · exact ⟨Iff.rfl, fun _ => rfl⟩

/-- With a canceled promise the readiness test lets the coroutine go on. -/
lemma waitCancel_canceled (hstate : s.mState = .eCanceled) (hs : waitCancel s c = some s') :
    s' = s ∧ s.waits c = .running := by
  cases hpc : s.waits c <;> simp only [waitCancel, hpc, reduceCtorEq, Option.some.injEq] at hs
  rw [if_pos hstate] at hs
  exact ⟨hs.symm, rfl⟩

/-- With a canceled promise the registering CAS fails. -/
lemma setCas_canceled (hstate : s.mState = .eCanceled) (hc : s.waits c = .setCas)
    (hs : waitStep s c = some s') : s'.waits c = .running := by
  simp only [waitStep, hc, hstate, reduceCtorEq, if_false, Option.some.injEq] at hs
  subst hs
  simp

end wait

section step
variable [DecidableEq C] [DecidableEq K]

/-- The promise is canceled, and nobody has been suspended since. -/
structure Canceled (f : C → ℕ) (s : State C K) : Prop where
  state : s.mState = .eCanceled
  suspensions : s.suspensions = f

lemma Canceled.step {f : C → ℕ} (h : Canceled f s) {a : Action C K} (hs : step s a = some s') :
    Canceled f s' := by
  cases a with
  | waitCancel c =>
    obtain ⟨rfl, -⟩ := waitCancel_canceled h.state hs
    exact h
  | wait c =>
    obtain ⟨hstate, hsuspensions⟩ := waitStep_canceled hs
    exact ⟨hstate.mpr h.state, (hsuspensions h.state).trans h.suspensions⟩
  | callCancel k =>
    cases hpc : s.cancels k <;>
      simp only [Cancel.step, callCancel, hpc, reduceCtorEq, Option.some.injEq] at hs
    subst hs
    exact ⟨h.state, h.suspensions⟩
  | cancel k =>
    cases hpc : s.cancels k <;>
      simp only [Cancel.step, cancelStep, hpc, reduceCtorEq, Option.some.injEq] at hs <;> subst hs
    case exchangeState => exact ⟨rfl, h.suspensions⟩
    case resume waiter =>
      obtain ⟨-, -, hstate⟩ := resume_frame (s := s) waiter
      exact ⟨hstate.trans h.state, (resume_suspensions waiter).trans h.suspensions⟩
    case readWaiter | ret => exact ⟨h.state, h.suspensions⟩

lemma Ordered.step (h : Ordered s n) {a : Action C K} (hs : step s a = some s') :
    Ordered s' (note s a n) := by
  cases a with
  | waitCancel c =>
    cases hpc : s.waits c <;>
      simp only [Cancel.step, waitCancel, hpc, reduceCtorEq, Option.some.injEq] at hs
    subst hs
    split_ifs
    · exact h
    · exact h.frame rfl Iff.rfl
  | wait c => exact h.frame (waitStep_frame hs).1 (waitStep_canceled hs).1
  | callCancel k =>
    cases hpc : s.cancels k <;>
      simp only [Cancel.step, callCancel, hpc, reduceCtorEq, Option.some.injEq] at hs
    subst hs
    apply h.setCancel <;> simp [hpc, CancelPc.exchanged, CancelPc.succeeds]
  | cancel k => exact h.cancel hs

lemma reaches_ordered {s : System.Noted (State C K) (Calls K)} (h : (calls C K).Reachable s) :
    Ordered s.state s.notes := by
  refine h.invariant (I := fun s => Ordered s.state s.notes) init_ordered
    fun s a t _ hordered _ hs => ?_
  obtain ⟨hstep, hnotes⟩ := System.observe_step.mp hs
  exact hnotes ▸ hordered.step hstep

/-- The first call whose exchange takes place returns true, the others return false and resume
nobody. The promise is canceled from that exchange on, and nobody is suspended any more. -/
theorem cancel_final {s : System.Noted (State C K) (Calls K)} (h : (calls C K).Reachable s) :
    (s.state.mState = .eCanceled ↔ s.notes.exchanges ≠ 0) ∧
      (s.notes.returned.map Prod.fst).Nodup ∧
      (∀ p ∈ s.notes.returned, p.2 = true ↔ p.1 = 0) ∧
      (∀ k, (s.state.cancels k).exchanged = true →
        ((s.state.cancels k).succeeds = true ↔ s.notes.place k = 0)) ∧
      (∀ i ∈ s.notes.resumers, i = 0) ∧
      ((∀ k, (s.state.cancels k).exchanged = false) →
        (∀ i, i < s.notes.exchanges ↔ i ∈ s.notes.returned.map Prod.fst) ∧
        (s.notes.exchanges ≠ 0 → ∃! i, (i, true) ∈ s.notes.returned)) ∧
      (s.state.mState = .eCanceled →
        (∀ as t, (calls C K).exec (fun _ _ => True) s as = some t →
          t.state.mState = .eCanceled ∧ t.state.suspensions = s.state.suspensions) ∧
        (∀ k t, s.state.cancels k = .exchangeState → (calls C K).step s (.cancel k) = some t →
          t.state.cancels k = .ret false) ∧
        (∀ c t, (calls C K).step s (.waitCancel c) = some t → t.state.waits c = .running) ∧
        ∀ c t, s.state.waits c = .setCas → (calls C K).step s (.wait c) = some t →
          t.state.waits c = .running) := by
  have hordered := reaches_ordered h
  refine ⟨hordered.state, hordered.nodup, fun p hp => (hordered.results p hp).2, hordered.first,
    hordered.resumers, fun hidle => ⟨hordered.all_returned hidle, fun hne => ?_⟩,
    fun hstate => ⟨?_, ?_, ?_, ?_⟩⟩
  · obtain ⟨p, hp, hzero⟩ := List.mem_map.mp ((hordered.all_returned hidle 0).mp (by omega))
    have htrue := (hordered.results p hp).2.mpr hzero
    refine ⟨0, ?_, fun i hi => ?_⟩
    · simpa [← hzero, ← htrue] using hp
    · exact (hordered.results (i, true) hi).2.mp rfl
  · intro as t ht
    have hlast := System.exec_invariant (I := fun t => Canceled s.state.suspensions t.state)
      (fun _ _ _ hu _ hs => hu.step (System.observe_step.mp hs).1) ⟨hstate, rfl⟩ ht
    exact ⟨hlast.state, hlast.suspensions⟩
  · intro k t hk hs
    have hstep := (System.observe_step.mp hs).1
    simp only [system, Cancel.step, cancelStep, hk, hstate, Option.some.injEq] at hstep
    simp [← hstep]
  · intro c t hs
    obtain ⟨heq, hc⟩ := waitCancel_canceled hstate (System.observe_step.mp hs).1
    rw [heq, hc]
  · intro c t hc hs
    exact setCas_canceled hstate hc (System.observe_step.mp hs).1

end step

/-- Of two calls the second to exchange returns first, and a coroutine whose readiness test came
before the exchanges is not suspended. -/
theorem cancel_final_run : ∃ s : System.Noted (State (Fin 1) (Fin 2)) (Calls (Fin 2)),
    (s.notes.returned = [(0, true), (1, false)] ∧ s.state.waits 0 = .running) ∧
      s.state.mState = .eCanceled := by
  obtain ⟨s, hs, hreturned, hwaits⟩ :=
    System.exists_reaches (S := calls (Fin 1) (Fin 2)) (fun _ _ => True)
    (fun s => s.notes.returned = [(0, true), (1, false)] ∧ s.state.waits 0 = .running)
    [.waitCancel 0, .wait 0, .callCancel 0, .callCancel 1, .cancel 0, .wait 0, .cancel 1, .cancel 1,
      .cancel 0, .wait 0] (by decide)
  refine ⟨s, ⟨hreturned, hwaits⟩, (cancel_final hs).1.mpr fun hzero => ?_⟩
  have hresult := (reaches_ordered hs).results (0, true) (by simp [hreturned])
  omega

end Scoro.Cancel

import Scoro.Combinators.Awaiter

/-!
# The hand-over with a delayed store

`await_suspend` stores `coroutine_addr` with release order and then tests another location, so that
the test may come before the store is in memory. This file is the hand-over alone, as memory sees
it: when it forgets the coroutine, and the rule for systems that make the hand-over.
-/

namespace Scoro.Combinators
open Scoro.Lib

/-- The hand-over. `addr` is `coroutine_addr` in memory, `buffered` tells whether the handle is on
its way there, `ready` is what a test would say, and `due` whether the runner that has made it so
has its exchange of `coroutine_addr` ahead. -/
structure Handshake where
  addr : Bool
  buffered : Bool
  ready : Bool
  due : Bool
  coroutine : CoroutinePc
  suspend : SuspendPc
  deriving DecidableEq

namespace Handshake

/-- `wake` is the runner's exchange, and with `drain` the handle gets to memory. -/
inductive Action where
  | decide
  | wake
  | awaitReady
  | awaitSuspend
  | drain
  deriving DecidableEq

def init (ready : Bool) : Handshake := ⟨false, false, ready, false, .ready, .idle⟩

/-- `coroutine_addr.exchange(nullptr)`, and `resume()` if there was a handle. -/
def exchange (h : Handshake) : Handshake :=
  if h.addr then { h with addr := false, coroutine := .passed } else h

def step (h : Handshake) : Action → Option Handshake
  | .decide => if h.ready then none else some { h with ready := true, due := true }
  | .wake => if h.due then some { h.exchange with due := false } else none
  | .awaitReady =>
    match h.coroutine with
    | .ready => some (if h.ready then { h with coroutine := .passed }
        else { h with coroutine := .suspended, suspend := .store })
    | _ => none
  | .awaitSuspend =>
    match h.suspend with
    | .store => some { h with buffered := true, suspend := .recheck }
    | .recheck => some { h with suspend := if h.ready then .exchange else .returned }
    | .exchange => if h.buffered then none else some { h.exchange with suspend := .returned }
    | _ => none
  | .drain => if h.buffered then some { h with addr := true, buffered := false } else none

def system (ready : Bool) : System Handshake Action where
  init := init ready
  step := step

/-- The runner does not make its exchange between a failed test of `await_suspend` and the moment
at which the handle gets to memory. -/
def Visible (h : Handshake) (a : Action) : Prop :=
  a = .wake → h.suspend = .returned → h.buffered = false

/-- What a step of a system does to the hand-over, nothing or a step of it. `visible` is what the
system says of that. -/
def Follows (h h' : Handshake) (visible : Prop) : Prop :=
  h' = h ∧ visible ∨ ∃ a, h.step a = some h' ∧ (visible ↔ h.Visible a)

/-- Nobody is going to resume the coroutine any more. -/
def Forgotten (h : Handshake) : Prop :=
  h.coroutine = .suspended ∧ h.suspend = .returned ∧ h.ready = true ∧ h.due = false

/-- Where the handle is. -/
def Placed (h : Handshake) : Prop :=
  match h.coroutine with
  | .ready => h.suspend = .idle ∧ h.addr = false ∧ h.buffered = false
  | .suspended => h.suspend ≠ .idle ∧
      if h.suspend = .store then h.addr = false ∧ h.buffered = false else h.addr = !h.buffered
  | .passed => h.suspend ≠ .store ∧ h.addr = false ∧ h.buffered = false

structure Inv (h : Handshake) : Prop where
  placed : h.Placed
  due : h.due = true → h.ready = true

variable {h h' : Handshake} {a : Action}

lemma init_inv (ready : Bool) : (init ready).Inv := ⟨⟨rfl, rfl, rfl⟩, fun hdue => by cases hdue⟩

lemma Placed.suspended (hp : h.Placed) (haddr : h.addr = true) :
    h.coroutine = .suspended ∧ h.suspend ≠ .store := by
  unfold Placed at hp
  cases hc : h.coroutine <;> simp only [hc, haddr, reduceCtorEq, false_and, and_false] at hp
  refine ⟨rfl, fun hsuspend => ?_⟩
  simp [hsuspend] at hp

lemma Placed.exchange (hp : h.Placed) : h.exchange.Placed := by
  unfold Handshake.exchange
  split
  · rename_i haddr
    obtain ⟨hc, hsuspend⟩ := hp.suspended haddr
    unfold Placed at hp
    simp only [hc, if_neg hsuspend, haddr] at hp
    exact ⟨hsuspend, rfl, by simpa using hp.2.symm⟩
  · exact hp

lemma exchange_fields (h : Handshake) : h.exchange.suspend = h.suspend ∧
    h.exchange.ready = h.ready ∧ h.exchange.buffered = h.buffered := by
  unfold exchange
  split <;> exact ⟨rfl, rfl, rfl⟩

lemma step_wake (hdue : h.due = true) : h.step .wake = some { h with due := false }.exchange := by
  simp only [step, hdue, if_true, exchange]
  split <;> rfl

lemma Placed.awaitReady (hp : h.Placed) (hs : h.step .awaitReady = some h') : h'.Placed := by
  simp only [Handshake.step] at hs
  split at hs <;> cases hs
  rename_i hc
  unfold Placed at hp
  rw [hc] at hp
  split
  · exact ⟨by simp [hp.1], hp.2⟩
  · exact ⟨by simp, by simpa using hp.2⟩

lemma Placed.awaitSuspend (hp : h.Placed) (hs : h.step .awaitSuspend = some h') : h'.Placed := by
  simp only [Handshake.step] at hs
  split at hs
  · rename_i hsuspend
    cases hs
    unfold Placed at hp ⊢
    cases hc : h.coroutine <;> simp_all
  · rename_i hsuspend
    cases hs
    unfold Placed at hp ⊢
    cases hc : h.coroutine <;> cases hready : h.ready <;> simp_all
  · rename_i hsuspend
    split at hs <;> cases hs
    have hex := hp.exchange
    unfold Placed at hex ⊢
    have hsame := h.exchange_fields
    cases hc : h.exchange.coroutine <;> simp_all
  · cases hs

lemma Placed.drain (hp : h.Placed) (hs : h.step .drain = some h') : h'.Placed := by
  simp only [Handshake.step] at hs
  split at hs <;> cases hs
  rename_i hbuffered
  unfold Placed at hp ⊢
  cases hc : h.coroutine <;> simp_all

theorem Inv.step (hi : h.Inv) (hs : h.step a = some h') : h'.Inv := by
  cases a with
  | decide =>
    simp only [Handshake.step] at hs
    split at hs <;> cases hs
    exact ⟨hi.placed, fun _ => rfl⟩
  | wake =>
    simp only [Handshake.step] at hs
    split at hs <;> cases hs
    exact ⟨hi.placed.exchange, fun hdue => by cases hdue⟩
  | awaitReady =>
    refine ⟨hi.placed.awaitReady hs, ?_⟩
    simp only [Handshake.step] at hs
    split at hs <;> cases hs
    split <;> exact hi.due
  | awaitSuspend =>
    refine ⟨hi.placed.awaitSuspend hs, ?_⟩
    simp only [Handshake.step] at hs
    split at hs
    · cases hs
      exact hi.due
    · cases hs
      exact hi.due
    · split at hs <;> cases hs
      unfold exchange
      split <;> exact hi.due
    · cases hs
  | drain =>
    refine ⟨hi.placed.drain hs, ?_⟩
    simp only [Handshake.step] at hs
    split at hs <;> cases hs
    exact hi.due

lemma Forgotten.addr (hf : h.Forgotten) (hp : h.Placed) : h.addr = !h.buffered := by
  obtain ⟨hc, hsuspend, -, -⟩ := hf
  unfold Placed at hp
  rw [hc] at hp
  simpa [hsuspend] using hp.2

/-- What is forgotten stays so. -/
lemma Forgotten.step (hf : h.Forgotten) (hs : h.step a = some h') : h'.Forgotten := by
  obtain ⟨hc, hsuspend, hready, hdue⟩ := hf
  cases a <;> simp only [Handshake.step, hc, hsuspend, hdue, reduceCtorEq, Bool.false_eq_true,
    if_false] at hs
  case decide => simp [hready] at hs
  case drain =>
    split at hs <;> cases hs
    exact ⟨rfl, rfl, hready, rfl⟩

/-- An exchange finds the handle if it is not on its way. -/
lemma Placed.exchange_coroutine (hp : h.Placed) (hstore : h.suspend ≠ .store)
    (hbuffered : h.buffered = false) : h.exchange.coroutine ≠ .suspended := by
  intro hc
  unfold Handshake.exchange at hc
  split at hc
  · cases hc
  · rename_i haddr
    unfold Placed at hp
    simp only [hc, if_neg hstore, hbuffered] at hp
    exact haddr hp.2

/-- Nobody forgets the coroutine as long as the handle is visible. -/
lemma step_forgotten (hi : h.Inv) (hC : h.Visible a) (hs : h.step a = some h')
    (hf : h'.Forgotten) : h.Forgotten := by
  obtain ⟨hc, hsuspend, hready, hdue⟩ := hf
  cases a <;> simp only [step] at hs
  case decide =>
    split at hs <;> cases hs
    cases hdue
  case wake =>
    split at hs <;> cases hs
    rw [h.exchange_fields.1] at hsuspend
    exact absurd hc (hi.placed.exchange_coroutine (by simp [hsuspend]) (hC rfl hsuspend))
  case awaitReady =>
    split at hs <;> cases hs
    split at hc
    · cases hc
    · simp_all
  case awaitSuspend =>
    split at hs
    · cases hs
      cases hsuspend
    · cases hs
      dsimp only at hready
      rw [if_pos hready] at hsuspend
      cases hsuspend
    · rename_i hexchange
      split at hs <;> cases hs
      rename_i hbuffered
      exact absurd hc
        (hi.placed.exchange_coroutine (by simp [hexchange]) (by simpa using hbuffered))
    · cases hs
  case drain =>
    split at hs <;> cases hs
    exact ⟨hc, hsuspend, hready, hdue⟩

/-- The runner's exchange misses a handle that is on its way, and then nobody comes back. -/
lemma forgotten_of_not_visible (hi : h.Inv) (hC : ¬h.Visible a) (hs : h.step a = some h') :
    h'.Forgotten := by
  simp only [Visible, Classical.not_imp, Bool.not_eq_false] at hC
  obtain ⟨rfl, hsuspend, hbuffered⟩ := hC
  simp only [step] at hs
  split at hs <;> cases hs
  rename_i hdue
  have hready := hi.due hdue
  have hplaced := hi.placed
  unfold Placed at hplaced
  cases hc : h.coroutine <;> simp [hc, hsuspend, hbuffered] at hplaced
  simp [Forgotten, exchange, hplaced, hc, hsuspend, hready]

theorem reaches_inv {C : Handshake → Action → Prop} {ready : Bool}
    (hr : (system ready).Reaches C h) : h.Inv :=
  hr.invariant (init_inv ready) fun _ _ _ _ ih _ hs => ih.step hs

theorem reaches_not_forgotten {ready : Bool} (hr : (system ready).Reaches Visible h) :
    ¬h.Forgotten := by
  refine hr.invariant (I := fun h => ¬h.Forgotten) ?_ ?_
  · rintro ⟨hc, -⟩
    cases hc
  · intro s a s' run ih hC hs
    exact fun hf => ih (step_forgotten (reaches_inv run) hC hs hf)

/-! ### Systems that make the hand-over -/

section simulates
variable {σ α : Type*} {S : System σ α} {C : σ → α → Prop} {I : σ → Prop} {abs : σ → Handshake}
  {ready : Bool} {s : σ}

/-- Each step of `S` is a step of the hand-over or does not matter to it, and `C` says of it that
the handle is visible. `I` is an invariant of `S`. -/
structure Simulates (S : System σ α) (C : σ → α → Prop) (I : σ → Prop) (abs : σ → Handshake)
    (ready : Bool) : Prop where
  init : I S.init
  abs_init : abs S.init = Handshake.init ready
  step : ∀ s a s', I s → S.step s a = some s' → I s' ∧ (abs s).Follows (abs s') (C s a)

lemma Simulates.refines (hS : Simulates S C I abs ready) :
    System.Refines S C (Handshake.system ready) Visible abs where
  init := hS.abs_init
  step s a s' run hC hs := by
    have hI : I s := run.invariant hS.init fun _ _ _ _ ih _ hs => (hS.step _ _ _ ih hs).1
    rcases (hS.step s a s' hI hs).2 with ⟨heq, -⟩ | ⟨b, hb, hiff⟩
    · exact Or.inl heq
    · exact Or.inr ⟨b, hiff.mp hC, hb⟩

/-- What holds in every state of `S`. -/
lemma Simulates.inv_step (hS : Simulates S C I abs ready) {a : α} {s' : σ}
    (hI : I s ∧ (abs s).Inv) (hs : S.step s a = some s') : I s' ∧ (abs s').Inv := by
  obtain ⟨hI', heq | ⟨b, hb, -⟩⟩ := hS.step s a s' hI.1 hs
  · exact ⟨hI', heq.1 ▸ hI.2⟩
  · exact ⟨hI', hI.2.step hb⟩

lemma Simulates.inv (hS : Simulates S C I abs ready) (h : S.Reaches C s) : I s ∧ (abs s).Inv :=
  h.invariant (I := fun s => I s ∧ (abs s).Inv) ⟨hS.init, hS.abs_init ▸ init_inv ready⟩
    fun _ _ _ _ ih _ hs => hS.inv_step ih hs

/-- As long as the handle is visible the coroutine is not forgotten, and otherwise it is for
good. -/
theorem Simulates.forgotten_iff (hS : Simulates S C I abs ready) (h : S.Reaches C s) :
    ¬(abs s).Forgotten ∧
    ∀ a s', S.step s a = some s' → ¬C s a → ∀ as t, S.exec (fun _ _ => True) s' as = some t →
      (I t ∧ (abs t).Inv) ∧ (abs t).Forgotten := by
  refine ⟨reaches_not_forgotten (hS.refines.reaches h), fun a s' hs hC as t ht => ?_⟩
  have hinv := hS.inv h
  have hforgotten : (abs s').Forgotten := by
    rcases (hS.step s a s' hinv.1 hs).2 with ⟨-, hC'⟩ | ⟨b, hb, hiff⟩
    · exact absurd hC' hC
    · exact forgotten_of_not_visible hinv.2 (fun hb => hC (hiff.mpr hb)) hb
  refine System.exec_invariant (I := fun t => (I t ∧ (abs t).Inv) ∧ (abs t).Forgotten) ?_
    ⟨hS.inv_step hinv hs, hforgotten⟩ ht
  rintro u b v ⟨hu, hf⟩ - hv
  refine ⟨hS.inv_step hu hv, ?_⟩
  rcases (hS.step u b v hu.1 hv).2 with ⟨heq, -⟩ | ⟨b, hb, -⟩
  · exact heq ▸ hf
  · exact hf.step hb

end simulates

end Handshake

end Scoro.Combinators

import Scoro.Lib.Transition

/-!
# Awaiting with one handle

What `WaitAnyAwaitable` and `WaitAllAwaitable` have in common: the outcomes of their awaitables
and the hand-over of the awaiting coroutine through `coroutine_addr`. The two differ in the
condition that `await_ready` and `await_suspend` test, which is a parameter here. Once the
handle is stored the coroutine may go on while `await_suspend` is still running, so that the
two have separate positions.
-/

namespace Scoro.Combinators

variable {V E : Type*}

/-- What an awaitable produces: nothing, a value or a reference, or an exception. -/
inductive Outcome (V E : Type*) where
  | void
  | value (v : V)
  | error (e : E)
  deriving DecidableEq

/-- The alternative that a result variant holds. -/
inductive Stored (V E : Type*) where
  | monostate
  | value (v : V)
  | error (e : E)
  deriving DecidableEq

/-- The alternative that stands for an outcome. -/
def Outcome.stored : Outcome V E → Stored V E
  | .void => .monostate
  | .value v => .value v
  | .error e => .error e

/-- The awaiting coroutine. It is `passed` from its first instruction after the `co_await`. -/
inductive CoroutinePc where
  | ready
  | suspended
  | passed
  deriving DecidableEq

inductive SuspendPc where
  | idle
  | store
  | recheck
  | exchange
  | returned
  deriving DecidableEq

/-- `coroutine_addr` (`true` if it holds the handle), the coroutine, its call of
`await_suspend`, and how often the coroutine has passed its `co_await`. -/
structure Awaiter where
  coroutineAddr : Bool
  coroutine : CoroutinePc
  suspend : SuspendPc
  passes : ℕ
  deriving DecidableEq

namespace Awaiter

def init : Awaiter := ⟨false, .ready, .idle, 0⟩

/-- The coroutine goes on behind its `co_await`, whether it was suspended or not. -/
def pass (w : Awaiter) : Awaiter :=
  { w with coroutine := .passed, passes := w.passes + 1 }

/-- `coroutine_addr.exchange(nullptr)`, and `resume()` if there was a handle. -/
def exchange (w : Awaiter) : Awaiter :=
  if w.coroutineAddr then { w.pass with coroutineAddr := false } else w

/-- `await_ready` with its test `ready`. -/
def awaitReady (ready : Bool) (w : Awaiter) : Option Awaiter :=
  match w.coroutine with
  | .ready => some (if ready then w.pass else { w with coroutine := .suspended, suspend := .store })
  | _ => none

/-- The next step of `await_suspend`, with its test `ready`. -/
def awaitSuspend (ready : Bool) (w : Awaiter) : Option Awaiter :=
  match w.suspend with
  | .store => some { w with coroutineAddr := true, suspend := .recheck }
  | .recheck => some { w with suspend := if ready then .exchange else .returned }
  | .exchange => some { w.exchange with suspend := .returned }
  | _ => none

/-- The handle is in `coroutine_addr` exactly while the coroutine is suspended and
`await_suspend` has stored it. -/
def Ok (w : Awaiter) : Prop :=
  match w.coroutine with
  | .ready => w.suspend = .idle ∧ w.coroutineAddr = false ∧ w.passes = 0
  | .suspended => w.suspend ≠ .idle ∧ (w.coroutineAddr = true ↔ w.suspend ≠ .store) ∧ w.passes = 0
  | .passed => w.suspend ≠ .store ∧ w.coroutineAddr = false ∧ w.passes = 1

/-- Suspended, and `await_suspend` will not do anything about it any more. -/
def Waits (w : Awaiter) : Prop := w.coroutine = .suspended ∧ w.suspend = .returned

/-- The coroutine goes on, or `await_suspend` is about to see to it. -/
def Seen (w : Awaiter) : Prop := w.coroutine = .passed ∨ w.suspend = .exchange

variable {w w' : Awaiter} {ready : Bool}

lemma ok_init : init.Ok := ⟨rfl, rfl, rfl⟩

lemma Ok.passes_le (h : w.Ok) : w.passes ≤ 1 := by
  unfold Ok at h
  split at h
  · omega
  · omega
  · omega

lemma Ok.passed_of_passes (h : w.Ok) (hp : w.passes ≠ 0) : w.coroutine = .passed := by
  unfold Ok at h
  split at h
  · exact absurd h.2.2 hp
  · exact absurd h.2.2 hp
  · assumption

/-- A handle that is taken out belongs to a suspended coroutine. -/
lemma Ok.suspended (h : w.Ok) (ha : w.coroutineAddr = true) :
    w.coroutine = .suspended ∧ w.suspend ≠ .store ∧ w.passes = 0 := by
  unfold Ok at h
  split at h
  · rw [ha] at h
    exact absurd h.2.1 (by decide)
  · rename_i hc
    exact ⟨hc, h.2.1.mp ha, h.2.2⟩
  · rw [ha] at h
    exact absurd h.2.1 (by decide)

lemma Ok.exchange (h : w.Ok) : w.exchange.Ok := by
  unfold Awaiter.exchange
  split
  · rename_i ha
    obtain ⟨-, hstore, hpasses⟩ := h.suspended ha
    exact ⟨hstore, rfl, by simp [pass, hpasses]⟩
  · exact h

lemma Ok.awaitReady (h : w.Ok) (hs : w.awaitReady ready = some w') : w'.Ok := by
  unfold Ok at h
  unfold Awaiter.awaitReady at hs
  split at hs
  · rename_i hc
    rw [hc] at h
    obtain ⟨hsuspend, haddr, hpasses⟩ := h
    cases hs
    split
    · exact ⟨by simp [pass, hsuspend], haddr, by simp [pass, hpasses]⟩
    · exact ⟨by simp, by simp [haddr], hpasses⟩
  · cases hs

lemma Ok.awaitSuspend (h : w.Ok) (hs : w.awaitSuspend ready = some w') : w'.Ok := by
  unfold Awaiter.awaitSuspend at hs
  split at hs
  · rename_i hsuspend
    cases hs
    unfold Ok at h ⊢
    cases hc : w.coroutine <;> simp_all
  · rename_i hsuspend
    cases hs
    unfold Ok at h ⊢
    cases hc : w.coroutine <;> cases ready <;> simp_all
  · rename_i hsuspend
    cases hs
    have hex := h.exchange
    unfold Ok at hex ⊢
    have hsame : w.exchange.suspend = .exchange := by
      unfold Awaiter.exchange
      split
      · exact hsuspend
      · exact hsuspend
    cases hc : w.exchange.coroutine <;> simp_all
  · cases hs

/-- After an exchange nobody is left waiting. -/
lemma Ok.not_waits_exchange (h : w.Ok) : ¬w.exchange.Waits := by
  rintro ⟨hc, hsuspend⟩
  unfold Awaiter.exchange at hc hsuspend
  split at hc
  · cases hc
  · rename_i ha
    rw [if_neg ha] at hsuspend
    unfold Ok at h
    rw [hc] at h
    exact ha (h.2.1.mpr (by rw [hsuspend]; decide))

lemma not_waits_awaitReady (hs : w.awaitReady ready = some w') : ¬w'.Waits := by
  unfold Awaiter.awaitReady at hs
  split at hs
  · cases hs
    cases ready
    · exact fun hw => by cases hw.2
    · exact fun hw => by cases hw.1
  · cases hs

/-- The coroutine is left waiting by `await_suspend` only if the test failed. -/
lemma waits_awaitSuspend (h : w.Ok) (hs : w.awaitSuspend ready = some w') (hw : w'.Waits) :
    ready = false := by
  unfold Awaiter.awaitSuspend at hs
  split at hs
  · cases hs
    cases hw.2
  · cases hs
    cases ready
    · rfl
    · cases hw.2
  · cases hs
    exfalso
    have hc : w.exchange.coroutine = .suspended := hw.1
    rename_i hsuspend
    have hok := h
    unfold Ok at hok
    unfold Awaiter.exchange at hc
    split at hc
    · cases hc
    · rename_i ha
      rw [hc] at hok
      exact ha (hok.2.1.mpr (by rw [hsuspend]; decide))
  · cases hs

lemma seen_awaitReady (hs : w.awaitReady ready = some w') (hseen : w'.Seen) :
    w.Seen ∨ ready = true := by
  unfold Awaiter.awaitReady at hs
  split at hs
  · cases hs
    cases ready
    · rcases hseen with hc | hc <;> cases hc
    · exact Or.inr rfl
  · cases hs

lemma seen_awaitSuspend (hs : w.awaitSuspend ready = some w') (hseen : w'.Seen) :
    w.Seen ∨ ready = true := by
  unfold Awaiter.awaitSuspend at hs
  split at hs
  · cases hs
    rcases hseen with hc | hc
    · exact Or.inl (Or.inl hc)
    · cases hc
  · cases hs
    cases ready
    · rcases hseen with hc | hc
      · exact Or.inl (Or.inl hc)
      · cases hc
    · exact Or.inr rfl
  · rename_i hsuspend
    exact Or.inl (Or.inr hsuspend)
  · cases hs

end Awaiter

end Scoro.Combinators

import Scoro.Lib.Transition

/-!
# `waitable_atomic::wait_until`

One call of `wait_until`, while other threads store any values and the clock goes on. Each load and
each reading of the clock is one atomic step. The futex may return at any time and with any result.
-/

namespace Scoro.WaitableAtomic
open Scoro.Lib

/-- What `futex_wait` returns: zero, or an error with its `errno`. -/
inductive FutexResult where
  | woken
  | eagain
  | eintr
  | etimedout
  | error
  deriving DecidableEq

/-- What `wait_for_impl` makes of it. The call is repeated after `EINTR`. -/
def waitForImpl : FutexResult → Option Bool
  | .eintr => none
  | .etimedout => some false
  | .woken | .eagain | .error => some true

/-- Where a call of `wait_until` stands: in the spin phase, at the load or at the reading of the
clock in the loop, inside `wait_until_impl`, or at the load after the loop. -/
inductive WaitPc where
  | spin (spins : ℕ)
  | load
  | now
  | duration
  | futexWait
  | reload
  | returned (success : Bool)
  deriving DecidableEq

/-- A call with its arguments. The last two fields are history: it has read a time at or past
`atime`, and its latest load has differed from `expected`. -/
structure Call (T Time : Type*) where
  expected : T
  atime : Time
  pc : WaitPc
  late : Bool
  differed : Bool
  deriving DecidableEq

section call
variable {T Time : Type*} [DecidableEq T] [LinearOrder Time]

def Call.start (spinTimes : ℕ) (expected : T) (atime : Time) : Call T Time :=
  ⟨expected, atime, .spin spinTimes, false, false⟩

/-- Loads `value` and goes on at `same` if it is `expected`, at `other` if not. -/
def Call.load (c : Call T Time) (value : T) (same other : WaitPc) : Call T Time :=
  { c with
    pc := if value = c.expected then same else other
    differed := decide (value ≠ c.expected) }

/-- `Clock::now() >= atime`. -/
def Call.readClock (c : Call T Time) (now : Time) : Call T Time :=
  { c with late := c.late || decide (now ≥ c.atime) }

/-- The next step of the call, when the atomic is `value`, the clock `now` and the answer of the
futex `result`. -/
def waitUntilStep (value : T) (now : Time) (result : FutexResult) (c : Call T Time) :
    Option (Call T Time) :=
  match c.pc with
  | .spin 0 => some { c with pc := .load }
  | .spin (spins + 1) => some (c.load value (.spin spins) (.returned true))
  | .load => some (c.load value .now .reload)
  | .now => some { c.readClock now with
      pc := if now ≥ c.atime then .returned false else .duration }
  | .duration => some { c.readClock now with pc := .futexWait }
  | .futexWait => match waitForImpl result with
    | none => some c
    | some _ => some { c with pc := .load }
  | .reload => some (c.load value (.returned false) (.returned true))
  | .returned _ => none

/-- The answer is true only after a load that differed, and false only after a late reading. -/
structure Call.Truthful (c : Call T Time) : Prop where
  failed : c.pc = .returned false → c.late = true
  succeeded : c.pc = .returned true → c.differed = true

/-- The load after the loop does not find `expected` again. -/
def Call.Rereads (c : Call T Time) (value : T) : Prop := c.pc = .reload → value ≠ c.expected

variable {c c' : Call T Time} {value : T} {now : Time} {result : FutexResult}

/-- What a step keeps, and the answers it gives. -/
structure Step (value : T) (now : Time) (c c' : Call T Time) : Prop where
  args : c'.expected = c.expected ∧ c'.atime = c.atime
  late : c'.late = true → c.late = true ∨ c.atime ≤ now
  failed : c'.pc = .returned false →
    c'.late = true ∧ c.atime ≤ now ∨ c.pc = .reload ∧ value = c.expected ∧ c'.late = c.late
  succeeded : c'.pc = .returned true → c'.differed = true

lemma waitUntil_step (hs : waitUntilStep value now result c = some c') : Step value now c c' := by
  unfold waitUntilStep at hs
  split at hs
  case h_1 hpc | h_2 hpc | h_3 hpc =>
    cases hs
    refine ⟨⟨rfl, rfl⟩, Or.inl, ?_, ?_⟩ <;>
    · simp only [Call.load]
      by_cases hv : value = c.expected <;> simp [hv]
  case h_4 hpc =>
    cases hs
    refine ⟨⟨rfl, rfl⟩, by simp [Call.readClock], fun hret => Or.inl ?_, ?_⟩
    · by_cases hnow : now ≥ c.atime
      · exact ⟨by simp [Call.readClock, hnow], hnow⟩
      · simp [hnow] at hret
    · by_cases hnow : now ≥ c.atime <;> simp [hnow]
  case h_5 hpc =>
    cases hs
    exact ⟨⟨rfl, rfl⟩, by simp [Call.readClock], by simp, by simp⟩
  case h_6 hpc =>
    split at hs <;> cases hs
    · exact ⟨⟨rfl, rfl⟩, Or.inl, by simp [hpc], by simp [hpc]⟩
    · exact ⟨⟨rfl, rfl⟩, Or.inl, by simp, by simp⟩
  case h_7 hpc =>
    cases hs
    refine ⟨⟨rfl, rfl⟩, Or.inl, fun hret => Or.inr ⟨hpc, ?_, rfl⟩, ?_⟩
    · by_contra hv
      simp [Call.load, hv] at hret
    · simp only [Call.load]
      by_cases hv : value = c.expected <;> simp [hv]
  case h_8 => cases hs

/-- The load after the loop decides. -/
lemma reload_step (hs : waitUntilStep value now result c = some c') (hpc : c.pc = .reload) :
    c'.late = c.late ∧ c'.pc = if value = c.expected then .returned false else .returned true := by
  simp only [waitUntilStep, hpc, Option.some.injEq] at hs
  subst hs
  exact ⟨rfl, rfl⟩

/-- The loop is left when the value differs. -/
lemma reload_of_step (hs : waitUntilStep value now result c = some c') (hpc : c'.pc = .reload) :
    value ≠ c'.expected := by
  unfold waitUntilStep at hs
  split at hs
  case h_3 =>
    cases hs
    intro hv
    change value = c.expected at hv
    simp [Call.load, hv] at hpc
  case h_2 | h_7 =>
    cases hs
    simp only [Call.load] at hpc
    split at hpc <;> cases hpc
  case h_4 =>
    cases hs
    dsimp only at hpc
    split at hpc <;> cases hpc
  case h_6 hold =>
    split at hs <;> cases hs
    · simp [hold] at hpc
    · cases hpc
  case h_1 | h_5 =>
    cases hs
    cases hpc
  case h_8 => cases hs

/-- The answer is truthful after a step just if the call does not take a value that has come back
for a timeout. -/
lemma truthful_step (hs : waitUntilStep value now result c = some c') :
    c'.Truthful ↔ c.Rereads value ∨ c.late = true := by
  have hstep := waitUntil_step hs
  constructor
  · intro htruth
    by_cases hlate : c.late = true
    · exact Or.inr hlate
    · refine Or.inl fun hpc hv => hlate ?_
      obtain ⟨hsame, hret⟩ := reload_step hs hpc
      rw [if_pos hv] at hret
      exact hsame.symm.trans (htruth.failed hret)
  · intro hor
    refine ⟨fun hret => ?_, hstep.succeeded⟩
    rcases hstep.failed hret with ⟨hlate, -⟩ | ⟨hpc, hv, hsame⟩
    · exact hlate
    · rw [hsame]
      exact hor.resolve_left fun hreread => hreread hpc hv

/-- A timeout is reported at or past `atime` just if the call does not take a value that has come
back for it before. -/
lemma expired_step (hs : waitUntilStep value now result c = some c') :
    (c'.pc = .returned false → c.atime ≤ now) ↔ c.Rereads value ∨ c.atime ≤ now := by
  constructor
  · intro hexpired
    by_cases hnow : c.atime ≤ now
    · exact Or.inr hnow
    · refine Or.inl fun hpc hv => hnow (hexpired ?_)
      rw [(reload_step hs hpc).2, if_pos hv]
  · intro hor hret
    rcases (waitUntil_step hs).failed hret with ⟨-, hnow⟩ | ⟨hpc, hv, -⟩
    · exact hnow
    · exact hor.resolve_left fun hreread => hreread hpc hv

end call

/-! ### Any values and any clock -/

/-- One call of `wait_until`, with the atomic and the clock. -/
structure State (T Time : Type*) where
  value : T
  now : Time
  call : Call T Time

/-- `store` and `tick` are the other threads' and the clock's. -/
inductive Action (T Time : Type*) where
  | store (desired : T)
  | tick (now : Time)
  | call (result : FutexResult)

section run
variable {T Time : Type*} [DecidableEq T] [LinearOrder Time]

def step (s : State T Time) : Action T Time → Option (State T Time)
  | .store desired => some { s with value := desired }
  | .tick now => if s.now ≤ now then some { s with now := now } else none
  | .call result => (waitUntilStep s.value s.now result s.call).map fun c => { s with call := c }

/-- A call on an atomic that is `value`, at the time `now`. -/
def system (value : T) (now : Time) (spinTimes : ℕ) (expected : T) (atime : Time) :
    System (State T Time) (Action T Time) where
  init := ⟨value, now, .start spinTimes expected atime⟩
  step := step

/-- A value that has come back is not taken for a timeout before a late reading of the clock. -/
def Settled (s : State T Time) : Action T Time → Prop
  | .call _ => s.call.Rereads s.value ∨ s.call.late = true
  | .store _ | .tick _ => True

instance (c : Call T Time) (value : T) : Decidable (c.Rereads value) :=
  inferInstanceAs (Decidable (_ → _))

instance (s : State T Time) : (a : Action T Time) → Decidable (Settled s a)
  | .call _ => inferInstanceAs (Decidable (_ ∨ _))
  | .store _ | .tick _ => .isTrue trivial

variable {value expected : T} {now atime : Time} {spinTimes : ℕ} {s s' : State T Time}

/-- The times that were read are past. -/
def State.Dated (s : State T Time) : Prop := s.call.late = true → s.call.atime ≤ s.now

lemma dated_step {a : Action T Time} (h : s.Dated) (hs : step s a = some s') : s'.Dated := by
  cases a with
  | store desired =>
    cases hs
    exact h
  | tick t =>
    simp only [step] at hs
    split at hs <;> cases hs
    rename_i hle
    exact fun hlate => (h hlate).trans hle
  | call result =>
    obtain ⟨c, hc, rfl⟩ := Option.map_eq_some_iff.mp hs
    have hstep := waitUntil_step hc
    intro hlate
    change c.atime ≤ s.now
    rw [hstep.args.2]
    exact (hstep.late hlate).elim h id

lemma truthful_step_iff {a : Action T Time} (h : s.call.Truthful) (hs : step s a = some s') :
    s'.call.Truthful ↔ Settled s a := by
  cases a with
  | store desired =>
    cases hs
    exact iff_of_true h trivial
  | tick t =>
    simp only [step] at hs
    split at hs <;> cases hs
    exact iff_of_true h trivial
  | call result =>
    obtain ⟨c, hc, rfl⟩ := Option.map_eq_some_iff.mp hs
    exact truthful_step hc

lemma reaches_truthful (h : (system value now spinTimes expected atime).Reaches Settled s) :
    s.call.Truthful ∧ s.Dated := by
  have hinit : (Call.start spinTimes expected atime).Truthful := ⟨nofun, nofun⟩
  have hdated : (system value now spinTimes expected atime).init.Dated := nofun
  exact h.invariant (I := fun s => s.call.Truthful ∧ s.Dated) ⟨hinit, hdated⟩
    fun s a s' _ hI hC hs => ⟨(truthful_step_iff hI.1 hs).mpr hC, dated_step hI.2 hs⟩

end run

end Scoro.WaitableAtomic

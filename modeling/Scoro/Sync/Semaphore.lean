import Scoro.Lib.Counting
import Scoro.Lib.Transition

/-!
# `CountingSemaphore` and `Mutex`

The counter and the number of waiters are changed together by one CAS, and the queue of waiting
handles in a separate step before or after it. Callers `P` make one call at a time, each any
number of calls. The waiter queue is taken to hand out each handle once, in any order, and
`count` not to overflow. Each action is one atomic step.
-/

namespace Scoro.CountingSemaphore
open Scoro.Lib

/-- `CountingSemaphore::Counter`. -/
structure Counter where
  count : ℤ
  waiters : ℕ
  deriving DecidableEq

namespace Counter

/-- `acquire_helper` has to wait: `--new_counter.count < 0`. -/
def needWait (counter : Counter) : Bool := counter.count - 1 < 0

/-- The new counter of `acquire_helper`. -/
def acquire (counter : Counter) : Counter :=
  ⟨counter.count - 1, if counter.needWait then counter.waiters + 1 else counter.waiters⟩

/-- `try_acquire` succeeds: `new_counter.count > 0`. -/
def success (counter : Counter) : Bool := counter.count > 0

/-- The new counter of `try_acquire`. -/
def tryAcquire (counter : Counter) : Counter :=
  if counter.success then ⟨counter.count - 1, counter.waiters⟩ else counter

/-- How many waiters `release(count)` takes over. -/
def needWake (counter : Counter) (count : ℤ) : ℕ :=
  if count > 0 then min count.toNat counter.waiters else 0

/-- The new counter of `release(count)`. -/
def release (counter : Counter) (count : ℤ) : Counter :=
  ⟨counter.count + count, counter.waiters - counter.needWake count⟩

end Counter

/-- Where a caller stands, with its local copy of the counter. It is `suspended` from the
`enqueue` of its handle until it is resumed. -/
inductive CallPc where
  | idle
  | acquireLoad
  | acquireCas (counter : Counter)
  | enqueue
  | suspended
  | tryLoad
  | tryCas (counter : Counter)
  | releaseLoad (count : ℤ)
  | releaseCas (count : ℤ) (counter : Counter)
  | wake (needWake : ℕ)
  deriving DecidableEq

/-- The semaphore and its callers. `fault` is set when a coroutine is resumed that is not
suspended. The last five fields are history: the sum of the released permits, the acquires
and the successful `try_acquire`s whose CAS is done, and for each caller the permits it has
obtained and its calls of `release`. -/
structure State (P : Type*) where
  counter : Counter
  waiters : List P
  callers : P → CallPc
  fault : Bool
  released : ℤ
  acquires : ℕ
  tries : ℕ
  grants : P → ℕ
  releases : P → ℕ

inductive Action (P : Type*) where
  | acquire (p : P)
  | tryAcquire (p : P)
  | release (p : P) (count : ℤ)
  | load (p : P)
  | cas (p : P) (spurious : Bool)
  | enqueue (p : P)
  | dequeue (p q : P)
  | releaseRet (p : P)
  deriving DecidableEq

section step
variable {P : Type*} [DecidableEq P]

def init (P : Type*) (count : ℤ) : State P where
  counter := ⟨count, 0⟩
  waiters := []
  callers := fun _ => .idle
  fault := false
  released := 0
  acquires := 0
  tries := 0
  grants := fun _ => 0
  releases := fun _ => 0

namespace State

def setCaller (s : State P) (p : P) (pc : CallPc) : State P :=
  { s with callers := Function.update s.callers p pc }

/-- `p` has got a permit and goes on. -/
def grant (s : State P) (p : P) : State P :=
  { s.setCaller p .idle with grants := Function.update s.grants p (s.grants p + 1) }

def resume (s : State P) (p : P) : State P :=
  match s.callers p with
  | .suspended => s.grant p
  | _ => { s with fault := true }

end State

/-- The CAS at the end of the loops of `acquire_helper`, `try_acquire` and `release`. If it
fails, spuriously or not, the copy is renewed. -/
def cas (s : State P) (p : P) (spurious : Bool) : Option (State P) :=
  match s.callers p with
  | .acquireCas counter =>
    if s.counter = counter ∧ spurious = false then
      let s' := { s with counter := counter.acquire, acquires := s.acquires + 1 }
      some (if counter.needWait then s'.setCaller p .enqueue else s'.grant p)
    else some (s.setCaller p (.acquireCas s.counter))
  | .tryCas counter =>
    if s.counter = counter ∧ spurious = false then
      some (if counter.success then
        { s with counter := counter.tryAcquire, tries := s.tries + 1 }.grant p
      else s.setCaller p .idle)
    else some (s.setCaller p (.tryCas s.counter))
  | .releaseCas count counter =>
    if s.counter = counter ∧ spurious = false then
      some { s.setCaller p (.wake (counter.needWake count)) with
        counter := counter.release count, released := s.released + count }
    else some (s.setCaller p (.releaseCas count s.counter))
  | _ => none

def step (s : State P) : Action P → Option (State P)
  | .acquire p =>
    match s.callers p with
    | .idle => some (s.setCaller p .acquireLoad)
    | _ => none
  | .tryAcquire p =>
    match s.callers p with
    | .idle => some (s.setCaller p .tryLoad)
    | _ => none
  | .release p count =>
    match s.callers p with
    | .idle => some { s.setCaller p (.releaseLoad count) with
        releases := Function.update s.releases p (s.releases p + 1) }
    | _ => none
  | .load p =>
    match s.callers p with
    | .acquireLoad => some (s.setCaller p (.acquireCas s.counter))
    | .tryLoad => some (s.setCaller p (.tryCas s.counter))
    | .releaseLoad count => some (s.setCaller p (.releaseCas count s.counter))
    | _ => none
  | .cas p spurious => cas s p spurious
  | .enqueue p =>
    match s.callers p with
    | .enqueue => some { s.setCaller p .suspended with waiters := s.waiters ++ [p] }
    | _ => none
  | .dequeue p q =>
    match s.callers p with
    | .wake (needWake + 1) =>
      if q ∈ s.waiters then
        some (({ s with waiters := s.waiters.erase q }.setCaller p (.wake needWake)).resume q)
      else none
    | _ => none
  | .releaseRet p =>
    match s.callers p with
    | .wake 0 => some (s.setCaller p .idle)
    | _ => none

/-- A semaphore with callers `P` and the permits `count` to begin with. -/
def system (P : Type*) [DecidableEq P] (count : ℤ) : System (State P) (Action P) where
  init := init P count
  step := step

end step

/-! ### What a CAS does -/

section cas
variable {P : Type*} [DecidableEq P] {s s' : State P} {p : P} {spurious : Bool}

/-- What the CAS of a caller does: it stores the new counter, `try_acquire` gives up without one, or
it fails and the copy is renewed. -/
inductive CasEffect (s : State P) (p : P) : Bool → State P → Prop
  | wait (hp : s.callers p = .acquireCas s.counter) (hwait : s.counter.needWait = true) :
      CasEffect s p false ({ s with
        counter := s.counter.acquire, acquires := s.acquires + 1 }.setCaller p .enqueue)
  | acquire (hp : s.callers p = .acquireCas s.counter) (hwait : s.counter.needWait = false) :
      CasEffect s p false
        ({ s with counter := s.counter.acquire, acquires := s.acquires + 1 }.grant p)
  | tryAcquire (hp : s.callers p = .tryCas s.counter) (hsuccess : s.counter.success = true) :
      CasEffect s p false
        ({ s with counter := s.counter.tryAcquire, tries := s.tries + 1 }.grant p)
  | giveUp (hp : s.callers p = .tryCas s.counter) (hsuccess : s.counter.success = false) :
      CasEffect s p false (s.setCaller p .idle)
  | release {k : ℤ} (hp : s.callers p = .releaseCas k s.counter) :
      CasEffect s p false { s.setCaller p (.wake (s.counter.needWake k)) with
        counter := s.counter.release k, released := s.released + k }
  | acquireAgain {spurious : Bool} {counter : Counter} (hp : s.callers p = .acquireCas counter)
      (hfail : ¬(s.counter = counter ∧ spurious = false)) :
      CasEffect s p spurious (s.setCaller p (.acquireCas s.counter))
  | tryAgain {spurious : Bool} {counter : Counter} (hp : s.callers p = .tryCas counter)
      (hfail : ¬(s.counter = counter ∧ spurious = false)) :
      CasEffect s p spurious (s.setCaller p (.tryCas s.counter))
  | releaseAgain {spurious : Bool} {k : ℤ} {counter : Counter}
      (hp : s.callers p = .releaseCas k counter)
      (hfail : ¬(s.counter = counter ∧ spurious = false)) :
      CasEffect s p spurious (s.setCaller p (.releaseCas k s.counter))

lemma cas_effect (hs : cas s p spurious = some s') : CasEffect s p spurious s' := by
  unfold cas at hs
  split at hs
  · rename_i counter hp
    split at hs <;> cases hs
    · rename_i hsame
      obtain ⟨rfl, rfl⟩ := hsame
      cases hwait : s.counter.needWait with
      | true => exact .wait hp hwait
      | false => exact .acquire hp hwait
    · exact .acquireAgain hp ‹_›
  · rename_i counter hp
    split at hs <;> cases hs
    · rename_i hsame
      obtain ⟨rfl, rfl⟩ := hsame
      cases hsuccess : s.counter.success with
      | true => exact .tryAcquire hp hsuccess
      | false => exact .giveUp hp hsuccess
    · exact .tryAgain hp ‹_›
  · rename_i k counter hp
    split at hs <;> cases hs
    · rename_i hsame
      obtain ⟨rfl, rfl⟩ := hsame
      exact .release hp
    · exact .releaseAgain hp ‹_›
  · cases hs

end cas

/-! ### The balance -/

section invariant
variable {P : Type*} [DecidableEq P] [Fintype P] {s s' : State P} {p q : P} {count : ℤ}

/-- The wake-ups that a running `release` has reserved and not made yet. -/
def CallPc.reserved : CallPc → ℕ
  | .wake needWake => needWake
  | _ => 0

/-- One for an acquire that has to wait and has not enqueued its handle yet. -/
def CallPc.coming : CallPc → ℕ
  | .enqueue => 1
  | _ => 0

namespace State

def reserved (s : State P) : ℕ := ∑ p, (s.callers p).reserved

def coming (s : State P) : ℕ := ∑ p, (s.callers p).coming

lemma reserved_setCaller (s : State P) (p : P) (pc : CallPc) :
    (s.setCaller p pc).reserved + (s.callers p).reserved = s.reserved + pc.reserved :=
  sum_update CallPc.reserved s.callers p pc

lemma coming_setCaller (s : State P) (p : P) (pc : CallPc) :
    (s.setCaller p pc).coming + (s.callers p).coming = s.coming + pc.coming :=
  sum_update CallPc.coming s.callers p pc

lemma sum_grants (s : State P) (p : P) :
    ∑ r, Function.update s.grants p (s.grants p + 1) r = ∑ r, s.grants r + 1 := by
  have h := sum_update id s.grants p (s.grants p + 1)
  simp only [id] at h
  omega

end State

/-- What holds for release arguments of either sign. -/
structure Inv (count : ℤ) (s : State P) : Prop where
  count : s.counter.count = count + s.released - s.acquires - s.tries
  balance : s.counter.waiters + s.reserved = s.waiters.length + s.coming
  granted : ∑ p, s.grants p + s.waiters.length + s.coming = s.acquires + s.tries
  nodup : s.waiters.Nodup
  suspended : ∀ p, p ∈ s.waiters ↔ s.callers p = .suspended
  fault : s.fault = false

omit [DecidableEq P] in
lemma inv_init : Inv count (init P count) := by
  refine ⟨by simp [init], ?_, ?_, List.nodup_nil, by simp [init], rfl⟩
  · simp [init, State.reserved, State.coming, CallPc.reserved, CallPc.coming]
  · simp [init, State.coming, CallPc.coming]

omit [Fintype P] in
lemma suspended_setCaller (h : ∀ q, q ∈ s.waiters ↔ s.callers q = .suspended) {pc : CallPc}
    (hold : s.callers p ≠ .suspended) (hnew : pc ≠ .suspended) (q : P) :
    q ∈ s.waiters ↔ (s.setCaller p pc).callers q = .suspended := by
  by_cases hq : q = p
  · subst hq
    rw [h q]
    simp [State.setCaller, hold, hnew]
  · rw [h q]
    simp [State.setCaller, Function.update_of_ne hq]

/-- A step of a caller outside the queue that stores nothing. -/
lemma Inv.setCaller (h : Inv count s) {pc : CallPc} (hold : s.callers p ≠ .suspended)
    (hnew : pc ≠ .suspended) (hreserved : pc.reserved = (s.callers p).reserved)
    (hcoming : pc.coming = (s.callers p).coming) : Inv count (s.setCaller p pc) := by
  have hr := s.reserved_setCaller p pc
  have hc := s.coming_setCaller p pc
  have hbalance := h.balance
  have hgranted := h.granted
  refine ⟨h.count, ?_, ?_, h.nodup, suspended_setCaller h.suspended hold hnew, h.fault⟩
  · change s.counter.waiters + (s.setCaller p pc).reserved =
      s.waiters.length + (s.setCaller p pc).coming
    omega
  · change ∑ r, s.grants r + s.waiters.length + (s.setCaller p pc).coming = s.acquires + s.tries
    omega

omit [DecidableEq P] in
/-- The histories of calls play no part in the invariant. -/
lemma Inv.history (h : Inv count s) (releases : P → ℕ) :
    Inv count { s with releases := releases } :=
  ⟨h.count, h.balance, h.granted, h.nodup, h.suspended, h.fault⟩

/-- The CAS of an acquire that has to wait. -/
lemma Inv.acquire_wait (h : Inv count s) (hp : s.callers p = .acquireCas s.counter)
    (hwait : s.counter.needWait = true) :
    Inv count ({ s with counter := s.counter.acquire, acquires := s.acquires + 1 }.setCaller p
      .enqueue) := by
  have hr := s.reserved_setCaller p .enqueue
  have hc := s.coming_setCaller p .enqueue
  simp only [hp, CallPc.reserved, CallPc.coming] at hr hc
  have hcount := h.count
  have hbalance := h.balance
  have hgranted := h.granted
  refine ⟨?_, ?_, ?_, h.nodup, suspended_setCaller h.suspended (by simp [hp]) (by simp), h.fault⟩
  · simp only [State.setCaller, Counter.acquire]
    omega
  · change s.counter.acquire.waiters + (s.setCaller p .enqueue).reserved =
      s.waiters.length + (s.setCaller p .enqueue).coming
    simp only [Counter.acquire, hwait, if_true]
    omega
  · change ∑ r, s.grants r + s.waiters.length + (s.setCaller p .enqueue).coming =
      s.acquires + 1 + s.tries
    omega

/-- A permit is taken from the counter. -/
lemma Inv.take (h : Inv count s) (hp : s.callers p ≠ .suspended)
    (hreserved : (s.callers p).reserved = 0) (hcoming : (s.callers p).coming = 0)
    {acquires tries : ℕ} (hsum : acquires + tries = s.acquires + s.tries + 1) :
    Inv count ({ s with
      counter := ⟨s.counter.count - 1, s.counter.waiters⟩
      acquires := acquires
      tries := tries }.grant p) := by
  have hr : (s.setCaller p .idle).reserved = s.reserved := by
    have hsum := s.reserved_setCaller p .idle
    rwa [hreserved] at hsum
  have hc : (s.setCaller p .idle).coming = s.coming := by
    have hsum := s.coming_setCaller p .idle
    rwa [hcoming] at hsum
  have hcount := h.count
  have hbalance := h.balance
  have hgranted := h.granted
  have hgrants := s.sum_grants p
  refine ⟨?_, ?_, ?_, h.nodup, suspended_setCaller h.suspended hp (by simp), h.fault⟩
  · simp only [State.grant, State.setCaller]
    omega
  · change s.counter.waiters + (s.setCaller p .idle).reserved =
      s.waiters.length + (s.setCaller p .idle).coming
    omega
  · change ∑ r, Function.update s.grants p (s.grants p + 1) r + s.waiters.length +
      (s.setCaller p .idle).coming = acquires + tries
    omega

lemma Counter.needWake_le (counter : Counter) (count : ℤ) :
    counter.needWake count ≤ counter.waiters := by
  unfold Counter.needWake
  split
  · exact min_le_right _ _
  · exact Nat.zero_le _

/-- The CAS of a release reserves its wake-ups. -/
lemma Inv.release (h : Inv count s) {k : ℤ} (hp : s.callers p = .releaseCas k s.counter) :
    Inv count { s.setCaller p (.wake (s.counter.needWake k)) with
      counter := s.counter.release k, released := s.released + k } := by
  have hr := s.reserved_setCaller p (.wake (s.counter.needWake k))
  have hc := s.coming_setCaller p (.wake (s.counter.needWake k))
  simp only [hp, CallPc.reserved, CallPc.coming] at hr hc
  have hcount := h.count
  have hbalance := h.balance
  have hgranted := h.granted
  have hle := s.counter.needWake_le k
  refine ⟨?_, ?_, ?_, h.nodup, suspended_setCaller h.suspended (by simp [hp]) (by simp), h.fault⟩
  · simp only [Counter.release, State.setCaller]
    omega
  · change s.counter.waiters - s.counter.needWake k +
      (s.setCaller p (.wake (s.counter.needWake k))).reserved =
      s.waiters.length + (s.setCaller p (.wake (s.counter.needWake k))).coming
    omega
  · change ∑ r, s.grants r + s.waiters.length +
      (s.setCaller p (.wake (s.counter.needWake k))).coming = s.acquires + s.tries
    omega

/-- The acquire enqueues its handle. -/
lemma Inv.enqueue (h : Inv count s) (hp : s.callers p = .enqueue) :
    Inv count { s.setCaller p .suspended with waiters := s.waiters ++ [p] } := by
  have hr := s.reserved_setCaller p .suspended
  have hc := s.coming_setCaller p .suspended
  simp only [hp, CallPc.reserved, CallPc.coming] at hr hc
  have hbalance := h.balance
  have hgranted := h.granted
  have hnot : p ∉ s.waiters := by
    rw [h.suspended p, hp]
    simp
  refine ⟨h.count, ?_, ?_, ?_, fun q => ?_, h.fault⟩
  · change s.counter.waiters + (s.setCaller p .suspended).reserved =
      (s.waiters ++ [p]).length + (s.setCaller p .suspended).coming
    rw [List.length_append, List.length_singleton]
    omega
  · change ∑ r, s.grants r + (s.waiters ++ [p]).length + (s.setCaller p .suspended).coming =
      s.acquires + s.tries
    rw [List.length_append, List.length_singleton]
    omega
  · exact h.nodup.append (List.nodup_singleton p) (by simpa using hnot)
  · by_cases hq : q = p
    · subst hq
      simp [State.setCaller]
    · simp [State.setCaller, hq, h.suspended q]

/-- A release takes a handle out of the queue and resumes it. -/
lemma Inv.dequeue (h : Inv count s) {k : ℕ} (hp : s.callers p = .wake (k + 1))
    (hq : q ∈ s.waiters) :
    Inv count (({ s with waiters := s.waiters.erase q }.setCaller p (.wake k)).resume q) := by
  have hqs := (h.suspended q).mp hq
  have hqp : q ≠ p := by
    rintro rfl
    rw [hp] at hqs
    cases hqs
  have hresume : ({ s with waiters := s.waiters.erase q }.setCaller p (.wake k)).resume q =
      ({ s with waiters := s.waiters.erase q }.setCaller p (.wake k)).grant q := by
    simp [State.resume, State.setCaller, Function.update_of_ne hqp, hqs]
  have hself : (s.setCaller p (.wake k)).callers q = .suspended := by
    simp [State.setCaller, Function.update_of_ne hqp, hqs]
  have hr := s.reserved_setCaller p (.wake k)
  have hc := s.coming_setCaller p (.wake k)
  have hr' := (s.setCaller p (.wake k)).reserved_setCaller q .idle
  have hc' := (s.setCaller p (.wake k)).coming_setCaller q .idle
  simp only [hp, CallPc.reserved, CallPc.coming] at hr hc
  simp only [hself, CallPc.reserved, CallPc.coming] at hr' hc'
  have hlen : (s.waiters.erase q).length + 1 = s.waiters.length := by
    rw [List.length_erase_of_mem hq]
    have := List.length_pos_of_mem hq
    omega
  have hbalance := h.balance
  have hgranted := h.granted
  have hgrants := s.sum_grants q
  rw [hresume]
  refine ⟨h.count, ?_, ?_, h.nodup.erase q, fun r => ?_, h.fault⟩
  · change s.counter.waiters + ((s.setCaller p (.wake k)).setCaller q .idle).reserved =
      (s.waiters.erase q).length + ((s.setCaller p (.wake k)).setCaller q .idle).coming
    omega
  · change ∑ r, Function.update s.grants q (s.grants q + 1) r + (s.waiters.erase q).length +
      ((s.setCaller p (.wake k)).setCaller q .idle).coming = s.acquires + s.tries
    omega
  · change r ∈ s.waiters.erase q ↔
      Function.update (Function.update s.callers p (.wake k)) q .idle r = .suspended
    rw [h.nodup.mem_erase_iff, h.suspended r]
    by_cases hrq : r = q
    · subst hrq
      simp
    · by_cases hrp : r = p
      · subst hrp
        simp [Function.update_of_ne hrq, hp]
      · simp [Function.update_of_ne hrp, hrq]

lemma Inv.cas (h : Inv count s) {spurious : Bool} (hs : cas s p spurious = some s') :
    Inv count s' := by
  cases cas_effect hs with
  | wait hp hwait => exact h.acquire_wait hp hwait
  | acquire hp hwait =>
    have hcounter : s.counter.acquire = ⟨s.counter.count - 1, s.counter.waiters⟩ := by
      simp [Counter.acquire, hwait]
    rw [hcounter]
    exact h.take (by simp [hp]) (by rw [hp]; rfl) (by rw [hp]; rfl) (by omega)
  | tryAcquire hp hsuccess =>
    have hcounter : s.counter.tryAcquire = ⟨s.counter.count - 1, s.counter.waiters⟩ := by
      simp [Counter.tryAcquire, hsuccess]
    rw [hcounter]
    exact h.take (by simp [hp]) (by rw [hp]; rfl) (by rw [hp]; rfl) (by omega)
  | release hp => exact h.release hp
  | giveUp hp _ | acquireAgain hp _ | tryAgain hp _ | releaseAgain hp _ =>
    exact h.setCaller (by simp [hp]) (by simp) (by rw [hp]; rfl) (by rw [hp]; rfl)

theorem Inv.step (h : Inv count s) {a : Action P} (hs : step s a = some s') : Inv count s' := by
  cases a <;> simp only [CountingSemaphore.step] at hs
  case acquire p | tryAcquire p =>
    split at hs <;> cases hs
    rename_i hp
    exact h.setCaller (by simp [hp]) (by simp) (by rw [hp]; rfl) (by rw [hp]; rfl)
  case release p k =>
    split at hs <;> cases hs
    rename_i hp
    have hinv : Inv count (s.setCaller p (.releaseLoad k)) :=
      h.setCaller (by simp [hp]) (by simp) (by rw [hp]; rfl) (by rw [hp]; rfl)
    exact hinv.history _
  case load p =>
    split at hs <;> cases hs
    all_goals
      rename_i hp
      exact h.setCaller (by simp [hp]) (by simp) (by rw [hp]; rfl) (by rw [hp]; rfl)
  case cas p spurious => exact h.cas hs
  case enqueue p =>
    split at hs <;> cases hs
    exact h.enqueue ‹_›
  case dequeue p q =>
    split at hs
    · split at hs <;> cases hs
      exact h.dequeue ‹_› ‹_›
    · cases hs
  case releaseRet p =>
    split at hs <;> cases hs
    rename_i hp
    exact h.setCaller (by simp [hp]) (by simp) (by rw [hp]; rfl) (by rw [hp]; rfl)

theorem reaches_inv {C : State P → Action P → Prop} (h : (system P count).Reaches C s) :
    Inv count s :=
  h.invariant inv_init fun _ _ _ _ ih _ hs => ih.step hs

/-! ### Positive release arguments -/

/-- The argument of a `release` whose CAS is not done. -/
def CallPc.releaseArg : CallPc → Option ℤ
  | .releaseLoad count | .releaseCas count _ => some count
  | _ => none

omit [Fintype P] in
lemma setCaller_releaseArg {pc : CallPc} {k : ℤ}
    (hpc : pc.releaseArg = none ∨ pc.releaseArg = (s.callers p).releaseArg)
    (hq : ((s.setCaller p pc).callers q).releaseArg = some k) :
    (s.callers q).releaseArg = some k := by
  by_cases hqp : q = p
  · subst hqp
    simp only [State.setCaller, Function.update_self] at hq
    rcases hpc with hpc | hpc
    · rw [hpc] at hq
      cases hq
    · rwa [← hpc]
  · simpa only [State.setCaller, Function.update_of_ne hqp] using hq

omit [Fintype P] in
/-- What the CASes do to the counter. -/
lemma cas_counter {spurious : Bool} (hs : cas s p spurious = some s') :
    s'.counter = s.counter ∨ s'.counter = s.counter.acquire ∨ s'.counter = s.counter.tryAcquire ∨
      ∃ k, (s.callers p).releaseArg = some k ∧ s'.counter = s.counter.release k := by
  cases cas_effect hs with
  | wait _ _ | acquire _ _ => exact Or.inr (Or.inl rfl)
  | tryAcquire _ _ => exact Or.inr (Or.inr (Or.inl rfl))
  | @release k hp => exact Or.inr (Or.inr (Or.inr ⟨k, by rw [hp]; rfl, rfl⟩))
  | giveUp _ _ | acquireAgain _ _ | tryAgain _ _ | releaseAgain _ _ => exact Or.inl rfl

omit [Fintype P] in
lemma resume_fields (s : State P) (q : P) : (s.resume q).counter = s.counter ∧
    (s.resume q).released = s.released ∧ (s.resume q).releases = s.releases := by
  unfold State.resume
  split <;> exact ⟨rfl, rfl, rfl⟩

omit [Fintype P] in
lemma step_counter {a : Action P} (hs : step s a = some s') :
    s'.counter = s.counter ∨ s'.counter = s.counter.acquire ∨ s'.counter = s.counter.tryAcquire ∨
      ∃ p k, (s.callers p).releaseArg = some k ∧ s'.counter = s.counter.release k := by
  cases a <;> simp only [step] at hs
  case cas p spurious =>
    rcases cas_counter hs with h | h | h | ⟨k, hk, h⟩
    · exact Or.inl h
    · exact Or.inr (Or.inl h)
    · exact Or.inr (Or.inr (Or.inl h))
    · exact Or.inr (Or.inr (Or.inr ⟨p, k, hk, h⟩))
  case dequeue p q =>
    split at hs
    · split at hs <;> cases hs
      exact Or.inl (resume_fields _ q).1
    · cases hs
  all_goals
    split at hs <;> cases hs
    all_goals exact Or.inl rfl

omit [Fintype P] in
/-- The arguments of running releases are those of the calls. -/
lemma step_releaseArg {a : Action P} {k : ℤ} (hs : step s a = some s')
    (hq : (s'.callers q).releaseArg = some k) :
    (s.callers q).releaseArg = some k ∨ a = .release q k := by
  cases a <;> simp only [step] at hs
  case acquire p | tryAcquire p | enqueue p | releaseRet p =>
    split at hs <;> cases hs
    exact Or.inl (setCaller_releaseArg (Or.inl rfl) hq)
  case release p j =>
    split at hs <;> cases hs
    by_cases hqp : q = p
    · subst hqp
      simp only [State.setCaller, Function.update_self, CallPc.releaseArg, Option.some.injEq] at hq
      rw [hq]
      exact Or.inr rfl
    · simp only [State.setCaller, Function.update_of_ne hqp] at hq
      exact Or.inl hq
  case load p =>
    split at hs <;> cases hs
    · exact Or.inl (setCaller_releaseArg (Or.inl rfl) hq)
    · exact Or.inl (setCaller_releaseArg (Or.inl rfl) hq)
    · rename_i hp
      exact Or.inl (setCaller_releaseArg (Or.inr (by rw [hp]; rfl)) hq)
  case cas p spurious =>
    left
    cases cas_effect hs with
    | wait _ _ | acquire _ _ | tryAcquire _ _ | giveUp _ _ | release _ | acquireAgain _ _
    | tryAgain _ _ => exact setCaller_releaseArg (Or.inl rfl) hq
    | releaseAgain hp _ => exact setCaller_releaseArg (Or.inr (by rw [hp]; rfl)) hq
  case dequeue p r =>
    split at hs
    · split at hs <;> cases hs
      left
      unfold State.resume at hq
      split at hq
      · exact setCaller_releaseArg (Or.inl rfl) (setCaller_releaseArg (Or.inl rfl) hq)
      · exact setCaller_releaseArg (Or.inl rfl) hq
    · cases hs

omit [Fintype P] in
lemma reaches_releaseArg {C : State P → Action P → Prop} {Q : ℤ → Prop}
    (hC : ∀ s p k, C s (.release p k) → Q k) (h : (system P count).Reaches C s) {k : ℤ}
    (hp : (s.callers p).releaseArg = some k) : Q k := by
  have hall : ∀ p k, (s.callers p).releaseArg = some k → Q k := by
    refine h.invariant (I := fun s => ∀ p k, (s.callers p).releaseArg = some k → Q k) ?_ ?_
    · intro p k hp
      cases hp
    · intro s a s' _ ih hCa hs p k hp
      rcases step_releaseArg hs hp with hold | rfl
      · exact ih p k hold
      · exact hC s p k hCa
  exact hall p k hp

omit [Fintype P] in
lemma grants_grant (s : State P) (q p : P) :
    (s.grant q).grants p = s.grants p ∨ (s.grant q).grants p = s.grants p + 1 := by
  by_cases hp : p = q
  · subst hp
    exact Or.inr (Function.update_self ..)
  · exact Or.inl (Function.update_of_ne hp ..)

omit [Fintype P] in
/-- A step hands out at most one permit to a caller and takes none back. -/
lemma step_grants {a : Action P} (hs : step s a = some s') (p : P) :
    s'.grants p = s.grants p ∨ s'.grants p = s.grants p + 1 := by
  cases a <;> simp only [step] at hs
  case cas q spurious =>
    cases cas_effect hs with
    | acquire _ _ | tryAcquire _ _ => exact grants_grant _ q p
    | wait _ _ | giveUp _ _ | release _ | acquireAgain _ _ | tryAgain _ _ | releaseAgain _ _ =>
      exact Or.inl rfl
  case dequeue q r =>
    split at hs
    · split at hs <;> cases hs
      unfold State.resume
      split
      · exact grants_grant ({ s with waiters := _ }.setCaller q _) r p
      · exact Or.inl rfl
    · cases hs
  all_goals
    split at hs <;> cases hs
    all_goals exact Or.inl rfl

omit [Fintype P] in
lemma grant_of_ne (s : State P) (hp : p ≠ q) :
    (s.grant q).callers p = s.callers p ∧ (s.grant q).grants p = s.grants p :=
  ⟨Function.update_of_ne hp .., Function.update_of_ne hp ..⟩

omit [Fintype P] in
/-- A CAS does nothing to the other callers. -/
lemma cas_of_ne {spurious : Bool} (hs : cas s q spurious = some s') (hp : p ≠ q) :
    s'.callers p = s.callers p ∧ s'.grants p = s.grants p := by
  cases cas_effect hs with
  | acquire _ _ | tryAcquire _ _ => exact grant_of_ne _ hp
  | wait _ _ | giveUp _ _ | release _ | acquireAgain _ _ | tryAgain _ _ | releaseAgain _ _ =>
    exact ⟨Function.update_of_ne hp .., rfl⟩

omit [Fintype P] in
/-- What happens to a suspended caller: a release takes its handle, or nothing. -/
lemma step_suspended {a : Action P} (hs : step s a = some s') (hp : s.callers p = .suspended) :
    (∃ r, a = .dequeue r p) ∧ s'.grants p = s.grants p + 1 ∨
      (∀ r, a ≠ .dequeue r p) ∧ s'.callers p = .suspended ∧ s'.grants p = s.grants p := by
  have hne : ∀ {q pc}, s.callers q = pc → pc ≠ .suspended → p ≠ q := by
    rintro q pc hq hpc rfl
    exact hpc (hq.symm.trans hp)
  cases a <;> simp only [step] at hs
  case cas q spurious =>
    have hpq : p ≠ q := by
      rintro rfl
      simp [cas, hp] at hs
    obtain ⟨hcallers, hgrants⟩ := cas_of_ne hs hpq
    exact Or.inr ⟨fun _ => by simp, hcallers.trans hp, hgrants⟩
  case dequeue r q =>
    split at hs
    · rename_i hr
      have hpr := hne hr (by simp)
      split at hs <;> cases hs
      unfold State.resume
      by_cases hpq : p = q
      · subst hpq
        left
        simp [State.setCaller, State.grant, Function.update_of_ne hpr, hp]
      · right
        refine ⟨fun r' => by simp [Ne.symm hpq], ?_⟩
        split <;> simp [State.setCaller, State.grant, Function.update_of_ne hpr, hpq, hp]
    · cases hs
  all_goals
    split at hs <;> cases hs
    all_goals
      have hpq := hne ‹_› (by simp)
      exact Or.inr ⟨fun _ => by simp, (Function.update_of_ne hpq ..).trans hp, rfl⟩

/-- The waiters are the permits that are owed. -/
def Counter.Ok (counter : Counter) : Prop := (counter.waiters : ℤ) = max 0 (-counter.count)

lemma Counter.Ok.acquire {counter : Counter} (h : counter.Ok) : counter.acquire.Ok := by
  unfold Counter.Ok at h ⊢
  unfold Counter.acquire Counter.needWait
  by_cases hneg : counter.count - 1 < 0
  · simp only [hneg, decide_true, if_true]
    push_cast
    omega
  · simp only [hneg, decide_false, Bool.false_eq_true, if_false]
    omega

lemma Counter.Ok.tryAcquire {counter : Counter} (h : counter.Ok) : counter.tryAcquire.Ok := by
  unfold Counter.Ok at h ⊢
  unfold Counter.tryAcquire Counter.success
  by_cases hpos : counter.count > 0
  · simp only [hpos, decide_true, if_true]
    omega
  · simp only [hpos, decide_false, Bool.false_eq_true, if_false]
    exact h

lemma Counter.Ok.release {counter : Counter} (h : counter.Ok) {k : ℤ} (hk : 1 ≤ k) :
    (counter.release k).Ok := by
  unfold Counter.Ok at h ⊢
  unfold Counter.release Counter.needWake
  have hpos : k > 0 := by omega
  simp only [hpos, if_true]
  omega

/-- No `release` is called with an argument less than one. -/
def ReleasesPositive (_ : State P) (a : Action P) : Prop := ∀ p k, a = .release p k → 1 ≤ k

instance (s : State P) (a : Action P) : Decidable (ReleasesPositive s a) :=
  match a with
  | .release p k => decidable_of_iff (1 ≤ k)
      ⟨fun h _ _ heq => by cases heq; exact h, fun h => h p k rfl⟩
  | .acquire _ | .tryAcquire _ | .load _ | .cas .. | .enqueue _ | .dequeue .. | .releaseRet _ =>
    isTrue nofun

omit [Fintype P] in
lemma reaches_counter {C : State P → Action P → Prop} (hcount : 0 ≤ count)
    (hC : ∀ s p k, C s (.release p k) → 1 ≤ k) (h : (system P count).Reaches C s) :
    s.counter.Ok := by
  refine h.invariant (I := fun s => s.counter.Ok) ?_ ?_
  · unfold Counter.Ok
    simp only [system, init]
    push_cast
    omega
  · intro s a s' run ih _ hs
    rcases step_counter hs with hc | hc | hc | ⟨p, k, hk, hc⟩ <;> rw [hc]
    · exact ih
    · exact ih.acquire
    · exact ih.tryAcquire
    · exact ih.release (reaches_releaseArg hC run hk)

omit [Fintype P] in
/-- While somebody waits, a CAS hands out no permit. -/
lemma cas_grants (hok : s.counter.Ok) (hwaiters : 0 < s.counter.waiters) {spurious : Bool}
    (hs : cas s p spurious = some s') : s'.grants = s.grants := by
  have hneg : s.counter.count < 0 := by
    unfold Counter.Ok at hok
    omega
  cases cas_effect hs with
  | acquire _ hwait =>
    unfold Counter.needWait at hwait
    exact absurd (by omega) (of_decide_eq_false hwait)
  | tryAcquire _ hsuccess =>
    unfold Counter.success at hsuccess
    exact absurd (of_decide_eq_true hsuccess) (by omega)
  | wait _ _ | giveUp _ _ | release _ | acquireAgain _ _ | tryAgain _ _ | releaseAgain _ _ => rfl

/-- The accounting of a semaphore that began with `count` permits. -/
structure Accounting (count : ℤ) (s : State P) : Prop where
  count : s.counter.count = count + s.released - s.acquires - s.tries
  waiters : (s.counter.waiters : ℤ) = max 0 (-s.counter.count)
  balance : s.counter.waiters + s.reserved = s.waiters.length + s.coming
  /-- A release that waits for a handle gets one. -/
  comes : ∀ p k, s.callers p = .wake (k + 1) → s.waiters ≠ [] ∨ ∃ q, s.callers q = .enqueue
  /-- A suspended acquire has its handle in the queue, once, and nobody else has. -/
  nodup : s.waiters.Nodup
  suspended : ∀ p, p ∈ s.waiters ↔ s.callers p = .suspended
  /-- No handle is resumed that is not suspended. -/
  fault : s.fault = false
  /-- No permit goes past those who wait. -/
  fair : 0 < s.counter.waiters → ∀ p spurious s', step s (.cas p spurious) = some s' →
    s'.grants = s.grants

omit [DecidableEq P] in
lemma Inv.comes (h : Inv count s) {k : ℕ} (hp : s.callers p = .wake (k + 1)) :
    s.waiters ≠ [] ∨ ∃ q, s.callers q = .enqueue := by
  by_cases hnil : s.waiters = []
  · right
    have hbalance := h.balance
    have hreserved : k + 1 ≤ s.reserved := by
      have hle := Finset.single_le_sum (f := fun r => (s.callers r).reserved)
        (fun r _ => Nat.zero_le _) (Finset.mem_univ p)
      simp only [hp, CallPc.reserved] at hle
      exact hle
    have hcoming : s.coming ≠ 0 := by
      rw [hnil, List.length_nil] at hbalance
      omega
    obtain ⟨q, -, hq⟩ := Finset.exists_ne_zero_of_sum_ne_zero hcoming
    refine ⟨q, ?_⟩
    unfold CallPc.coming at hq
    split at hq
    · assumption
    · exact absurd rfl hq
  · exact Or.inl hnil

theorem reaches_accounting {C : State P → Action P → Prop} (hcount : 0 ≤ count)
    (hC : ∀ s p k, C s (.release p k) → 1 ≤ k) (h : (system P count).Reaches C s) :
    Accounting count s := by
  have hinv := reaches_inv h
  have hok := reaches_counter hcount hC h
  refine ⟨hinv.count, hok, hinv.balance, fun p k hp => hinv.comes hp, hinv.nodup,
    hinv.suspended, hinv.fault, ?_⟩
  intro hwaiters p spurious s' hs
  exact cas_grants hok hwaiters hs

end invariant

end Scoro.CountingSemaphore

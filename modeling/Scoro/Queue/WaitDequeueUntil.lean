import Scoro.Queue.Shared
import Scoro.Queue.WaitableAtomic

/-!
# `wait_dequeue_until`

Consumers `C` that call `wait_dequeue_until` with a lock on one mutex, each with a deadline of its
own. In place of `m_tail.wait(tail)` a consumer calls `m_tail.wait_until(tail, atime)`, with the
mutex released, and returns `nullopt` if the answer is false.
-/

namespace Scoro.TimedQueue
open Scoro.Lib Scoro.AtomicQueue Scoro.WaitableAtomic

/-- The queue with its consumers, the clock, the deadline of each consumer's call and its call of
`wait_until`. -/
structure State (P T C Time : Type*) where
  shared : SharedQueue.State P T C
  now : Time
  atimes : C → Time
  waits : C → Option (Call (Option Addr) Time)

inductive Action (P T C Time : Type*) where
  | other (a : AtomicQueue.Action P T)
  | tick (now : Time)
  | waitDequeueUntil (c : C) (atime : Time)
  | consumer (c : C) (result : FutexResult)

section step
variable {P T C Time : Type*} [DecidableEq P] [DecidableEq C] [LinearOrder Time]

def init (P T C : Type*) {Time : Type*} (stub : Addr) (now : Time) : State P T C Time where
  shared := SharedQueue.init P T C stub
  now := now
  atimes := fun _ => now
  waits := fun _ => none

def State.setWait (s : State P T C Time) (c : C) (wait : Option (Call (Option Addr) Time)) :
    State P T C Time :=
  { s with waits := Function.update s.waits c wait }

/-- The consumer leaves `wait_until` and goes on at `pc`. -/
def State.leaveWait (s : State P T C Time) (c : C) (pc : SharedQueue.ConsumerPc) :
    State P T C Time :=
  { s.setWait c none with shared := s.shared.setConsumer c pc }

/-- `bool success = m_tail.wait_until(tail, atime); if (!success) return std::nullopt;` and the wait
for the mutex after it. -/
def waitStep (spinTimes : ℕ) (s : State P T C Time) (c : C) (tail : Addr) (result : FutexResult) :
    Option (State P T C Time) :=
  match s.waits c with
  | none => some (s.setWait c (some (.start spinTimes (some tail) (s.atimes c))))
  | some call =>
    match call.pc with
    | .returned false => some (s.leaveWait c .idle)
    | .returned true => some (s.leaveWait c .relock)
    | _ => (waitUntilStep s.shared.queue.mTail s.now result call).map fun call' =>
        s.setWait c (some call')

def step (spinTimes : ℕ) (s : State P T C Time) : Action P T C Time → Option (State P T C Time)
  | .other a => (SharedQueue.step s.shared (.other a)).map fun q => { s with shared := q }
  | .tick now => if s.now ≤ now then some { s with now := now } else none
  | .waitDequeueUntil c atime => (SharedQueue.step s.shared (.waitDequeue c)).map fun q =>
      { s with shared := q, atimes := Function.update s.atimes c atime }
  | .consumer c result =>
    match s.shared.consumers c with
    | .wait tail => waitStep spinTimes s c tail result
    | _ => (SharedQueue.consumerStep s.shared c).map fun q => { s with shared := q }

def system (P T C : Type*) {Time : Type*} [DecidableEq P] [DecidableEq C] [LinearOrder Time]
    (stub : Addr) (spinTimes : ℕ) (now : Time) :
    System (State P T C Time) (Action P T C Time) where
  init := init P T C stub now
  step := step spinTimes

/-- The consumer is about to return `nullopt` for a timeout. -/
def TimesOut (s : State P T C Time) (c : C) : Prop :=
  ∃ call, s.waits c = some call ∧ call.pc = .returned false

/-- A timeout is reported only when the deadline has passed. -/
def Punctual (s : State P T C Time) : Prop := ∀ c, TimesOut s c → s.atimes c ≤ s.now

/-- An address that has come back to `m_tail` is not taken for a timeout before the deadline. -/
def Settled (s : State P T C Time) : Action P T C Time → Prop
  | .consumer c _ => ∀ call ∈ s.waits c, call.Rereads s.shared.queue.mTail ∨ s.atimes c ≤ s.now
  | .other _ | .tick _ | .waitDequeueUntil .. => True

instance (s : State P T C Time) : (a : Action P T C Time) → Decidable (Settled s a)
  | .consumer c _ => inferInstanceAs (Decidable (∀ call ∈ s.waits c, _))
  | .other _ | .tick _ | .waitDequeueUntil .. => .isTrue trivial

end step

section run
variable {P T C Time : Type*} [DecidableEq C] [LinearOrder Time] {s s' : State P T C Time}
  {c d : C} {stub : Addr} {spinTimes : ℕ} {now : Time}

/-- A consumer in `wait_until` begins, goes on, or leaves with its answer. -/
lemma waitStep_cases {tail : Addr} {result : FutexResult}
    (hs : waitStep spinTimes s c tail result = some s') :
    s.waits c = none ∧ s' = s.setWait c (some (.start spinTimes (some tail) (s.atimes c))) ∨
    (∃ call success, s.waits c = some call ∧ call.pc = .returned success ∧
      s' = s.leaveWait c (if success then .relock else .idle)) ∨
    ∃ call call', s.waits c = some call ∧
      waitUntilStep s.shared.queue.mTail s.now result call = some call' ∧
      s' = s.setWait c (some call') := by
  unfold waitStep at hs
  split at hs
  · rename_i hnone
    cases hs
    exact Or.inl ⟨hnone, rfl⟩
  · rename_i call hcall
    right
    split at hs
    · rename_i hpc
      cases hs
      exact Or.inl ⟨call, false, hcall, hpc, rfl⟩
    · rename_i hpc
      cases hs
      exact Or.inl ⟨call, true, hcall, hpc, rfl⟩
    · obtain ⟨call', hstep, rfl⟩ := Option.map_eq_some_iff.mp hs
      exact Or.inr ⟨call, call', hcall, hstep, rfl⟩

/-- A call of `wait_until` is made by a consumer that waits, with its tail and its deadline. -/
def Waiting (s : State P T C Time) : Prop :=
  ∀ c call, s.waits c = some call →
    (∃ tail, s.shared.consumers c = .wait tail ∧ call.expected = some tail) ∧
      call.atime = s.atimes c

omit [DecidableEq C] [LinearOrder Time] in
lemma Waiting.waits_eq_none (h : Waiting s) (hc : ∀ tail, s.shared.consumers c ≠ .wait tail) :
    s.waits c = none := by
  rw [Option.eq_none_iff_forall_ne_some]
  intro call hcall
  obtain ⟨⟨tail, htail, -⟩, -⟩ := h c call hcall
  exact hc tail htail

omit [DecidableEq C] [LinearOrder Time] in
/-- A consumer that is not in `wait_until`, and the others stay as they are. -/
lemma Waiting.frame (h : Waiting s) (hwaits : s'.waits = s.waits) (hc : s.waits c = none)
    (hconsumers : ∀ d, d ≠ c → s'.shared.consumers d = s.shared.consumers d)
    (hatimes : ∀ d, d ≠ c → s'.atimes d = s.atimes d) : Waiting s' := by
  intro d call hcall
  rw [hwaits] at hcall
  have hdc : d ≠ c := by
    rintro rfl
    rw [hc] at hcall
    cases hcall
  rw [hconsumers d hdc, hatimes d hdc]
  exact h d call hcall

omit [LinearOrder Time] in
lemma Waiting.setWait (h : Waiting s) {call : Call (Option Addr) Time} {tail : Addr}
    (hc : s.shared.consumers c = .wait tail) (hexpected : call.expected = some tail)
    (hatime : call.atime = s.atimes c) : Waiting (s.setWait c (some call)) := by
  intro d call' hcall'
  by_cases hdc : d = c
  · subst hdc
    simp only [State.setWait, Function.update_self, Option.some.injEq] at hcall'
    subst hcall'
    exact ⟨⟨tail, hc, hexpected⟩, hatime⟩
  · simp only [State.setWait, Function.update_of_ne hdc] at hcall'
    exact h d call' hcall'

omit [LinearOrder Time] in
lemma Waiting.leaveWait (h : Waiting s) (pc : SharedQueue.ConsumerPc) :
    Waiting (s.leaveWait c pc) := by
  intro d call hcall
  by_cases hdc : d = c
  · subst hdc
    simp [State.leaveWait, State.setWait] at hcall
  · simp only [State.leaveWait, State.setWait, Function.update_of_ne hdc] at hcall
    obtain ⟨htail, hatime⟩ := h d call hcall
    refine ⟨?_, hatime⟩
    simpa only [State.leaveWait, SharedQueue.State.setConsumer, Function.update_of_ne hdc]
      using htail

lemma Waiting.waitStep (h : Waiting s) {tail : Addr} {result : FutexResult}
    (hc : s.shared.consumers c = .wait tail) (hs : waitStep spinTimes s c tail result = some s') :
    Waiting s' := by
  rcases waitStep_cases hs with ⟨-, rfl⟩ | ⟨call, success, -, -, rfl⟩ |
    ⟨call, call', hcall, hstep, rfl⟩
  · exact h.setWait hc rfl rfl
  · exact h.leaveWait _
  · obtain ⟨⟨tail', htail', hexpected⟩, hatime⟩ := h c call hcall
    obtain ⟨hargs, hargs'⟩ := (waitUntil_step hstep).args
    rw [hc] at htail'
    cases htail'
    exact h.setWait hc (hargs.trans hexpected) (hargs'.trans hatime)

variable [DecidableEq P]

lemma Waiting.step (h : Waiting s) {a : Action P T C Time} (hs : step spinTimes s a = some s') :
    Waiting s' := by
  cases a with
  | other a =>
    obtain ⟨q, hq, rfl⟩ := Option.map_eq_some_iff.mp hs
    simp only [SharedQueue.step] at hq
    split at hq
    · obtain ⟨r, -, rfl⟩ := Option.map_eq_some_iff.mp hq
      exact h
    · cases hq
  | tick t =>
    simp only [TimedQueue.step] at hs
    split at hs <;> cases hs
    exact h
  | waitDequeueUntil c atime =>
    obtain ⟨q, hq, rfl⟩ := Option.map_eq_some_iff.mp hs
    simp only [SharedQueue.step] at hq
    split at hq <;> cases hq
    rename_i hc
    refine h.frame (c := c) rfl (h.waits_eq_none (by simp [hc])) (fun d hd => ?_) fun d hd => ?_
    · exact Function.update_of_ne hd ..
    · exact Function.update_of_ne hd ..
  | consumer c result =>
    simp only [TimedQueue.step] at hs
    split at hs
    · rename_i tail hc
      exact h.waitStep hc hs
    · rename_i hc
      obtain ⟨q, hq, rfl⟩ := Option.map_eq_some_iff.mp hs
      exact h.frame (c := c) rfl (h.waits_eq_none hc)
        (fun d hd => SharedQueue.consumerStep_of_ne hq hd) fun d _ => rfl

omit [DecidableEq P] [DecidableEq C] in
/-- No consumer comes to report a timeout. -/
lemma Punctual.frame (h : Punctual s) (hnow : s.now ≤ s'.now)
    (hout : ∀ d, TimesOut s' d → TimesOut s d ∧ s'.atimes d = s.atimes d) : Punctual s' := by
  intro d hd
  obtain ⟨hold, hatime⟩ := hout d hd
  rw [hatime]
  exact (h d hold).trans hnow

omit [DecidableEq P] [LinearOrder Time] in
lemma timesOut_setWait {wait : Option (Call (Option Addr) Time)} (hd : d ≠ c)
    (h : TimesOut (s.setWait c wait) d) : TimesOut s d := by
  obtain ⟨call, hcall, hpc⟩ := h
  simp only [State.setWait, Function.update_of_ne hd] at hcall
  exact ⟨call, hcall, hpc⟩

omit [DecidableEq P] in
lemma punctual_waitStep (hw : Waiting s) (hp : Punctual s) {tail : Addr} {result : FutexResult}
    (hs : waitStep spinTimes s c tail result = some s') :
    Punctual s' ↔ ∀ call ∈ s.waits c,
      call.Rereads s.shared.queue.mTail ∨ s.atimes c ≤ s.now := by
  have hleft : ∀ wait : Option (Call (Option Addr) Time),
      (∀ call ∈ wait, call.pc = .returned false → s.atimes c ≤ s.now) →
        Punctual (s.setWait c wait) := by
    intro wait hwait d hd
    by_cases hdc : d = c
    · subst hdc
      obtain ⟨call, hcall, hpc⟩ := hd
      simp only [State.setWait, Function.update_self] at hcall
      exact hwait call hcall hpc
    · exact hp d (timesOut_setWait hdc hd)
  rcases waitStep_cases hs with ⟨hnone, rfl⟩ | ⟨call, success, hcall, hpc, rfl⟩ |
    ⟨call, call', hcall, hstep, rfl⟩
  · refine iff_of_true (hleft _ ?_) (by simp [hnone])
    rintro _ ⟨⟩ hret
    cases hret
  · refine iff_of_true (hleft none (by simp)) ?_
    intro call' hcall'
    obtain rfl := Option.some.inj (hcall.symm.trans hcall')
    exact Or.inl fun hreload => by simp [hpc] at hreload
  · have hexpired := expired_step hstep
    rw [(hw c call hcall).2] at hexpired
    simp only [hcall, Option.mem_def, Option.some.injEq, forall_eq']
    rw [← hexpired]
    constructor
    · exact fun hpunctual hret => hpunctual c ⟨call', by simp [State.setWait], hret⟩
    · intro hlate
      refine hleft _ ?_
      rintro _ ⟨⟩ hret
      exact hlate hret

lemma punctual_step (hw : Waiting s) (hp : Punctual s) {a : Action P T C Time}
    (hs : step spinTimes s a = some s') : Punctual s' ↔ Settled s a := by
  cases a with
  | other a =>
    obtain ⟨q, -, rfl⟩ := Option.map_eq_some_iff.mp hs
    exact iff_of_true hp trivial
  | tick t =>
    simp only [step] at hs
    split at hs <;> cases hs
    rename_i hle
    exact iff_of_true (hp.frame hle fun d hd => ⟨hd, rfl⟩) trivial
  | waitDequeueUntil c atime =>
    obtain ⟨q, hq, rfl⟩ := Option.map_eq_some_iff.mp hs
    simp only [SharedQueue.step] at hq
    split at hq <;> cases hq
    rename_i hc
    have hnone := hw.waits_eq_none (c := c) (by simp [hc])
    refine iff_of_true (hp.frame le_rfl fun d hd => ⟨hd, ?_⟩) trivial
    have hdc : d ≠ c := by
      rintro rfl
      obtain ⟨call, hcall, -⟩ := hd
      rw [hnone] at hcall
      cases hcall
    exact Function.update_of_ne hdc ..
  | consumer c result =>
    simp only [step] at hs
    split at hs
    · exact punctual_waitStep hw hp hs
    · rename_i hc
      obtain ⟨q, -, rfl⟩ := Option.map_eq_some_iff.mp hs
      refine iff_of_true hp ?_
      simp [Settled, hw.waits_eq_none hc]

omit [DecidableEq P] [DecidableEq C] in
lemma punctual_init {now : Time} : Punctual (init P T C stub now) := by
  rintro c ⟨call, hcall, -⟩
  cases hcall

lemma reaches_punctual {now : Time}
    (h : (system P T C stub spinTimes now).Reaches Settled s) : Waiting s ∧ Punctual s := by
  have hwaiting : Waiting (init P T C stub now) := nofun
  exact h.invariant (I := fun s => Waiting s ∧ Punctual s) ⟨hwaiting, punctual_init⟩
    fun s a s' _ hI hC hs => ⟨hI.1.step hs, (punctual_step hI.1 hI.2 hs).mpr hC⟩

/-! ### A single consumer -/

/-- The only consumer waits at the stub, and an address that has left `m_tail` does not come back
while it waits. -/
structure Alone (s : State P T C Time) : Prop where
  waiting : Waiting s
  queue : SharedQueue.Inv s.shared
  stub : ∀ c tail, s.shared.consumers c = .wait tail → tail = s.shared.queue.mHead
  reload : ∀ c call, s.waits c = some call → call.Rereads s.shared.queue.mTail

lemma Alone.other [Subsingleton C] (h : Alone s) {a : AtomicQueue.Action P T}
    {q : SharedQueue.State P T C} (hq : SharedQueue.step s.shared (.other a) = some q) :
    Alone { s with shared := q } := by
  obtain ⟨cs, vs, hinv⟩ := h.queue.queue
  have hkeeps : SharedQueue.KeepsTail s.shared (.other a) := fun n hn c hc =>
    SharedQueue.published_ne_head hinv hn (h.stub c n hc)
  have hqueue := h.queue.step hkeeps hq
  have hstep : TimedQueue.step 0 s (.other a) = some { s with shared := q } := by
    simp [TimedQueue.step, hq]
  have hwaiting := h.waiting.step hstep
  simp only [SharedQueue.step] at hq
  split at hq
  · rename_i ha
    obtain ⟨r, hr, rfl⟩ := Option.map_eq_some_iff.mp hq
    have hother := AtomicQueue.step_other hinv hr (by rintro rfl; cases ha)
      (by rintro rfl; cases ha) (by rintro rfl; cases ha)
    refine ⟨hwaiting, hqueue, fun c tail hc => ?_, fun c call hcall hpc => ?_⟩
    · exact (h.stub c tail hc).trans hother.head.symm
    · obtain ⟨⟨tail, htail, hexpected⟩, -⟩ := h.waiting c call hcall
      change r.mTail ≠ call.expected
      rcases SharedQueue.mTail_step hr ha with hsame | hnone | hpub
      · rw [hsame]
        exact h.reload c call hcall hpc
      · rw [hnone, hexpected]
        simp
      · rw [hpub, hexpected]
        intro heq
        exact SharedQueue.published_ne_head hinv heq (h.stub c tail htail)
  · cases hq

omit [DecidableEq P] in
lemma Alone.waitStep [Subsingleton C] (h : Alone s) {tail : Addr} {result : FutexResult}
    (hc : s.shared.consumers c = .wait tail) (hs : waitStep spinTimes s c tail result = some s') :
    Alone s' := by
  have hwaiting := h.waiting.waitStep hc hs
  rcases waitStep_cases hs with ⟨-, rfl⟩ | ⟨call, success, -, -, rfl⟩ |
    ⟨call, call', hcall, hstep, rfl⟩
  · refine ⟨hwaiting, h.queue, h.stub, fun d call hcall hpc => ?_⟩
    obtain rfl := Subsingleton.elim c d
    simp only [State.setWait, Function.update_self, Option.some.injEq] at hcall
    subst hcall
    cases hpc
  · refine ⟨hwaiting, ?_, fun d tail' hd => ?_, fun d call hcall => ?_⟩
    · exact h.queue.setConsumer (by simp [hc]) (by cases success <;> simp)
    · obtain rfl := Subsingleton.elim c d
      cases success <;> simp [State.leaveWait, SharedQueue.State.setConsumer] at hd
    · obtain rfl := Subsingleton.elim c d
      simp [State.leaveWait, State.setWait] at hcall
  · refine ⟨hwaiting, h.queue, h.stub, fun d call hcall hpc => ?_⟩
    obtain rfl := Subsingleton.elim c d
    simp only [State.setWait, Function.update_self, Option.some.injEq] at hcall
    subst hcall
    exact reload_of_step hstep hpc

lemma Alone.step [Subsingleton C] (h : Alone s) {a : Action P T C Time}
    (hs : step spinTimes s a = some s') : Alone s' := by
  have hwaiting := h.waiting.step hs
  cases a with
  | other a =>
    obtain ⟨q, hq, rfl⟩ := Option.map_eq_some_iff.mp hs
    exact h.other hq
  | tick t =>
    simp only [TimedQueue.step] at hs
    split at hs <;> cases hs
    exact ⟨hwaiting, h.queue, h.stub, h.reload⟩
  | waitDequeueUntil c atime =>
    obtain ⟨q, hq, rfl⟩ := Option.map_eq_some_iff.mp hs
    have hqueue := h.queue.step (a := .waitDequeue c) trivial hq
    simp only [SharedQueue.step] at hq
    split at hq <;> cases hq
    refine ⟨hwaiting, hqueue, fun d tail hd => ?_, h.reload⟩
    obtain rfl := Subsingleton.elim c d
    simp [SharedQueue.State.setConsumer] at hd
  | consumer c result =>
    simp only [TimedQueue.step] at hs
    split at hs
    · rename_i tail hc
      exact h.waitStep hc hs
    · rename_i hc
      obtain ⟨q, hq, rfl⟩ := Option.map_eq_some_iff.mp hs
      refine ⟨hwaiting, h.queue.consumerStep hq, fun d tail hd => ?_, fun d call hcall => ?_⟩
      · obtain rfl := Subsingleton.elim c d
        exact h.queue.stub_of_consumerStep hc hq hd
      · obtain rfl := Subsingleton.elim c d
        rw [h.waiting.waits_eq_none hc] at hcall
        cases hcall

omit [DecidableEq P] [DecidableEq C] [LinearOrder Time] in
lemma alone_init {now : Time} : Alone (init P T C stub now) := by
  refine ⟨nofun, SharedQueue.init_inv, fun c tail hc => ?_, nofun⟩
  cases hc

/-- A single consumer is not told of a timeout before its deadline. -/
theorem wait_dequeue_until_single [Subsingleton C] {now : Time}
    (h : (system P T C stub spinTimes now).Reachable s) : Punctual s := by
  have hall : Alone s ∧ Punctual s := by
    refine h.invariant (I := fun s => Alone s ∧ Punctual s)
      ⟨alone_init, punctual_init⟩ ?_
    rintro s a s' - ⟨halone, hpunctual⟩ - hs
    refine ⟨halone.step hs, (punctual_step halone.waiting hpunctual hs).mpr ?_⟩
    cases a with
    | consumer c result => exact fun call hcall => Or.inl (halone.reload c call hcall)
    | other | tick | waitDequeueUntil => trivial
  exact hall.2

/-! ### The answers -/

/-- A call of `wait_until` answers true only after a load that differed and false only after a late
reading of the clock, as long as the load after its loop does not find the expected value again.
Where it does, the call is wrong, and so is the timeout that `wait_dequeue_until` makes of it. -/
theorem wait_until_truthful_iff {V : Type*} [DecidableEq V] {value expected : V} {atime now : Time}
    {w : WaitableAtomic.State V Time}
    (hw : (WaitableAtomic.system value now spinTimes expected atime).Reaches
      WaitableAtomic.Settled w)
    (hs : (system P T C stub spinTimes now).Reaches Settled s) :
    (w.call.Truthful ∧ w.Dated ∧ ∀ a w', WaitableAtomic.step w a = some w' →
      (w'.call.Truthful ↔ WaitableAtomic.Settled w a)) ∧
    (Punctual s ∧ ∀ a s', step spinTimes s a = some s' → (Punctual s' ↔ Settled s a)) := by
  obtain ⟨htruthful, hdated⟩ := WaitableAtomic.reaches_truthful hw
  obtain ⟨hwaiting, hpunctual⟩ := reaches_punctual hs
  exact ⟨⟨htruthful, hdated, fun a w' hstep => WaitableAtomic.truthful_step_iff htruthful hstep⟩,
    hpunctual, fun a s' hstep => punctual_step hwaiting hpunctual hstep⟩

end run

/-- The value differs when the loop is left, and has come back at the load after it. And a consumer
waits at the stub, another consumer takes a value and deletes the stub, and the next node is
allocated there before the load after the loop. The clock stands at 3, the deadline is 5. -/
theorem wait_until_early_timeout :
    (∃ w : WaitableAtomic.State ℕ ℕ, (WaitableAtomic.system 0 3 0 0 5).Reachable w ∧
      w.call.pc = .returned false ∧ w.now = 3 ∧ ¬w.call.Truthful) ∧
    (∃ s : State (Fin 1) ℕ (Fin 2) ℕ, (system (Fin 1) ℕ (Fin 2) 0 0 3).Reachable s ∧
      TimesOut s 0 ∧ s.atimes 0 = 5 ∧ s.now = 3) := by
  constructor
  · obtain ⟨w, hw, hpc, hnow, hlate⟩ := System.exists_reaches
      (S := WaitableAtomic.system (0 : ℕ) (3 : ℕ) 0 0 5) (fun _ _ => True)
      (fun w => w.call.pc = .returned false ∧ w.now = 3 ∧ w.call.late = false)
      [.call .woken, .call .woken, .call .woken, .call .woken, .store 1, .call .woken,
        .call .woken, .store 0, .call .woken] (by decide)
    refine ⟨w, hw, hpc, hnow, fun htruthful => ?_⟩
    have htrue := htruthful.failed hpc
    rw [hlate] at htrue
    cases htrue
  · obtain ⟨s, hs, hcall, hatime, hnow⟩ := System.exists_reaches
      (S := system (Fin 1) ℕ (Fin 2) 0 0 (3 : ℕ)) (fun _ _ => True)
      (fun s => s.waits 0 = some ⟨some 0, 5, .returned false, false, false⟩ ∧ s.atimes 0 = 5 ∧
        s.now = 3)
      [.waitDequeueUntil 0 5, .consumer 0 .woken, .consumer 0 .woken, .consumer 0 .woken,
        .consumer 0 .woken, .consumer 0 .woken, .consumer 0 .woken,
        -- consumer 0 calls `wait_until`, and consumer 1 comes
        .consumer 0 .woken, .consumer 0 .woken, .consumer 0 .woken, .consumer 0 .woken,
        .consumer 0 .woken,
        .other (.enqueue 0 5), .other (.alloc 0 (some 1)), .other (.loadTail 0),
        .other (.cas 0 false), .other (.link 0), .other (.enqueueRet 0),
        .consumer 0 .woken, .consumer 0 .woken,
        .waitDequeueUntil 1 5, .consumer 1 .woken, .consumer 1 .woken, .consumer 1 .woken,
        .consumer 1 .woken, .consumer 1 .woken, .consumer 1 .woken, .consumer 1 .woken,
        .consumer 1 .woken, .consumer 1 .woken, .consumer 1 .woken,
        .other (.enqueue 0 6), .other (.alloc 0 (some 0)), .other (.loadTail 0),
        .other (.cas 0 false), .other (.link 0), .other (.enqueueRet 0),
        .consumer 0 .woken] (by decide)
    exact ⟨s, hs, ⟨_, hcall, rfl⟩, hatime, hnow⟩

/-- The futex times out, the clock has gone on to 6, and both calls say so. -/
theorem wait_until_late_timeout :
    (∃ w : WaitableAtomic.State ℕ ℕ, w.call.pc = .returned false ∧ w.call.Truthful) ∧
    (∃ s : State (Fin 1) ℕ (Fin 2) ℕ, TimesOut s 0 ∧ s.atimes 0 ≤ s.now) := by
  obtain ⟨w, hw, hpc⟩ := System.exists_reaches
    (S := WaitableAtomic.system (0 : ℕ) (3 : ℕ) 0 0 5) WaitableAtomic.Settled
    (fun w => w.call.pc = .returned false)
    [.call .woken, .call .woken, .call .woken, .call .woken, .tick 6, .call .etimedout,
      .call .woken, .call .woken] (by decide)
  obtain ⟨s, hs, hcall⟩ := System.exists_reaches
    (S := system (Fin 1) ℕ (Fin 2) 0 0 (3 : ℕ)) Settled
    (fun s => s.waits 0 = some ⟨some 0, 5, .returned false, true, false⟩)
    [.waitDequeueUntil 0 5, .consumer 0 .woken, .consumer 0 .woken, .consumer 0 .woken,
      .consumer 0 .woken, .consumer 0 .woken, .consumer 0 .woken,
      .consumer 0 .woken, .consumer 0 .woken, .consumer 0 .woken, .consumer 0 .woken,
      .consumer 0 .woken, .tick 6, .consumer 0 .etimedout, .consumer 0 .woken,
      .consumer 0 .woken] (by decide)
  have hout : TimesOut s 0 := ⟨_, hcall, rfl⟩
  obtain ⟨⟨htruthful, -, -⟩, hpunctual, -⟩ := wait_until_truthful_iff hw hs
  exact ⟨⟨w, hpc, htruthful⟩, ⟨s, hout, hpunctual 0 hout⟩⟩

end Scoro.TimedQueue

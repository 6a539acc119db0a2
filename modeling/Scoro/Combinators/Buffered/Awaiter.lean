import Scoro.Lib.Counting
import Scoro.Lib.StoreBuffer
import Scoro.Combinators.Buffered.Handshake

/-!
# The awaiter over store buffers

The awaiter of `wait_any` and `wait_all` up to the coroutine's passing of its `co_await`, with the
shared state in a memory with store buffers. Its steps are those of the hand-over. What
`await_ready` and `await_suspend` test is a parameter, and so are the threads. The last part is what
the two combinators have in common.
-/

namespace Scoro.Combinators.Buffered
open Scoro.Lib

/-- The members of the shared state. `ready` is what the consumer tests, `waiting_count` or
`ready_index`, and `result` has one or more variants. -/
inductive Loc (ι : Type) where
  | ready
  | coroutineAddr
  | result (i : ι)
  deriving DecidableEq

/-- `coroutine_addr` is `true` if it holds the handle. -/
abbrev Value (R ι V E : Type) : Loc ι → Type
  | .ready => R
  | .coroutineAddr => Bool
  | .result _ => Stored V E

/-- The threads of the consumer and of the runners, which may coincide. -/
structure Threads (n : ℕ) (T : Type*) where
  consumer : T
  runner : Fin n → T

/-- `drain t`: the oldest store in the buffer of thread `t` gets to memory. -/
inductive Action (n : ℕ) (T : Type*) (V E : Type) where
  | complete (i : Fin n) (outcome : Outcome V E)
  | runner (i : Fin n)
  | awaitReady
  | awaitSuspend
  | drain (t : T)
  deriving DecidableEq

structure Awaiter (T : Type*) (R ι V E : Type) where
  memory : StoreBuffer T (Value R ι V E)
  coroutine : CoroutinePc
  suspend : SuspendPc

namespace Awaiter

variable {T : Type*} {R ι V E : Type} [DecidableEq T] [DecidableEq ι]

def initial (ready : R) : (l : Loc ι) → Value R ι V E l
  | .ready => ready
  | .coroutineAddr => false
  | .result _ => .monostate

def init (T : Type*) (R ι V E : Type) (ready : R) : Awaiter T R ι V E where
  memory := .init T (initial ready)
  coroutine := .ready
  suspend := .idle

/-- `coroutine_addr.exchange(nullptr)`, and `resume()` if there was a handle. -/
def exchange (w : Awaiter T R ι V E) (t : T) : Option (Awaiter T R ι V E) :=
  (w.memory.rmw t .coroutineAddr fun _ => false).map fun r =>
    { w with memory := r.2, coroutine := if r.1 then .passed else w.coroutine }

/-- `await_ready` with its test `ready`. -/
def awaitReady (ready : R → Bool) (w : Awaiter T R ι V E) (t : T) : Option (Awaiter T R ι V E) :=
  match w.coroutine with
  | .ready => some (if ready (w.memory.load t .ready) then { w with coroutine := .passed }
      else { w with coroutine := .suspended, suspend := .store })
  | _ => none

/-- The next step of `await_suspend`, with its test `ready`. -/
def awaitSuspend (ready : R → Bool) (w : Awaiter T R ι V E) (t : T) : Option (Awaiter T R ι V E) :=
  match w.suspend with
  | .store => some { w with memory := w.memory.store t .coroutineAddr true, suspend := .recheck }
  | .recheck => some { w with
      suspend := if ready (w.memory.load t .ready) then .exchange else .returned }
  | .exchange => (w.exchange t).map fun w => { w with suspend := .returned }
  | _ => none

def drain (w : Awaiter T R ι V E) (t : T) : Option (Awaiter T R ι V E) :=
  (w.memory.drain t).map fun m => { w with memory := m }

def setMemory (w : Awaiter T R ι V E) (m : StoreBuffer T (Value R ι V E)) : Awaiter T R ι V E :=
  { w with memory := m }

/-- What memory has of the location that is tested. -/
def tested (w : Awaiter T R ι V E) : R := w.memory.memory .ready

/-- The hand-over of a consumer in thread `t`. -/
def view (ready : R → Bool) (t : T) (due : Bool) (w : Awaiter T R ι V E) : Handshake where
  addr := w.memory.memory .coroutineAddr
  buffered := !(w.memory.writes t .coroutineAddr).isEmpty
  ready := ready w.tested
  due := due
  coroutine := w.coroutine
  suspend := w.suspend

/-- `await_suspend` has returned and everything is in memory, and the handle is still stored. -/
def Stranded (w : Awaiter T R ι V E) : Prop :=
  w.suspend = .returned ∧ (∀ t, w.memory.buffer t = []) ∧ w.memory.memory .coroutineAddr = true

instance [Fintype T] (w : Awaiter T R ι V E) : Decidable w.Stranded :=
  inferInstanceAs (Decidable (w.suspend = .returned ∧ (∀ t, w.memory.buffer t = []) ∧
    (w.memory.memory .coroutineAddr : Bool) = true))

/-- Only the consumer stores `coroutine_addr`, once, and nobody stores what it tests. -/
structure Ok (t : T) (w : Awaiter T R ι V E) : Prop where
  ready : ∀ u, w.memory.writes u .ready = []
  others : ∀ u, u ≠ t → w.memory.writes u .coroutineAddr = []
  own : w.memory.writes t .coroutineAddr = [] ∨
    w.memory.writes t .coroutineAddr = [true] ∧ w.suspend ≠ .idle ∧ w.suspend ≠ .store
  idle : w.coroutine = .ready → w.suspend = .idle

variable {w w' : Awaiter T R ι V E} {t u : T} {ready : R → Bool} {due : Bool}

omit [DecidableEq T] in
lemma init_ok (r : R) : (init T R ι V E r).Ok t :=
  ⟨fun _ => rfl, fun _ _ => rfl, Or.inl rfl, fun _ => rfl⟩

omit [DecidableEq T] in
lemma Ok.load (h : w.Ok t) : w.memory.load u .ready = w.tested :=
  StoreBuffer.load_of_writes (h.ready u)

omit [DecidableEq T] in
lemma exchange_frame (hs : w.exchange u = some w') :
    w.memory.buffer u = [] ∧ w'.memory.buffer = w.memory.buffer ∧ w'.tested = w.tested ∧
      w'.suspend = w.suspend := by
  obtain ⟨r, hr, rfl⟩ := Option.map_eq_some_iff.mp hs
  obtain ⟨hempty, rfl⟩ := StoreBuffer.rmw_eq_some hr
  refine ⟨hempty, rfl, ?_, rfl⟩
  simp [tested]

omit [DecidableEq T] in
lemma Ok.exchange (h : w.Ok t) (hs : w.exchange u = some w') :
    w'.Ok t ∧ ∀ ready due, w'.view ready t due = (w.view ready t due).exchange := by
  obtain ⟨r, hr, rfl⟩ := Option.map_eq_some_iff.mp hs
  obtain ⟨-, rfl⟩ := StoreBuffer.rmw_eq_some hr
  refine ⟨⟨h.ready, h.others, h.own, fun hc => ?_⟩, fun ready due => ?_⟩
  · dsimp only at hc
    split at hc
    · cases hc
    · exact h.idle hc
  · simp only [view, tested, Handshake.exchange, StoreBuffer.writes, Function.update_self, ne_eq,
      reduceCtorEq, not_false_eq_true, Function.update_of_ne]
    split <;> simp_all

omit [DecidableEq T] in
lemma Ok.awaitReady (h : w.Ok t) (hs : w.awaitReady ready t = some w') :
    w'.Ok t ∧
      ∀ due, (w.view ready t due).step .awaitReady = some (w'.view ready t due) := by
  unfold Awaiter.awaitReady at hs
  rw [h.load] at hs
  split at hs
  · rename_i hc
    have hown : w.memory.writes t .coroutineAddr = [] :=
      h.own.resolve_right fun hown => hown.2.1 (h.idle hc)
    cases hs
    simp only [Handshake.step, view, hc]
    split
    · exact ⟨⟨h.ready, h.others, Or.inl hown, fun hc => by cases hc⟩, fun _ => rfl⟩
    · refine ⟨⟨h.ready, h.others, Or.inl hown, fun hc => by cases hc⟩, fun _ => ?_⟩
      simp [hown, tested]
  · cases hs

lemma Ok.awaitSuspend (h : w.Ok t) (hs : w.awaitSuspend ready t = some w') :
    w'.Ok t ∧
      ∀ due, (w.view ready t due).step .awaitSuspend = some (w'.view ready t due) := by
  unfold Awaiter.awaitSuspend at hs
  split at hs
  · rename_i hsuspend
    cases hs
    have hown : w.memory.writes t .coroutineAddr = [] :=
      h.own.resolve_right fun hown => hown.2.2 hsuspend
    have hwrites : (w.memory.store t .coroutineAddr true).writes t .coroutineAddr = [true] := by
      rw [StoreBuffer.writes_store_self, hown]
      rfl
    refine ⟨⟨fun u => ?_, fun u hu => ?_, Or.inr ⟨hwrites, ?_, ?_⟩, fun hc => ?_⟩, fun due => ?_⟩
    · exact (StoreBuffer.writes_store_of_ne (by simp)).trans (h.ready u)
    · exact (StoreBuffer.writes_store_other hu).trans (h.others u hu)
    · exact SuspendPc.noConfusion
    · exact SuspendPc.noConfusion
    · have hidle := h.idle hc
      rw [hsuspend] at hidle
      cases hidle
    · simp only [Handshake.step, view, hsuspend, hwrites]
      rfl
  · rename_i hsuspend
    cases hs
    refine ⟨⟨h.ready, h.others, ?_, fun hc => ?_⟩, fun due => ?_⟩
    · refine h.own.imp_right fun hown => ⟨hown.1, ?_⟩
      dsimp only
      split <;> simp
    · have hidle := h.idle hc
      rw [hsuspend] at hidle
      cases hidle
    · simp only [Handshake.step, view, tested, hsuspend, h.load]
  · rename_i hsuspend
    obtain ⟨v, hv, rfl⟩ := Option.map_eq_some_iff.mp hs
    obtain ⟨hok, hview⟩ := h.exchange hv
    obtain ⟨hempty, hbuffer, -, hsame⟩ := exchange_frame hv
    have hold : w.memory.writes t .coroutineAddr = [] := StoreBuffer.writes_of_empty hempty
    have hnew : v.memory.writes t .coroutineAddr = [] :=
      StoreBuffer.writes_of_empty (by rw [hbuffer, hempty])
    refine ⟨⟨hok.ready, hok.others, Or.inl hnew, fun hc => ?_⟩, fun due => ?_⟩
    · have hidle := hok.idle hc
      rw [hsame, hsuspend] at hidle
      cases hidle
    · simp only [Handshake.step, ← hview]
      simp [view, tested, hsuspend, hold]
  · cases hs

omit [DecidableEq T] in
lemma tested_awaitReady (hs : w.awaitReady ready u = some w') : w'.tested = w.tested := by
  unfold awaitReady at hs
  split at hs <;> cases hs
  split <;> rfl

lemma tested_awaitSuspend (hs : w.awaitSuspend ready u = some w') : w'.tested = w.tested := by
  unfold awaitSuspend at hs
  split at hs
  · cases hs
    rfl
  · cases hs
    rfl
  · obtain ⟨v, hv, rfl⟩ := Option.map_eq_some_iff.mp hs
    exact (exchange_frame hv).2.2.1
  · cases hs

/-- What gets to memory is the handle, or it does not matter. -/
lemma Ok.drain (h : w.Ok t) (hs : w.drain u = some w') :
    w'.Ok t ∧ w'.tested = w.tested ∧ ∀ ready due, w'.view ready t due = w.view ready t due ∨
      (w.view ready t due).step .drain = some (w'.view ready t due) := by
  obtain ⟨m, hm, rfl⟩ := Option.map_eq_some_iff.mp hs
  obtain ⟨l, ⟨v, hwrites, hmemory⟩, hsame, hothers⟩ := StoreBuffer.drain_eq_some hm
  have hready : l ≠ .ready := by
    rintro rfl
    rw [h.ready u] at hwrites
    cases hwrites
  have hok : ∀ x, m.writes x .ready = [] := by
    intro x
    by_cases hx : x = u
    · subst hx
      exact (hsame _ hready.symm).2.trans (h.ready x)
    · exact (hothers x hx _).trans (h.ready x)
  by_cases hl : l = .coroutineAddr
  · subst hl
    have hut : u = t := by
      by_contra hut
      rw [h.others u hut] at hwrites
      cases hwrites
    subst hut
    obtain ⟨hone, hsuspend⟩ := h.own.resolve_left (by rw [hwrites]; exact List.cons_ne_nil _ _)
    rw [hone] at hwrites
    obtain ⟨rfl, hnil⟩ := List.cons.inj hwrites
    refine ⟨⟨hok, fun x hx => (hothers x hx _).trans (h.others x hx), Or.inl hnil.symm, h.idle⟩,
      (hsame .ready (by simp)).1, fun ready due => Or.inr ?_⟩
    simp [Handshake.step, view, tested, hone, ← hnil, hmemory, (hsame .ready (by simp)).1]
  · have haddr : ∀ x, m.writes x .coroutineAddr = w.memory.writes x .coroutineAddr := by
      intro x
      by_cases hx : x = u
      · subst hx
        exact (hsame _ (Ne.symm hl)).2
      · exact hothers x hx _
    refine ⟨⟨hok, fun x hx => (haddr x).trans (h.others x hx), ?_, h.idle⟩,
      (hsame _ hready.symm).1, fun ready due => Or.inl ?_⟩
    · rw [haddr]
      exact h.own
    · simp only [view, tested, haddr, (hsame _ hready.symm).1, (hsame _ (Ne.symm hl)).1]

/-- A store to the result. -/
lemma Ok.storeResult (h : w.Ok t) (i : ι) (v : Stored V E) :
    (w.setMemory (w.memory.store u (.result i) v)).Ok t ∧
      ∀ ready due, (w.setMemory (w.memory.store u (.result i) v)).view ready t due =
        w.view ready t due := by
  have hwrites : ∀ x k, Loc.result i ≠ k →
      (w.memory.store u (.result i) v).writes x k = w.memory.writes x k :=
    fun x k hk => StoreBuffer.writes_store_of_ne hk
  refine ⟨⟨fun x => ?_, fun x hx => ?_, ?_, h.idle⟩, fun ready due => ?_⟩
  · exact (hwrites x _ (by simp)).trans (h.ready x)
  · exact (hwrites x _ (by simp)).trans (h.others x hx)
  · exact (hwrites t .coroutineAddr (by simp)) ▸ h.own
  · simp only [view, setMemory, hwrites t .coroutineAddr (by simp)]
    rfl

omit [DecidableEq T] in
/-- A read-modify-write of what is tested. -/
lemma Ok.rmwReady (h : w.Ok t) {f : R → R} {r : R × StoreBuffer T (Value R ι V E)}
    (hr : w.memory.rmw u .ready f = some r) :
    r.1 = w.tested ∧ (w.setMemory r.2).tested = f w.tested ∧ (w.setMemory r.2).Ok t ∧
      ∀ ready due, (w.setMemory r.2).view ready t due =
        { w.view ready t due with ready := ready (f w.tested) } := by
  obtain ⟨-, rfl⟩ := StoreBuffer.rmw_eq_some hr
  refine ⟨rfl, ?_, ⟨h.ready, h.others, h.own, h.idle⟩, fun ready due => ?_⟩
  · simp [setMemory, tested]
  · simp [view, setMemory, tested, StoreBuffer.writes]

omit [DecidableEq T] in
lemma Stranded.forgotten (hw : w.Stranded) (hi : (w.view ready t due).Inv)
    (hready : ready w.tested = true) (hdue : due = false) :
    (w.view ready t due).Forgotten :=
  ⟨(hi.placed.suspended hw.2.2).1, hw.1, hready, hdue⟩

omit [DecidableEq T] in
lemma stranded_of_forgotten (hf : (w.view ready t due).Forgotten) (hi : (w.view ready t due).Inv)
    (hempty : ∀ u, w.memory.buffer u = []) : w.Stranded := by
  refine ⟨hf.2.1, hempty, (hf.addr hi.placed).trans ?_⟩
  simp [view, StoreBuffer.writes_of_empty (hempty t)]

end Awaiter

/-! ### Combinators -/

/-- A combinator: its shared state, and where the runners stand. -/
structure State (n : ℕ) (T : Type*) (R ι V E Pc : Type) where
  awaiter : Awaiter T R ι V E
  runners : Fin n → Pc

section state
variable {n : ℕ} {T : Type*} {R ι V E Pc : Type}

def State.setRunner (s : State n T R ι V E Pc) (i : Fin n) (pc : Pc) : State n T R ι V E Pc :=
  { s with runners := Function.update s.runners i pc }

/-- All runners have finished, `await_suspend` has returned and everything is in memory, and the
handle is still in `coroutine_addr`. -/
def Stranded (finished : Pc) (s : State n T R ι V E Pc) : Prop :=
  (∀ i, s.runners i = finished) ∧ s.awaiter.Stranded

instance [Fintype T] [DecidableEq Pc] (finished : Pc) (s : State n T R ι V E Pc) :
    Decidable (Stranded finished s) :=
  inferInstanceAs (Decidable ((∀ i, s.runners i = finished) ∧ s.awaiter.Stranded))

variable [DecidableEq T] [DecidableEq ι] (threads : Threads n T)

/-- The steps of the consumer and of the buffers, with the test `ready` of the consumer. -/
def consumerStep (ready : R → Bool) (s : State n T R ι V E Pc) :
    Action n T V E → Option (State n T R ι V E Pc)
  | .awaitReady =>
    (s.awaiter.awaitReady ready threads.consumer).map fun w => { s with awaiter := w }
  | .awaitSuspend =>
    (s.awaiter.awaitSuspend ready threads.consumer).map fun w => { s with awaiter := w }
  | .drain t => (s.awaiter.drain t).map fun w => { s with awaiter := w }
  | .complete _ _ | .runner _ => none

/-- No runner exchanges `coroutine_addr` between the return of `await_suspend` and the moment at
which the handle gets to memory. -/
def Visible (exchanging : Pc → Bool) (s : State n T R ι V E Pc) : Action n T V E → Prop
  | .runner i => exchanging (s.runners i) = true → s.awaiter.suspend = .returned →
      (s.awaiter.memory.writes threads.consumer .coroutineAddr).isEmpty = true
  | _ => True

instance (exchanging : Pc → Bool) (s : State n T R ι V E Pc) :
    (a : Action n T V E) → Decidable (Visible threads exchanging s a)
  | .runner i => inferInstanceAs (Decidable (exchanging (s.runners i) = true →
      s.awaiter.suspend = .returned →
      (s.awaiter.memory.writes threads.consumer .coroutineAddr).isEmpty = true))
  | .complete _ _ | .awaitReady | .awaitSuspend | .drain _ => .isTrue trivial

/-- The hand-over of a combinator. A runner at `due` has its exchange of `coroutine_addr` ahead. -/
def handshake (ready : R → Bool) (due : Pc → Bool) (s : State n T R ι V E Pc) : Handshake :=
  s.awaiter.view ready threads.consumer (someParty due s.runners)

variable {threads} {ready : R → Bool} {due exchanging : Pc → Bool} {finished : Pc}
  {s s' : State n T R ι V E Pc} {a : Action n T V E}

omit [DecidableEq T] in
lemma visible_of_not_exchanging {i : Fin n} (hi : exchanging (s.runners i) = false) :
    Visible threads exchanging s (.runner i) := by
  intro hex
  rw [hi] at hex
  cases hex

/-- The consumer and the buffers make the steps of the hand-over. -/
lemma handshake_consumerStep (hok : s.awaiter.Ok threads.consumer)
    (hs : consumerStep threads ready s a = some s') :
    s'.awaiter.Ok threads.consumer ∧ s'.awaiter.tested = s.awaiter.tested ∧
      s'.runners = s.runners ∧ (handshake threads ready due s).Follows
        (handshake threads ready due s') (Visible threads exchanging s a) := by
  cases a with
  | complete | runner => cases hs
  | awaitReady =>
    obtain ⟨w, hw, rfl⟩ := Option.map_eq_some_iff.mp hs
    obtain ⟨hok', hstep⟩ := hok.awaitReady hw
    refine ⟨hok', Awaiter.tested_awaitReady hw, rfl, Or.inr ⟨_, hstep _, iff_of_true trivial ?_⟩⟩
    exact fun hb => by cases hb
  | awaitSuspend =>
    obtain ⟨w, hw, rfl⟩ := Option.map_eq_some_iff.mp hs
    obtain ⟨hok', hstep⟩ := hok.awaitSuspend hw
    refine ⟨hok', Awaiter.tested_awaitSuspend hw, rfl, Or.inr ⟨_, hstep _, iff_of_true trivial ?_⟩⟩
    exact fun hb => by cases hb
  | drain t =>
    obtain ⟨w, hw, rfl⟩ := Option.map_eq_some_iff.mp hs
    obtain ⟨hok', htested, hview⟩ := hok.drain hw
    refine ⟨hok', htested, rfl, (hview ready _).imp (fun heq => ⟨heq, trivial⟩) fun hstep => ?_⟩
    exact ⟨_, hstep, iff_of_true trivial fun hb => by cases hb⟩

omit [DecidableEq T] in
/-- A combinator strands its consumer exactly if a runner's exchange has missed the handle. -/
theorem stranded_iff {S : System (State n T R ι V E Pc) (Action n T V E)}
    {I : State n T R ι V E Pc → Prop} {r : Bool}
    (hS : Handshake.Simulates S (Visible threads exchanging) I (handshake threads ready due) r)
    (hready : ∀ s, I s → (∀ i, s.runners i = finished) → ready s.awaiter.tested = true)
    (hdue : due finished = false) (h : S.Reaches (Visible threads exchanging) s) :
    ¬Stranded finished s ∧
    ∀ a s', S.step s a = some s' → ¬Visible threads exchanging s a →
      ∀ as t, S.exec (fun _ _ => True) s' as = some t → t.awaiter.coroutine = .suspended ∧
        ((∀ i, t.runners i = finished) → (∀ u, t.awaiter.memory.buffer u = []) →
          Stranded finished t) := by
  obtain ⟨hinv, hhand⟩ := hS.inv h
  obtain ⟨hnot, hafter⟩ := hS.forgotten_iff h
  refine ⟨fun hs => hnot ?_, fun a s' hs ha as t ht => ?_⟩
  · refine hs.2.forgotten hhand (hready s hinv hs.1) ?_
    rw [Bool.eq_false_iff, ne_eq, someParty_iff]
    rintro ⟨i, hi⟩
    rw [hs.1 i, hdue] at hi
    cases hi
  · obtain ⟨⟨-, hhand'⟩, hforgotten⟩ := hafter a s' hs ha as t ht
    exact ⟨hforgotten.1, fun hfinished hempty =>
      ⟨hfinished, Awaiter.stranded_of_forgotten hforgotten hhand' hempty⟩⟩

end state

end Scoro.Combinators.Buffered

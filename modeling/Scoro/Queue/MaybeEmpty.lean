import Scoro.Queue.Frame

/-!
# `maybe_empty`

Threads `R` that call `maybe_empty` next to the producers and the consumer. Its two loads are
separate steps. Between them the consumer may delete the node whose address has been loaded, and
then the second load reads a deleted node, or another one at the same address.
-/

namespace Scoro.MaybeEmpty
open Scoro.Lib Scoro.AtomicQueue

/-- A call of `maybe_empty`, with the address that it has loaded and its answer. -/
inductive ReaderPc where
  | idle
  | loadHead
  | loadNext (head : Addr)
  | ret (empty : Bool)
  deriving DecidableEq

/-- `stale` says of a call that the node whose address it has loaded has been deleted since, and
`seen` that a value has been linked behind `m_head` at some moment of the call. `fault` is set when
a call reads a deleted node. All three are history. -/
structure State (P T R : Type*) where
  queue : AtomicQueue.State P T
  readers : R → ReaderPc
  stale : R → Bool
  seen : R → Bool
  fault : Bool

/-- A step of the queue, a call of `maybe_empty` and its next step. -/
inductive Action (P T R : Type*) where
  | queue (a : AtomicQueue.Action P T)
  | call (r : R)
  | reader (r : R)
  deriving DecidableEq

section step
variable {P T R : Type*}

/-- A value is linked behind `m_head` that has not been taken. -/
def holds (q : AtomicQueue.State P T) : Bool := (q.next q.mHead).isSome

/-- The node that the step deletes, if it is the consumer's `delete head`. -/
def deleted (q : AtomicQueue.State P T) (a : AtomicQueue.Action P T) : Option Addr :=
  match a, q.consumer with
  | .consumer, .deleteHead head _ => some head
  | _, _ => none

def init (P T R : Type*) (stub : Addr) : State P T R where
  queue := AtomicQueue.init P T stub
  readers := fun _ => .idle
  stale := fun _ => false
  seen := fun _ => false
  fault := false

variable [DecidableEq R]

def State.setReader (s : State P T R) (r : R) (pc : ReaderPc) : State P T R :=
  { s with readers := Function.update s.readers r pc }

def readerStep (s : State P T R) (r : R) : Option (State P T R) :=
  match s.readers r with
  | .idle => none
  | .loadHead => some (s.setReader r (.loadNext s.queue.mHead))
  | .loadNext head =>
    match s.queue.heap head with
    | none => some { s with fault := true }
    | some nd => some { s.setReader r (.ret nd.next.isNone) with fault := s.fault || s.stale r }
  | .ret _ => some (s.setReader r .idle)

def call (s : State P T R) (r : R) : Option (State P T R) :=
  match s.readers r with
  | .idle => some { s.setReader r .loadHead with
      stale := Function.update s.stale r false
      seen := Function.update s.seen r (holds s.queue) }
  | _ => none

def queueStep [DecidableEq P] (s : State P T R) (a : AtomicQueue.Action P T) :
    Option (State P T R) :=
  (AtomicQueue.step s.queue a).map fun q => { s with
    queue := q
    stale := fun r => s.stale r || decide (∃ head ∈ deleted s.queue a, s.readers r = .loadNext head)
    seen := fun r => s.seen r || holds q }

def step [DecidableEq P] (s : State P T R) : Action P T R → Option (State P T R)
  | .queue a => queueStep s a
  | .call r => call s r
  | .reader r => readerStep s r

def system (P T R : Type*) [DecidableEq P] [DecidableEq R] (stub : Addr) :
    System (State P T R) (Action P T R) where
  init := init P T R stub
  step := step

end step

variable {P T R : Type*} {s s' : State P T R} {r r' : R} {a : Action P T R} {stub : Addr}

/-- The consumer does not delete a node whose address a call has loaded and not read yet. -/
def KeepsNode (s : State P T R) : Action P T R → Prop
  | .queue a => ∀ head ∈ deleted s.queue a, ∀ r, s.readers r ≠ .loadNext head
  | .call _ | .reader _ => True

instance [Fintype R] (s : State P T R) : (a : Action P T R) → Decidable (KeepsNode s a)
  | .queue a => inferInstanceAs
      (Decidable (∀ head ∈ deleted s.queue a, ∀ r, s.readers r ≠ .loadNext head))
  | .call _ | .reader _ => .isTrue trivial

/-- A call between its loads has the address of the node at `m_head`, or of the node behind it that
the consumer is about to delete, and then the value of the next one was linked. -/
structure Inv (s : State P T R) : Prop where
  fault : s.fault = false
  fresh : ∀ r, s.stale r = false
  loaded : ∀ r head, s.readers r = .loadNext head →
    head = s.queue.mHead ∨ s.seen r = true ∧ ∃ next, s.queue.consumer = .deleteHead head next
  holds : ∀ r, s.readers r ≠ .idle → holds s.queue = true → s.seen r = true
  answer : ∀ r, s.readers r = .ret false → s.seen r = true

lemma init_inv : Inv (init P T R stub) := by
  refine ⟨rfl, fun _ => rfl, ?_, ?_, ?_⟩ <;> simp [init]

section queue
variable [DecidableEq P] {q q' : AtomicQueue.State P T} {b : AtomicQueue.Action P T}
  {cs : List Addr} {vs : List T}

/-- What a step does to `m_head`: the consumer moves it off a node when the next one is linked, and
then deletes that node. -/
inductive HeadMove (q q' : AtomicQueue.State P T) (b : AtomicQueue.Action P T) : Prop
  | keep (head : q'.mHead = q.mHead) (consumer : ∀ head next,
      q.consumer = .deleteHead head next → deleted q b = some head ∨ q'.consumer = q.consumer)
  | store (next : Addr) (old : q.consumer = .storeHead q.mHead next)
      (linked : MaybeEmpty.holds q = true) (new : q'.consumer = .deleteHead q.mHead next)

lemma headMove (h : AtomicQueue.Inv q cs vs) (hs : AtomicQueue.step q b = some q') :
    HeadMove q q' b := by
  have hother : b ≠ .consumer → b ≠ .tryDequeue → b ≠ .waitDequeue → HeadMove q q' b := by
    intro hc htry hwait
    have hstep := step_other h hs hc htry hwait
    exact .keep hstep.head fun _ _ _ => Or.inr hstep.consumer
  cases b with
  | consumer =>
    have hpc := h.consumer
    cases h.move hs with
    | @storeHead next hc =>
      rw [hc] at hpc
      exact .store next hc (by simp [MaybeEmpty.holds, hpc.2]) rfl
    | deleteHead hc =>
      refine .keep rfl fun head next hc' => Or.inl ?_
      simp [deleted, hc']
    | moveValue hc =>
      refine .keep ?_ fun head next hc' => ?_
      · unfold moveValue
        split <;> rfl
      · simp [hc] at hc'
    | _ =>
      rename_i hc _
      exact .keep rfl fun head next hc' => by simp_all
  | tryDequeue | waitDequeue =>
    cases hc : q.consumer <;>
      simp only [AtomicQueue.step, hc, reduceCtorEq, Option.some.injEq] at hs
    subst hs
    exact .keep rfl fun head next hc' => by simp [hc] at hc'
  | _ => exact hother (by simp) (by simp) (by simp)

end queue

section step
variable [DecidableEq R]

lemma Inv.setReader (h : Inv s) {pc : ReaderPc}
    (hpc : ∀ head, pc = .loadNext head → head = s.queue.mHead ∨
      s.seen r = true ∧ ∃ next, s.queue.consumer = .deleteHead head next)
    (hholds : pc ≠ .idle → MaybeEmpty.holds s.queue = true → s.seen r = true)
    (hanswer : pc = .ret false → s.seen r = true) : Inv (s.setReader r pc) := by
  refine ⟨h.fault, h.fresh, fun r' head hr' => ?_, fun r' hr' => ?_, fun r' hr' => ?_⟩
  all_goals
    by_cases heq : r' = r
    · subst heq
      simp only [State.setReader, Function.update_self] at hr'
      first | exact hpc head hr' | exact hholds hr' | exact hanswer hr'
    · simp only [State.setReader, Function.update_of_ne heq] at hr'
      first | exact h.loaded r' head hr' | exact h.holds r' hr' | exact h.answer r' hr'

variable [DecidableEq P]

/-- What a run of the queue with readers does to the queue is a run of the queue. -/
lemma reaches_queue {C : State P T R → Action P T R → Prop} (h : (system P T R stub).Reaches C s) :
    (AtomicQueue.system P T stub).Reachable s.queue := by
  refine h.invariant (I := fun s => (AtomicQueue.system P T stub).Reachable s.queue) .init ?_
  intro s a s' _ ih _ hs
  cases a with
  | queue b =>
    obtain ⟨q, hq, rfl⟩ := Option.map_eq_some_iff.mp hs
    exact ih.step trivial hq
  | call r =>
    cases hpc : s.readers r <;>
      simp only [system, step, call, hpc, reduceCtorEq, Option.some.injEq] at hs
    subst hs
    exact ih
  | reader r =>
    cases hpc : s.readers r <;>
      simp only [system, step, readerStep, hpc, reduceCtorEq, Option.some.injEq] at hs
    case loadNext head => split at hs <;> cases hs <;> exact ih
    case loadHead | ret =>
      subst hs
      exact ih

omit [DecidableEq R] in
lemma Inv.queueStep {cs : List Addr} {vs : List T} (h : Inv s) (hq : AtomicQueue.Inv s.queue cs vs)
    {b : AtomicQueue.Action P T} (hkeeps : KeepsNode s (.queue b : Action P T R))
    (hs : queueStep s b = some s') : Inv s' := by
  obtain ⟨q, hstep, rfl⟩ := Option.map_eq_some_iff.mp hs
  refine ⟨h.fault, fun r => ?_, fun r head hr => ?_, fun r hr hholds => ?_, fun r hr => ?_⟩
  · simp only [h.fresh r, Bool.false_or, decide_eq_false_iff_not]
    rintro ⟨head', hdel, hr'⟩
    exact hkeeps head' hdel r hr'
  · rcases headMove hq hstep with ⟨hhead, hconsumer⟩ | ⟨next, hold, hlinked, hnew⟩
    · refine (h.loaded r head hr).imp (fun heq => heq.trans hhead.symm) ?_
      rintro ⟨hseen, next, hc⟩
      rcases hconsumer head next hc with hdel | hsame
      · exact absurd hr (hkeeps head hdel r)
      · exact ⟨by simp [hseen], next, hsame.trans hc⟩
    · right
      rcases h.loaded r head hr with rfl | ⟨-, next', hc⟩
      · have hseen := h.holds r (by simp [show s.readers r = _ from hr]) hlinked
        exact ⟨by simp [hseen], next, hnew⟩
      · simp [hold] at hc
  · simp [show MaybeEmpty.holds q = true from hholds]
  · simp [h.answer r hr]

omit [DecidableEq P] in
lemma Inv.readerStep {cs : List Addr} {vs : List T} (h : Inv s)
    (hq : AtomicQueue.Inv s.queue cs vs) (hs : readerStep s r = some s') : Inv s' := by
  cases hpc : s.readers r <;>
    simp only [MaybeEmpty.readerStep, hpc, reduceCtorEq, Option.some.injEq] at hs
  case loadHead =>
    subst hs
    refine h.setReader (fun head heq => Or.inl ?_) (fun _ => h.holds r (by simp [hpc])) (by simp)
    cases heq
    rfl
  case loadNext head =>
    -- the node is on the chain, or is the one that the consumer deletes next
    have hlive : s.queue.Live head := by
      rcases h.loaded r head hpc with rfl | ⟨-, next, hc⟩
      · exact hq.live_head
      · exact (hq.deleteHead hc).1
    obtain ⟨nd, hnd⟩ := Option.isSome_iff_exists.mp hlive
    simp only [hnd, Option.some.injEq] at hs
    subst hs
    have hnext : Inv (s.setReader r (.ret nd.next.isNone)) := by
      refine h.setReader (by simp) (fun _ => h.holds r (by simp [hpc])) fun hret => ?_
      rcases h.loaded r head hpc with rfl | ⟨hseen, -⟩
      · refine h.holds r (by simp [hpc]) ?_
        simpa [MaybeEmpty.holds, AtomicQueue.State.next, hnd] using hret
      · exact hseen
    exact { hnext with fault := by simp [h.fault, h.fresh r] }
  case ret =>
    subst hs
    exact h.setReader (by simp) (by simp) (by simp)

omit [DecidableEq P] in
lemma Inv.call (h : Inv s) (hs : call s r = some s') : Inv s' := by
  cases hpc : s.readers r <;>
    simp only [MaybeEmpty.call, hpc, reduceCtorEq, Option.some.injEq] at hs
  subst hs
  refine ⟨h.fault, fun r' => ?_, fun r' head hr' => ?_, fun r' hr' hholds => ?_, fun r' hr' => ?_⟩
  all_goals
    by_cases heq : r' = r
    · subst heq
      simp_all [State.setReader]
    · simp only [State.setReader, Function.update_of_ne heq] at *
      first
        | exact h.fresh r'
        | exact h.loaded r' head hr'
        | exact h.holds r' hr' hholds
        | exact h.answer r' hr'

lemma reaches_inv (h : (system P T R stub).Reaches KeepsNode s) : Inv s := by
  refine h.invariant (I := Inv) init_inv fun s a s' run hinv ha hs => ?_
  obtain ⟨cs, vs, hq⟩ := AtomicQueue.reaches_inv (reaches_queue run)
  cases a with
  | queue b => exact hinv.queueStep hq ha hs
  | call r => exact hinv.call hs
  | reader r => exact hinv.readerStep hq hs

/-! ### A node that is deleted between the two loads -/

/-- The call is about to read a deleted node, or some call has done so. -/
def Fated (s : State P T R) (r : R) : Prop :=
  s.fault = true ∨ s.stale r = true ∧ ∃ head, s.readers r = .loadNext head

lemma Fated.step (h : Fated s r) (hs : step s a = some s') : Fated s' r := by
  cases a with
  | queue b =>
    obtain ⟨q, -, rfl⟩ := Option.map_eq_some_iff.mp hs
    exact h.imp_right fun ⟨hstale, hr⟩ => ⟨by simp [hstale], hr⟩
  | call r' =>
    cases hpc : s.readers r' <;>
      simp only [MaybeEmpty.step, MaybeEmpty.call, hpc, reduceCtorEq, Option.some.injEq] at hs
    subst hs
    refine h.imp_right fun ⟨hstale, head, hr⟩ => ?_
    have hne : r ≠ r' := by
      rintro rfl
      simp [hpc] at hr
    exact ⟨by simpa [State.setReader, hne] using hstale, head,
      by simpa [State.setReader, hne] using hr⟩
  | reader r' =>
    by_cases hne : r = r'
    · subst hne
      rcases h with hfault | ⟨hstale, head, hr⟩
      · left
        cases hpc : s.readers r <;>
          simp only [MaybeEmpty.step, MaybeEmpty.readerStep, hpc, reduceCtorEq,
            Option.some.injEq] at hs
        case loadNext => split at hs <;> cases hs <;> simp [hfault]
        case loadHead | ret =>
          subst hs
          exact hfault
      · left
        simp only [MaybeEmpty.step, MaybeEmpty.readerStep, hr] at hs
        split at hs <;> cases hs <;> simp [hstale]
    · cases hpc : s.readers r' <;>
        simp only [MaybeEmpty.step, MaybeEmpty.readerStep, hpc, reduceCtorEq,
          Option.some.injEq] at hs
      case loadNext =>
        split at hs <;> cases hs
        · exact Or.inl rfl
        · refine h.imp (fun hfault => by simp [hfault]) fun ⟨hstale, head, hr⟩ => ⟨hstale, head, ?_⟩
          simpa [State.setReader, hne] using hr
      case loadHead | ret =>
        subst hs
        refine h.imp_right fun ⟨hstale, head, hr⟩ => ⟨hstale, head, ?_⟩
        simpa [State.setReader, hne] using hr

/-- The consumer takes a value between the two loads of a call. Its first load has the address of
the stub, which is deleted when its second load reads it. -/
theorem maybe_empty_reads_deleted :
    ∃ s : State (Fin 1) ℕ (Fin 1), (system (Fin 1) ℕ (Fin 1) 0).Reachable s ∧ s.fault = true :=
  System.exists_reaches (fun _ _ => True) _
    [.call 0, .reader 0, .queue (.enqueue 0 5), .queue (.alloc 0 (some 1)), .queue (.loadTail 0),
      .queue (.cas 0 false), .queue (.link 0), .queue .tryDequeue, .queue .consumer,
      .queue .consumer, .queue .consumer, .queue .consumer, .reader 0] (by decide)

/-- As long as the consumer deletes no node that a call of `maybe_empty` has loaded the address of
and not read, no call reads a deleted node, and `false` says that a value was linked at some moment
of the call. After such a deletion the call reads a deleted node. -/
theorem maybe_empty_iff (h : (system P T R stub).Reaches KeepsNode s) :
    (s.fault = false ∧ s.queue.fault = false ∧
      ∀ r, s.readers r = .ret false → s.seen r = true) ∧
    ∀ a s', step s a = some s' → ¬KeepsNode s a → ∃ r head, s'.readers r = .loadNext head ∧
      ∀ as t, (system P T R stub).exec (fun _ _ => True) s' as = some t →
        t.fault = true ∨ ∃ head, t.readers r = .loadNext head := by
  have hinv := reaches_inv h
  refine ⟨⟨hinv.fault, reaches_no_fault (reaches_queue h), hinv.answer⟩, fun a s' hs ha => ?_⟩
  cases a with
  | queue b =>
    simp only [KeepsNode, not_forall, not_not] at ha
    obtain ⟨head, hdel, r, hr⟩ := ha
    obtain ⟨q, -, rfl⟩ := Option.map_eq_some_iff.mp hs
    refine ⟨r, head, hr, fun as t ht => ?_⟩
    have hfated : Fated { s with
        queue := q
        stale := fun r => s.stale r ||
          decide (∃ head ∈ deleted s.queue b, s.readers r = .loadNext head)
        seen := fun r => s.seen r || MaybeEmpty.holds q } r :=
      Or.inr ⟨by simp [hr, Option.mem_def.mp hdel], head, hr⟩
    have hlast := System.exec_invariant (I := fun t => Fated t r)
      (fun _ _ _ hu _ hs => hu.step hs) hfated ht
    exact hlast.imp_right And.right
  | call r | reader r => exact absurd trivial ha

/-- A call that begins while the queue is empty loads the stub's address, a value is linked behind
the stub, and the call answers `false`. -/
theorem maybe_empty_run : ∃ s : State (Fin 1) ℕ (Fin 1),
    s.fault = false ∧ s.readers 0 = .ret false ∧ s.seen 0 = true := by
  obtain ⟨s, hs, hret⟩ := System.exists_reaches (S := system (Fin 1) ℕ (Fin 1) 0) KeepsNode
    (fun s => s.readers 0 = .ret false)
    [.call 0, .reader 0, .queue (.enqueue 0 5), .queue (.alloc 0 (some 1)), .queue (.loadTail 0),
      .queue (.cas 0 false), .queue (.link 0), .reader 0] (by decide)
  obtain ⟨hfault, -, hseen⟩ := (maybe_empty_iff hs).1
  exact ⟨s, hfault, hret, hseen 0 hret⟩

end step

end Scoro.MaybeEmpty

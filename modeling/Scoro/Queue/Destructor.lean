import Scoro.Queue.Reclaim

/-!
# `~AtomicQueue`

The queue with its ledger and its destructor. The destructor stops the queue, calls `try_dequeue`
until that returns `nullopt`, and deletes the stub. That no other operation is in progress when it
begins is up to its caller; after that there are no other calls.
-/

namespace Scoro.Destructor
open Scoro.Lib Scoro.AtomicQueue

/-- Where `~AtomicQueue` stands. -/
inductive DestroyPc where
  | idle
  | stop
  | call
  | drain
  | exchange
  | delete (stub : Addr)
  | done
  deriving DecidableEq

structure State (P T : Type*) where
  queue : AtomicQueue.State P T
  ledger : Ledger Addr
  destroy : DestroyPc

inductive Action (P T : Type*) where
  | queue (a : AtomicQueue.Action P T)
  | begin
  | destroy
  deriving DecidableEq

section step
variable {P T : Type*}

def init (P T : Type*) (stub : Addr) : State P T where
  queue := AtomicQueue.init P T stub
  ledger := recordInit stub
  destroy := .idle

/-- A step of the queue, after which the destructor is at `pc`. -/
def queueStep [DecidableEq P] (s : State P T) (a : AtomicQueue.Action P T) (pc : DestroyPc) :
    Option (State P T) :=
  (AtomicQueue.step s.queue a).map fun q => ⟨q, record s.queue a s.ledger, pc⟩

/-- `delete stub`. `~Node` leaves a value in the node alone. -/
def deleteStub (s : State P T) (stub : Addr) : State P T :=
  match s.queue.heap stub with
  | none => { s with queue := s.queue.crash }
  | some _ => ⟨s.queue.setNode stub none, s.ledger.delete stub, .done⟩

def destroyStep [DecidableEq P] (s : State P T) : Option (State P T) :=
  match s.destroy with
  | .idle | .done => none
  | .stop => queueStep s .stop .call
  | .call => queueStep s .tryDequeue .drain
  | .drain =>
    match s.queue.consumer with
    | .ret none => queueStep s .consumer .exchange
    | .ret (some _) => queueStep s .consumer .call
    | _ => queueStep s .consumer .drain
  -- nobody reads `m_head` after the exchange
  | .exchange => some { s with destroy := .delete s.queue.mHead }
  | .delete stub => some (deleteStub s stub)

def step [DecidableEq P] (s : State P T) : Action P T → Option (State P T)
  | .queue a => if s.destroy = .idle then queueStep s a .idle else none
  | .begin => if s.destroy = .idle then some { s with destroy := .stop } else none
  | .destroy => destroyStep s

def system (P T : Type*) [DecidableEq P] (stub : Addr) : System (State P T) (Action P T) where
  init := init P T stub
  step := step

end step

variable {P T : Type*} {s s' : State P T} {q q' : AtomicQueue.State P T} {cs : List Addr}
  {vs : List T}

/-- No call of `enqueue` or of a dequeue function is in progress. -/
def Quiet (q : AtomicQueue.State P T) : Prop := (∀ p, q.producers p = .idle) ∧ q.consumer = .idle

/-- What the caller of the destructor sees to. -/
def QuietBegin (s : State P T) (a : Action P T) : Prop := a = .begin → Quiet s.queue

instance [Fintype P] [DecidableEq T] (q : AtomicQueue.State P T) : Decidable (Quiet q) :=
  inferInstanceAs (Decidable ((∀ p, q.producers p = .idle) ∧ q.consumer = .idle))

instance [Fintype P] [DecidableEq P] [DecidableEq T] (s : State P T) (a : Action P T) :
    Decidable (QuietBegin s a) := inferInstanceAs (Decidable (a = .begin → Quiet s.queue))

/-- The consumer is in a call of `try_dequeue`. -/
def trying : DequeuePc T → Bool
  | .tryLoadHead | .tryLoadNext _ | .storeHead _ _ | .deleteHead _ _ | .moveValue _ | .ret _ => true
  | _ => false

/-- Nothing is left on the chain. -/
def Drained (q : AtomicQueue.State P T) : Prop := q.acceptedValues = q.removed

/-- What the destructor knows where it stands. -/
def Phase (q : AtomicQueue.State P T) : DestroyPc → Prop
  | .idle => True
  | .stop | .call => Quiet q
  | .drain => (∀ p, q.producers p = .idle) ∧ trying q.consumer = true ∧
      (q.consumer = .ret none → Drained q)
  | .exchange => Quiet q ∧ Drained q
  | .delete stub => Quiet q ∧ Drained q ∧ stub = q.mHead
  | .done => False

inductive Inv (s : State P T) : Prop
  | live (cs : List Addr) (vs : List T) (queue : AtomicQueue.Inv s.queue cs vs)
      (owned : Owned s.queue cs) (ledger : s.ledger.Balanced s.queue.Live s.queue.Full)
      (phase : Phase s.queue s.destroy)
  | gone (done : s.destroy = .done) (fault : s.queue.fault = false) (quiet : Quiet s.queue)
      (dead : ∀ a, ¬s.queue.Live a) (ledger : s.ledger.Balanced s.queue.Live s.queue.Full)

lemma init_inv (stub : Addr) : Inv (init P T stub) :=
  .live [stub] [] inv_init (owned_init stub) (balanced_init stub) trivial

lemma not_uses_of_quiet (h : Quiet q) {a : Addr} : ¬q.Uses a := by
  rintro (⟨p, n, hp⟩ | ⟨p, v, hp⟩ | hc)
  · rw [h.1 p] at hp
    cases hp
  · rw [h.1 p] at hp
    exact hp
  · rw [h.2] at hc
    exact hc

lemma drained_iff (h : AtomicQueue.Inv q cs vs) : Drained q ↔ vs = [] := by
  simp [Drained, h.accepted]

/-- A step of the consumer in `try_dequeue`. -/
lemma trying_step (h : AtomicQueue.Inv q cs vs) (hidle : ∀ p, q.producers p = .idle)
    (htry : trying q.consumer = true) (hret : ∀ r, q.consumer ≠ .ret r)
    (hs : consumerStep q = some q') :
    trying q'.consumer = true ∧ (q'.consumer = .ret none → Drained q') := by
  cases h.move hs with
  | tryEmpty hc hn =>
    refine ⟨rfl, fun _ => ?_⟩
    have hnil : vs = [] := by
      cases vs with
      | nil => rfl
      | cons v vs =>
        obtain ⟨n, hnext⟩ := h.next_head fun p t n hp => by simp [hidle p] at hp
        rw [hn] at hnext
        cases hnext
    have hinv : AtomicQueue.Inv (q.setConsumer (.ret none)) cs vs :=
      h.setConsumer trivial (by rw [hc]; rfl)
    exact (drained_iff hinv).mpr hnil
  | moveValue hc hret =>
    rw [hret]
    exact ⟨rfl, by simp⟩
  | ret hc => exact absurd hc (hret _)
  | tryLoadHead | tryFound | storeHead | deleteHead => exact ⟨rfl, by simp [State.setConsumer]⟩
  | _ => simp_all [trying]

section step
variable [DecidableEq P] {a : AtomicQueue.Action P T} {pc : DestroyPc}

/-- A step of the queue, whoever takes it. -/
lemma Inv.queueStep (hq : AtomicQueue.Inv s.queue cs vs) (howned : Owned s.queue cs)
    (hledger : s.ledger.Balanced s.queue.Live s.queue.Full) (hs : queueStep s a pc = some s')
    (hphase : ∀ q, AtomicQueue.step s.queue a = some q → Phase q pc) : Inv s' := by
  obtain ⟨q, hq', rfl⟩ := Option.map_eq_some_iff.mp hs
  obtain ⟨cs', vs', hinv, howned', hmove⟩ := howned.step hq hq'
  exact .live cs' vs' hinv howned' (hmove.balanced hledger) (hphase q hq')

omit [DecidableEq P] in
lemma consumer_idle (hs : consumerStep q = some q') (hidle : ∀ p, q.producers p = .idle) (p : P) :
    q'.producers p = .idle := by
  rw [(consumerStep_frame hs).1]
  exact hidle p

omit [DecidableEq P] in
/-- A call of the consumer returns. -/
lemma ret_quiet {r : Option T} (hs : consumerStep q = some q') (hc : q.consumer = .ret r)
    (hidle : ∀ p, q.producers p = .idle) :
    Quiet q' ∧ (Drained q → r = none → Drained q') := by
  have hidle' := consumer_idle hs hidle
  simp only [consumerStep, hc, Option.some.injEq] at hs
  subst hs
  refine ⟨⟨hidle', rfl⟩, ?_⟩
  rintro hdrained rfl
  simpa [Drained, State.removed, State.delivered, State.handOf, State.setConsumer, hc,
    State.acceptedValues] using hdrained

omit [DecidableEq P] in
/-- The node at `m_head` is all that is left. -/
lemma Inv.deleteStub (hq : AtomicQueue.Inv s.queue cs vs) (howned : Owned s.queue cs)
    (hledger : s.ledger.Balanced s.queue.Live s.queue.Full) (hquiet : Quiet s.queue)
    (hdrained : Drained s.queue) : Inv (deleteStub s s.queue.mHead) := by
  obtain ⟨hidle, hc⟩ := hquiet
  have hvs := (drained_iff hq).mp hdrained
  have hcs : cs = [s.queue.mHead] := by
    have htl : cs.tail = [] := List.map_eq_nil_iff.mp (hq.values.trans (by rw [hvs]; rfl))
    rw [hq.shape.eq_cons, htl]
  have hhead := hq.live_head
  obtain ⟨nd, hnd⟩ := Option.isSome_iff_exists.mp hhead
  have hvalue : s.queue.value s.queue.mHead = none := howned.stub (by rw [hc]; rfl)
  have honly : ∀ a, s.queue.Live a → a = s.queue.mHead := by
    intro a ha
    rcases howned.owner a ha with hmem | ⟨p, v, hp⟩ | ⟨next, hc'⟩
    · rw [hcs] at hmem
      exact List.mem_singleton.mp hmem
    · rw [hidle p] at hp
      cases hp
    · rw [hc] at hc'
      cases hc'
  simp only [Destructor.deleteStub, hnd]
  have hlive : ∀ b, (s.queue.setNode s.queue.mHead none).Live b ↔
      s.queue.Live b ∧ b ≠ s.queue.mHead := by
    intro b
    refine (live_setNode s.queue s.queue.mHead b none).trans ?_
    by_cases hb : b = s.queue.mHead <;> simp [hb]
  refine .gone rfl hq.fault ⟨hidle, hc⟩ (fun a ha => ?_) ?_
  · obtain ⟨ha, hne⟩ := (hlive a).mp ha
    exact hne (honly a ha)
  · refine (hledger.delete hhead (by simp [State.Full, hvalue]) hlive).congr (fun _ => Iff.rfl) ?_
    intro b
    refine (full_setNode s.queue s.queue.mHead b none).trans ?_
    by_cases hb : b = s.queue.mHead <;> simp [State.Full, hb, hvalue]

lemma Inv.destroyStep (h : Inv s) (hs : destroyStep s = some s') : Inv s' := by
  cases h with
  | gone hdone =>
    simp [Destructor.destroyStep, hdone] at hs
  | live cs vs hq howned hledger hphase =>
    cases hpc : s.destroy <;> rw [hpc] at hphase <;>
      simp only [Destructor.destroyStep, hpc, reduceCtorEq] at hs
    case stop =>
      refine Inv.queueStep hq howned hledger hs fun q hstep => ?_
      cases hstep
      exact hphase
    case call =>
      obtain ⟨hidle, hc⟩ := hphase
      refine Inv.queueStep hq howned hledger hs fun q hstep => ?_
      simp only [AtomicQueue.step, hc, Option.some.injEq] at hstep
      subst hstep
      exact ⟨hidle, rfl, by simp [State.setConsumer]⟩
    case drain =>
      obtain ⟨hidle, htry, hdrained⟩ := hphase
      split at hs
      · rename_i hc
        refine Inv.queueStep hq howned hledger hs fun q hstep => ?_
        obtain ⟨hquiet, hkeep⟩ := ret_quiet hstep hc hidle
        exact ⟨hquiet, hkeep (hdrained hc) rfl⟩
      · rename_i v hc
        exact Inv.queueStep hq howned hledger hs fun q hstep => (ret_quiet hstep hc hidle).1
      · rename_i hnone hsome
        refine Inv.queueStep hq howned hledger hs fun q hstep => ⟨consumer_idle hstep hidle, ?_⟩
        refine trying_step hq hidle htry ?_ hstep
        rintro (_ | v) hc
        · exact hnone hc
        · exact hsome v hc
    case exchange =>
      cases hs
      exact .live cs vs hq howned hledger ⟨hphase.1, hphase.2, rfl⟩
    case delete stub =>
      obtain ⟨hquiet, hdrained, rfl⟩ := hphase
      cases hs
      exact Inv.deleteStub hq howned hledger hquiet hdrained

/-- Every step keeps the ledger balanced and the nodes owned. -/
lemma Inv.step (h : Inv s) {a : Action P T} (hquiet : QuietBegin s a) (hs : step s a = some s') :
    Inv s' := by
  cases a with
  | queue a =>
    simp only [Destructor.step] at hs
    split at hs
    · rename_i hidle
      cases h with
      | gone hdone =>
        rw [hdone] at hidle
        cases hidle
      | live cs vs hq howned hledger hphase =>
        exact Inv.queueStep hq howned hledger hs fun _ _ => trivial
    · cases hs
  | begin =>
    simp only [Destructor.step] at hs
    split at hs
    · rename_i hidle
      cases hs
      cases h with
      | gone hdone =>
        rw [hdone] at hidle
        cases hidle
      | live cs vs hq howned hledger hphase => exact .live cs vs hq howned hledger (hquiet rfl)
    · cases hs
  | destroy => exact h.destroyStep hs

/-! ### The destructor comes to its end -/

/-- How many values the chain still carries. -/
def left (q : AtomicQueue.State P T) : ℕ := q.acceptedValues.length - q.removed.length

omit [DecidableEq P] in
lemma left_eq (h : AtomicQueue.Inv q cs vs) : left q = vs.length := by
  simp [left, h.accepted]

def rank : DequeuePc T → ℕ
  | .tryLoadHead => 8
  | .tryLoadNext _ => 7
  | .storeHead _ _ => 6
  | .deleteHead _ _ => 15
  | .moveValue _ => 14
  | .ret (some _) => 13
  | _ => 1

/-- It decreases with each step of the destructor. -/
def measure (s : State P T) : ℕ :=
  match s.destroy with
  | .idle | .done => 0
  | .stop => 10 * left s.queue + 12
  | .call => 10 * left s.queue + 11
  | .drain => 10 * left s.queue + rank s.queue.consumer + 2
  | .exchange => 2
  | .delete _ => 1

omit [DecidableEq P] in
lemma trying_measure (h : AtomicQueue.Inv q cs vs) (htry : trying q.consumer = true)
    (hret : ∀ r, q.consumer ≠ .ret r) (hs : consumerStep q = some q') :
    10 * left q' + rank q'.consumer < 10 * left q + rank q.consumer := by
  have hgoto : ∀ pc, q.PcOk cs pc → q.handOf pc = q.handOf q.consumer →
      left (q.setConsumer pc) = left q := fun pc hpc hhand =>
    (left_eq (h.setConsumer hpc hhand)).trans (left_eq h).symm
  cases h.move hs with
  | tryLoadHead hc =>
    rw [hgoto (.tryLoadNext q.mHead) rfl (by rw [hc]; rfl), hc]
    simp [rank, State.setConsumer]
  | tryEmpty hc hn =>
    rw [hgoto (.ret none) trivial (by rw [hc]; rfl), hc]
    simp [rank, State.setConsumer]
  | tryFound hc hn =>
    rw [hgoto (.storeHead q.mHead _) ⟨rfl, hn⟩ (by rw [hc]; rfl), hc]
    simp [rank, State.setConsumer]
  | storeHead hc =>
    obtain ⟨cs', v, vs', -, rfl, hinv⟩ := h.storeHead hc
    rw [left_eq hinv, left_eq h, hc]
    simp only [rank, State.setConsumer, List.length_cons]
    omega
  | deleteHead hc =>
    rw [left_eq (h.deleteHead hc).2, left_eq h, hc]
    simp [rank, State.setConsumer]
  | moveValue hc hret =>
    obtain ⟨v, -, -, hinv⟩ := h.moveValue hc
    rw [left_eq hinv, left_eq h, hc, hret]
    simp [rank]
  | ret hc => exact absurd hc (hret _)
  | _ => simp_all [trying]

omit [DecidableEq P] in
lemma trying_enabled (htry : trying q.consumer = true) : ∃ q', consumerStep q = some q' := by
  cases hc : q.consumer <;> rw [hc] at htry <;> simp only [trying, reduceCtorEq] at htry
  case deleteHead head next => cases hn : q.heap head <;> simp [consumerStep, hc, hn]
  all_goals exact ⟨_, by rw [consumerStep, hc]⟩

lemma destroy_enabled (h : Inv s) (hidle : s.destroy ≠ .idle) (hdone : s.destroy ≠ .done) :
    ∃ s', destroyStep s = some s' := by
  cases h with
  | gone hgone => exact absurd hgone hdone
  | live cs vs hq howned hledger hphase =>
    cases hpc : s.destroy <;> rw [hpc] at hphase <;> simp only [destroyStep, hpc]
    case idle => exact absurd hpc hidle
    case done => exact absurd hpc hdone
    case stop => exact ⟨_, rfl⟩
    case call => simp [queueStep, AtomicQueue.step, hphase.2]
    case drain =>
      obtain ⟨q, hq'⟩ := trying_enabled hphase.2.1
      have hsome : ∀ pc, queueStep s .consumer pc =
          some ⟨q, record s.queue .consumer s.ledger, pc⟩ := fun pc => by
        simp [queueStep, AtomicQueue.step, hq']
      split <;> exact ⟨_, hsome _⟩
    case exchange => exact ⟨_, rfl⟩
    case delete stub => exact ⟨_, rfl⟩

lemma destroy_measure (h : Inv s) (hs : destroyStep s = some s') :
    s'.destroy ≠ .idle ∧ measure s' < measure s := by
  cases h with
  | gone hdone => simp [destroyStep, hdone] at hs
  | live cs vs hq howned hledger hphase =>
    have hqueue : ∀ {a pc}, queueStep s a pc = some s' →
        ∃ q, AtomicQueue.step s.queue a = some q ∧ s'.queue = q ∧ s'.destroy = pc := by
      intro a pc hs
      obtain ⟨q, hq', rfl⟩ := Option.map_eq_some_iff.mp hs
      exact ⟨q, hq', rfl, rfl⟩
    cases hpc : s.destroy <;> rw [hpc] at hphase <;>
      simp only [destroyStep, hpc, reduceCtorEq] at hs
    case stop =>
      obtain ⟨q, hq', rfl, hpc'⟩ := hqueue hs
      have hleft : left s'.queue = left s.queue := by
        rw [← Option.some.inj hq', left_eq hq.stop, left_eq hq]
      refine ⟨by simp [hpc'], ?_⟩
      simp only [measure, hpc, hpc', hleft]
      omega
    case call =>
      obtain ⟨q, hq', rfl, hpc'⟩ := hqueue hs
      simp only [AtomicQueue.step, hphase.2, Option.some.injEq] at hq'
      have hcall : AtomicQueue.Inv (s.queue.setConsumer .tryLoadHead) cs vs :=
        hq.setConsumer trivial (by rw [hphase.2]; rfl)
      have hleft : left s'.queue = left s.queue := by
        rw [← hq', left_eq hcall, left_eq hq]
      have hc : s'.queue.consumer = .tryLoadHead := by
        rw [← hq']
        rfl
      refine ⟨by simp [hpc'], ?_⟩
      simp only [measure, hpc, hpc', hleft, hc, rank]
      omega
    case drain =>
      obtain ⟨hidle, htry, -⟩ := hphase
      split at hs
      · rename_i hc
        obtain ⟨q, -, -, hpc'⟩ := hqueue hs
        refine ⟨by simp [hpc'], ?_⟩
        simp only [measure, hpc, hpc', hc, rank]
        omega
      · rename_i v hc
        obtain ⟨q, hq', rfl, hpc'⟩ := hqueue hs
        have hleft : left s'.queue = left s.queue := by
          simp only [AtomicQueue.step, consumerStep, hc, Option.some.injEq] at hq'
          rw [← hq', left_eq (hq.ret hc), left_eq hq]
        refine ⟨by simp [hpc'], ?_⟩
        simp only [measure, hpc, hpc', hleft, hc, rank]
        omega
      · rename_i hnone hsome
        obtain ⟨q, hq', rfl, hpc'⟩ := hqueue hs
        have hlt := trying_measure hq htry (by
          rintro (_ | v) hc
          · exact hnone hc
          · exact hsome v hc) hq'
        refine ⟨by simp [hpc'], ?_⟩
        simp only [measure, hpc, hpc']
        omega
    case exchange =>
      cases hs
      simp [measure, hpc]
    case delete stub =>
      obtain ⟨-, -, rfl⟩ := hphase
      obtain ⟨nd, hnd⟩ := Option.isSome_iff_exists.mp hq.live_head
      simp only [deleteStub, hnd, Option.some.injEq] at hs
      subst hs
      simp [measure, hpc]

variable {stub : Addr}

lemma reaches_inv (h : (system P T stub).Reaches QuietBegin s) : Inv s :=
  h.invariant (I := Inv) (init_inv stub) fun _ _ _ _ hinv hquiet hs => hinv.step hquiet hs

/-- The destructor comes to its end. -/
lemma destroy_leads (h : Inv s) (hbegun : s.destroy ≠ .idle) :
    (system P T stub).Leads (fun _ _ => True) (fun _ _ => True) (fun t => t.destroy = .done) s := by
  refine System.leads_of_measure (I := fun s => Inv s ∧ s.destroy ≠ .idle) measure ?_ ?_ ⟨h, hbegun⟩
  · rintro t ⟨hinv, hidle⟩ hdone
    obtain ⟨t', ht'⟩ := destroy_enabled hinv hidle hdone
    exact ⟨.destroy, t', trivial, ht'⟩
  · rintro t a t' ⟨hinv, hidle⟩ - - - hs
    cases a with
    | queue a => simp [system, step, hidle] at hs
    | begin => simp [system, step, hidle] at hs
    | destroy =>
      obtain ⟨hidle', hlt⟩ := destroy_measure hinv hs
      exact ⟨⟨hinv.destroyStep hs, hidle'⟩, hlt⟩

/-- No step touches a deleted node: a node stays alive as long as a thread has its address and is
going to use it, and a link store finds its node not linked. Nothing is deleted twice, and no value
is destroyed twice. The destructor comes to its end, and then every node has been deleted and every
value in one destroyed. -/
theorem reclaimed_once (h : (system P T stub).Reaches QuietBegin s) :
    s.queue.fault = false ∧
    (∀ a, s.queue.Uses a → s.queue.Live a) ∧
    (∀ p tail n, s.queue.producers p = .link tail n → s.queue.next tail = none) ∧
    (∀ i, s.ledger.deleted i ≤ 1 ∧ s.ledger.constructed i ≤ 1 ∧
      s.ledger.destroyed i ≤ s.ledger.constructed i) ∧
    (s.destroy ≠ .idle → (system P T stub).Leads (fun _ _ => True) (fun _ _ => True)
      (fun t => t.destroy = .done) s) ∧
    (s.destroy = .done → (∀ a, ¬s.queue.Live a) ∧ ∀ i < s.ledger.count, s.ledger.Settled i) := by
  have hinv := reaches_inv h
  cases hinv with
  | live cs vs hq howned hledger hphase =>
    refine ⟨hq.fault, fun a => hq.live_of_uses, fun p tail n hp => ?_, hledger.once,
      destroy_leads (reaches_inv h), fun hdone => ?_⟩
    · exact (hq.shape.pending p tail n hp).2.1
    · rw [hdone] at hphase
      exact hphase.elim
  | gone hdone hfault hquiet hdead hledger =>
    refine ⟨hfault, fun a ha => ?_, fun p tail n hp => ?_, hledger.once,
      destroy_leads (reaches_inv h), fun _ => ⟨hdead, hledger.all_settled hdead⟩⟩
    · exact absurd ha (not_uses_of_quiet hquiet)
    · rw [hquiet.1 p] at hp
      cases hp

/-- The second node is allocated where the stub was, and the third `enqueue` is refused. -/
theorem reclaimed_once_run : ∃ s : State (Fin 1) ℕ, s.queue.fault = false ∧
    s.ledger.count = 4 ∧ (∀ i < 4, s.ledger.Settled i) ∧
    s.ledger.destroyed 0 = 0 ∧ s.ledger.destroyed 3 = 1 := by
  obtain ⟨s, hs, hdone, hcount, hnone, hthree⟩ := System.exists_reaches
    (S := system (Fin 1) ℕ 0) QuietBegin
    (fun s => s.destroy = .done ∧ s.ledger.count = 4 ∧ s.ledger.destroyed 0 = 0 ∧
      s.ledger.destroyed 3 = 1)
    [.queue (.enqueue 0 5), .queue (.alloc 0 (some 1)), .queue (.loadTail 0),
      .queue (.cas 0 false), .queue (.link 0), .queue (.enqueueRet 0), .queue .tryDequeue,
      .queue .consumer, .queue .consumer, .queue .consumer, .queue .consumer, .queue .consumer,
      .queue .consumer, .queue (.enqueue 0 6), .queue (.alloc 0 (some 0)), .queue (.loadTail 0),
      .queue (.cas 0 false), .queue (.link 0), .queue (.enqueueRet 0), .queue (.enqueue 0 7),
      .queue (.alloc 0 (some 2)), .queue .stop, .queue (.loadTail 0), .queue (.cas 0 false),
      .queue (.enqueueRet 0), .begin, .destroy, .destroy, .destroy, .destroy, .destroy, .destroy,
      .destroy, .destroy, .destroy, .destroy, .destroy, .destroy, .destroy, .destroy] (by decide)
  obtain ⟨hfault, -, -, -, -, hend⟩ := reclaimed_once hs
  refine ⟨s, hfault, hcount, ?_, hnone, hthree⟩
  rw [← hcount]
  exact (hend hdone).2

end step

end Scoro.Destructor

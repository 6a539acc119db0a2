import Scoro.Io.Service

/-!
# Completions and their resolvers

The slots taken and not yet handed over are a window of at most `entries` operations, so they are
different slots. An operation that has its resolver when it is handed over gets its own completion.
-/

namespace Scoro.Io
open Scoro.Lib

variable {u : Liburing} {s s' : State} {op : ℕ}

/-- The resolver that the operation has been given. -/
def State.own (s : State) (op : ℕ) : Option SqeResolver :=
  (s.attached op).map (SqeResolver.mk op)

/-- Every operation that the step hands over has been given its resolver. -/
def Ready (u : Liburing) (s : State) : Action → Prop
  | .create => u.entries ≤ s.sqeTail - s.sqeHead →
      ∀ op ∈ Finset.Ico s.sqeHead s.sqeTail, s.attached op ≠ none
  | .coAwait op => ∀ op' ∈ Finset.Ico s.sqeHead s.sqeTail, op' ≠ op → s.attached op' ≠ none
  | .run _ => s.run = .submitAndWait →
      ∀ op ∈ Finset.Ico s.sqeHead s.sqeTail, s.attached op ≠ none
  | .setDeferred _ | .setCallback _ | .complete .. => True

instance : ∀ a : Action, Decidable (Ready u s a)
  | .create => inferInstanceAs (Decidable (_ → ∀ op ∈ Finset.Ico _ _, _))
  | .coAwait _ => inferInstanceAs (Decidable (∀ op ∈ Finset.Ico _ _, _))
  | .run _ => inferInstanceAs (Decidable (_ → ∀ op ∈ Finset.Ico _ _, _))
  | .setDeferred _ | .setCallback _ | .complete .. => inferInstanceAs (Decidable True)

/-- The completions that `run` has taken so far. -/
def State.processed (s : State) : List Cqe :=
  s.cqes.take (s.khead + s.mCqeCount)

/-- Each completion taken has resolved the resolver of its operation, with its result, no operation
has been resolved twice, and each one handed over has one completion or is in flight. -/
structure Delivered (s : State) : Prop where
  resolved : s.resolved.map (fun x => (some x.1, x.2)) =
    s.processed.map fun cqe => (s.own cqe.op, cqe.res)
  once : (s.resolved.map fun x => x.1.op).Nodup
  handed : (s.cqes.map Cqe.op ++ s.inflight.map Sqe.op).Perm (List.range s.sqeHead)

/-! ### The submission ring -/

structure Inv (u : Liburing) (s : State) : Prop where
  headLe : s.sqeHead ≤ s.sqeTail
  tailLe : s.sqeTail ≤ s.sqeHead + u.entries
  created : ∀ op, s.attached op ≠ none → op < s.sqeTail
  submitted : ∀ op < s.sqeHead, s.attached op ≠ none
  slots : ∀ op ∈ Finset.Ico s.sqeHead s.sqeTail, s.attached op ≠ none →
    s.slots (op % u.entries) = s.own op
  stale : ∀ {n resolver}, s.slots n = some resolver → s.own resolver.op = some resolver
  inflight : ∀ sqe ∈ s.inflight, sqe.userData = s.own sqe.op
  cqes : ∀ cqe ∈ s.cqes, cqe.userData = s.own cqe.op
  handed : (s.cqes.map Cqe.op ++ s.inflight.map Sqe.op).Perm (List.range s.sqeHead)

lemma init_inv : Inv u init := by
  refine ⟨?_, ?_, ?_, ?_, ?_, ?_, ?_, ?_, ?_⟩ <;> simp [init]

/-- Two operations of the window have two slots. -/
lemma slot_ne {m n : ℕ} (hm : m ∈ Finset.Ico s.sqeHead (s.sqeHead + u.entries))
    (hn : n ∈ Finset.Ico s.sqeHead (s.sqeHead + u.entries)) (hne : m ≠ n) :
    m % u.entries ≠ n % u.entries :=
  fun h => hne (Nat.mod_injOn_Ico s.sqeHead u.entries hm hn h)

lemma Inv.window (h : Inv u s) (hop : op ∈ Finset.Ico s.sqeHead s.sqeTail) :
    op ∈ Finset.Ico s.sqeHead (s.sqeHead + u.entries) := by
  have htail := h.tailLe
  simp only [Finset.mem_Ico] at hop ⊢
  omega

lemma Inv.op_lt_of_inflight (h : Inv u s) {sqe : Sqe} (hsqe : sqe ∈ s.inflight) :
    sqe.op < s.sqeHead := by
  have hmem := List.mem_append_right (s.cqes.map Cqe.op) (List.mem_map_of_mem (f := Sqe.op) hsqe)
  exact List.mem_range.mp (h.handed.subset hmem)

lemma Inv.op_lt_of_cqes (h : Inv u s) {cqe : Cqe} (hcqe : cqe ∈ s.cqes) : cqe.op < s.sqeHead := by
  have hmem := List.mem_append_left (s.inflight.map Sqe.op) (List.mem_map_of_mem (f := Cqe.op) hcqe)
  exact List.mem_range.mp (h.handed.subset hmem)

/-- What is in flight after a submit. -/
lemma mem_submit {sqe : Sqe} : sqe ∈ (s.submit u).inflight ↔ sqe ∈ s.inflight ∨
    sqe.op ∈ Finset.Ico s.sqeHead s.sqeTail ∧ sqe.userData = s.slots (sqe.op % u.entries) := by
  simp only [State.submit, List.mem_append, List.mem_map, List.mem_range'_1, Finset.mem_Ico]
  apply or_congr_right
  constructor
  · rintro ⟨op, hop, rfl⟩
    refine ⟨?_, rfl⟩
    dsimp only
    omega
  · rintro ⟨hop, hdata⟩
    exact ⟨sqe.op, by omega, by rw [← hdata]⟩

lemma Inv.submit (h : Inv u s)
    (hready : ∀ op ∈ Finset.Ico s.sqeHead s.sqeTail, s.attached op ≠ none) :
    Inv u (s.submit u) := by
  have hhead := h.headLe
  refine ⟨le_rfl, by simp [State.submit], h.created, fun op hop => ?_, ?_, h.stale, ?_, h.cqes, ?_⟩
  · by_cases hlt : op < s.sqeHead
    · exact h.submitted op hlt
    · apply hready op
      rw [Finset.mem_Ico]
      exact ⟨not_lt.mp hlt, hop⟩
  · simp [State.submit]
  · intro sqe hsqe
    rcases mem_submit.mp hsqe with hold | ⟨hop, hdata⟩
    · exact h.inflight sqe hold
    · rw [hdata]
      exact h.slots sqe.op hop (hready sqe.op hop)
  · have hrange : List.range s.sqeTail =
        List.range s.sqeHead ++ List.range' s.sqeHead (s.sqeTail - s.sqeHead) := by
      have happend := @List.range'_append_1 0 s.sqeHead (s.sqeTail - s.sqeHead)
      rw [zero_add, Nat.add_sub_cancel' hhead] at happend
      rw [List.range_eq_range', List.range_eq_range', happend]
    simp only [State.submit, List.map_append, List.map_map, Function.comp_def, List.map_id']
    rw [hrange, ← List.append_assoc]
    exact h.handed.append_right _

/-- A slot is taken where there is room. -/
lemma Inv.getSqe (h : Inv u s) (hroom : s.sqeTail - s.sqeHead < u.entries) :
    Inv u { s with sqeTail := s.sqeTail + 1 } := by
  have hhead := h.headLe
  refine ⟨by simp; omega, by simp; omega, fun op hop => ?_, h.submitted, fun op hop hne => ?_,
    h.stale, h.inflight, h.cqes, h.handed⟩
  · have hlt := h.created op hop
    simp only
    omega
  · have hlt := h.created op hne
    simp only [Finset.mem_Ico] at hop
    exact h.slots op (Finset.mem_Ico.mpr ⟨hop.1, hlt⟩) hne

/-- `io_uring_prep_*` clears the `user_data` of the slot that has just been taken. -/
lemma Inv.prep (h : Inv u s) (hop : op ∈ Finset.Ico s.sqeHead s.sqeTail)
    (hnone : s.attached op = none) : Inv u (s.setData u op none) := by
  refine ⟨h.headLe, h.tailLe, h.created, h.submitted, fun i hi hne => ?_, fun {n r} hr => ?_,
    h.inflight, h.cqes, h.handed⟩
  · have hiop : i ≠ op := by
      rintro rfl
      exact hne hnone
    have hslot := slot_ne (h.window hi) (h.window hop) hiop
    simp only [State.setData, Function.update_of_ne hslot]
    exact h.slots i hi hne
  · simp only [State.setData, Function.update_apply] at hr
    split_ifs at hr
    exact h.stale hr

lemma own_attach {kind : ResolverKind} (i : ℕ) : (s.attach u op kind).own i =
    if i = op then some ⟨op, kind⟩ else s.own i := by
  simp only [State.own, State.attach, Function.update_apply]
  split_ifs with hi
  · simp [hi]
  · rfl

lemma Inv.pending_of_unattached (h : Inv u s) (hlt : op < s.sqeTail)
    (hnone : s.attached op = none) : op ∈ Finset.Ico s.sqeHead s.sqeTail := by
  rw [Finset.mem_Ico]
  refine ⟨?_, hlt⟩
  by_contra hop
  exact h.submitted op (not_le.mp hop) hnone

/-- An operation gets its resolver before it is handed over. -/
lemma Inv.attach (h : Inv u s) (hlt : op < s.sqeTail) (hnone : s.attached op = none)
    (kind : ResolverKind) : Inv u (s.attach u op kind) := by
  have hpending := h.pending_of_unattached hlt hnone
  have hhead := (Finset.mem_Ico.mp hpending).1
  have hown : ∀ i < s.sqeHead, (s.attach u op kind).own i = s.own i := by
    intro i hi
    rw [own_attach, if_neg (by omega)]
  refine ⟨h.headLe, h.tailLe, fun i hi => ?_, fun i hi => ?_, fun i hi hne => ?_,
    fun {n r} hr => ?_, fun sqe hsqe => ?_, fun cqe hcqe => ?_, h.handed⟩
  · simp only [State.attach, Function.update_apply] at hi
    split_ifs at hi with hiop
    · exact hiop ▸ hlt
    · exact h.created i hi
  · have hiop : i ≠ op := by
      rintro rfl
      exact absurd (lt_of_lt_of_le hi hhead) (lt_irrefl _)
    simp only [State.attach, Function.update_of_ne hiop]
    exact h.submitted i hi
  · rw [own_attach]
    by_cases hiop : i = op
    · simp [hiop, State.attach, State.setData]
    · have hslot := slot_ne (h.window hi) (h.window hpending) hiop
      simp only [State.attach, Function.update_of_ne hiop] at hne
      simp only [State.attach, State.setData, Function.update_of_ne hslot, if_neg hiop]
      exact h.slots i hi hne
  · rw [own_attach]
    simp only [State.attach, State.setData, Function.update_apply] at hr
    split_ifs at hr
    · obtain rfl := Option.some.inj hr
      simp
    · have hr' := h.stale hr
      have hne : r.op ≠ op := by
        intro heq
        rw [heq, State.own, hnone] at hr'
        cases hr'
      rw [if_neg hne]
      exact hr'
  · rw [hown _ (h.op_lt_of_inflight hsqe)]
    exact h.inflight sqe hsqe
  · rw [hown _ (h.op_lt_of_cqes hcqe)]
    exact h.cqes cqe hcqe

lemma Inv.complete (h : Inv u s) {i : ℕ} {res : ℤ} (hs : complete s i res = some s') :
    Inv u s' := by
  unfold Io.complete at hs
  cases hsqe : s.inflight[i]? with
  | none => simp [hsqe] at hs
  | some sqe =>
    simp only [hsqe, Option.some.injEq] at hs
    subst hs
    obtain ⟨hi, hget⟩ := List.getElem?_eq_some_iff.mp hsqe
    have hmem : sqe ∈ s.inflight := hget ▸ List.getElem_mem hi
    have hperm := (List.getElem_cons_eraseIdx_perm hi).map Sqe.op
    rw [hget, List.map_cons] at hperm
    refine ⟨h.headLe, h.tailLe, h.created, h.submitted, h.slots, h.stale, fun e he => ?_,
      fun cqe hcqe => ?_, ?_⟩
    · exact h.inflight e (List.mem_of_mem_eraseIdx he)
    · rcases List.mem_append.mp hcqe with hold | hnew
      · exact h.cqes cqe hold
      · rw [List.mem_singleton] at hnew
        rw [hnew]
        exact h.inflight sqe hmem
    · simp only [List.map_append, List.map_cons, List.map_nil, List.append_assoc,
        List.singleton_append]
      exact (hperm.append_left _).trans h.handed

/-- The next slot is taken and prepared. -/
def State.takeSlot (u : Liburing) (s : State) : State :=
  if u.clears then { s with sqeTail := s.sqeTail + 1 }.setData u s.sqeTail none
  else { s with sqeTail := s.sqeTail + 1 }

/-- A slot is taken where there is room, or after all operations have been handed over. -/
lemma create_cases {P : State → Prop}
    (hroom : s.sqeTail - s.sqeHead < u.entries → P (s.takeSlot u))
    (hfull : u.entries ≤ s.sqeTail - s.sqeHead → P (s.cqAdvance.submit u))
    (htake : ∀ t, t.sqeTail - t.sqeHead < u.entries → P t → P (t.takeSlot u)) :
    P (s.create u) := by
  by_cases hlt : s.sqeTail - s.sqeHead < u.entries
  · have heq : s.create u = s.takeSlot u := by
      simp [State.create, State.getSqeSafe, State.getSqe, hlt, State.takeSlot]
    rw [heq]
    exact hroom hlt
  · have hsubmit := hfull (not_lt.mp hlt)
    have hsafe : s.getSqeSafe u = (s.cqAdvance.submit u).getSqe u := by
      simp [State.getSqeSafe, State.getSqe, hlt]
    by_cases hlt' : (s.cqAdvance.submit u).sqeTail - (s.cqAdvance.submit u).sqeHead < u.entries
    · have heq : s.create u = (s.cqAdvance.submit u).takeSlot u := by
        simp only [State.create, hsafe, State.getSqe, hlt', if_true, State.takeSlot]
      rw [heq]
      exact htake _ hlt' hsubmit
    · have heq : s.create u = s.cqAdvance.submit u := by
        simp only [State.create, hsafe, State.getSqe, hlt', if_false]
      rw [heq]
      exact hsubmit

lemma Inv.takeSlot (h : Inv u s) (hroom : s.sqeTail - s.sqeHead < u.entries) :
    Inv u (s.takeSlot u) := by
  have htaken := h.getSqe hroom
  unfold State.takeSlot
  split_ifs
  · apply htaken.prep
    · simp [h.headLe]
    · by_contra hne
      exact absurd (h.created _ hne) (lt_irrefl _)
  · exact htaken

lemma Inv.cqAdvance (h : Inv u s) : Inv u s.cqAdvance :=
  ⟨h.headLe, h.tailLe, h.created, h.submitted, h.slots, h.stale, h.inflight, h.cqes, h.handed⟩

lemma Inv.create (h : Inv u s) (hready : Ready u s .create) : Inv u (s.create u) := by
  apply create_cases
  · exact fun hroom => h.takeSlot hroom
  · exact fun hfull => h.cqAdvance.submit (hready hfull)
  · exact fun t hroom ht => ht.takeSlot hroom

lemma attachOnce_eq_some {kind : ResolverKind} (hs : attachOnce u s op kind = some s') :
    op < s.sqeTail ∧ s.attached op = none ∧ s' = s.attach u op kind := by
  unfold attachOnce at hs
  split_ifs at hs with hop
  exact ⟨hop.1, hop.2, (Option.some.inj hs).symm⟩

lemma Inv.run (h : Inv u s) {done : Bool} (hready : Ready u s (.run done)) :
    Inv u (runStep u s done) := by
  have hsame : ∀ {s' : State}, s'.slots = s.slots → s'.sqeHead = s.sqeHead →
      s'.sqeTail = s.sqeTail → s'.attached = s.attached → s'.inflight = s.inflight →
      s'.cqes = s.cqes → Inv u s' := by
    intro s' hslots hhead htail hattached hinflight hcqes
    have hown : ∀ i, s'.own i = s.own i := fun i => by rw [State.own, hattached, State.own]
    constructor <;> simp only [hslots, hhead, htail, hattached, hinflight, hcqes, hown]
    · exact h.headLe
    · exact h.tailLe
    · exact h.created
    · exact h.submitted
    · exact h.slots
    · exact h.stale
    · exact h.inflight
    · exact h.cqes
    · exact h.handed
  unfold runStep
  cases hpc : s.run with
  | submitAndWait =>
    have hsubmit := h.submit (hready hpc)
    exact ⟨hsubmit.headLe, hsubmit.tailLe, hsubmit.created, hsubmit.submitted, hsubmit.slots,
      hsubmit.stale, hsubmit.inflight, hsubmit.cqes, hsubmit.handed⟩
  | forEachCqe head =>
    dsimp only
    split <;> exact hsame rfl rfl rfl rfl rfl rfl
  | idle | testDone | wait | nextCqe _ | cqAdvance => exact hsame rfl rfl rfl rfl rfl rfl

lemma Inv.step (h : Inv u s) {a : Action} (ha : Ready u s a) (hs : step u s a = some s') :
    Inv u s' := by
  cases a with
  | create =>
    simp only [Io.step, Option.some.injEq] at hs
    exact hs ▸ h.create ha
  | coAwait op =>
    obtain ⟨t, ht, rfl⟩ := Option.map_eq_some_iff.mp hs
    obtain ⟨hlt, hnone, rfl⟩ := attachOnce_eq_some ht
    apply (h.attach hlt hnone .resume).submit
    intro i hi
    simp only [State.attach, Function.update_apply]
    split_ifs with hiop
    · simp
    · exact ha i hi hiop
  | setDeferred op =>
    obtain ⟨hlt, hnone, rfl⟩ := attachOnce_eq_some hs
    exact h.attach hlt hnone .deferred
  | setCallback op =>
    obtain ⟨hlt, hnone, rfl⟩ := attachOnce_eq_some hs
    exact h.attach hlt hnone .callback
  | complete i res => exact h.complete hs
  | run done =>
    simp only [Io.step, Option.some.injEq] at hs
    exact hs ▸ h.run ha

/-! ### The loop of `run` -/

/-- Where the loop stands, against the completions that it has taken. -/
def State.Counted (s : State) : Prop :=
  match s.run with
  | .forEachCqe head => s.khead + s.mCqeCount = head
  | .nextCqe head => s.khead + s.mCqeCount = head + 1
  | .idle | .testDone | .submitAndWait | .wait => s.mCqeCount = 0
  | .cqAdvance => True

structure Progress (s : State) : Prop where
  counted : s.Counted
  bound : s.khead + s.mCqeCount ≤ s.cqes.length
  resolved : s.resolved =
    s.processed.filterMap fun cqe => cqe.userData.map fun resolver => (resolver, cqe.res)

lemma init_progress : Progress init := by
  refine ⟨?_, ?_, ?_⟩ <;> simp [init, State.Counted, State.processed]

/-- A step that takes no completion, at most an advance of the ring. -/
lemma Progress.frame (h : Progress s) (hrun : s'.run = s.run) (hcqes : s'.cqes = s.cqes)
    (hsum : s'.khead + s'.mCqeCount = s.khead + s.mCqeCount)
    (hzero : s.mCqeCount = 0 → s'.mCqeCount = 0) (hres : s'.resolved = s.resolved) :
    Progress s' := by
  refine ⟨?_, ?_, ?_⟩
  · have hcounted := h.counted
    unfold State.Counted at hcounted ⊢
    rw [hrun, hsum]
    cases hpc : s.run <;> rw [hpc] at hcounted
    case forEachCqe | nextCqe | cqAdvance => exact hcounted
    all_goals exact hzero hcounted
  · rw [hcqes, hsum]
    exact h.bound
  · rw [hres, State.processed, hcqes, hsum]
    exact h.resolved

lemma Progress.cqAdvance (h : Progress s) : Progress s.cqAdvance := by
  apply h.frame <;> simp [State.cqAdvance]

lemma Progress.submit (h : Progress s) : Progress (s.submit u) := by
  apply h.frame <;> simp [State.submit]

lemma Progress.takeSlot (h : Progress s) : Progress (s.takeSlot u) := by
  unfold State.takeSlot
  split_ifs
  · apply h.frame <;> simp [State.setData]
  · apply h.frame <;> simp

lemma Progress.create (h : Progress s) : Progress (s.create u) := by
  apply create_cases
  · exact fun _ => h.takeSlot
  · exact fun _ => h.cqAdvance.submit
  · exact fun t _ ht => ht.takeSlot

lemma Progress.attach (h : Progress s) {kind : ResolverKind}
    (hs : attachOnce u s op kind = some s') : Progress s' := by
  obtain ⟨-, -, rfl⟩ := attachOnce_eq_some hs
  apply h.frame <;> simp [State.attach, State.setData]

lemma Progress.complete (h : Progress s) {i : ℕ} {res : ℤ} (hs : complete s i res = some s') :
    Progress s' := by
  unfold Io.complete at hs
  cases hsqe : s.inflight[i]? with
  | none => simp [hsqe] at hs
  | some sqe =>
    simp only [hsqe, Option.some.injEq] at hs
    subst hs
    have hbound := h.bound
    refine ⟨h.counted, by simp only [List.length_append]; omega, ?_⟩
    simp only [State.processed, List.take_append_of_le_length hbound]
    exact h.resolved

/-- An iteration takes the next completion. -/
lemma Progress.take (h : Progress s) {head : ℕ} {cqe : Cqe} (hpc : s.run = .forEachCqe head)
    (hcqe : s.cqes[head]? = some cqe) :
    Progress { s.resolve cqe with mCqeCount := s.mCqeCount + 1, run := .nextCqe head } := by
  have hcounted := h.counted
  simp only [State.Counted, hpc] at hcounted
  obtain ⟨hlt, hget⟩ := List.getElem?_eq_some_iff.mp hcqe
  refine ⟨?_, ?_, ?_⟩
  · simp only [State.Counted, State.resolve]
    omega
  · simp only [State.resolve]
    omega
  · have htake : s.cqes.take (head + 1) = s.cqes.take head ++ [cqe] := by
      rw [List.take_succ_eq_append_getElem hlt, hget]
    have hresolved := h.resolved
    simp only [State.processed, hcounted] at hresolved
    simp only [State.processed, State.resolve, ← add_assoc, hcounted]
    rw [htake, List.filterMap_append, ← hresolved]
    cases hdata : cqe.userData <;> simp [hdata]

lemma Progress.run (h : Progress s) (done : Bool) : Progress (runStep u s done) := by
  have hcounted := h.counted
  unfold runStep
  cases hpc : s.run with
  | forEachCqe head =>
    dsimp only
    cases hcqe : s.cqes[head]? with
    | none => exact ⟨trivial, h.bound, h.resolved⟩
    | some cqe => exact h.take hpc hcqe
  | nextCqe head =>
    simp only [State.Counted, hpc] at hcounted
    exact ⟨hcounted, h.bound, h.resolved⟩
  | cqAdvance =>
    have hadvance := h.cqAdvance
    exact ⟨rfl, hadvance.bound, hadvance.resolved⟩
  | wait =>
    simp only [State.Counted, hpc] at hcounted
    refine ⟨?_, h.bound, h.resolved⟩
    simp [State.Counted, hcounted]
  | submitAndWait =>
    simp only [State.Counted, hpc] at hcounted
    exact ⟨hcounted, h.bound, h.resolved⟩
  | testDone =>
    simp only [State.Counted, hpc] at hcounted
    refine ⟨?_, h.bound, h.resolved⟩
    cases done <;> exact hcounted
  | idle =>
    simp only [State.Counted, hpc] at hcounted
    exact ⟨hcounted, h.bound, h.resolved⟩

lemma Progress.step (h : Progress s) {a : Action} (hs : step u s a = some s') : Progress s' := by
  cases a with
  | create =>
    simp only [Io.step, Option.some.injEq] at hs
    exact hs ▸ h.create
  | coAwait op =>
    obtain ⟨t, ht, rfl⟩ := Option.map_eq_some_iff.mp hs
    exact (h.attach ht).submit
  | setDeferred op | setCallback op => exact h.attach hs
  | complete i res => exact h.complete hs
  | run done =>
    simp only [Io.step, Option.some.injEq] at hs
    exact hs ▸ h.run done

/-- What `run` has resolved, where each completion carries the resolver of its operation. -/
lemma filterMap_resolve {cqes : List Cqe}
    (h : ∀ cqe ∈ cqes, cqe.userData = s.own cqe.op ∧ s.own cqe.op ≠ none) :
    (cqes.filterMap fun cqe => cqe.userData.map fun resolver => (resolver, cqe.res)).map
      (fun x => (some x.1, x.2)) = cqes.map fun cqe => (s.own cqe.op, cqe.res) := by
  induction cqes with
  | nil => rfl
  | cons cqe cqes ih =>
    obtain ⟨hdata, hne⟩ := h cqe List.mem_cons_self
    obtain ⟨resolver, hresolver⟩ := Option.ne_none_iff_exists'.mp hne
    have htail := ih fun c hc => h c (List.mem_cons_of_mem _ hc)
    simp [hdata, hresolver, htail]

lemma Inv.processed_nodup (h : Inv u s) : (s.processed.map Cqe.op).Nodup := by
  have hnodup : (s.cqes.map Cqe.op ++ s.inflight.map Sqe.op).Nodup :=
    h.handed.nodup_iff.mpr List.nodup_range
  exact hnodup.of_append_left.sublist ((List.take_sublist _ _).map Cqe.op)

lemma Inv.delivered (h : Inv u s) (hprogress : Progress s) : Delivered s := by
  have hown : ∀ cqe ∈ s.processed, cqe.userData = s.own cqe.op ∧ s.own cqe.op ≠ none := by
    intro cqe hcqe
    have hmem := List.mem_of_mem_take hcqe
    have hne := h.submitted cqe.op (h.op_lt_of_cqes hmem)
    exact ⟨h.cqes cqe hmem, by simpa [State.own] using hne⟩
  have hresolved : s.resolved.map (fun x => (some x.1, x.2)) =
      s.processed.map fun cqe => (s.own cqe.op, cqe.res) := by
    rw [hprogress.resolved]
    exact filterMap_resolve hown
  refine ⟨hresolved, ?_, h.handed⟩
  have hops : s.resolved.map (fun x => x.1.op) = s.processed.map Cqe.op := by
    apply List.map_injective_iff.mpr (Option.some_injective ℕ)
    calc (s.resolved.map fun x => x.1.op).map some
        = (s.resolved.map fun x => (some x.1, x.2)).map fun x => x.1.map SqeResolver.op := by
          simp [Function.comp_def]
      _ = s.processed.map fun cqe => (s.own cqe.op).map SqeResolver.op := by
          simp [hresolved, Function.comp_def]
      _ = (s.processed.map Cqe.op).map some := by
          rw [List.map_map]
          apply List.map_congr_left
          intro cqe hcqe
          obtain ⟨kind, hkind⟩ : ∃ kind, s.attached cqe.op = some kind := by
            apply Option.ne_none_iff_exists'.mp
            simpa [State.own] using (hown cqe hcqe).2
          simp [State.own, hkind]
  rw [hops]
  exact h.processed_nodup

/-! ### Operations handed over too early -/

/-- The operation has been handed over, and its completion does not carry its resolver. -/
structure Lost (op : ℕ) (s : State) : Prop where
  headLe : s.sqeHead ≤ s.sqeTail
  handed : op < s.sqeHead
  inflight : ∀ sqe ∈ s.inflight, sqe.op = op → ∀ kind, sqe.userData ≠ some ⟨op, kind⟩
  cqes : ∀ cqe ∈ s.cqes, cqe.op = op → ∀ kind, cqe.userData ≠ some ⟨op, kind⟩

/-- A submit of an operation that has no resolver yet. -/
lemma lost_of_submit (h : Inv u s) (hop : op ∈ Finset.Ico s.sqeHead s.sqeTail)
    (hnone : s.attached op = none) : Lost op (s.submit u) := by
  obtain ⟨hge, hlt⟩ := Finset.mem_Ico.mp hop
  refine ⟨le_rfl, hlt, fun sqe hsqe heq kind hdata => ?_, fun cqe hcqe heq => ?_⟩
  · rcases mem_submit.mp hsqe with hold | ⟨-, hslot⟩
    · have := h.op_lt_of_inflight hold
      omega
    · have hstale := h.stale (hslot.symm.trans hdata)
      simp [State.own, hnone] at hstale
  · have := h.op_lt_of_cqes hcqe
    omega

lemma Lost.frame (h : Lost op s) (hhead : s'.sqeHead = s.sqeHead) (htail : s.sqeTail ≤ s'.sqeTail)
    (hinflight : s'.inflight = s.inflight) (hcqes : s'.cqes = s.cqes) : Lost op s' := by
  refine ⟨?_, ?_, ?_, ?_⟩
  · rw [hhead]
    exact h.headLe.trans htail
  · rw [hhead]
    exact h.handed
  · rw [hinflight]
    exact h.inflight
  · rw [hcqes]
    exact h.cqes

lemma Lost.submit (h : Lost op s) : Lost op (s.submit u) := by
  refine ⟨le_rfl, lt_of_lt_of_le h.handed h.headLe, fun sqe hsqe heq => ?_, h.cqes⟩
  rcases mem_submit.mp hsqe with hold | ⟨hop, -⟩
  · exact h.inflight sqe hold heq
  · have hhanded := h.handed
    rw [heq, Finset.mem_Ico] at hop
    omega

lemma Lost.takeSlot (h : Lost op s) : Lost op (s.takeSlot u) := by
  unfold State.takeSlot
  split_ifs <;> exact h.frame rfl (Nat.le_succ _) rfl rfl

lemma Lost.create (h : Lost op s) : Lost op (s.create u) := by
  apply create_cases
  · exact fun _ => h.takeSlot
  · exact fun _ => Lost.submit (h.frame rfl le_rfl rfl rfl)
  · exact fun t _ ht => ht.takeSlot

lemma Lost.attach (h : Lost op s) {i : ℕ} {kind : ResolverKind}
    (hs : attachOnce u s i kind = some s') : Lost op s' := by
  obtain ⟨-, -, rfl⟩ := attachOnce_eq_some hs
  exact h.frame rfl le_rfl rfl rfl

lemma Lost.complete (h : Lost op s) {i : ℕ} {res : ℤ} (hs : complete s i res = some s') :
    Lost op s' := by
  unfold Io.complete at hs
  cases hsqe : s.inflight[i]? with
  | none => simp [hsqe] at hs
  | some sqe =>
    simp only [hsqe, Option.some.injEq] at hs
    subst hs
    refine ⟨h.headLe, h.handed, fun e he => h.inflight e (List.mem_of_mem_eraseIdx he), ?_⟩
    intro cqe hcqe
    rcases List.mem_append.mp hcqe with hold | hnew
    · exact h.cqes cqe hold
    · rw [List.mem_singleton] at hnew
      rw [hnew]
      exact h.inflight sqe (List.mem_of_getElem? hsqe)

lemma Lost.run (h : Lost op s) (done : Bool) : Lost op (runStep u s done) := by
  unfold runStep
  cases s.run with
  | submitAndWait => exact (h.submit (u := u)).frame rfl le_rfl rfl rfl
  | forEachCqe head =>
    dsimp only
    split <;> exact h.frame rfl le_rfl rfl rfl
  | idle | testDone | wait | nextCqe _ | cqAdvance => exact h.frame rfl le_rfl rfl rfl

lemma Lost.step (h : Lost op s) {a : Action} (hs : step u s a = some s') : Lost op s' := by
  cases a with
  | create =>
    simp only [Io.step, Option.some.injEq] at hs
    exact hs ▸ h.create
  | coAwait i =>
    obtain ⟨t, ht, rfl⟩ := Option.map_eq_some_iff.mp hs
    exact (h.attach ht).submit
  | setDeferred i | setCallback i => exact h.attach hs
  | complete i res => exact h.complete hs
  | run done =>
    simp only [Io.step, Option.some.injEq] at hs
    exact hs ▸ h.run done

lemma lost_of_not_ready (h : Inv u s) {a : Action} (ha : ¬Ready u s a)
    (hs : step u s a = some s') : ∃ op, Lost op s' := by
  cases a with
  | create =>
    simp only [Ready, Classical.not_imp, not_forall, not_not] at ha
    obtain ⟨hfull, op, hop, hnone⟩ := ha
    have hlost : Lost op (s.cqAdvance.submit u) := lost_of_submit h.cqAdvance hop hnone
    simp only [step, Option.some.injEq] at hs
    subst hs
    refine ⟨op, ?_⟩
    apply create_cases
    · exact fun hroom => absurd hfull (not_le.mpr hroom)
    · exact fun _ => hlost
    · exact fun t _ ht => ht.takeSlot
  | coAwait op =>
    simp only [Ready, Classical.not_imp, not_forall, not_not] at ha
    obtain ⟨i, hi, hne, hnone⟩ := ha
    obtain ⟨t, ht, rfl⟩ := Option.map_eq_some_iff.mp hs
    obtain ⟨hlt, hop, rfl⟩ := attachOnce_eq_some ht
    refine ⟨i, lost_of_submit (h.attach hlt hop .resume) hi ?_⟩
    simp only [State.attach, Function.update_of_ne hne]
    exact hnone
  | run done =>
    simp only [Ready, Classical.not_imp, not_forall, not_not] at ha
    obtain ⟨hpc, op, hop, hnone⟩ := ha
    have hlost := lost_of_submit h hop hnone
    simp only [step, runStep, hpc, Option.some.injEq] at hs
    subst hs
    exact ⟨op, hlost.frame rfl le_rfl rfl rfl⟩
  | setDeferred _ | setCallback _ | complete _ _ => simp [Ready] at ha

/-- While each operation that is handed over has its resolver, each completion resolves it. An
operation that is handed over without it never gets its completion. -/
theorem completion_iff (h : (system u).Reaches (Ready u) s) :
    Delivered s ∧ ∀ a s', step u s a = some s' → ¬Ready u s a → ∃ op < s'.sqeHead,
      ∀ as t, (system u).exec (fun _ _ => True) s' as = some t →
        ∀ cqe ∈ t.cqes, cqe.op = op → ∀ kind, cqe.userData ≠ some ⟨op, kind⟩ := by
  have hinv : Inv u s := h.invariant init_inv fun _ _ _ _ hinv ha hs => hinv.step ha hs
  have hprogress : Progress s :=
    h.invariant init_progress fun _ _ _ _ hprogress _ hs => hprogress.step hs
  refine ⟨hinv.delivered hprogress, fun a s' hs ha => ?_⟩
  obtain ⟨op, hlost⟩ := lost_of_not_ready hinv ha hs
  refine ⟨op, hlost.handed, fun as t ht => ?_⟩
  have hlast := System.exec_invariant (I := fun t => Lost op t)
    (fun _ _ _ hu _ hs => hu.step hs) hlost ht
  exact hlast.cqes

/-- Two operations are created before the first one is awaited. -/
theorem completion_drops : ∃ s : State, (system ⟨64, true⟩).Reachable s ∧
    s.processed.map Cqe.op = [0, 1] ∧ s.own 1 = some ⟨1, .resume⟩ ∧
      s.resolved = [(⟨0, .resume⟩, 0)] :=
  System.exists_reaches (S := system ⟨64, true⟩) (fun _ _ => True)
    (fun s => s.processed.map Cqe.op = [0, 1] ∧ s.own 1 = some ⟨1, .resume⟩ ∧
      s.resolved = [(⟨0, .resume⟩, 0)])
    [.create, .create, .coAwait 0, .coAwait 1, .run false, .run false, .run false, .complete 0 0,
      .complete 0 7, .run false, .run false, .run false, .run false, .run false] (by decide)

/-- An operation with a callback is handed over when another one is awaited, on a full ring. -/
theorem completion_resolves : ∃ s : State, s.processed.map Cqe.op = [1, 0] ∧
    s.resolved = [(⟨1, .resume⟩, 7), (⟨0, .callback⟩, 0)] ∧ Delivered s := by
  obtain ⟨s, hs, hprocessed, hresolved⟩ :=
    System.exists_reaches (S := system ⟨1, false⟩) (Ready ⟨1, false⟩)
    (fun s => s.processed.map Cqe.op = [1, 0] ∧
      s.resolved = [(⟨1, .resume⟩, 7), (⟨0, .callback⟩, 0)])
    [.create, .setCallback 0, .create, .coAwait 1, .run false, .run false, .run false,
      .complete 1 7, .run false, .run false, .complete 0 0, .run false, .run false,
      .run false] (by decide)
  exact ⟨s, hprocessed, hresolved, (completion_iff hs).1⟩

end Scoro.Io

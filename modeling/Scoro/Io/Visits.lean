import Scoro.Io.Completion

/-!
# The iterations of `run` and the head of the ring

`run` counts the completions of a batch in `m_cqe_count` and releases them after it.
`io_uring_get_sqe_safe` releases those counted so far when it finds the submission ring full,
which a resumed coroutine may bring about in the middle of the batch, any number of times.
-/

namespace Scoro.Io
open Scoro.Lib

variable {u : Liburing} {s s' : State}

/-- An observer that notes the position of each completion that the loop of `run` visits. -/
def visit (s : State) (a : Action) (visited : List ℕ) : List ℕ :=
  match a, s.run with
  | .run _, .forEachCqe head => if head < s.cqes.length then visited ++ [head] else visited
  | _, _ => visited

def visits (u : Liburing) : System (System.Noted State (List ℕ)) Action :=
  (system u).observe visit []

/-- The resolver and the result that the completion at position `i` is resolved with. -/
def State.resolution (s : State) (i : ℕ) : Option (SqeResolver × ℤ) :=
  s.cqes[i]?.bind fun cqe => cqe.userData.map fun resolver => (resolver, cqe.res)

/-- The head that the ring would have if all completions counted were released. -/
def State.reached (s : State) : ℕ := s.khead + s.mCqeCount

lemma reached_create : (s.create u).reached = s.reached := by
  refine create_cases (P := fun t => t.reached = s.reached) (fun _ => ?_) (fun _ => ?_)
    fun t _ ht => ?_
  · unfold State.takeSlot
    split_ifs <;> rfl
  · simp [State.reached, State.cqAdvance, State.submit]
  · unfold State.takeSlot
    split_ifs <;> exact ht

lemma reached_getSqeSafe : (s.getSqeSafe u).1.reached = s.reached := by
  by_cases hroom : s.sqeTail - s.sqeHead < u.entries
  · simp [State.getSqeSafe, State.getSqe, hroom, State.reached]
  · have hsafe : s.getSqeSafe u = (s.cqAdvance.submit u).getSqe u := by
      simp [State.getSqeSafe, State.getSqe, hroom]
    have hreached : (s.cqAdvance.submit u).reached = s.reached := by
      simp [State.reached, State.cqAdvance, State.submit]
    rw [hsafe, ← hreached]
    unfold State.getSqe
    split_ifs <;> rfl

/-- A step visits the completion at the position reached, or none. -/
lemma reached_step (h : Progress s) {a : Action} (hs : step u s a = some s')
    {visited : List ℕ} (hv : visited = List.range s.reached) :
    visit s a visited = List.range s'.reached := by
  subst hv
  cases a with
  | create =>
    simp only [step, Option.some.injEq] at hs
    rw [← hs, reached_create]
    rfl
  | coAwait op =>
    obtain ⟨t, ht, rfl⟩ := Option.map_eq_some_iff.mp hs
    obtain ⟨-, -, rfl⟩ := attachOnce_eq_some ht
    rfl
  | setDeferred op | setCallback op =>
    obtain ⟨-, -, rfl⟩ := attachOnce_eq_some hs
    rfl
  | complete i res =>
    simp only [step, complete] at hs
    split at hs <;> cases hs
    rfl
  | run done =>
    simp only [step, Option.some.injEq] at hs
    subst hs
    have hcounted := h.counted
    cases hpc : s.run with
    | forEachCqe head =>
      simp only [State.Counted, hpc] at hcounted
      simp only [visit, runStep, hpc]
      cases hcqe : s.cqes[head]? with
      | none =>
        have hlen : ¬head < s.cqes.length := by simpa using hcqe
        rw [if_neg hlen]
        rfl
      | some cqe =>
        have hlen : head < s.cqes.length := (List.getElem?_eq_some_iff.mp hcqe).1
        have hreached : s.reached = head := hcounted
        rw [if_pos hlen, hreached, ← List.range_succ, ← hreached]
        rfl
    | submitAndWait =>
      simp only [visit, runStep, hpc]
      rfl
    | cqAdvance =>
      simp only [visit, runStep, hpc]
      simp [State.reached, State.cqAdvance]
    | idle | testDone | wait | nextCqe head =>
      simp only [visit, runStep, hpc]
      rfl

lemma visits_inv {s : System.Noted State (List ℕ)} (h : (visits u).Reachable s) :
    Progress s.state ∧ s.notes = List.range s.state.reached := by
  refine h.invariant (I := fun s => Progress s.state ∧ s.notes = List.range s.state.reached)
    ⟨init_progress, rfl⟩ ?_
  rintro s a s' - ⟨hprogress, hv⟩ - hs
  obtain ⟨hs, hnotes⟩ := System.observe_step.mp hs
  refine ⟨hprogress.step hs, ?_⟩
  rw [hnotes]
  exact reached_step hprogress hs hv

/-- The first `n` elements by their positions. -/
lemma take_eq_filterMap (cqes : List Cqe) (n : ℕ) :
    cqes.take n = (List.range n).filterMap fun i => cqes[i]? := by
  induction n with
  | zero => simp
  | succ n ih =>
    rw [List.take_add_one, List.range_succ, List.filterMap_append, ih]
    cases hcqe : cqes[n]? <;> simp [hcqe]

lemma Progress.resolved_eq (h : Progress s) :
    s.resolved = (List.range s.reached).filterMap s.resolution := by
  rw [h.resolved, State.processed, take_eq_filterMap, List.filterMap_filterMap]
  rfl

/-- The loop over a batch ends where no further completion has been posted. -/
lemma forEachCqe_of_cqAdvance {done : Bool} (h : (runStep u s done).run = .cqAdvance) :
    ∃ head, s.run = .forEachCqe head ∧ s.cqes[head]? = none := by
  cases hpc : s.run with
  | forEachCqe head =>
    cases hcqe : s.cqes[head]? with
    | none => exact ⟨head, rfl, hcqe⟩
    | some cqe => simp [runStep, hpc, hcqe] at h
  | testDone => cases done <;> simp [runStep, hpc] at h
  | idle | submitAndWait | wait | nextCqe head | cqAdvance => simp [runStep, hpc] at h

/-- The completions are visited in their order, each once, and resolved with their results. The
head of the ring and `m_cqe_count` add up to the number visited, also when `io_uring_get_sqe_safe`
returns. -/
structure InStep (u : Liburing) (s : System.Noted State (List ℕ)) : Prop where
  once : s.notes = List.range s.notes.length
  posted : s.notes.length ≤ s.state.cqes.length
  resolved : s.state.resolved = s.notes.filterMap s.state.resolution
  count : s.state.khead + s.state.mCqeCount = s.notes.length
  released : s.state.khead ≤ s.notes.length
  getSqeSafe : (s.state.getSqeSafe u).1.khead + (s.state.getSqeSafe u).1.mCqeCount =
    s.notes.length

/-- The head keeps in step in every state. The loop is in `resolve` or past it with the completion
visited last. It ends when all completions posted have been visited, and the advance after
it moves the head behind the last of them. -/
theorem run_visits_once {s : System.Noted State (List ℕ)} (h : (visits u).Reachable s) :
    InStep u s ∧
    (∀ head, s.state.run = .nextCqe head → head + 1 = s.notes.length) ∧
    ∀ done t, (visits u).step s (.run done) = some t →
      (t.state.run = .cqAdvance → t.notes.length = t.state.cqes.length) ∧
      (s.state.run = .cqAdvance → t.state.mCqeCount = 0 ∧ t.state.khead = t.notes.length) := by
  obtain ⟨hprogress, hv⟩ := visits_inv h
  have hcount : s.state.khead + s.state.mCqeCount = s.notes.length := by
    rw [hv, List.length_range, State.reached]
  have hcounted := hprogress.counted
  refine ⟨⟨?_, hcount ▸ hprogress.bound, ?_, hcount, by omega, ?_⟩, fun head hpc => ?_,
    fun done t hs => ⟨fun hend => ?_, fun hpc => ?_⟩⟩
  · rw [← hcount, hv, State.reached]
  · rw [hv]
    exact hprogress.resolved_eq
  · rw [← hcount]
    exact reached_getSqeSafe
  · simp only [State.Counted, hpc] at hcounted
    omega
  · obtain ⟨hs, hnotes⟩ := System.observe_step.mp hs
    simp only [system, step, Option.some.injEq] at hs
    rw [← hs] at hend ⊢
    obtain ⟨head, hpc, hcqe⟩ := forEachCqe_of_cqAdvance hend
    have hlen : s.state.cqes.length ≤ head := by simpa using hcqe
    have hstay : t.notes = s.notes := by simp [hnotes, visit, hpc, hlen]
    have hposted := hprogress.bound
    simp only [State.Counted, hpc] at hcounted
    simp only [runStep, hpc, hcqe]
    rw [hstay]
    omega
  · obtain ⟨hs, hnotes⟩ := System.observe_step.mp hs
    simp only [system, step, runStep, hpc, Option.some.injEq] at hs
    have hstay : t.notes = s.notes := by simp [hnotes, visit, hpc]
    rw [← hs, hstay]
    exact ⟨rfl, hcount⟩

/-- A coroutine that is resumed by the first completion of a batch of two creates operations until
the submission ring is full. The second completion is visited all the same. -/
theorem run_visits_once_flush : ∃ s : System.Noted State (List ℕ), s.notes = [0, 1] ∧
    s.state.khead = 1 ∧ s.state.mCqeCount = 1 ∧ InStep ⟨1, true⟩ s := by
  obtain ⟨s, hs, hnotes, hkhead, hcount⟩ := System.exists_reaches (S := visits ⟨1, true⟩)
    (fun _ _ => True) (fun s => s.notes = [0, 1] ∧ s.state.khead = 1 ∧ s.state.mCqeCount = 1)
    [.create, .coAwait 0, .create, .coAwait 1, .complete 0 0, .complete 0 0, .run false, .run false,
      .run false, .run false, .run false, .create, .create, .run false, .run false] (by decide)
  exact ⟨s, hnotes, hkhead, hcount, (run_visits_once hs).1⟩

end Scoro.Io

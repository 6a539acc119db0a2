import Mathlib

/-!
# Memory with store buffers

Each thread has a FIFO buffer of its stores, which drain to memory one by one at any later time. A
load reads the youngest store of its own thread to the location, and memory if there is none. A
read-modify-write goes to memory directly and waits until the own buffer is empty. Threads `T`,
locations `L` and the values `V l` of a location are arbitrary.
-/

namespace Scoro.Lib

/-- Memory, and the stores that are on their way, the oldest first. -/
structure StoreBuffer (T : Type*) {L : Type*} (V : L → Type*) where
  memory : ∀ l, V l
  buffer : T → List (Σ l, V l)

namespace StoreBuffer

variable {T L : Type*} {V : L → Type*} [DecidableEq T] [DecidableEq L]

/-- Nothing has been stored yet. -/
def init (T : Type*) (memory : ∀ l, V l) : StoreBuffer T V := ⟨memory, fun _ => []⟩

/-- The value of a buffered store, if it goes to `l`. -/
def valueAt (l : L) (w : Σ l, V l) : Option (V l) := if h : w.1 = l then some (h ▸ w.2) else none

/-- The values that thread `t` has on the way to `l`. -/
def writes (m : StoreBuffer T V) (t : T) (l : L) : List (V l) := (m.buffer t).filterMap (valueAt l)

def load (m : StoreBuffer T V) (t : T) (l : L) : V l := (m.writes t l).getLast?.getD (m.memory l)

def store (m : StoreBuffer T V) (t : T) (l : L) (v : V l) : StoreBuffer T V :=
  { m with buffer := Function.update m.buffer t (m.buffer t ++ [⟨l, v⟩]) }

/-- Replaces the value by `f` of it and returns the old value. -/
def rmw (m : StoreBuffer T V) (t : T) (l : L) (f : V l → V l) : Option (V l × StoreBuffer T V) :=
  if (m.buffer t).isEmpty then
    some (m.memory l, { m with memory := Function.update m.memory l (f (m.memory l)) })
  else none

/-- The oldest store of thread `t` gets to memory. -/
def drain (m : StoreBuffer T V) (t : T) : Option (StoreBuffer T V) :=
  match m.buffer t with
  | [] => none
  | ⟨l, v⟩ :: b => some
      ⟨Function.update m.memory l v, Function.update m.buffer t b⟩

variable {m m' : StoreBuffer T V} {t u : T} {l k : L} {v : V l}

@[simp] lemma valueAt_self : valueAt l ⟨l, v⟩ = some v := by simp [valueAt]

lemma valueAt_of_ne (h : l ≠ k) : valueAt k ⟨l, v⟩ = none := by simp [valueAt, h]

omit [DecidableEq T] in
lemma writes_of_empty (h : m.buffer t = []) : m.writes t l = [] := by simp [writes, h]

omit [DecidableEq T] in
/-- Where nothing is on the way a load reads memory. -/
lemma load_of_writes (h : m.writes t l = []) : m.load t l = m.memory l := by simp [load, h]

lemma writes_store_self : (m.store t l v).writes t l = m.writes t l ++ [v] := by
  simp [writes, store]

lemma writes_store_of_ne (h : l ≠ k) : (m.store t l v).writes u k = m.writes u k := by
  by_cases hu : u = t
  · subst hu
    simp [writes, store, valueAt_of_ne h]
  · simp [writes, store, hu]

lemma writes_store_other (h : u ≠ t) : (m.store t l v).writes u k = m.writes u k := by
  simp [writes, store, h]

omit [DecidableEq T] in
lemma rmw_eq_some {f : V l → V l} {r : V l × StoreBuffer T V} (h : m.rmw t l f = some r) :
    m.buffer t = [] ∧
      r = (m.memory l, ⟨Function.update m.memory l (f (m.memory l)), m.buffer⟩) := by
  unfold rmw at h
  split at h
  · rename_i hempty
    cases h
    exact ⟨List.isEmpty_iff.mp hempty, rfl⟩
  · cases h

/-- A drain moves the oldest store of one thread and leaves the other locations alone. -/
lemma drain_eq_some (h : m.drain t = some m') :
    ∃ l, (∃ v, m.writes t l = v :: m'.writes t l ∧ m'.memory l = v) ∧
      (∀ k, k ≠ l → m'.memory k = m.memory k ∧ m'.writes t k = m.writes t k) ∧
      ∀ u, u ≠ t → ∀ k, m'.writes u k = m.writes u k := by
  unfold drain at h
  split at h
  · cases h
  · rename_i l v b hb
    cases h
    refine ⟨l, ⟨v, ?_, Function.update_self ..⟩, fun k hk => ⟨Function.update_of_ne hk .., ?_⟩,
      fun u hu k => ?_⟩
    · simp [writes, hb]
    · simp [writes, hb, valueAt_of_ne hk.symm]
    · simp [writes, hu]

/-! ### Stores on their way -/

omit [DecidableEq T] in
lemma writes_eq_nil : m.writes t l = [] ↔ ∀ w ∈ m.buffer t, w.1 ≠ l := by
  simp only [writes, List.filterMap_eq_nil_iff, valueAt, dite_eq_right_iff, reduceCtorEq, imp_false]

omit [DecidableEq L] in
lemma mem_buffer_store {w : Σ l, V l} :
    w ∈ (m.store t l v).buffer u ↔ u = t ∧ w = ⟨l, v⟩ ∨ w ∈ m.buffer u := by
  by_cases hu : u = t
  · subst hu
    simp [store, or_comm]
  · simp [store, hu]

omit [DecidableEq L] in
lemma countP_store (f : (Σ l, V l) → Bool) : ((m.store t l v).buffer u).countP f =
    (m.buffer u).countP f + if u = t ∧ f ⟨l, v⟩ then 1 else 0 := by
  by_cases hu : u = t
  · subst hu
    simp [store, List.countP_append, List.countP_singleton]
  · simp [store, hu]

@[simp] lemma load_store_self : (m.store t l v).load t l = v := by
  simp [load, writes_store_self]

lemma load_store_of_ne (h : l ≠ k) : (m.store t l v).load u k = m.load u k := by
  unfold load
  rw [writes_store_of_ne h]
  rfl

lemma load_store_other (h : u ≠ t) : (m.store t l v).load u k = m.load u k := by
  unfold load
  rw [writes_store_other h]
  rfl

omit [DecidableEq T] in
lemma load_write_of_ne (h : l ≠ k) :
    ({ m with memory := Function.update m.memory l v } : StoreBuffer T V).load t k =
      m.load t k := by
  simp only [load, writes, Function.update_of_ne h.symm]

lemma drain_cases (h : m.drain t = some m') : ∃ w b, m.buffer t = w :: b ∧
    m' = ⟨Function.update m.memory w.1 w.2, Function.update m.buffer t b⟩ := by
  unfold drain at h
  split at h
  · cases h
  · rename_i l v b hb
    cases h
    exact ⟨⟨l, v⟩, b, hb, rfl⟩

/-- A thread does not see its own stores arrive. -/
lemma load_drain_self (h : m.drain t = some m') : m'.load t k = m.load t k := by
  obtain ⟨l, ⟨v, hwrites, hmemory⟩, hothers, -⟩ := drain_eq_some h
  by_cases hk : k = l
  · subst hk
    unfold load
    rw [hwrites, List.getLast?_cons, Option.getD_some, hmemory]
  · unfold load
    rw [(hothers k hk).1, (hothers k hk).2]

/-- Nor does it see a store to another location. -/
lemma load_drain_of_ne {w : Σ l, V l} {b : List (Σ l, V l)} (h : m.drain t = some m')
    (hb : m.buffer t = w :: b) (hk : w.1 ≠ k) (hu : u ≠ t) : m'.load u k = m.load u k := by
  obtain ⟨w', b', hb', rfl⟩ := drain_cases h
  obtain ⟨rfl, rfl⟩ := List.cons.inj (hb'.symm.trans hb)
  simp only [load, writes, Function.update_of_ne hu, Function.update_of_ne hk.symm]

/-- All other stores are still on the way. -/
lemma mem_buffer_drain {w x : Σ l, V l} {b : List (Σ l, V l)} (h : m.drain t = some m')
    (hb : m.buffer t = w :: b) (hx : x ∈ m.buffer u) : x ∈ m'.buffer u ∨ u = t ∧ x = w := by
  obtain ⟨w', b', hb', rfl⟩ := drain_cases h
  obtain ⟨rfl, rfl⟩ := List.cons.inj (hb'.symm.trans hb)
  change x ∈ Function.update m.buffer t b' u ∨ _
  by_cases hu : u = t
  · subst hu
    rw [hb'] at hx
    rw [Function.update_self]
    exact (List.mem_cons.mp hx).symm.imp_right fun hx => ⟨rfl, hx⟩
  · rw [Function.update_of_ne hu]
    exact Or.inl hx

lemma drain_sublist (h : m.drain t = some m') : (m'.buffer u).Sublist (m.buffer u) := by
  obtain ⟨w, b, hb, rfl⟩ := drain_cases h
  change (Function.update m.buffer t b u).Sublist _
  by_cases hu : u = t
  · subst hu
    rw [Function.update_self, hb]
    exact List.sublist_cons_self w b
  · rw [Function.update_of_ne hu]

end StoreBuffer

end Scoro.Lib

import Scoro.Lib.Transition
import Scoro.Lib.Holders

/-!
# `intrusive_ptr`

Variables `X` of type `intrusive_ptr` and objects `O` with a reference count. The operations of a
sequence run one after the other, so that `intrusive_ref_counter` and `intrusive_ref_counter_mt`
count alike. The converting move constructor takes the pointer and then resets its source, which
gives up a count that it has not acquired.
-/

namespace Scoro.IntrusivePtr
open Scoro.Lib

/-- An object is created with a count of zero, and deleted by its last release. -/
inductive Obj where
  | fresh
  | live (refCount : ℕ)
  | deleted
  deriving DecidableEq

def Obj.isLive : Obj → Bool
  | .live _ => true
  | .fresh | .deleted => false

/-- A variable that is not `alive` has no pointer. `fault` is set when an object that is not live is
accessed, and the number of deletions of each object is history. -/
structure State (X O : Type*) where
  alive : X → Bool
  mPtr : X → Option O
  objs : O → Obj
  deletions : O → ℕ
  fault : Bool

/-- The operations of a program, `fromRaw` for the construction from a raw pointer (which the casts
and `make_intrusive` use). -/
inductive Action (X O : Type*) where
  | new (o : O)
  | fromRaw (x : X) (ptr : Option O)
  | copy (x oth : X)
  | convertingCopy (x oth : X)
  | move (x oth : X)
  | convertingMove (x oth : X)
  | assign (x : X) (rhs : Option O)
  | reset (x : X)
  | resetTo (x : X) (rhs : Option O)
  | swap (x rhs : X)
  | destroy (x : X)

section step
variable {X O : Type*} [DecidableEq X] [DecidableEq O]

def init (X O : Type*) : State X O where
  alive := fun _ => false
  mPtr := fun _ => none
  objs := fun _ => .fresh
  deletions := fun _ => 0
  fault := false

namespace State

def setPtr (s : State X O) (x : X) (ptr : Option O) : State X O :=
  { s with mPtr := Function.update s.mPtr x ptr }

def setAlive (s : State X O) (x : X) (alive : Bool) : State X O :=
  { s with alive := Function.update s.alive x alive }

/-- `if(m_ptr) intrusive_ptr_add_ref(m_ptr)`. -/
def addRef (s : State X O) : Option O → State X O
  | none => s
  | some o =>
    match s.objs o with
    | .live n => { s with objs := Function.update s.objs o (.live (n + 1)) }
    | .fresh | .deleted => { s with fault := true }

/-- `if(m_ptr) intrusive_ptr_release(m_ptr)`. -/
def release (s : State X O) : Option O → State X O
  | none => s
  | some o =>
    match s.objs o with
    | .live n =>
      if n = 1 then
        { s with
          objs := Function.update s.objs o .deleted
          deletions := Function.update s.deletions o (s.deletions o + 1) }
      else { s with objs := Function.update s.objs o (.live (n - 1)) }
    | .fresh | .deleted => { s with fault := true }

def isRaw (s : State X O) : Option O → Bool
  | none => true
  | some o => (s.objs o).isLive

/-- `intrusive_ptr(T* ptr)`. -/
def fromRaw (s : State X O) (x : X) (ptr : Option O) : State X O :=
  ((s.setPtr x ptr).addRef ptr).setAlive x true

/-- `intrusive_ptr(intrusive_ptr&& oth)`. -/
def move (s : State X O) (x oth : X) : State X O :=
  (((s.setPtr oth none).setPtr x (s.mPtr oth))).setAlive x true

/-- `intrusive_ptr(rhs).swap(*this)`: the temporary is destroyed with the old pointer. -/
def swapTemporary (s : State X O) (x : X) (rhs : Option O) : State X O :=
  ((s.addRef rhs).setPtr x rhs).release (s.mPtr x)

def reset (s : State X O) (x : X) : State X O := s.swapTemporary x none

/-- `intrusive_ptr(intrusive_ptr<U>&& oth)`. -/
def convertingMove (s : State X O) (x oth : X) : State X O :=
  ((s.setPtr x (s.mPtr oth)).setAlive x true).reset oth

def swap (s : State X O) (x rhs : X) : State X O :=
  (s.setPtr x (s.mPtr rhs)).setPtr rhs (s.mPtr x)

def destroy (s : State X O) (x : X) : State X O :=
  ((s.release (s.mPtr x)).setPtr x none).setAlive x false

end State

/-- A constructor needs a variable that is not alive, the other operations living ones, and a raw
pointer points to a live object. -/
def step (s : State X O) : Action X O → Option (State X O)
  | .new o => if s.objs o = .fresh then
      some { s with objs := Function.update s.objs o (.live 0) } else none
  | .fromRaw x ptr => if s.alive x = false ∧ s.isRaw ptr then some (s.fromRaw x ptr) else none
  | .copy x oth | .convertingCopy x oth =>
    if s.alive x = false ∧ s.alive oth then some (s.fromRaw x (s.mPtr oth)) else none
  | .move x oth => if s.alive x = false ∧ s.alive oth then some (s.move x oth) else none
  | .convertingMove x oth =>
    if s.alive x = false ∧ s.alive oth then some (s.convertingMove x oth) else none
  | .assign x rhs | .resetTo x rhs =>
    if s.alive x ∧ s.isRaw rhs then some (s.swapTemporary x rhs) else none
  | .reset x => if s.alive x then some (s.reset x) else none
  | .swap x rhs => if s.alive x ∧ s.alive rhs then some (s.swap x rhs) else none
  | .destroy x => if s.alive x then some (s.destroy x) else none

def system (X O : Type*) [DecidableEq X] [DecidableEq O] : System (State X O) (Action X O) where
  init := init X O
  step := step

end step

variable {X O : Type*} {s s' : State X O} {x y : X} {o : O} {p q : Option O}

/-! ### The holders of an object -/

/-- The counts are those of the variables that hold the objects, and no variable holds a deleted
object. -/
structure CountsHolders (s : State X O) : Prop where
  fault : s.fault = false
  count : ∀ o n, s.objs o = .live n → n = held s.mPtr o
  held : ∀ x o, s.mPtr x = some o → (s.objs o).isLive = true
  deletions : ∀ o, s.deletions o = if s.objs o = .deleted then 1 else 0

/-- No converting move from a variable that holds an object. -/
def Plain (s : State X O) : Action X O → Prop
  | .convertingMove _ oth => s.mPtr oth = none
  | .new _ | .fromRaw _ _ | .copy _ _ | .convertingCopy _ _ | .move _ _ | .assign _ _ | .reset _
  | .resetTo _ _ | .swap _ _ | .destroy _ => True

section balance
variable [DecidableEq O]

/-- The counts are balanced when a temporary with the pointer `p` is one of the holders. -/
structure Balanced (p : Option O) (s : State X O) : Prop where
  fault : s.fault = false
  finite : FinitelyHeld s.mPtr
  dead : ∀ x, s.alive x = false → s.mPtr x = none
  count : ∀ o n, s.objs o = .live n → n = held s.mPtr o + if p = some o then 1 else 0
  held : ∀ x o, s.mPtr x = some o → (s.objs o).isLive = true
  temporary : ∀ o, p = some o → (s.objs o).isLive = true
  deletions : ∀ o, s.deletions o = if s.objs o = .deleted then 1 else 0

lemma Balanced.countsHolders (h : Balanced none s) : CountsHolders s :=
  ⟨h.fault, fun o n ho => by simpa using h.count o n ho, h.held, h.deletions⟩

lemma Balanced.isRaw (h : Balanced p s) (x : X) : s.isRaw (s.mPtr x) = true := by
  cases hx : s.mPtr x with
  | none => rfl
  | some o => exact h.held x o hx

lemma isLive_iff {obj : Obj} : obj.isLive = true ↔ ∃ n, obj = .live n := by
  cases obj <;> simp [Obj.isLive]

lemma init_balanced : Balanced none (init X O) := by
  refine ⟨rfl, finitelyHeld_none, ?_, ?_, ?_, ?_, ?_⟩ <;> simp [init]

/-- The temporary acquires its pointer. -/
lemma Balanced.addRef (h : Balanced none s) (hp : s.isRaw p = true) : Balanced p (s.addRef p) := by
  cases p with
  | none => exact h
  | some o =>
    obtain ⟨n, hn⟩ := isLive_iff.mp hp
    simp only [State.addRef, hn]
    refine { h with
      count := fun o' m ho' => ?_
      held := fun y o' ho' => ?_
      temporary := fun o' ho' => ?_
      deletions := fun o' => ?_ }
    · by_cases hoo : o' = o
      · subst hoo
        have hcount := h.count o' n hn
        simp only [Function.update_self, Obj.live.injEq] at ho'
        simp only [if_true, reduceCtorEq, if_false] at hcount ⊢
        omega
      · have hcount := h.count o' m (by simpa [hoo] using ho')
        simpa [Ne.symm hoo] using hcount
    · have hlive := h.held y o' ho'
      by_cases hoo : o' = o
      · simp [hoo, Obj.isLive]
      · simpa [hoo] using hlive
    · have hoo : o = o' := Option.some.inj ho'
      simp [← hoo, Obj.isLive]
    · by_cases hoo : o' = o
      · simpa [hoo, hn] using h.deletions o
      · simpa [hoo] using h.deletions o'

/-- The temporary is destroyed. -/
lemma Balanced.release (h : Balanced p s) : Balanced none (s.release p) := by
  cases p with
  | none => exact h
  | some o =>
    obtain ⟨n, hn⟩ := isLive_iff.mp (h.temporary o rfl)
    have hcount := h.count o n hn
    simp only [if_true] at hcount
    have hother : ∀ o' m, o' ≠ o → s.objs o' = .live m → m = Lib.held s.mPtr o' := by
      intro o' m hoo ho'
      simpa [Ne.symm hoo] using h.count o' m ho'
    simp only [State.release, hn]
    split_ifs with hone
    · refine { h with
        count := fun o' m ho' => ?_
        held := fun y o' ho' => ?_
        temporary := by simp
        deletions := fun o' => ?_ }
      · by_cases hoo : o' = o
        · simp [hoo] at ho'
        · simpa using hother o' m hoo (by simpa [hoo] using ho')
      · by_cases hoo : o' = o
        · subst hoo
          exact absurd ho' (h.finite.eq_none_of_held (by omega) y)
        · simpa [hoo] using h.held y o' ho'
      · by_cases hoo : o' = o
        · simpa [hoo, hn] using h.deletions o
        · simpa [hoo] using h.deletions o'
    · refine { h with
        count := fun o' m ho' => ?_
        held := fun y o' ho' => ?_
        temporary := by simp
        deletions := fun o' => ?_ }
      · by_cases hoo : o' = o
        · subst hoo
          simp only [Function.update_self, Obj.live.injEq] at ho'
          simp only [reduceCtorEq, if_false]
          omega
        · simpa using hother o' m hoo (by simpa [hoo] using ho')
      · by_cases hoo : o' = o
        · simp [hoo, Obj.isLive]
        · simpa [hoo] using h.held y o' ho'
      · by_cases hoo : o' = o
        · simpa [hoo, hn] using h.deletions o
        · simpa [hoo] using h.deletions o'

variable [DecidableEq X]

lemma Balanced.setAlive (h : Balanced p s) {b : Bool} (hx : b = true ∨ s.mPtr x = none) :
    Balanced p (s.setAlive x b) := by
  refine { h with dead := fun y hy => ?_ }
  by_cases hyx : y = x
  · rcases hx with rfl | hx
    · simp [State.setAlive, hyx] at hy
    · exact hyx ▸ hx
  · exact h.dead y (by simpa [State.setAlive, hyx] using hy)

/-- A variable and the temporary are swapped. -/
lemma Balanced.setPtr (h : Balanced p s) (hx : s.alive x = true) :
    Balanced (s.mPtr x) (s.setPtr x p) := by
  refine { h with
    finite := h.finite.update x p
    dead := fun y hy => ?_
    count := fun o n ho => ?_
    held := fun y o ho => ?_
    temporary := h.held x }
  · have hyx : y ≠ x := by
      rintro rfl
      simp [State.setPtr, hx] at hy
    simpa [State.setPtr, hyx] using h.dead y hy
  · have hupdate := h.finite.held_update x p o
    have hcount := h.count o n ho
    simp only [State.setPtr]
    omega
  · by_cases hyx : y = x
    · exact h.temporary o (by simpa [State.setPtr, hyx] using ho)
    · exact h.held y o (by simpa [State.setPtr, hyx] using ho)

end balance

/-! ### One operation -/

/-- The object has had a holder. -/
def Obj.counted : Obj → Bool
  | .fresh => false
  | .live n => n ≠ 0
  | .deleted => true

/-- What an operation does: at most one holder goes, only objects with a holder are deleted, and an
object that has had a holder does not become a new one. -/
structure Operation (s s' : State X O) : Prop where
  held_le : ∀ o, held s.mPtr o ≤ held s'.mPtr o + 1
  deleted : ∀ o, s'.objs o = .deleted → s.objs o = .deleted ∨ ∃ x, s.mPtr x = some o
  counted : ∀ o, (s.objs o).counted = true → (s'.objs o).counted = true

section operation

lemma Operation.of_objs (hobjs : s'.objs = s.objs)
    (hheld : ∀ o, held s'.mPtr o = held s.mPtr o) : Operation s s' :=
  ⟨fun o => by rw [hheld o]; omega, fun o ho => Or.inl (hobjs ▸ ho), fun o ho => hobjs ▸ ho⟩

variable [DecidableEq O]

@[simp] lemma addRef_mPtr : (s.addRef p).mPtr = s.mPtr := by
  unfold State.addRef
  split
  · rfl
  · split <;> rfl

@[simp] lemma addRef_alive : (s.addRef p).alive = s.alive := by
  unfold State.addRef
  split
  · rfl
  · split <;> rfl

@[simp] lemma release_mPtr : (s.release p).mPtr = s.mPtr := by
  unfold State.release
  split
  · rfl
  · split
    · split_ifs <;> rfl
    · rfl
    · rfl

@[simp] lemma release_alive : (s.release p).alive = s.alive := by
  unfold State.release
  split
  · rfl
  · split
    · split_ifs <;> rfl
    · rfl
    · rfl

/-- A count that is acquired or given up does not become zero. -/
lemma addRef_zero (h : (s.addRef p).objs o = .live 0) : s.objs o = .live 0 := by
  unfold State.addRef at h
  split at h
  · exact h
  · rename_i o'
    split at h
    · by_cases hoo : o = o'
      · simp [hoo] at h
      · simpa [hoo] using h
    · exact h
    · exact h

lemma release_zero (h : (s.release p).objs o = .live 0) : s.objs o = .live 0 := by
  unfold State.release at h
  split at h
  · exact h
  · rename_i o'
    split at h
    · rename_i n hn
      by_cases hoo : o = o'
      · subst hoo
        split_ifs at h with hone
        · simp at h
        · simp only [Function.update_self, Obj.live.injEq] at h
          obtain rfl : n = 0 := by omega
          exact hn
      · split_ifs at h <;> simpa [hoo] using h
    · exact h
    · exact h

lemma addRef_counted (h : (s.objs o).counted = true) : ((s.addRef p).objs o).counted = true := by
  unfold State.addRef
  split
  · exact h
  · rename_i o'
    split
    · by_cases hoo : o = o'
      · simp [hoo, Obj.counted]
      · simpa [hoo] using h
    · exact h
    · exact h

lemma addRef_deleted (h : (s.addRef p).objs o = .deleted) : s.objs o = .deleted := by
  unfold State.addRef at h
  split at h
  · exact h
  · rename_i o'
    split at h
    · by_cases hoo : o = o'
      · simp [hoo] at h
      · simpa [hoo] using h
    · exact h
    · exact h

lemma release_counted (h : (s.objs o).counted = true) : ((s.release p).objs o).counted = true := by
  unfold State.release
  split
  · exact h
  · rename_i o'
    split
    · rename_i n hn
      by_cases hoo : o = o'
      · subst hoo
        simp only [hn, Obj.counted, decide_not, Bool.not_eq_true', decide_eq_false_iff_not] at h
        split_ifs with hone
        · simp [Obj.counted]
        · simp only [Function.update_self, Obj.counted, ne_eq, decide_not, Bool.not_eq_true',
            decide_eq_false_iff_not]
          omega
      · split_ifs <;> simpa [hoo] using h
    · exact h
    · exact h

lemma release_deleted (h : (s.release p).objs o = .deleted) : s.objs o = .deleted ∨ p = some o := by
  unfold State.release at h
  split at h
  · exact Or.inl h
  · rename_i o'
    by_cases hoo : o = o'
    · exact Or.inr (congrArg some hoo.symm)
    · split at h
      · split_ifs at h <;> exact Or.inl (by simpa [hoo] using h)
      · exact Or.inl h
      · exact Or.inl h

lemma Balanced.new (h : Balanced none s) (ho : s.objs o = .fresh) :
    Balanced none { s with objs := Function.update s.objs o (.live 0) } ∧
      Operation s { s with objs := Function.update s.objs o (.live 0) } := by
  have hnobody : ∀ x, s.mPtr x ≠ some o := by
    intro x hx
    have hlive := h.held x o hx
    simp [ho, Obj.isLive] at hlive
  have hzero : Lib.held s.mPtr o = 0 := by
    rw [← held_none (L := X) (a := o)]
    exact held_congr fun x => by simp [hnobody x]
  refine ⟨{ h with
    count := fun o' n ho' => ?_
    held := fun x o' hx => ?_
    temporary := by simp
    deletions := fun o' => ?_ }, fun o' => by simp, fun o' ho' => Or.inl ?_, fun o' ho' => ?_⟩
  · by_cases hoo : o' = o
    · subst hoo
      simp only [Function.update_self, Obj.live.injEq] at ho'
      simp [hzero, ← ho']
    · exact h.count o' n (by simpa [hoo] using ho')
  · have hoo : o' ≠ o := by
      rintro rfl
      exact hnobody x hx
    simpa [hoo] using h.held x o' hx
  · by_cases hoo : o' = o
    · simpa [hoo, ho] using h.deletions o
    · simpa [hoo] using h.deletions o'
  · by_cases hoo : o' = o
    · simp [hoo] at ho'
    · simpa [hoo] using ho'
  · by_cases hoo : o' = o
    · simp [hoo, ho, Obj.counted] at ho'
    · simpa [hoo] using ho'

/-- An object is deleted by the operation that ends its last holder. -/
lemma Operation.deleted_iff (h : Operation s s') (hs : Balanced none s) (hs' : Balanced none s') :
    ((s.objs o).isLive = true ∧ s'.objs o = .deleted) ↔
      held s.mPtr o = 1 ∧ held s'.mPtr o = 0 := by
  constructor
  · rintro ⟨hlive, hdel⟩
    have hnobody : held s'.mPtr o = 0 := by
      rw [← held_none (L := X) (a := o)]
      refine held_congr fun x => ⟨fun hx => ?_, by simp⟩
      have hheld := hs'.held x o hx
      simp [hdel, Obj.isLive] at hheld
    rcases h.deleted o hdel with hdead | ⟨x, hx⟩
    · simp [hdead, Obj.isLive] at hlive
    · have hpos := hs.finite.held_pos hx
      have hle := h.held_le o
      omega
  · rintro ⟨hone, hzero⟩
    have hfresh : (s.objs o).counted = true ∧ (s.objs o).isLive = true := by
      obtain ⟨x, hx⟩ := Set.ncard_eq_one.mp hone
      have hheld := hs.held x o (by simpa [hx] using mem_holders (f := s.mPtr) (l := x) (a := o))
      obtain ⟨n, hn⟩ := isLive_iff.mp hheld
      have hcount := hs.count o n hn
      refine ⟨?_, hheld⟩
      simp only [hn, Obj.counted, hone] at hcount ⊢
      simp [hcount]
    refine ⟨hfresh.2, ?_⟩
    have hcounted := h.counted o hfresh.1
    cases hobj : s'.objs o with
    | fresh => simp [hobj, Obj.counted] at hcounted
    | deleted => rfl
    | live n =>
      have hcount := hs'.count o n hobj
      simp [hobj, Obj.counted, hcount, hzero] at hcounted

variable [DecidableEq X]

lemma release_setPtr : (s.release p).setPtr x q = (s.setPtr x q).release p := by
  unfold State.release State.setPtr
  split
  · rfl
  · dsimp only
    split
    · split_ifs <;> rfl
    · rfl
    · rfl

lemma addRef_setPtr : (s.setPtr x q).addRef p = (s.addRef p).setPtr x q := by
  unfold State.addRef State.setPtr
  split
  · rfl
  · dsimp only
    split <;> rfl

lemma addRef_setAlive {b : Bool} :
    (s.addRef p).setAlive x b = (s.setAlive x b).addRef p := by
  unfold State.addRef State.setAlive
  split
  · rfl
  · dsimp only
    split <;> rfl

@[simp] lemma fromRaw_mPtr : (s.fromRaw x p).mPtr = Function.update s.mPtr x p := by
  simp [State.fromRaw, State.setAlive, State.setPtr]

@[simp] lemma fromRaw_alive : (s.fromRaw x p).alive = Function.update s.alive x true := by
  simp [State.fromRaw, State.setAlive, State.setPtr]

lemma fromRaw_zero (h : (s.fromRaw x p).objs o = .live 0) : s.objs o = .live 0 :=
  addRef_zero (s := s.setPtr x p) (p := p) h

@[simp] lemma destroy_mPtr : (s.destroy x).mPtr = Function.update s.mPtr x none := by
  simp [State.destroy, State.setAlive, State.setPtr]

@[simp] lemma destroy_alive : (s.destroy x).alive = Function.update s.alive x false := by
  simp [State.destroy, State.setAlive, State.setPtr]

lemma destroy_zero (h : (s.destroy x).objs o = .live 0) : s.objs o = .live 0 :=
  release_zero (p := s.mPtr x) h

/-- The old pointer of a variable is released, after a new one has been acquired. -/
lemma Balanced.swapTemporary (h : Balanced none s) (hx : s.alive x = true)
    (hp : s.isRaw p = true) :
    Balanced none (s.swapTemporary x p) ∧ Operation s (s.swapTemporary x p) := by
  have hput := (h.addRef hp).setPtr (x := x) (by simpa using hx)
  rw [addRef_mPtr] at hput
  refine ⟨hput.release, fun o => ?_, fun o ho => ?_, fun o ho => ?_⟩
  · have hupdate := h.finite.held_update x p o
    simp only [State.swapTemporary, release_mPtr, State.setPtr, addRef_mPtr]
    split_ifs at hupdate <;> omega
  · rcases release_deleted ho with hdel | hx
    · exact Or.inl (addRef_deleted hdel)
    · exact Or.inr ⟨x, hx⟩
  · exact release_counted (addRef_counted ho)

lemma Balanced.fromRaw (h : Balanced none s) (hx : s.alive x = false)
    (hp : s.isRaw p = true) : Balanced none (s.fromRaw x p) ∧ Operation s (s.fromRaw x p) := by
  have hnone := h.dead x hx
  have heq : s.fromRaw x p = (s.setAlive x true).swapTemporary x p := by
    simp only [State.fromRaw, addRef_setPtr, State.swapTemporary, State.setAlive, hnone]
    rw [← State.setAlive, ← State.setAlive, ← addRef_setAlive]
    rfl
  have halive : (s.setAlive x true).alive x = true := by simp [State.setAlive]
  obtain ⟨hput, hoperation⟩ := (h.setAlive (Or.inl rfl)).swapTemporary halive hp
  rw [heq]
  exact ⟨hput, hoperation.held_le, hoperation.deleted, hoperation.counted⟩

lemma Balanced.move (h : Balanced none s) (hx : s.alive x = false) (hy : s.alive y = true) :
    Balanced none (s.move x y) ∧ Operation s (s.move x y) := by
  have hnone := h.dead x hx
  have hxy : x ≠ y := by
    rintro rfl
    simp [hx] at hy
  have halive : (s.setAlive x true).alive y = true := by simp [State.setAlive, hxy.symm, hy]
  have htaken := (h.setAlive (x := x) (Or.inl rfl)).setPtr halive
  have hput := htaken.setPtr (x := x) (by simp [State.setAlive, State.setPtr])
  refine ⟨?_, Operation.of_objs rfl fun o => ?_⟩
  · simpa [State.move, State.setPtr, State.setAlive, hxy, hnone] using hput
  · have htake := h.finite.held_update y none o
    have hgive := (h.finite.update y none).held_update x (s.mPtr y) o
    simp only [Function.update_apply, hxy, if_false, hnone, reduceCtorEq] at hgive
    simp only [reduceCtorEq, if_false] at htake
    simp only [State.move, State.setPtr, State.setAlive]
    omega

lemma Balanced.swap (h : Balanced none s) (hx : s.alive x = true) (hy : s.alive y = true) :
    Balanced none (s.swap x y) ∧ Operation s (s.swap x y) := by
  by_cases hxy : y = x
  · have hsame : s.swap x y = s := by simp [State.swap, State.setPtr, hxy]
    rw [hsame]
    exact ⟨h, Operation.of_objs rfl fun _ => rfl⟩
  have heq : Function.update (Function.update (Function.update s.mPtr x none) y (s.mPtr x)) x
      (s.mPtr y) = Function.update (Function.update s.mPtr x (s.mPtr y)) y (s.mPtr x) := by
    rw [Function.update_comm hxy, Function.update_idem]
  have htaken := h.setPtr hx
  have hgiven := htaken.setPtr (x := y) hy
  have hput := hgiven.setPtr (x := x) hx
  refine ⟨by simpa [State.swap, State.setPtr, hxy, Ne.symm hxy, heq] using hput,
    Operation.of_objs rfl fun o => ?_⟩
  have hfirst := h.finite.held_update x (s.mPtr y) o
  have hsecond := (h.finite.update x (s.mPtr y)).held_update y (s.mPtr x) o
  simp only [Function.update_apply, hxy, if_false] at hsecond
  simp only [State.swap, State.setPtr]
  omega

lemma Balanced.destroy (h : Balanced none s) (hx : s.alive x = true) :
    Balanced none (s.destroy x) ∧ Operation s (s.destroy x) := by
  obtain ⟨hreset, hoperation⟩ := h.swapTemporary (p := none) hx rfl
  have heq : s.destroy x = (s.swapTemporary x none).setAlive x false := by
    rw [State.destroy, release_setPtr]
    rfl
  rw [heq]
  exact ⟨hreset.setAlive (Or.inr (by simp [State.swapTemporary, State.setPtr])),
    hoperation.held_le, hoperation.deleted, hoperation.counted⟩

/-- A converting move from an empty variable makes an empty one. -/
lemma Balanced.convertingMove (h : Balanced none s) (hx : s.alive x = false)
    (hy : s.alive y = true) (hnone : s.mPtr y = none) :
    Balanced none (s.convertingMove x y) ∧ Operation s (s.convertingMove x y) := by
  have hxy : y ≠ x := by
    rintro rfl
    simp [hx] at hy
  have heq : s.convertingMove x y = s.move x y := by
    simp only [State.convertingMove, State.reset, State.swapTemporary, State.addRef, State.move,
      State.setPtr, State.setAlive, Function.update_of_ne hxy, hnone, State.release]
    rw [Function.update_comm hxy]
  rw [heq]
  exact h.move hx hy

lemma Balanced.step (h : Balanced none s) {a : Action X O} (ha : Plain s a)
    (hs : step s a = some s') : Balanced none s' ∧ Operation s s' := by
  cases a <;> simp only [IntrusivePtr.step, Option.ite_none_right_eq_some, Option.some.injEq] at hs
  case new o =>
    obtain ⟨ho, rfl⟩ := hs
    exact h.new ho
  case fromRaw x p =>
    obtain ⟨⟨hx, hp⟩, rfl⟩ := hs
    exact h.fromRaw hx hp
  case copy x y | convertingCopy x y =>
    obtain ⟨⟨hx, hy⟩, rfl⟩ := hs
    exact h.fromRaw hx (h.isRaw y)
  case move x y =>
    obtain ⟨⟨hx, hy⟩, rfl⟩ := hs
    exact h.move hx hy
  case convertingMove x y =>
    obtain ⟨⟨hx, hy⟩, rfl⟩ := hs
    exact h.convertingMove hx hy ha
  case assign x p | resetTo x p =>
    obtain ⟨⟨hx, hp⟩, rfl⟩ := hs
    exact h.swapTemporary hx hp
  case reset x =>
    obtain ⟨hx, rfl⟩ := hs
    exact h.swapTemporary hx rfl
  case swap x y =>
    obtain ⟨⟨hx, hy⟩, rfl⟩ := hs
    exact h.swap hx hy
  case destroy x =>
    obtain ⟨hx, rfl⟩ := hs
    exact h.destroy hx

lemma reaches_balanced (h : (system X O).Reaches Plain s) : Balanced none s :=
  h.invariant init_balanced fun _ _ _ _ hbalanced ha hs => (hbalanced.step ha hs).1

/-- The converting move constructor gives up the count of the holder that it moves. -/
lemma Balanced.not_countsHolders (h : Balanced none s) (hx : s.alive x = false)
    (hy : s.alive y = true) (ho : s.mPtr y = some o) : ¬CountsHolders (s.convertingMove x y) := by
  have hxy : y ≠ x := by
    rintro rfl
    simp [hx] at hy
  have hmove : Lib.held (Function.update (Function.update s.mPtr x (some o)) y none) o =
      Lib.held s.mPtr o := by
    have hgive := h.finite.held_update x (some o) o
    have htake := (h.finite.update x (some o)).held_update y none o
    simp only [h.dead x hx, reduceCtorEq, if_true, if_false] at hgive
    simp only [Function.update_of_ne hxy, ho, reduceCtorEq, if_true, if_false] at htake
    omega
  have hmPtr : (s.convertingMove x y).mPtr =
      Function.update (Function.update s.mPtr x (some o)) y none := by
    simp only [State.convertingMove, State.reset, State.swapTemporary, release_mPtr, State.setPtr,
      addRef_mPtr, State.setAlive, ho]
  obtain ⟨n, hn⟩ := isLive_iff.mp (h.held y o ho)
  have hcount := h.count o n hn
  have hpos := h.finite.held_pos ho
  have hobj : (s.convertingMove x y).objs o = if n = 1 then .deleted else .live (n - 1) := by
    simp only [State.convertingMove, State.reset, State.swapTemporary, State.setPtr,
      State.setAlive, State.addRef, Function.update_of_ne hxy, ho, State.release, hn]
    split_ifs <;> simp
  intro hcounts
  split_ifs at hobj with hone
  · have hheld := hcounts.held x o (by simp [hmPtr, Ne.symm hxy])
    simp [hobj, Obj.isLive] at hheld
  · have hless := hcounts.count o (n - 1) hobj
    rw [hmPtr, hmove] at hless
    simp only [reduceCtorEq, if_false] at hcount
    omega

lemma Balanced.countsHolders_iff (h : Balanced none s) {a : Action X O}
    (hs : IntrusivePtr.step s a = some s') : Plain s a ↔ CountsHolders s' := by
  refine ⟨fun ha => (h.step ha hs).1.countsHolders, fun hcounts => ?_⟩
  cases a with
  | convertingMove x y =>
    simp only [IntrusivePtr.step, Option.ite_none_right_eq_some, Option.some.injEq] at hs
    obtain ⟨⟨hx, hy⟩, rfl⟩ := hs
    cases ho : s.mPtr y with
    | none => exact ho
    | some o => exact absurd hcounts (h.not_countsHolders hx hy ho)
  | _ => trivial

/-- As long as no object is moved by the converting constructor, the counts are those of the
holders, and each object is deleted once, when its last holder goes. Such a move breaks it. -/
theorem counts_holders_iff (h : (system X O).Reaches Plain s) :
    CountsHolders s ∧ ∀ a s', step s a = some s' → (Plain s a ↔ CountsHolders s') ∧
      (Plain s a → ∀ o, ((s.objs o).isLive = true ∧ s'.objs o = .deleted) ↔
        held s.mPtr o = 1 ∧ held s'.mPtr o = 0) := by
  have hbalanced := reaches_balanced h
  refine ⟨hbalanced.countsHolders, fun a s' hs => ⟨hbalanced.countsHolders_iff hs, fun ha o => ?_⟩⟩
  obtain ⟨hnext, hoperation⟩ := hbalanced.step ha hs
  exact hoperation.deleted_iff hbalanced hnext

end operation

instance [DecidableEq O] : ∀ a : Action X O, Decidable (Plain s a)
  | .convertingMove _ _ => inferInstanceAs (Decidable (_ = _))
  | .new _ | .fromRaw _ _ | .copy _ _ | .convertingCopy _ _ | .move _ _ | .assign _ _ | .reset _
  | .resetTo _ _ | .swap _ _ | .destroy _ => inferInstanceAs (Decidable True)

/-- A pointer to a derived class is moved into one to its base class, which is left with a deleted
object. -/
theorem convertingMove_deletes : ∃ s : State (Fin 2) (Fin 1),
    (system (Fin 2) (Fin 1)).Reachable s ∧ s.mPtr 1 = some 0 ∧ s.objs 0 = .deleted ∧
      ¬CountsHolders s := by
  obtain ⟨s, hs, hptr, hobj⟩ :=
    System.exists_reaches (S := system (Fin 2) (Fin 1)) (fun _ _ => True)
    (fun s => s.mPtr 1 = some 0 ∧ s.objs 0 = .deleted)
    [.new 0, .fromRaw 0 (some 0), .convertingMove 1 0] (by decide)
  refine ⟨s, hs, hptr, hobj, fun hcounts => ?_⟩
  have hheld := hcounts.held 1 0 hptr
  simp [hobj, Obj.isLive] at hheld

/-- Two objects, with one operation of each kind. -/
theorem counts_holders_run : ∃ s : State (Fin 3) (Fin 2), CountsHolders s ∧
    s.objs 0 = .deleted ∧ s.objs 1 = .live 1 ∧ held s.mPtr 1 = 1 := by
  obtain ⟨s, hs, hzero, hone⟩ := System.exists_reaches (S := system (Fin 3) (Fin 2)) Plain
    (fun s => s.objs 0 = .deleted ∧ s.objs 1 = .live 1)
    [.new 0, .fromRaw 0 (some 0), .copy 1 0, .move 2 0, .new 1, .assign 0 (some 1), .swap 0 1,
      .resetTo 2 (some 1), .reset 0, .destroy 1] (by decide)
  have hcounts := (counts_holders_iff hs).1
  exact ⟨s, hcounts, hzero, hone, (hcounts.count 1 1 hone).symm⟩

end Scoro.IntrusivePtr

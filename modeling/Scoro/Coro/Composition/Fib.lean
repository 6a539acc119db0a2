import Scoro.Coro.Composition.Termination

/-!
# `fib`

The coroutine `fib` of `main.cpp`, which calls itself twice and awaits both results in one
expression, for negative arguments too. The order in which the operands are evaluated is left open
by the language, and an `int` that overflows is undefined.
-/

namespace Scoro.Composition
open Scoro.Lib

/-- Signed overflow. -/
inductive Undefined where
  | overflow
  deriving DecidableEq

/-- The points of the body with the values of its variables: the `Future` of the first operand is
constructed, its value is read, the `Future` of the second one is constructed, both values are
read. The last point is that of an exception, with `n` results in scope. -/
inductive FibPoint where
  | entry (x : ℤ)
  | firstCalled (x : ℤ)
  | firstRead (x a : ℤ)
  | secondCalled (x a : ℤ)
  | secondRead (x a b : ℤ)
  | raised (n : ℕ) (e : Undefined)
  deriving DecidableEq

namespace FibPoint

def scope : FibPoint → ℕ
  | .entry _ => 0
  | .firstCalled _ | .firstRead .. => 1
  | .secondCalled .. | .secondRead .. => 2
  | .raised n _ => n

/-- The results that have been read. -/
def read : FibPoint → Finset ℕ
  | .entry _ | .firstCalled _ => ∅
  | .firstRead .. | .secondCalled .. => {0}
  | .secondRead .. => {0, 1}
  | .raised n _ => Finset.range n

end FibPoint

/-- The arguments of the recursive calls, on the left and on the right of the operator. -/
def operand (x : ℤ) (left : Bool) : ℤ :=
  if x < 0 then if left then x + 2 else x + 1
  else if left then x - 1 else x - 2

def combine (x l r : ℤ) : ℤ := if x < 0 then l - r else l + r

/-- The result of an operator on `int`. -/
def returnInt {L : Type} (v : ℤ) : Instr L ℤ Undefined FibPoint :=
  if -2 ^ 31 ≤ v ∧ v < 2 ^ 31 then .ret v else .throw .overflow

def resumeWith (n : ℕ) (next : ℤ → FibPoint) : Except Undefined ℤ → FibPoint
  | .ok v => next v
  | .error e => .raised n e

def fibCode (leftFirst : Bool) : FibPoint → Instr Empty ℤ Undefined FibPoint
  | .entry x =>
    if 0 ≤ x ∧ x < 2 then .ret x
    else .call true (.entry (operand x leftFirst)) (.firstCalled x)
  | .firstCalled x => .await 0 (resumeWith 1 (.firstRead x))
  | .firstRead x a => .call true (.entry (operand x !leftFirst)) (.secondCalled x a)
  | .secondCalled x a => .await 1 (resumeWith 2 (.secondRead x a))
  | .secondRead x a b => returnInt (if leftFirst then combine x a b else combine x b a)
  | .raised _ e => .throw e

lemma returnInt_eq {L : Type} (v : ℤ) :
    (returnInt v : Instr L ℤ Undefined FibPoint) = .ret v ∨
      returnInt (L := L) v = .throw .overflow := by
  unfold returnInt
  split
  · exact Or.inl rfl
  · exact Or.inr rfl

lemma fibCode_entry (leftFirst : Bool) (x : ℤ) :
    fibCode leftFirst (.entry x) = .ret x ∨
    fibCode leftFirst (.entry x) = .call true (.entry (operand x leftFirst)) (.firstCalled x) := by
  unfold fibCode
  dsimp only
  split
  · exact Or.inl rfl
  · exact Or.inr rfl

def fib (leftFirst : Bool) : Program Empty ℤ Undefined FibPoint where
  code := fibCode leftFirst
  scope := FibPoint.scope
  wellScoped k := by
    cases k with
    | entry x =>
      rcases fibCode_entry leftFirst x with hcode | hcode <;> rw [hcode]
      · trivial
      · exact ⟨rfl, rfl⟩
    | firstCalled x => exact ⟨Nat.one_pos, fun o => by cases o <;> rfl⟩
    | firstRead x a => exact ⟨rfl, rfl⟩
    | secondCalled x a => exact ⟨Nat.one_lt_two, fun o => by cases o <;> rfl⟩
    | secondRead x a b =>
      change (returnInt _).Scoped _ _
      rcases returnInt_eq (L := Empty) (if leftFirst then combine x a b else combine x b a) with
        hcode | hcode <;> rw [hcode] <;> trivial
    | raised n e => trivial

/-- Both results are awaited before their scope ends. -/
lemma fib_joins (leftFirst : Bool) : (fib leftFirst).Joins FibPoint.read where
  bound k := by cases k <;> simp [FibPoint.read, fib, FibPoint.scope]
  code k := by
    cases k with
    | entry x =>
      change (fibCode leftFirst (.entry x)).Joins _ _ _
      rcases fibCode_entry leftFirst x with hcode | hcode <;> rw [hcode]
      · exact fun i hi => absurd hi (Nat.not_lt_zero i)
      · exact fun i => id
    | firstCalled x =>
      rintro (e | v) j hj
      · exact Or.inl (Nat.lt_one_iff.mp (Finset.mem_range.mp hj))
      · exact Or.inl (Finset.mem_singleton.mp hj)
    | firstRead x a => exact fun i => id
    | secondCalled x a =>
      rintro (e | v) j hj
      · have hlt : j < 2 := Finset.mem_range.mp hj
        rcases (by omega : j = 1 ∨ j = 0) with rfl | rfl
        · exact Or.inl rfl
        · exact Or.inr (Finset.mem_singleton_self 0)
      · rcases Finset.mem_insert.mp hj with rfl | hj
        · exact Or.inr (Finset.mem_singleton_self 0)
        · exact Or.inl (Finset.mem_singleton.mp hj)
    | secondRead x a b =>
      have hall : ∀ i < 2, i ∈ FibPoint.read (.secondRead x a b) := by
        intro i hi
        rcases (by omega : i = 0 ∨ i = 1) with rfl | rfl <;> simp [FibPoint.read]
      change (returnInt _).Joins _ _ _
      rcases returnInt_eq (L := Empty) (if leftFirst then combine x a b else combine x b a) with
        hcode | hcode <;> rw [hcode] <;> exact hall
    | raised n e => exact fun i hi => Finset.mem_range.mpr hi

/-! ### The result -/

/-- An `int` holds the results for these arguments. -/
lemma fib_fits {x : ℤ} (hx : |x| ≤ 46) : -2 ^ 31 ≤ Int.fib x ∧ Int.fib x < 2 ^ 31 := by
  have habs : (Int.fib x).natAbs = x.natAbs.fib := by
    rcases x.eq_nat_or_neg with ⟨n, rfl | rfl⟩
    · simp
    · simp [Int.fib_neg_natCast, Int.natAbs_mul]
  rw [abs_le] at hx
  have hmono : x.natAbs.fib ≤ Nat.fib 46 := Nat.fib_mono (by omega)
  have hfib : Nat.fib 46 = 1836311903 := by norm_num
  omega

lemma returnInt_fib {L : Type} {x : ℤ} (hx : |x| ≤ 46) :
    (returnInt (Int.fib x) : Instr L ℤ Undefined FibPoint) = .ret (Int.fib x) := by
  unfold returnInt
  rw [if_pos (fib_fits hx)]

lemma combine_fib (x : ℤ) :
    combine x (Int.fib (operand x true)) (Int.fib (operand x false)) = Int.fib x := by
  unfold combine operand
  split
  · rw [if_pos rfl, if_neg Bool.false_ne_true, ← Int.fib_eq_fib_add_two_sub_fib_add_one]
  · have hrec := Int.fib_add_two (x - 2)
    rw [show x - 2 + 2 = x by ring, show x - 2 + 1 = x - 1 by ring] at hrec
    rw [if_pos rfl, if_neg Bool.false_ne_true, hrec, add_comm]

/-- The recursion comes closer to `0`. -/
def distance (x : ℤ) : ℕ := x.natAbs + if x < 0 then 1 else 0

lemma distance_operand {x : ℤ} (hx : ¬(0 ≤ x ∧ x < 2)) (left : Bool) :
    distance (operand x left) < distance x := by
  unfold distance operand
  cases left <;> split_ifs <;> omega

lemma operand_le {x : ℤ} (hx : |x| ≤ 46) (left : Bool) :
    |operand x left| ≤ 46 := by
  rw [abs_le] at hx ⊢
  unfold operand
  cases left <;> split_ifs <;> omega

theorem evaluates_fib (leftFirst : Bool) (world : Empty → Except Undefined ℤ) {x : ℤ}
    (hx : |x| ≤ 46) :
    Evaluates (fib leftFirst) world id (.entry x) [] [] (.ok (Int.fib x)) := by
  induction hn : distance x using Nat.strong_induction_on generalizing x with
  | _ n ih =>
    by_cases hbase : 0 ≤ x ∧ x < 2
    · have hvalue : Int.fib x = x := by
        rcases (by omega : x = 0 ∨ x = 1) with rfl | rfl <;> rfl
      rw [hvalue]
      exact .ret (if_pos hbase)
    · have hcall : ∀ left, Evaluates (fib leftFirst) world id (.entry (operand x left)) [] []
          (.ok (Int.fib (operand x left))) := fun left =>
        ih _ (hn ▸ distance_operand hbase left) (operand_le hx left) rfl
      have hresult : (if leftFirst then
          combine x (Int.fib (operand x leftFirst)) (Int.fib (operand x !leftFirst))
          else combine x (Int.fib (operand x !leftFirst)) (Int.fib (operand x leftFirst))) =
          Int.fib x := by
        cases leftFirst <;> exact combine_fib x
      refine .call (if_neg hbase) (hcall leftFirst) (fun _ => ⟨_, rfl⟩) ?_
      have hfirst : (fib leftFirst).code (.firstCalled x) =
          .await 0 (resumeWith 1 (.firstRead x)) := rfl
      refine .await hfirst rfl ?_
      have hcode : (fib leftFirst).code (.firstRead x (Int.fib (operand x leftFirst))) =
          .call true (.entry (operand x !leftFirst))
            (.secondCalled x (Int.fib (operand x leftFirst))) := rfl
      refine .call hcode (hcall !leftFirst) (fun _ => ⟨_, rfl⟩) ?_
      have hsecond : (fib leftFirst).code (.secondCalled x (Int.fib (operand x leftFirst))) =
          .await 1 (resumeWith 2 (.secondRead x (Int.fib (operand x leftFirst)))) := rfl
      refine .await hsecond rfl ?_
      refine .ret ?_
      change returnInt _ = _
      rw [hresult]
      exact returnInt_fib hx

/-- The calls of `fib` from outside, and when their `Future`s may end. -/
def FibCalls (s : State Empty ℤ Undefined FibPoint) : Action FibPoint → Prop
  | .call _ (.entry x) => |x| ≤ 46
  | .call .. => False
  | .run _ | .resume _ => True
  | .release f => ∀ c ∈ s.frames f, c.pc.isDone = true

def FibPoint.argument : FibPoint → ℤ
  | .entry x | .firstCalled x | .firstRead x _ | .secondCalled x _ | .secondRead x _ _ => x
  | .raised .. => 0

def FibPoint.isEntry : FibPoint → Bool
  | .entry _ => true
  | _ => false

lemma within_resumeWith {x : ℤ} {n : ℕ} {next : ℤ → FibPoint} (hx : |x| ≤ 46)
    (hnext : ∀ v, |(next v).argument| ≤ 46) (o : Except Undefined ℤ) :
    |(resumeWith n next o).argument| ≤ 46 := by
  cases o with
  | ok v => exact hnext v
  | error e => exact abs_nonneg x |>.trans hx

lemma fib_closed (leftFirst : Bool) : (fib leftFirst).Closed
    (fun k => k.isEntry = true ∧ |k.argument| ≤ 46) fun k => |k.argument| ≤ 46 where
  enter k hk := hk.2
  code k hk := by
    cases k with
    | entry x =>
      change (fibCode leftFirst (.entry x)).Stays _ _
      rcases fibCode_entry leftFirst x with hcode | hcode <;> rw [hcode]
      · trivial
      · exact ⟨⟨rfl, operand_le hk leftFirst⟩, hk⟩
    | firstCalled x => exact within_resumeWith hk fun _ => hk
    | firstRead x a => exact ⟨⟨rfl, operand_le hk !leftFirst⟩, hk⟩
    | secondCalled x a => exact within_resumeWith hk fun _ => hk
    | secondRead x a b =>
      change (returnInt _).Stays _ _
      rcases returnInt_eq (L := Empty) (if leftFirst then combine x a b else combine x b a) with
        hcode | hcode <;> rw [hcode] <;> trivial
    | raised n e => trivial

variable {leftFirst : Bool} {world : Empty → Except Undefined ℤ}
  {s : State Empty ℤ Undefined FibPoint}

lemma FibCalls.meant {a : Action FibPoint} (h : FibCalls s a) :
    Meant (fib leftFirst) world id s a := by
  cases a with
  | call kind body =>
    cases body with
    | entry x => exact ⟨_, _, evaluates_fib leftFirst world h, fun _ => ⟨_, rfl⟩⟩
    | firstCalled | firstRead | secondCalled | secondRead | raised => cases h
  | run | resume => trivial
  | release f => exact h

lemma FibCalls.body {kind : Kind} {body : FibPoint} (h : FibCalls s (.call kind body)) :
    body.isEntry = true ∧ |body.argument| ≤ 46 := by
  cases body with
  | entry x => exact ⟨rfl, h⟩
  | firstCalled | firstRead | secondCalled | secondRead | raised => cases h

/-- However the calls of `fib` overlap, none overflows and all come to their ends, with the
Fibonacci number of their argument as the result. -/
theorem fib_ends_in_every_order (h : (system (fib leftFirst) world id).Reaches FibCalls s) :
    s.fault = false ∧ s.terminated = false ∧
    (system (fib leftFirst) world id).Leads (fun _ a => a.inner) (fun _ _ => True)
      (fun s => s.stack = [] ∧ ∀ f c, s.frames f = some c →
        c.outcome = some (.ok (Int.fib c.body.argument)) ∧
        if f ∈ s.roots then c.pc = .done ∧ c.promise.get = some (.ok (Int.fib c.body.argument))
        else c.pc = .destroyed) s := by
  have hmeant : (system (fib leftFirst) world id).Reaches (Meant (fib leftFirst) world id) s :=
    h.mono fun s a ha => ha.meant
  obtain ⟨hfault, hlive, hleads⟩ := coroutines_end_in_every_order (fib_joins leftFirst) hmeant
  refine ⟨hfault, hlive, hleads.imp (I := (system (fib leftFirst) world id).Reaches FibCalls)
    (fun s a s' run ha _ hs => run.step ?_ hs) (fun s run hfinished => ⟨hfinished.1, ?_⟩) h⟩
  · cases a <;> trivial
  intro f c hf
  have hwithin := reaches_within (fib_closed leftFirst) (fun s a s' run ha hs =>
    (reaches_completing (fib_joins leftFirst) (run.mono fun s a ha => ha.meant)).move
      (fib_joins leftFirst) ha.meant hs) (fun s kind body ha => ha.body) run f c hf
  obtain ⟨⟨r, houtcome, heval⟩, hframe⟩ := hfinished.2 f c hf
  obtain ⟨hentry, hle⟩ := hwithin.1
  have hvalue : c.outcome = some (.ok (Int.fib c.body.argument)) := by
    cases hbody : c.body with
    | entry x =>
      rw [hbody] at heval hle
      rw [houtcome, (heval.unique (evaluates_fib leftFirst world hle)).2]
      rfl
    | firstCalled | firstRead | secondCalled | secondRead | raised =>
      rw [hbody] at hentry
      cases hentry
  refine ⟨hvalue, ?_⟩
  split at hframe <;> rename_i hroot
  · rw [if_pos hroot, ← hvalue]
    exact ⟨hframe.1, hframe.2.1⟩
  · rw [if_neg hroot]
    exact hframe.1

theorem fib_ends_in_every_order_ten :
    ∃ s, (system (fib true) Empty.elim id).Reaches FibCalls s ∧ s.stack ≠ [] ∧
      (system (fib true) Empty.elim id).Leads (fun _ a => a.inner) (fun _ _ => True)
        (fun s => s.stack = [] ∧ ∀ f c, s.frames f = some c →
          c.outcome = some (.ok (Int.fib c.body.argument)) ∧
          if f ∈ s.roots then c.pc = .done ∧ c.promise.get = some (.ok (Int.fib c.body.argument))
          else c.pc = .destroyed) s := by
  have hcall : FibCalls (init ..) (.call (.future true) (.entry 10)) := by
    change |(10 : ℤ)| ≤ 46
    decide
  have hs := System.Reaches.init (S := system (fib true) Empty.elim id) |>.step hcall rfl
  exact ⟨_, hs, List.cons_ne_nil _ _, (fib_ends_in_every_order hs).2.2⟩

end Scoro.Composition

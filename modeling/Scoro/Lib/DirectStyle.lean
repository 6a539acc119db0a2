import Mathlib

/-!
# Programs of routines with futures, in direct style

A routine can call another one and await its result later, perform an operation of the world
outside, return or throw. A control point stands for the place in the text with the values of
the variables, so a program is a table from points to instructions, and its runs may be endless.
`Evaluates` is the direct-style meaning: a call runs the callee to its end before the next
instruction, and to await is to read the result.
-/

namespace Scoro.Lib

/-- What a routine does at a control point. Results of calls are numbered in the order of the
calls, and `drop` ends the scope of the last one. Awaiting and performing go on with a value or
with an exception. -/
inductive Instr (L V E κ : Type*) where
  | ret (v : V)
  | throw (e : E)
  | call (nothrow : Bool) (body next : κ)
  | await (i : ℕ) (next : Except E V → κ)
  | perform (l : L) (next : Except E V → κ)
  | drop (next : κ)

variable {L V E κ : Type*}

/-- With `n` results in scope the instruction is well scoped. -/
def Instr.Scoped (scope : κ → ℕ) (n : ℕ) : Instr L V E κ → Prop
  | .ret _ | .throw _ => True
  | .call _ body next => scope body = 0 ∧ scope next = n + 1
  | .await i next => i < n ∧ ∀ o, scope (next o) = n
  | .perform _ next => ∀ o, scope (next o) = n
  | .drop next => n = scope next + 1

/-- A program, with the number of results that are in scope at each point. -/
structure Program (L V E κ : Type*) where
  code : κ → Instr L V E κ
  scope : κ → ℕ
  wellScoped : ∀ k, (code k).Scoped scope (scope k)

/-- The meaning of a point with the results `env` in scope: the operations that the routine itself
performs from there on, in order, and how it ends. The operation `l` gives `world l`, a result that
has been read is left as `moved` leaves it, and a callee that must not throw does not. -/
inductive Evaluates (P : Program L V E κ) (world : L → Except E V) (moved : V → V) :
    κ → List (Except E V) → List L → Except E V → Prop
  | ret {k env v} (hk : P.code k = .ret v) : Evaluates P world moved k env [] (.ok v)
  | throw {k env e} (hk : P.code k = .throw e) : Evaluates P world moved k env [] (.error e)
  | call {k nothrow body next env t t' o r} (hk : P.code k = .call nothrow body next)
      (hbody : Evaluates P world moved body [] t o) (hthrow : nothrow = true → ∃ v, o = .ok v)
      (hnext : Evaluates P world moved next (env ++ [o]) t' r) : Evaluates P world moved k env t' r
  | await {k i next env o t r} (hk : P.code k = .await i next) (ho : env[i]? = some o)
      (hnext : Evaluates P world moved (next o) (env.set i (o.map moved)) t r) :
      Evaluates P world moved k env t r
  | perform {k l next env t r} (hk : P.code k = .perform l next)
      (hnext : Evaluates P world moved (next (world l)) env t r) :
      Evaluates P world moved k env (l :: t) r
  | drop {k next env t r} (hk : P.code k = .drop next)
      (hnext : Evaluates P world moved next env.dropLast t r) : Evaluates P world moved k env t r

variable {P : Program L V E κ} {world : L → Except E V} {moved : V → V}

/-- The meaning of a point by its instruction. -/
theorem evaluates_iff {k : κ} {env : List (Except E V)} {t : List L} {r : Except E V} :
    Evaluates P world moved k env t r ↔ match P.code k with
      | .ret v => t = [] ∧ r = .ok v
      | .throw e => t = [] ∧ r = .error e
      | .call nothrow body next => ∃ t' o, Evaluates P world moved body [] t' o ∧
          (nothrow = true → ∃ v, o = .ok v) ∧ Evaluates P world moved next (env ++ [o]) t r
      | .await i next => ∃ o, env[i]? = some o ∧
          Evaluates P world moved (next o) (env.set i (o.map moved)) t r
      | .perform l next => ∃ t', t = l :: t' ∧ Evaluates P world moved (next (world l)) env t' r
      | .drop next => Evaluates P world moved next env.dropLast t r := by
  constructor
  · rintro (hk | hk | ⟨hk, hbody, hthrow, hnext⟩ | ⟨hk, ho, hnext⟩ | ⟨hk, hnext⟩ | ⟨hk, hnext⟩) <;>
      rw [hk]
    · exact ⟨rfl, rfl⟩
    · exact ⟨rfl, rfl⟩
    · exact ⟨_, _, hbody, hthrow, hnext⟩
    · exact ⟨_, ho, hnext⟩
    · exact ⟨_, rfl, hnext⟩
    · exact hnext
  · intro h
    cases hk : P.code k <;> rw [hk] at h
    case ret v =>
      obtain ⟨rfl, rfl⟩ := h
      exact .ret hk
    case throw e =>
      obtain ⟨rfl, rfl⟩ := h
      exact .throw hk
    case call nothrow body next =>
      obtain ⟨t', o, hbody, hthrow, hnext⟩ := h
      exact .call hk hbody hthrow hnext
    case await i next =>
      obtain ⟨o, ho, hnext⟩ := h
      exact .await hk ho hnext
    case perform l next =>
      obtain ⟨t', rfl, hnext⟩ := h
      exact .perform hk hnext
    case drop next => exact .drop hk h

/-- A point has at most one meaning. -/
theorem Evaluates.unique {k : κ} {env : List (Except E V)} {t u : List L} {r q : Except E V}
    (h : Evaluates P world moved k env t r) (h' : Evaluates P world moved k env u q) :
    t = u ∧ r = q := by
  induction h generalizing u q with
  | ret hk =>
    rw [evaluates_iff, hk] at h'
    exact ⟨h'.1.symm, h'.2.symm⟩
  | throw hk =>
    rw [evaluates_iff, hk] at h'
    exact ⟨h'.1.symm, h'.2.symm⟩
  | call hk _ _ _ ihbody ihnext =>
    rw [evaluates_iff, hk] at h'
    obtain ⟨t', o, hbody, -, hnext⟩ := h'
    obtain ⟨-, rfl⟩ := ihbody hbody
    exact ihnext hnext
  | await hk ho _ ih =>
    rw [evaluates_iff, hk] at h'
    obtain ⟨o', ho', hnext⟩ := h'
    rw [ho] at ho'
    cases ho'
    exact ih hnext
  | perform hk _ ih =>
    rw [evaluates_iff, hk] at h'
    obtain ⟨t', rfl, hnext⟩ := h'
    obtain ⟨rfl, rfl⟩ := ih hnext
    exact ⟨rfl, rfl⟩
  | drop hk _ ih =>
    rw [evaluates_iff, hk] at h'
    exact ih h'

/-! ### The length of an evaluation -/

/-- The result in direct style with the number of instructions that are executed before the last
one, in all the routines that are called. -/
inductive EvaluatesIn (P : Program L V E κ) (world : L → Except E V) (moved : V → V) :
    ℕ → κ → List (Except E V) → Except E V → Prop
  | ret {k env v} (hk : P.code k = .ret v) : EvaluatesIn P world moved 0 k env (.ok v)
  | throw {k env e} (hk : P.code k = .throw e) : EvaluatesIn P world moved 0 k env (.error e)
  | call {k nothrow body next env m n o r} (hk : P.code k = .call nothrow body next)
      (hbody : EvaluatesIn P world moved m body [] o) (hthrow : nothrow = true → ∃ v, o = .ok v)
      (hnext : EvaluatesIn P world moved n next (env ++ [o]) r) :
      EvaluatesIn P world moved (m + n + 1) k env r
  | await {k i next env o n r} (hk : P.code k = .await i next) (ho : env[i]? = some o)
      (hnext : EvaluatesIn P world moved n (next o) (env.set i (o.map moved)) r) :
      EvaluatesIn P world moved (n + 1) k env r
  | perform {k l next env n r} (hk : P.code k = .perform l next)
      (hnext : EvaluatesIn P world moved n (next (world l)) env r) :
      EvaluatesIn P world moved (n + 1) k env r
  | drop {k next env n r} (hk : P.code k = .drop next)
      (hnext : EvaluatesIn P world moved n next env.dropLast r) :
      EvaluatesIn P world moved (n + 1) k env r

lemma EvaluatesIn.cases_code {n : ℕ} {k : κ} {env : List (Except E V)} {r : Except E V}
    (h : EvaluatesIn P world moved n k env r) : match P.code k with
      | .ret v => r = .ok v
      | .throw e => r = .error e
      | .call nothrow body next => ∃ m n' o, n = m + n' + 1 ∧
          EvaluatesIn P world moved m body [] o ∧ (nothrow = true → ∃ v, o = .ok v) ∧
          EvaluatesIn P world moved n' next (env ++ [o]) r
      | .await i next => ∃ n' o, n = n' + 1 ∧ env[i]? = some o ∧
          EvaluatesIn P world moved n' (next o) (env.set i (o.map moved)) r
      | .perform l next => ∃ n', n = n' + 1 ∧ EvaluatesIn P world moved n' (next (world l)) env r
      | .drop next => ∃ n', n = n' + 1 ∧ EvaluatesIn P world moved n' next env.dropLast r := by
  rcases h with hk | hk | ⟨hk, hbody, hthrow, hnext⟩ | ⟨hk, ho, hnext⟩ | ⟨hk, hnext⟩ |
    ⟨hk, hnext⟩ <;> rw [hk]
  · exact ⟨_, _, _, rfl, hbody, hthrow, hnext⟩
  · exact ⟨_, _, rfl, ho, hnext⟩
  · exact ⟨_, rfl, hnext⟩
  · exact ⟨_, rfl, hnext⟩

lemma Evaluates.exists_in {k : κ} {env : List (Except E V)} {t : List L} {r : Except E V}
    (h : Evaluates P world moved k env t r) : ∃ n, EvaluatesIn P world moved n k env r := by
  induction h with
  | ret hk => exact ⟨0, .ret hk⟩
  | throw hk => exact ⟨0, .throw hk⟩
  | call hk _ hthrow _ ihbody ihnext =>
    obtain ⟨m, hm⟩ := ihbody
    obtain ⟨n, hn⟩ := ihnext
    exact ⟨m + n + 1, .call hk hm hthrow hn⟩
  | await hk ho _ ih =>
    obtain ⟨n, hn⟩ := ih
    exact ⟨n + 1, .await hk ho hn⟩
  | perform hk _ ih =>
    obtain ⟨n, hn⟩ := ih
    exact ⟨n + 1, .perform hk hn⟩
  | drop hk _ ih =>
    obtain ⟨n, hn⟩ := ih
    exact ⟨n + 1, .drop hk hn⟩

/-- From a point in `within` the instruction calls bodies in `bodies` and stays in `within`. -/
def Instr.Stays (bodies within : κ → Prop) : Instr L V E κ → Prop
  | .ret _ | .throw _ => True
  | .call _ body next => bodies body ∧ within next
  | .await _ next | .perform _ next => ∀ o, within (next o)
  | .drop next => within next

/-- Bodies in `bodies` stay in `within` and call bodies in `bodies` only. -/
structure Program.Closed (P : Program L V E κ) (bodies within : κ → Prop) : Prop where
  enter : ∀ k, bodies k → within k
  code : ∀ k, within k → (P.code k).Stays bodies within

/-- At the point `k`, where the results `read k` have been awaited, every result has been awaited
when its scope ends. -/
def Instr.Joins (scope : κ → ℕ) (read : κ → Finset ℕ) (k : κ) : Instr L V E κ → Prop
  | .ret _ | .throw _ => ∀ i < scope k, i ∈ read k
  | .call _ _ next => ∀ i ∈ read next, i ∈ read k
  | .await i next => ∀ o, ∀ j ∈ read (next o), j = i ∨ j ∈ read k
  | .perform _ next => ∀ o, ∀ i ∈ read (next o), i ∈ read k
  | .drop next => scope next ∈ read k ∧ ∀ i ∈ read next, i ∈ read k

/-- A program awaits every result before its scope ends. -/
structure Program.Joins (P : Program L V E κ) (read : κ → Finset ℕ) : Prop where
  bound : ∀ k, ∀ i ∈ read k, i < P.scope k
  code : ∀ k, (P.code k).Joins P.scope read k

end Scoro.Lib

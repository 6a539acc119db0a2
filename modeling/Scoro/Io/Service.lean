import Scoro.Lib.Transition

/-!
# `Service`

The submission ring, the completions that the kernel posts and the loop of `run`. A slot is taken
when an operation is created, its `user_data` is set when the operation is awaited or given a
deferred or callback resolver, and any submit hands over all slots taken so far.
-/

namespace Scoro.Io
open Scoro.Lib

/-- `ResumeResolver`, `DeferredResolver` and `CallbackResolver`. -/
inductive ResolverKind where
  | resume
  | deferred
  | callback
  deriving DecidableEq

/-- The resolver of an operation. -/
structure SqeResolver where
  op : ℕ
  kind : ResolverKind
  deriving DecidableEq

/-- An SQE as it was handed over. -/
structure Sqe where
  op : ℕ
  userData : Option SqeResolver
  deriving DecidableEq

structure Cqe where
  op : ℕ
  userData : Option SqeResolver
  res : ℤ
  deriving DecidableEq

/-- The ring has `entries` slots. `clears`: `io_uring_prep_*` clears the `user_data`. -/
structure Liburing where
  entries : ℕ
  clears : Bool

/-- `run`: the test of `done`, the submit, the wait, the two halves of an iteration of
`io_uring_for_each_cqe` and the advance after it. -/
inductive RunPc where
  | idle
  | testDone
  | submitAndWait
  | wait
  | forEachCqe (head : ℕ)
  | nextCqe (head : ℕ)
  | cqAdvance
  deriving DecidableEq

/-- Operations are numbered as they are created, and operation `op` has the slot `op % entries`.
`cqes` are all completions posted so far, of which the ring has released the first `khead`.
`attached` and `resolved`, the calls of `resolve` with their results, are history. -/
structure State where
  slots : ℕ → Option SqeResolver
  sqeHead : ℕ
  sqeTail : ℕ
  inflight : List Sqe
  cqes : List Cqe
  khead : ℕ
  mCqeCount : ℕ
  run : RunPc
  attached : ℕ → Option ResolverKind
  resolved : List (SqeResolver × ℤ)

/-- `create` is a call of `nop`, `read` or `write`, which differ in what only the kernel reads.
`complete` is the kernel's: the operation at a position among those in flight ends with a result.
`run` takes the next step of `Service::run`, for which the future is done or not. -/
inductive Action where
  | create
  | coAwait (op : ℕ)
  | setDeferred (op : ℕ)
  | setCallback (op : ℕ)
  | complete (i : ℕ) (res : ℤ)
  | run (done : Bool)

def init : State where
  slots := fun _ => none
  sqeHead := 0
  sqeTail := 0
  inflight := []
  cqes := []
  khead := 0
  mCqeCount := 0
  run := .idle
  attached := fun _ => none
  resolved := []

variable (u : Liburing)

namespace State

/-- `io_uring_sqe_set_data`. -/
def setData (s : State) (op : ℕ) (data : Option SqeResolver) : State :=
  { s with slots := Function.update s.slots (op % u.entries) data }

/-- `io_uring_submit`. -/
def submit (s : State) : State :=
  { s with
    inflight := s.inflight ++ (List.range' s.sqeHead (s.sqeTail - s.sqeHead)).map fun op =>
      ⟨op, s.slots (op % u.entries)⟩
    sqeHead := s.sqeTail }

/-- `io_uring_cq_advance` by `m_cqe_count`. -/
def cqAdvance (s : State) : State :=
  { s with khead := s.khead + s.mCqeCount, mCqeCount := 0 }

/-- `io_uring_get_sqe`. -/
def getSqe (s : State) : State × Option ℕ :=
  if s.sqeTail - s.sqeHead < u.entries then ({ s with sqeTail := s.sqeTail + 1 }, some s.sqeTail)
  else (s, none)

/-- Throws if there is no slot after the submit either. -/
def getSqeSafe (s : State) : State × Option ℕ :=
  match s.getSqe u with
  | (s, some op) => (s, some op)
  | (s, none) => (s.cqAdvance.submit u).getSqe u

/-- `nop`, `read` and `write`. -/
def create (s : State) : State :=
  match s.getSqeSafe u with
  | (s, some op) => if u.clears then s.setData u op none else s
  | (s, none) => s

/-- The operation gets its resolver. -/
def attach (s : State) (op : ℕ) (kind : ResolverKind) : State :=
  { s.setData u op (some ⟨op, kind⟩) with attached := Function.update s.attached op (some kind) }

/-- `resolve` of the `user_data` of a completion, if it is not null. -/
def resolve (s : State) (cqe : Cqe) : State :=
  { s with resolved := s.resolved ++ (cqe.userData.map fun resolver => (resolver, cqe.res)).toList }

end State

/-- An operation is awaited or given a resolver once. -/
def attachOnce (s : State) (op : ℕ) (kind : ResolverKind) : Option State :=
  if op < s.sqeTail ∧ s.attached op = none then some (s.attach u op kind) else none

def complete (s : State) (i : ℕ) (res : ℤ) : Option State :=
  match s.inflight[i]? with
  | none => none
  | some sqe => some
      { s with
        inflight := s.inflight.eraseIdx i
        cqes := s.cqes ++ [⟨sqe.op, sqe.userData, res⟩] }

def runStep (s : State) (done : Bool) : State :=
  match s.run with
  | .idle => { s with run := .testDone }
  | .testDone => { s with run := if done then .idle else .submitAndWait }
  | .submitAndWait => { s.submit u with run := .wait }
  -- the wait ends with a completion, or early on a signal
  | .wait => { s with run := .forEachCqe s.khead }
  | .forEachCqe head =>
    match s.cqes[head]? with
    | none => { s with run := .cqAdvance }
    | some cqe => { s.resolve cqe with mCqeCount := s.mCqeCount + 1, run := .nextCqe head }
  | .nextCqe head => { s with run := .forEachCqe (head + 1) }
  | .cqAdvance => { s.cqAdvance with run := .testDone }

def step (s : State) : Action → Option State
  | .create => some (s.create u)
  | .coAwait op => (attachOnce u s op .resume).map (State.submit u)
  | .setDeferred op => attachOnce u s op .deferred
  | .setCallback op => attachOnce u s op .callback
  | .complete i res => complete s i res
  | .run done => some (runStep u s done)

def system : System State Action where
  init := init
  step := step u

end Scoro.Io

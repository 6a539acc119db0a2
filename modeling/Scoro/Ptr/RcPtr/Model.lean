import Scoro.Lib.Transition
import Scoro.Lib.Holders

/-!
# `rc_ptr`

Boxes `B` with a reference count. A location is a variable or a field of the value in a box, and the
fields of a box are destroyed one after the other when it is deleted. An operation leaves its tasks
in `todo`, and the deletion of a box puts its own before them. Boxes are not reused, and the counts
do not overflow.
-/

namespace Scoro.RcPtr
open Scoro.Lib

inductive Loc (X B F : Type*) where
  | var (x : X)
  | field (b : B) (f : F)
  deriving DecidableEq

/-- A box is `dying` from its last `dec` until its value has been destroyed. -/
inductive Box where
  | fresh
  | live (refcnt : ℕ)
  | dying
  | deleted
  deriving DecidableEq

def Box.isLive : Box → Bool
  | .live _ => true
  | .fresh | .dying | .deleted => false

/-- `dec`, and its last line when the box has been deleted, the end of a deletion, and the two ways
to read `other.m_box`. -/
inductive Task (X B F : Type*) where
  | dec (l : Loc X B F)
  | null (l : Loc X B F)
  | free (b : B)
  | copyBox (l other : Loc X B F)
  | takeBox (l other : Loc X B F)
  deriving DecidableEq

/-- The operations of a program, and the next task of the one in progress. -/
inductive Action (X B F : Type*) where
  | make (x : X) (b : B)
  | copyCtor (x : X) (other : Loc X B F)
  | moveCtor (x : X) (other : Loc X B F)
  | copyAssign (l other : Loc X B F)
  | moveAssign (l other : Loc X B F)
  | destroy (x : X)
  | run
  deriving DecidableEq

/-- `fault` is set when a box that is not there is accessed. The last operation, what the locations
held when it began and the number of deletions are history. -/
structure State (X B F : Type*) where
  alive : X → Bool
  mBox : Loc X B F → Option B
  boxes : B → Box
  todo : List (Task X B F)
  fault : Bool
  operation : Option (Action X B F)
  before : Loc X B F → Option B
  deletions : B → ℕ

section step
variable {X B F : Type*} [DecidableEq X] [DecidableEq B] [DecidableEq F]

def init (X B F : Type*) : State X B F where
  alive := fun _ => false
  mBox := fun _ => none
  boxes := fun _ => .fresh
  todo := []
  fault := false
  operation := none
  before := fun _ => none
  deletions := fun _ => 0

namespace State

def setBox (s : State X B F) (l : Loc X B F) (box : Option B) : State X B F :=
  { s with mBox := Function.update s.mBox l box }

/-- The memory of the location is still there. -/
def isStored (s : State X B F) : Loc X B F → Bool
  | .var _ => true
  | .field b _ => (s.boxes b).isLive ∨ s.boxes b = .dying

/-- The program can name the location. -/
def isUsable (fields : B → List F) (s : State X B F) : Loc X B F → Bool
  | .var x => s.alive x
  | .field b f => (s.boxes b).isLive ∧ f ∈ fields b

def inc (s : State X B F) : Option B → State X B F
  | none => s
  | some b =>
    match s.boxes b with
    | .live n => { s with boxes := Function.update s.boxes b (.live (n + 1)) }
    | .fresh | .dying | .deleted => { s with fault := true }

/-- `delete m_box`: the fields of the value are destroyed, then the box is gone. -/
def deleteBox (fields : B → List F) (b : B) : List (Task X B F) :=
  (fields b).map (fun f => .dec (.field b f)) ++ [.free b]

def dec (fields : B → List F) (s : State X B F) (l : Loc X B F) : State X B F :=
  match s.mBox l with
  | none => s
  | some b =>
    match s.boxes b with
    | .live n =>
      if n = 1 then
        { s with
          boxes := Function.update s.boxes b .dying
          todo := deleteBox fields b ++ .null l :: s.todo }
      else { s.setBox l none with boxes := Function.update s.boxes b (.live (n - 1)) }
    | .fresh | .dying | .deleted => { s with fault := true }

def free (s : State X B F) (b : B) : State X B F :=
  { s with
    boxes := Function.update s.boxes b .deleted
    deletions := Function.update s.deletions b (s.deletions b + 1) }

/-- `m_box = other.m_box; inc();`. -/
def copyBox (s : State X B F) (l other : Loc X B F) : State X B F :=
  (s.setBox l (s.mBox other)).inc (s.mBox other)

/-- `m_box = std::exchange(other.m_box, nullptr)`. -/
def takeBox (s : State X B F) (l other : Loc X B F) : State X B F :=
  (s.setBox other none).setBox l (s.mBox other)

/-- An access to a location whose box is gone is a fault. -/
def access (s : State X B F) (l : Loc X B F) (t : State X B F) : State X B F :=
  if s.isStored l then t else { s with fault := true }

def runTask (fields : B → List F) (s : State X B F) : Task X B F → State X B F
  | .dec l => s.access l (s.dec fields l)
  | .null l => s.access l (s.setBox l none)
  | .free b => s.free b
  | .copyBox l other => s.access other (s.access l (s.copyBox l other))
  | .takeBox l other => s.access other (s.access l (s.takeBox l other))

/-- An operation begins. -/
def begin (s : State X B F) (a : Action X B F) (todo : List (Task X B F)) : State X B F :=
  { s with todo := todo, operation := some a, before := s.mBox }

def make (s : State X B F) (x : X) (b : B) : State X B F :=
  { s.setBox (.var x) (some b) with
    alive := Function.update s.alive x true
    boxes := Function.update s.boxes b (.live 1) }

def setAlive (s : State X B F) (x : X) (alive : Bool) : State X B F :=
  { s with alive := Function.update s.alive x alive }

end State

def beginStep (fields : B → List F) (s : State X B F) (a : Action X B F) : Option (State X B F) :=
  match a with
  | .make x b =>
    if s.alive x = false ∧ s.boxes b = .fresh then some ((s.begin a []).make x b) else none
  | .copyCtor x other =>
    if s.alive x = false ∧ s.isUsable fields other then
      some ((s.begin a [.copyBox (.var x) other]).setAlive x true) else none
  | .moveCtor x other =>
    if s.alive x = false ∧ s.isUsable fields other then
      some ((s.begin a [.takeBox (.var x) other]).setAlive x true) else none
  | .copyAssign l other =>
    if s.isUsable fields l ∧ s.isUsable fields other then
      some (s.begin a (if l = other then [] else [.dec l, .copyBox l other])) else none
  | .moveAssign l other =>
    if s.isUsable fields l ∧ s.isUsable fields other then
      some (s.begin a (if l = other then [] else [.dec l, .takeBox l other])) else none
  | .destroy x =>
    if s.alive x then some ((s.begin a [.dec (.var x)]).setAlive x false) else none
  | .run => none

def runStep (fields : B → List F) (s : State X B F) : Option (State X B F) :=
  match s.todo with
  | [] => none
  | task :: todo => some ({ s with todo := todo }.runTask fields task)

/-- An operation begins when the one before has ended. -/
def step (fields : B → List F) (s : State X B F) : Action X B F → Option (State X B F)
  | .run => runStep fields s
  | a => if s.todo.isEmpty then beginStep fields s a else none

def system (X : Type*) [DecidableEq X] (fields : B → List F) :
    System (State X B F) (Action X B F) where
  init := init X B F
  step := step fields

end step

variable {X B F : Type*}

/-! ### The graph of the boxes -/

/-- A field of the box `b` holds the box `c`. -/
def Edge (m : Loc X B F → Option B) (b c : B) : Prop := ∃ f, m (.field b f) = some c

/-- The box goes when the location `l` is released: it is held by nothing else than `l` and the
fields of such boxes. -/
inductive Doomed (m : Loc X B F → Option B) (l : Loc X B F) : B → Prop
  | intro (b : B) (hvar : ∀ x, m (.var x) = some b → .var x = l)
      (hfield : ∀ c f, m (.field c f) = some b → .field c f ≠ l → Doomed m l c) : Doomed m l b

/-- An assignment to a field does not close a cycle. -/
def KeepsAcyclic (s : State X B F) : Action X B F → Prop
  | .copyAssign (.field c _) other | .moveAssign (.field c _) other =>
    ∀ b, s.mBox other = some b → ¬Relation.ReflTransGen (Edge s.mBox) b c
  | _ => True

/-- An assignment does not delete the box that its source is stored in. -/
def KeepsSource (s : State X B F) : Action X B F → Prop
  | .copyAssign l (.field b f) | .moveAssign l (.field b f) =>
    l ≠ .field b f → ¬Doomed s.mBox l b
  | _ => True

/-- The location that an operation writes to, and the one it reads. -/
def Action.source : Action X B F → Option (Loc X B F × Loc X B F)
  | .copyCtor x other | .moveCtor x other => some (.var x, other)
  | .copyAssign l other | .moveAssign l other => some (l, other)
  | .make _ _ | .destroy _ | .run => none

/-- Between two operations: each box that has been made is live and counts its holders, or it has
none and has been deleted once. Holders are living variables and fields of live boxes, and the
target of an assignment holds the box that the source held. -/
structure CountsHolders [DecidableEq F] (fields : B → List F) (s : State X B F) : Prop where
  fault : s.fault = false
  boxes : ∀ b, (s.boxes b = .live (held s.mBox b) ∧ held s.mBox b ≠ 0 ∧ s.deletions b = 0) ∨
    (s.boxes b = .deleted ∧ held s.mBox b = 0 ∧ s.deletions b = 1) ∨
    (s.boxes b = .fresh ∧ held s.mBox b = 0 ∧ s.deletions b = 0)
  usable : ∀ l b, s.mBox l = some b → s.isUsable fields l = true
  assigned : ∀ a l other, s.operation = some a → a.source = some (l, other) →
    s.mBox l = s.before other

end Scoro.RcPtr

import Scoro.Lib.Transition

/-!
# The abstract FIFO queue

The specification of a queue that many parties insert into and one party removes from. The
state records what the queue contains and both histories, so that an implementation is
compared with it by a refinement (`System.Refines`).
-/

namespace Scoro.Lib

/-- Everything inserted so far, everything removed so far, and what is left. -/
structure Fifo (T : Type*) where
  inserted : List T
  removed : List T
  contents : List T

namespace Fifo
variable {T : Type*}

inductive Op (T : Type*) where
  | insert (v : T)
  | remove

/-- A value goes in at the back, and the value at the front comes out. -/
def system (T : Type*) : System (Fifo T) (Op T) where
  init := ⟨[], [], []⟩
  step q
    | .insert v => some ⟨q.inserted ++ [v], q.removed, q.contents ++ [v]⟩
    | .remove =>
      match q.contents with
      | [] => none
      | v :: rest => some ⟨q.inserted, q.removed ++ [v], rest⟩

/-- Values come out in the order in which they went in, and none is lost or invented. -/
theorem inserted_eq {C : Fifo T → Op T → Prop} {q : Fifo T} (h : (system T).Reaches C q) :
    q.inserted = q.removed ++ q.contents := by
  refine h.invariant (I := fun q => q.inserted = q.removed ++ q.contents) rfl ?_
  intro q op q' _ ih _ hstep
  cases op with
  | insert v =>
    simp only [system, Option.some.injEq] at hstep
    subst hstep
    simp [ih]
  | remove =>
    simp only [system] at hstep
    split at hstep
    · cases hstep
    · rename_i v rest hc
      cases hstep
      simp [ih, hc]

end Fifo

end Scoro.Lib

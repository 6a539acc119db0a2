import Scoro.Combinators.Results
import Scoro.Combinators.WaitAll

/-!
# The bindings of `wait_all(...)`.`view()`

`AwaitableResultAllView::get` catches what the container throws and returns an `Expected`, which
throws it again when it is asked for the value. For an awaitable that cannot throw it returns the
value itself, and an exception would leave a `noexcept` function. The bindings are followed from the
runners of the awaitables, which fill their slots in any order.
-/

namespace Scoro.Results
open Scoro.Lib Scoro.Meta Scoro.Combinators

universe u

variable {B : Type*} [DecidableEq B]

/-- The member of `Expected<T>`: a variant of what is stored for `T` and of an `Error`, and for
`void` an `exception_ptr`. -/
def Expected (V : B → Type u) (P : ObjectType B → Type u) (X : Type u) : CppType B → Type u
  | .void => Option X
  | .object t | .rref t => ObjectVal V P X t ⊕ Error X
  | .lref t => P t ⊕ Error X

variable {V : B → Type u} {P : ObjectType B → Type u} {X : Type u}

namespace Expected

/-- The constructor with `std::in_place_type_t<T>`, and the one without arguments. -/
def ofValue : (T : CppType B) → Result V P X T → Expected V P X T
  | .void, _ => none
  | .object _, v | .rref _, v => .inl v
  | .lref _, p => .inl p

/-- The constructor with an `exception_ptr`. -/
def ofError : (T : CppType B) → Option X → Expected V P X T
  | .void, ep => ep
  | .object _, ep | .lref _, ep | .rref _, ep => .inr ⟨ep⟩

def get : (T : CppType B) → Expected V P X T → Except (Exit X) (Result V P X T)
  | .void, none => .ok PUnit.unit
  | .void, some x => .error (.rethrown x)
  | .object _, .inl v | .rref _, .inl v => .ok v
  | .lref _, .inl p => .ok p
  | .object _, .inr e | .lref _, .inr e | .rref _, .inr e => .error (rethrow e.ep)

omit [DecidableEq B] in
@[simp] lemma get_ofValue (T : CppType B) (v : Result V P X T) : get T (ofValue T v) = .ok v := by
  cases T <;> rfl

omit [DecidableEq B] in
@[simp] lemma get_ofError (T : CppType B) (x : X) :
    get T (ofError T (some x) : Expected V P X T) = .error (.rethrown x) := by
  cases T <;> rfl

end Expected

/-- `std::current_exception` in the handler, where `badAccess` is the `std::bad_variant_access`. -/
def Exit.currentException (badAccess : X) : Exit X → Option X
  | .rethrown x => some x
  | .badVariantAccess => some badAccess
  | .undefined => none

/-- What `get<N>` of a view returns. -/
inductive Binding (V : B → Type u) (P : ObjectType B → Type u) (X : Type u) (a : Awaitable B) where
  | value (v : Result V P X a.result)
  | expected (e : Expected V P X a.result)
  | terminated
  | undefined

namespace AwaitableResultAllView
variable {as : List (Awaitable B)}

def get (badAccess : X) (r : AwaitableResultAll V P X as) (N : Fin as.length) :
    Binding V P X (as.get N) :=
  match r.get N with
  | .ok v => if (as.get N).isNoexcept then .value v else .expected (.ofValue _ v)
  | .error exit =>
    match exit.currentException badAccess with
    | none => .undefined
    | some x => if (as.get N).isNoexcept then .terminated else .expected (.ofError _ (some x))

end AwaitableResultAllView

/-! ### The runners -/

/-- What an awaitable produces, by its type. -/
inductive Produced (V : B → Type u) (P : ObjectType B → Type u) (X : Type u) (a : Awaitable B) where
  | result (v : Result V P X a.result)
  | exception (throws : a.isNoexcept = false) (x : X)

namespace Produced
variable {a : Awaitable B}

/-- What a `co_await` on the awaitable itself would give. -/
def outcome : Produced V P X a → Except (Exit X) (Result V P X a.result)
  | .result v => .ok v
  | .exception _ x => .error (.rethrown x)

/-- The same without the types. -/
def erase : Produced V P X a → Outcome Unit X
  | .result _ => if a.result = .void then .void else .value ()
  | .exception _ x => .error x

end Produced

variable {as : List (Awaitable B)}

/-- What the runner of the awaitable does to its slot. -/
def AwaitableResultAll.store (r : AwaitableResultAll V P X as) (N : Fin as.length) :
    Produced V P X (as.get N) → AwaitableResultAll V P X as
  | .result v => if hN : (as.get N).result = .void then r else r.emplace N hN v
  | .exception throws x => r.emplaceError N throws (some x)

section runners
variable (produced : ∀ N : Fin as.length, Produced V P X (as.get N))

/-- The runner that is about to store fills its slot. -/
def storeResult (s : WaitAll.State as.length Unit X) (a : WaitAll.Action as.length Unit X)
    (r : AwaitableResultAll V P X as) : AwaitableResultAll V P X as :=
  match a with
  | .runner i =>
    match s.runners i with
    | .emplace _ => r.store i (produced i)
    | _ => r
  | _ => r

/-- `wait_all` with its container. -/
def waitAll : System (System.Noted (WaitAll.State as.length Unit X) (AwaitableResultAll V P X as))
    (WaitAll.Action as.length Unit X) :=
  (WaitAll.system as.length Unit X).observe (storeResult produced) .init

/-- The awaitables finish with what they produce. -/
def Completes (_ : System.Noted (WaitAll.State as.length Unit X) (AwaitableResultAll V P X as)) :
    WaitAll.Action as.length Unit X → Prop
  | .complete i o => o = (produced i).erase
  | _ => True

instance [DecidableEq X] (s) (a : WaitAll.Action as.length Unit X) :
    Decidable (Completes produced s a) :=
  match a with
  | .complete i o => inferInstanceAs (Decidable (o = (produced i).erase))
  | .runner _ | .awaitReady | .awaitSuspend | .awaitResume => isTrue trivial

end runners

/-! ### Every binding is the outcome of its awaitable -/

/-- A binding that has what the awaitable has produced, and throws no sooner than it is asked. -/
def Binding.Gives {a : Awaitable B} (p : Produced V P X a) : Binding V P X a → Prop
  | .value v => a.isNoexcept = true ∧ p = .result v
  | .expected e => a.isNoexcept = false ∧ e.get = p.outcome
  | .terminated | .undefined => False

variable {r r' : AwaitableResultAll V P X as} {N M : Fin as.length}

omit [DecidableEq B] in
lemma void_unique {T : CppType B} (hT : T = .void) (v w : Result V P X T) : v = w := by
  subst hT
  rfl

lemma gives_of_get {p : Produced V P X (as.get N)} (badAccess : X) (h : r.get N = p.outcome) :
    (AwaitableResultAllView.get badAccess r N).Gives p := by
  unfold AwaitableResultAllView.get
  rw [h]
  cases p with
  | result v =>
    simp only [Produced.outcome]
    split
    · exact ⟨by assumption, rfl⟩
    · exact ⟨Bool.eq_false_iff.mpr (by assumption), Expected.get_ofValue _ v⟩
  | exception throws x =>
    simp only [Produced.outcome, Exit.currentException, throws, Bool.false_eq_true, if_false]
    exact ⟨throws, Expected.get_ofError _ x⟩

namespace AwaitableResultAll

lemma store_void (hN : (as.get N).result = .void) (v : Result V P X (as.get N).result) :
    r.store N (.result v) = r := dif_pos hN

lemma store_value (hN : (as.get N).result ≠ .void) (v : Result V P X (as.get N).result) :
    r.store N (.result v) = r.emplace N hN v := dif_neg hN

lemma store_exception (throws : (as.get N).isNoexcept = false) (x : X) :
    r.store N (.exception throws x) = r.emplaceError N throws (some x) := rfl

lemma store_of_ne (hM : M ≠ N) (p : Produced V P X (as.get N)) :
    (r.store N p).mResults M = r.mResults M := by
  cases p with
  | result v =>
    by_cases hN : (as.get N).result = .void
    · rw [store_void hN]
    · rw [store_value hN]
      exact Function.update_of_ne hM ..
  | exception throws x => exact Function.update_of_ne hM ..

/-- What is stored does not depend on the other slots. -/
lemma store_congr (h : r.mResults N = r'.mResults N) (p : Produced V P X (as.get N)) :
    (r.store N p).mResults N = (r'.store N p).mResults N := by
  cases p with
  | result v =>
    by_cases hN : (as.get N).result = .void
    · rw [store_void hN, store_void hN, h]
    · rw [store_value hN, store_value hN, emplace_mResults, emplace_mResults]
  | exception throws x =>
    rw [store_exception, store_exception, emplaceError_mResults, emplaceError_mResults]

/-- The slot of an awaitable that has stored its outcome. -/
lemma get_store (herror : ¬TakenForError (as.get N)) {p : Produced V P X (as.get N)}
    (h : r.mResults N = (init.store N p).mResults N) : r.get N = p.outcome := by
  unfold get
  rw [h]
  cases p with
  | result v =>
    by_cases hN : (as.get N).result = .void
    · obtain ⟨w, hw⟩ := get_monostate (V := V) (P := P) (X := X) (suits (as.get N)) hN
        (count_monostate (as.get N))
      rw [void_unique hN w v] at hw
      rw [store_void hN]
      exact hw
    · rw [store_value hN, emplace_mResults]
      exact get_construct _ herror _ _ v
  | exception throws x =>
    rw [store_exception, emplaceError_mResults]
    exact get_emplaceError _ throws x

end AwaitableResultAll

section runners
variable {produced : ∀ N : Fin as.length, Produced V P X (as.get N)}
  {s s' : System.Noted (WaitAll.State as.length Unit X) (AwaitableResultAll V P X as)}

/-- What a runner has before and after it has filled its slot. -/
def SlotOk (produced : ∀ N : Fin as.length, Produced V P X (as.get N))
    (s : System.Noted (WaitAll.State as.length Unit X) (AwaitableResultAll V P X as))
    (N : Fin as.length) : Prop :=
  match s.state.runners N with
  | .awaiting => s.notes.mResults N = AwaitableResultAll.init.mResults N
  | .emplace _ => s.notes.mResults N = AwaitableResultAll.init.mResults N ∧
      s.state.outcomes N = some (produced N).erase
  | .fetchSub | .exchange | .finished =>
    s.notes.mResults N = (AwaitableResultAll.init.store N (produced N)).mResults N ∧
      s.state.outcomes N = some (produced N).erase

lemma SlotOk.frame (h : SlotOk produced s N) (hrunner : s'.state.runners N = s.state.runners N)
    (houtcome : s'.state.outcomes N = s.state.outcomes N)
    (hslot : s'.notes.mResults N = s.notes.mResults N) : SlotOk produced s' N := by
  unfold SlotOk at h ⊢
  rw [hrunner, houtcome, hslot]
  exact h

/-- A step of the runner `i` leaves the slots of the others alone. -/
lemma SlotOk.other {i : Fin as.length} (h : SlotOk produced s N) (hN : N ≠ i)
    (hs : WaitAll.runnerStep s.state i = some s'.state)
    (hslot : s'.notes.mResults N = s.notes.mResults N) : SlotOk produced s' N := by
  unfold WaitAll.runnerStep at hs
  cases hi : s.state.runners i with
  | awaiting | finished =>
    rw [hi] at hs
    cases hs
  | emplace o =>
    rw [hi] at hs
    refine h.frame ?_ ?_ hslot <;> rw [← Option.some.inj hs]
    · cases o <;> exact Function.update_of_ne hN ..
    · cases o <;> rfl
  | fetchSub | exchange =>
    rw [hi] at hs
    refine h.frame ?_ ?_ hslot <;> rw [← Option.some.inj hs]
    · exact Function.update_of_ne hN ..
    · rfl

lemma SlotOk.own (h : SlotOk produced s N)
    (hs : WaitAll.runnerStep s.state N = some s'.state)
    (hnotes : s'.notes = storeResult produced s.state (.runner N) s.notes) :
    SlotOk produced s' N := by
  unfold WaitAll.runnerStep at hs
  unfold SlotOk at h ⊢
  simp only [storeResult] at hnotes
  cases hN : s.state.runners N with
  | awaiting | finished =>
    rw [hN] at hs
    cases hs
  | emplace o =>
    rw [hN] at hs h hnotes
    have hrunner : s'.state.runners N = .fetchSub := by
      rw [← Option.some.inj hs]
      cases o <;> exact Function.update_self ..
    have houtcome : s'.state.outcomes = s.state.outcomes := by
      rw [← Option.some.inj hs]
      cases o <;> rfl
    rw [hrunner, hnotes, houtcome]
    exact ⟨AwaitableResultAll.store_congr h.1 _, h.2⟩
  | fetchSub =>
    rw [hN] at hs h hnotes
    rw [hnotes, ← Option.some.inj hs]
    by_cases hlast : s.state.waitingCount = 1
    · simpa [WaitAll.State.setRunner, hlast] using h
    · simpa [WaitAll.State.setRunner, hlast] using h
  | exchange =>
    rw [hN] at hs h hnotes
    rw [hnotes, ← Option.some.inj hs]
    simpa [WaitAll.State.setRunner] using h

lemma slotOk_step (h : ∀ N, SlotOk produced s N) {a : WaitAll.Action as.length Unit X}
    (hC : Completes produced s a) (hs : (waitAll produced).step s a = some s') :
    ∀ N, SlotOk produced s' N := by
  obtain ⟨hstep, hnotes⟩ := System.observe_step.mp hs
  obtain ⟨t, r⟩ := s'
  intro N
  have hN := h N
  cases a with
  | complete i o =>
    simp only [WaitAll.system, WaitAll.step] at hstep
    split at hstep <;> cases hstep
    rename_i hi
    by_cases hNi : N = i
    · subst hNi
      unfold SlotOk at hN ⊢
      rw [hi] at hN
      simp only [WaitAll.State.setRunner, Function.update_self]
      exact ⟨(congrArg (·.mResults N) hnotes).trans hN, congrArg some hC⟩
    · refine hN.frame ?_ ?_ (congrArg (·.mResults N) hnotes)
      · exact Function.update_of_ne hNi ..
      · exact Function.update_of_ne hNi ..
  | runner i =>
    by_cases hNi : N = i
    · subst hNi
      exact hN.own hstep hnotes
    · refine hN.other hNi hstep ?_
      change r.mResults N = _
      rw [show r = _ from hnotes]
      unfold storeResult
      dsimp only
      split
      · exact AwaitableResultAll.store_of_ne hNi _
      · rfl
  | awaitReady =>
    obtain ⟨w, -, rfl⟩ := Option.map_eq_some_iff.mp hstep
    exact hN.frame rfl rfl (congrArg (·.mResults N) hnotes)
  | awaitSuspend =>
    obtain ⟨w, -, rfl⟩ := Option.map_eq_some_iff.mp hstep
    exact hN.frame rfl rfl (congrArg (·.mResults N) hnotes)
  | awaitResume =>
    simp only [WaitAll.system, WaitAll.step] at hstep
    split at hstep <;> cases hstep
    exact hN.frame rfl rfl (congrArg (·.mResults N) hnotes)

lemma reaches_slotOk (h : (waitAll produced).Reaches (Completes produced) s) :
    WaitAll.Inv s.state ∧ ∀ N, SlotOk produced s N := by
  refine h.invariant (I := fun s => WaitAll.Inv s.state ∧ ∀ N, SlotOk produced s N)
    ⟨WaitAll.inv_init, fun N => ?_⟩ ?_
  · change AwaitableResultAll.init.mResults N = _
    rfl
  intro s a s' _ ih hC hs
  exact ⟨ih.1.step (System.observe_step.mp hs).1, slotOk_step ih.2 hC hs⟩

end runners

end Scoro.Results

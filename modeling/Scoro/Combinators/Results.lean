import Scoro.Detail.Meta
import Scoro.Lib.Variant

/-!
# The results of `wait_any`, `wait_all` and `wait_each`

A container keeps the result of an awaitable under the type that is stored for it, not under the
index of the awaitable. Types of the program are `B`, with values `V`, addresses of objects `P` and
exceptions `X`. The overloads of `get` differ in how they pass the value on, which is not modelled.
-/

namespace Scoro.Results
open Scoro.Lib Scoro.Meta

universe u

/-- An awaitable by the type that its `await_resume` returns. -/
structure Awaitable (B : Type*) where
  result : CppType B
  isNoexcept : Bool

/-- `Error`. A null `exception_ptr` is `none`. -/
structure Error (X : Type u) where
  ep : Option X

/-- How `get` ends without a result. To rethrow a null `exception_ptr` is undefined. -/
inductive Exit (X : Type u) where
  | rethrown (x : X)
  | undefined
  | badVariantAccess

/-- `std::rethrow_exception`. -/
def rethrow {X : Type u} : Option X → Exit X
  | some x => .rethrown x
  | none => .undefined

variable {B : Type*} [DecidableEq B]

/-! ### Values -/

section values
variable (V : B → Type u) (P : ObjectType B → Type u) (X : Type u)

/-- A `std::reference_wrapper` has the address of an object. -/
def ObjectVal : ObjectType B → Type u
  | .other b => V b
  | .monostate => PUnit
  | .exceptionPtr => Option X
  | .error => Error X
  | .referenceWrapper t => P t

/-- There are no objects of type `void` and of reference types. -/
def Val : CppType B → Type u
  | .object t => ObjectVal V P X t
  | .void | .lref _ | .rref _ => PEmpty

/-- What `await_resume` and `get` return. An rvalue reference is the value that it refers to. -/
def Result : CppType B → Type u
  | .void => PUnit
  | .object t | .rref t => ObjectVal V P X t
  | .lref t => P t

end values

variable {V : B → Type u} {P : ObjectType B → Type u} {X : Type u}

/-- The object of type `V` that is constructed from the result. -/
def construct : (T : CppType B) → T ≠ .void → Result V P X T → Val V P X (referenceStorage T)
  | .void, h, _ => (h rfl).elim
  | .object _, _, v => v
  | .lref _, _, p => p
  | .rref _, _, v => v

/-- The object of type `void_map_t<V>` that is constructed from the result. -/
def constructMapped :
    (T : CppType B) → Result V P X T → Val V P X (voidMap (referenceStorage T))
  | .void, _ => PUnit.unit
  | .object _, v => v
  | .lref _, p => p
  | .rref _, v => v

/-- The `std::monostate`. -/
def monostate : Val V P X (.object .monostate) := PUnit.unit

/-- The `Error` that is constructed from the exception. -/
def thrown (ep : Option X) : Val V P X (.object .error) := Error.mk ep

/-- `std::conditional_t<noexcept, std::monostate, Error>`. -/
def errorAlternative (isNoexcept : Bool) : CppType B :=
  if isNoexcept then .object .monostate else .object .error

omit [DecidableEq B] in
lemma voidMap_referenceStorage {T : CppType B} (h : T ≠ .void) :
    voidMap (referenceStorage T) = referenceStorage T := by
  cases T with
  | void => exact absurd rfl h
  | object t | lref t | rref t => rfl

/-! ### The common body of `get` -/

/-- What the templates need of a list of alternatives to be instantiated for an awaitable. -/
structure Suits (ts : List (CppType B)) (a : Awaitable B) : Prop where
  result : ts.count (voidMap (referenceStorage a.result)) = 1
  error : a.isNoexcept = false → ts.count (.object .error) = 1

namespace Suits
variable {ts : List (CppType B)} {a : Awaitable B}

lemma mem_result (h : Suits ts a) : voidMap (referenceStorage a.result) ∈ ts :=
  List.count_pos_iff.mp (by rw [h.result]; exact Nat.one_pos)

lemma mem_error (h : Suits ts a) (he : a.isNoexcept = false) : .object .error ∈ ts :=
  List.count_pos_iff.mp (by rw [h.error he]; exact Nat.one_pos)

end Suits

section get
variable {ts : List (CppType B)}

def access (x : Variant (Val V P X) ts) (t : Alternative ts) :
    Except (Exit X) (Val V P X t.type) :=
  match x.get? t with
  | some v => .ok v
  | none => .error .badVariantAccess

/-- The end of `get`, which returns nothing for `void` and calls `get()` of a
`std::reference_wrapper`. -/
def read (x : Variant (Val V P X) ts) : (T : CppType B) →
    ts.count (voidMap (referenceStorage T)) = 1 → Except (Exit X) (Result V P X T)
  | .void, _ => .ok PUnit.unit
  | .object t, h => access x ⟨.object t, h⟩
  | .lref t, h => access x ⟨.object (.referenceWrapper t), h⟩
  | .rref t, h => access x ⟨.object t, h⟩

/-- `get` looks for an error where the awaitable may throw. -/
def get (x : Variant (Val V P X) ts) (a : Awaitable B) (h : Suits ts a) :
    Except (Exit X) (Result V P X a.result) :=
  if he : a.isNoexcept = false then
    if x.holdsAlternative ⟨.object .error, h.error he⟩ then
      match access x ⟨.object .error, h.error he⟩ with
      | .ok (e : Error X) => .error (rethrow e.ep)
      | .error exit => .error exit
    else read x a.result h.result
  else read x a.result h.result

end get

lemma suits_typelistUnique {ts : List (CppType B)} {a : Awaitable B}
    (hresult : voidMap (referenceStorage a.result) ∈ ts)
    (herror : a.isNoexcept = false → .object .error ∈ ts) : Suits (typelistUnique ts) a :=
  ⟨List.count_eq_one_of_mem (nodup_typelistUnique ts) (mem_typelistUnique.mpr hresult),
    fun he => List.count_eq_one_of_mem (nodup_typelistUnique ts)
      (mem_typelistUnique.mpr (herror he))⟩

/-! ### The containers -/

omit [DecidableEq B] in
lemma errorAlternative_of_throws {as : List (Awaitable B)} {a : Awaitable B} (ha : a ∈ as)
    (he : a.isNoexcept = false) :
    errorAlternative (as.all (·.isNoexcept)) = (.object .error : CppType B) := by
  have hall : as.all (·.isNoexcept) = false := List.all_eq_false.mpr ⟨a, ha, by simp [he]⟩
  simp [errorAlternative, hall]

namespace AwaitableResultAny

/-- `results_variant_t`. -/
def resultsVariant (as : List (Awaitable B)) : List (CppType B) :=
  typelistUnique (.object .monostate :: errorAlternative (as.all (·.isNoexcept)) ::
    as.map fun a => voidMap (referenceStorage a.result))

lemma suits {as : List (Awaitable B)} {a : Awaitable B} (ha : a ∈ as) :
    Suits (resultsVariant as) a :=
  suits_typelistUnique
    (List.mem_cons_of_mem _ (List.mem_cons_of_mem _ (List.mem_map_of_mem ha)))
    fun he => List.mem_cons_of_mem _ (errorAlternative_of_throws ha he ▸ List.mem_cons_self)

end AwaitableResultAny

variable (V P X) in
structure AwaitableResultAny (as : List (Awaitable B)) where
  mResults : Variant (Val V P X) (AwaitableResultAny.resultsVariant as)

namespace AwaitableResultAny
variable {as : List (Awaitable B)}

/-- `emplace<V>`, or `emplace<std::monostate>` where `V` is `void`. -/
def emplace (N : Fin as.length) (v : Result V P X (as.get N).result) :
    AwaitableResultAny V P X as :=
  ⟨.emplace ⟨_, (suits (as.get_mem N)).result⟩ (constructMapped _ v)⟩

def emplaceError (N : Fin as.length) (hN : (as.get N).isNoexcept = false) (ep : Option X) :
    AwaitableResultAny V P X as :=
  ⟨.emplace ⟨.object .error, (suits (as.get_mem N)).error hN⟩ (thrown ep)⟩

def get (r : AwaitableResultAny V P X as) (N : Fin as.length) :
    Except (Exit X) (Result V P X (as.get N).result) :=
  Results.get r.mResults (as.get N) (suits (as.get_mem N))

end AwaitableResultAny

namespace AwaitableResultEach

/-- `results_variant_t`. -/
def resultsVariant (as : List (Awaitable B)) : List (CppType B) :=
  typelistUnique (errorAlternative (as.all (·.isNoexcept)) ::
    as.map fun a => voidMap (referenceStorage a.result))

lemma suits {as : List (Awaitable B)} {a : Awaitable B} (ha : a ∈ as) :
    Suits (resultsVariant as) a :=
  suits_typelistUnique (List.mem_cons_of_mem _ (List.mem_map_of_mem ha))
    fun he => errorAlternative_of_throws ha he ▸ List.mem_cons_self

end AwaitableResultEach

variable (V P X) in
structure AwaitableResultEach (as : List (Awaitable B)) where
  mResults : Variant (Val V P X) (AwaitableResultEach.resultsVariant as)

namespace AwaitableResultEach
variable {as : List (Awaitable B)}

/-- The constructor with `std::in_place_index_t<N>`. -/
def ofIndex (N : Fin as.length) (v : Result V P X (as.get N).result) :
    AwaitableResultEach V P X as :=
  ⟨.emplace ⟨_, (suits (as.get_mem N)).result⟩ (constructMapped _ v)⟩

/-- The constructor with `std::in_place_type_t<Error>`, for an awaitable that may throw. -/
def ofError (N : Fin as.length) (hN : (as.get N).isNoexcept = false) (ep : Option X) :
    AwaitableResultEach V P X as :=
  ⟨.emplace ⟨.object .error, (suits (as.get_mem N)).error hN⟩ (thrown ep)⟩

def get (r : AwaitableResultEach V P X as) (N : Fin as.length) :
    Except (Exit X) (Result V P X (as.get N).result) :=
  Results.get r.mResults (as.get N) (suits (as.get_mem N))

end AwaitableResultEach

namespace AwaitableResultAll

/-- `ReslutMapper`. -/
def reslutMapper (a : Awaitable B) : List (CppType B) :=
  typelistUnique
    [.object .monostate, voidMap (referenceStorage a.result), errorAlternative a.isNoexcept]

lemma suits (a : Awaitable B) : Suits (reslutMapper a) a :=
  suits_typelistUnique (by simp) fun he => by simp [errorAlternative, he]

lemma count_monostate (a : Awaitable B) : (reslutMapper a).count (.object .monostate) = 1 :=
  List.count_eq_one_of_mem (nodup_typelistUnique _) (mem_typelistUnique.mpr (by simp))

/-- `emplace<V>` is well-formed for an awaitable that has a result. -/
lemma count_storage {a : Awaitable B} (ha : a.result ≠ .void) :
    (reslutMapper a).count (referenceStorage a.result) = 1 := by
  rw [← voidMap_referenceStorage ha]
  exact (suits a).result

end AwaitableResultAll

variable (V P X) in
structure AwaitableResultAll (as : List (Awaitable B)) where
  mResults : (N : Fin as.length) → Variant (Val V P X) (AwaitableResultAll.reslutMapper (as.get N))

namespace AwaitableResultAll
variable {as : List (Awaitable B)}

def init : AwaitableResultAll V P X as :=
  ⟨fun N => .emplace ⟨.object .monostate, count_monostate (as.get N)⟩ monostate⟩

/-- `emplace<V>`, which is not called for `void`. -/
def emplace (r : AwaitableResultAll V P X as) (N : Fin as.length) (hN : (as.get N).result ≠ .void)
    (v : Result V P X (as.get N).result) : AwaitableResultAll V P X as :=
  ⟨Function.update r.mResults N (.emplace ⟨_, count_storage hN⟩ (construct _ hN v))⟩

def emplaceError (r : AwaitableResultAll V P X as) (N : Fin as.length)
    (hN : (as.get N).isNoexcept = false) (ep : Option X) : AwaitableResultAll V P X as :=
  ⟨Function.update r.mResults N
    (.emplace ⟨.object .error, (suits (as.get N)).error hN⟩ (thrown ep))⟩

def get (r : AwaitableResultAll V P X as) (N : Fin as.length) :
    Except (Exit X) (Result V P X (as.get N).result) :=
  Results.get (r.mResults N) (as.get N) (suits (as.get N))

end AwaitableResultAll

namespace AwaitableResultAll
variable {as : List (Awaitable B)} {r : AwaitableResultAll V P X as} {N : Fin as.length}

lemma emplace_mResults {hN : (as.get N).result ≠ .void} {v : Result V P X (as.get N).result} :
    (r.emplace N hN v).mResults N = .emplace ⟨_, count_storage hN⟩ (construct _ hN v) :=
  Function.update_self _ _ _

lemma emplaceError_mResults {hN : (as.get N).isNoexcept = false} {ep : Option X} :
    (r.emplaceError N hN ep).mResults N =
      .emplace ⟨.object .error, (suits (as.get N)).error hN⟩ (thrown ep) :=
  Function.update_self _ _ _

end AwaitableResultAll

/-! ### What is stored is returned -/

/-- The result is itself an `Error`, which `get` cannot tell from one that was thrown. -/
def TakenForError (a : Awaitable B) : Prop :=
  a.isNoexcept = false ∧ referenceStorage a.result = .object .error

section get
variable {ts : List (CppType B)} {a : Awaitable B}

lemma access_emplace {t : Alternative ts} {v : Val V P X t.type} :
    access (.emplace t v) t = .ok v := by
  simp [access]

lemma access_ne_rethrown {y : Variant (Val V P X) ts} {t : Alternative ts} {x : X} :
    access y t ≠ .error (.rethrown x) := by
  unfold access
  split <;> simp

lemma read_ne_rethrown {y : Variant (Val V P X) ts} {T : CppType B}
    {h : ts.count (voidMap (referenceStorage T)) = 1} {x : X} :
    read y T h ≠ .error (.rethrown x) := by
  cases T with
  | void => simp [read]
  | object t | lref t | rref t => exact access_ne_rethrown

/-- The value goes into the alternative that `read` looks for. -/
lemma read_emplace {T : CppType B} (h : ts.count (voidMap (referenceStorage T)) = 1)
    (v : Result V P X T) :
    read (.emplace ⟨_, h⟩ (constructMapped T v)) T h = .ok v := by
  cases T with
  | void => rfl
  | object t | lref t | rref t => exact access_emplace

lemma read_emplace_construct {T : CppType B} (h : ts.count (voidMap (referenceStorage T)) = 1)
    (hT : T ≠ .void) (hV : ts.count (referenceStorage T) = 1) (v : Result V P X T) :
    read (.emplace ⟨_, hV⟩ (construct T hT v)) T h = .ok v := by
  cases T with
  | void => exact absurd rfl hT
  | object t | lref t | rref t => exact access_emplace

/-- No error is found where there is none. -/
lemma get_of_not_error {y : Variant (Val V P X) ts} (h : Suits ts a)
    (hy : ∀ he, y.holdsAlternative ⟨.object .error, h.error he⟩ = false) :
    get y a h = read y a.result h.result := by
  unfold get
  split_ifs with he hholds
  · simp [hy he] at hholds
  · rfl
  · rfl

lemma get_emplaceError (h : Suits ts a) (he : a.isNoexcept = false) (x : X) :
    get (.emplace ⟨.object .error, h.error he⟩ (thrown (some x))) a h =
      (.error (.rethrown x) : Except (Exit X) (Result V P X a.result)) := by
  have hholds : (.emplace ⟨.object .error, h.error he⟩ (thrown (some x)) :
      Variant (Val V P X) ts).holdsAlternative ⟨.object .error, h.error he⟩ = true := by
    simp
  rw [get, dif_pos he, if_pos hholds, access_emplace]
  rfl

/-- A value of another type than `Error` is not taken for an error, whoever reads it. -/
lemma get_ne_rethrown {t : Alternative ts} {v : Val V P X t.type} (ht : t.type ≠ .object .error)
    (h : Suits ts a) (x : X) : get (.emplace t v) a h ≠ .error (.rethrown x) := by
  rw [get_of_not_error h fun he => by simpa [Alternative.ext_iff] using ht]
  exact read_ne_rethrown

omit [DecidableEq B] in
lemma voidMap_eq_error {T : CppType B} :
    voidMap (referenceStorage T) = .object .error ↔ referenceStorage T = .object .error := by
  cases T <;> simp [voidMap, referenceStorage]

lemma get_constructMapped (h : Suits ts a) (ha : ¬TakenForError a) (v : Result V P X a.result) :
    get (.emplace ⟨_, h.result⟩ (constructMapped a.result v)) a h = .ok v := by
  rw [get_of_not_error h fun he => ?_, read_emplace]
  simpa [Alternative.ext_iff, voidMap_eq_error] using fun hstorage => ha ⟨he, hstorage⟩

lemma get_construct (h : Suits ts a) (ha : ¬TakenForError a) (hT : a.result ≠ .void)
    (hV : ts.count (referenceStorage a.result) = 1) (v : Result V P X a.result) :
    get (.emplace ⟨_, hV⟩ (construct a.result hT v)) a h = .ok v := by
  rw [get_of_not_error h fun he => ?_, read_emplace_construct]
  simpa [Alternative.ext_iff] using fun hstorage => ha ⟨he, hstorage⟩

/-- A variant with `std::monostate` is read as `void`. -/
lemma get_monostate (h : Suits ts a) (ha : a.result = .void)
    (hm : ts.count (.object .monostate) = 1) :
    ∃ v : Result V P X a.result, get (.emplace ⟨.object .monostate, hm⟩ monostate) a h = .ok v := by
  have hv : ∃ v : Result V P X a.result, ∀ y : Variant (Val V P X) ts,
      read y a.result h.result = .ok v := by
    obtain ⟨result, isNoexcept⟩ := a
    cases ha
    exact ⟨PUnit.unit, fun _ => rfl⟩
  obtain ⟨v, hread⟩ := hv
  refine ⟨v, ?_⟩
  rw [get_of_not_error h fun he => by simp [Alternative.ext_iff], hread]

end get

/-- The containers for `as` return what is stored in them. -/
structure GivesBack (V : B → Type u) (P : ObjectType B → Type u) (X : Type u)
    (as : List (Awaitable B)) : Prop where
  nodup : (AwaitableResultAny.resultsVariant as).Nodup ∧
    (AwaitableResultEach.resultsVariant as).Nodup ∧
    ∀ a ∈ as, (AwaitableResultAll.reslutMapper a).Nodup
  storage : ∀ a ∈ as,
    voidMap (referenceStorage a.result) ∈ AwaitableResultAny.resultsVariant as ∧
    voidMap (referenceStorage a.result) ∈ AwaitableResultEach.resultsVariant as ∧
    voidMap (referenceStorage a.result) ∈ AwaitableResultAll.reslutMapper a
  error : ∀ a ∈ as, a.isNoexcept = false →
    .object .error ∈ AwaitableResultAny.resultsVariant as ∧
    .object .error ∈ AwaitableResultEach.resultsVariant as ∧
    .object .error ∈ AwaitableResultAll.reslutMapper a
  value : ∀ N (v : Result V P X (as.get N).result), ¬TakenForError (as.get N) →
    (AwaitableResultAny.emplace N v).get N = .ok v ∧
    (AwaitableResultEach.ofIndex N v).get N = .ok v ∧
    ∀ r hN, (AwaitableResultAll.emplace r N hN v).get N = .ok v
  noValue : ∀ (r : AwaitableResultAll V P X as) N, (as.get N).result = .void →
    r.mResults N = AwaitableResultAll.init.mResults N → ∃ v, r.get N = .ok v
  thrown : ∀ N hN (x : X),
    (AwaitableResultAny.emplaceError (V := V) (P := P) N hN (some x)).get N = .error (.rethrown x) ∧
    (AwaitableResultEach.ofError (V := V) (P := P) N hN (some x)).get N = .error (.rethrown x) ∧
    ∀ r : AwaitableResultAll V P X as, (r.emplaceError N hN (some x)).get N = .error (.rethrown x)
  notThrown : ∀ N (v : Result V P X (as.get N).result),
    referenceStorage (as.get N).result ≠ .object .error → ∀ x,
    (∀ M, (AwaitableResultAny.emplace N v).get M ≠ .error (.rethrown x) ∧
      (AwaitableResultEach.ofIndex N v).get M ≠ .error (.rethrown x)) ∧
    ∀ r hN, (AwaitableResultAll.emplace r N hN v).get N ≠ .error (.rethrown x)
  slots : ∀ (r : AwaitableResultAll V P X as) N M, M ≠ N →
    (∀ hN v, (r.emplace N hN v).mResults M = r.mResults M) ∧
    ∀ hN ep, (r.emplaceError N hN ep).mResults M = r.mResults M

/-- Every list of awaitables, with results of any types, has containers that give back what is
stored in them. Only where an awaitable may throw, a result that is itself an `Error` is taken for
one. -/
theorem results_give_back (as : List (Awaitable B)) : GivesBack V P X as where
  nodup := ⟨nodup_typelistUnique _, nodup_typelistUnique _, fun _ _ => nodup_typelistUnique _⟩
  storage := fun a ha => ⟨(AwaitableResultAny.suits ha).mem_result,
    (AwaitableResultEach.suits ha).mem_result, (AwaitableResultAll.suits a).mem_result⟩
  error := fun a ha he => ⟨(AwaitableResultAny.suits ha).mem_error he,
    (AwaitableResultEach.suits ha).mem_error he, (AwaitableResultAll.suits a).mem_error he⟩
  value := fun N v hN => by
    refine ⟨get_constructMapped _ hN v, get_constructMapped _ hN v, fun r hvoid => ?_⟩
    rw [AwaitableResultAll.get, AwaitableResultAll.emplace_mResults]
    exact get_construct _ hN hvoid _ v
  noValue := fun r N hN hr => by
    rw [AwaitableResultAll.get, hr]
    exact get_monostate _ hN _
  thrown := fun N hN x => by
    refine ⟨get_emplaceError _ hN x, get_emplaceError _ hN x, fun r => ?_⟩
    rw [AwaitableResultAll.get, AwaitableResultAll.emplaceError_mResults]
    exact get_emplaceError _ hN x
  notThrown := fun N v hN x => by
    have hmapped := voidMap_eq_error.not.mpr hN
    refine ⟨fun M => ⟨get_ne_rethrown hmapped _ x, get_ne_rethrown hmapped _ x⟩, fun r hvoid => ?_⟩
    rw [AwaitableResultAll.get, AwaitableResultAll.emplace_mResults]
    exact get_ne_rethrown hN _ x
  slots := fun r N M hM => ⟨fun hN v => Function.update_of_ne hM _ _,
    fun hN ep => Function.update_of_ne hM _ _⟩

/-- An awaitable that may throw and returns an `Error`: the result is rethrown. For `void` there is
no alternative that `emplace<V>` could be called with. -/
theorem error_result_rethrown :
    let a : Awaitable Empty := ⟨.object .error, false⟩
    let v : Result Empty.rec (fun _ => ℕ) ℕ a.result := Error.mk (some 7)
    (AwaitableResultAny.emplace 0 v : AwaitableResultAny _ _ _ [a]).get 0 = .error (.rethrown 7) ∧
    (AwaitableResultEach.ofIndex 0 v : AwaitableResultEach _ _ _ [a]).get 0 =
      .error (.rethrown 7) ∧
    ((.init : AwaitableResultAll _ _ _ [a]).emplace 0 (by decide) v).get 0 =
      .error (.rethrown 7) ∧
    (AwaitableResultAll.reslutMapper (⟨.void, true⟩ : Awaitable Empty)).count
      (referenceStorage .void) = 0 := by
  refine ⟨rfl, rfl, rfl, ?_⟩
  decide

end Scoro.Results

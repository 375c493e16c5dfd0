import Mathlib.Tactic.Common
import Mathlib.Algebra.Order.Group.Int
import Ospray.Library.Runs
import Ospray.Library.Slots

/-!
# Reference counts on the local device

Objects are reference counted. A handle of the application counts, and so does
every parameter that holds the object. Setting an object as a parameter counts it
up and counts down the object the parameter held before; removing a parameter and
destroying its owner count down as well. Setting a scalar or a string replaces the
value of the parameter without looking at what it held.

Objects live in slots, numbered in the order of creation and vacated when the
object is destroyed. The handles of the application are kept next to them. A call
that touches a destroyed object has no result.
-/

namespace Ospray

open Library.Runs
open Library.Slots

/-- The scalar and string values of parameters; a `float` by its bits. -/
inductive Scalar where
  | int (value : Int)
  | float (bits : UInt32)
  | string (value : String)
  | voidPtr (address : UInt64)
  | vec2f (x y : UInt32)
  | vec3f (x y z : UInt32)
  | vec4f (x y z w : UInt32)
  | vec2i (x y : Int)
  | vec3i (x y z : Int)
  deriving DecidableEq

/-- `utility::Any` as parameters use it: nothing yet, an `OSP_PTR`, which may be
null, or another value. -/
inductive Any where
  | empty
  | object (pointer : Option Nat)
  | scalar (value : Scalar)
  deriving DecidableEq

/-- A named parameter. -/
structure Param where
  name : String
  data : Any
  deriving DecidableEq

/-- What reference counting needs of `ManagedObject`. -/
structure ManagedObject where
  refCounter : Int
  paramList : List Param
  deriving DecidableEq

/-- The slots of all objects ever created. -/
abbrev ObjectHeap := List (Option ManagedObject)

/-- The counter is an atomic `int`, which wraps around. -/
def wrapInt (value : Int) : Int := value.bmod (2 ^ 32)

/-! ## Parameter lists -/

/-- The object a value holds, if it is a pointer and not null. -/
def Any.held : Any → Option Nat
  | .object pointer => pointer
  | _ => none

/-- `findParam`: the value of the first parameter of that name. -/
def findParam (paramList : List Param) (name : String) : Option Any :=
  (paramList.find? fun param => param.name = name).map Param.data

/-- `findParam(name, true)`: an absent parameter is added behind the others. -/
def addParam (paramList : List Param) (name : String) : List Param :=
  if (findParam paramList name).isSome then paramList else paramList ++ [⟨name, .empty⟩]

/-- Assign to the value of the first parameter of that name. -/
def writeParam (paramList : List Param) (name : String) (data : Any) : List Param :=
  match paramList with
  | [] => []
  | param :: rest =>
    if param.name = name then { param with data } :: rest
    else param :: writeParam rest name data

/-- `ParameterizedObject::removeParam`. -/
def eraseParam (paramList : List Param) (name : String) : List Param :=
  paramList.eraseP fun param => param.name = name

/-- The objects some parameters hold, one for each parameter. -/
def objectParams (paramList : List Param) : List Nat :=
  paramList.filterMap fun param => param.data.held

/-- How many parameters of an object hold another one. -/
def ManagedObject.holds (object : ManagedObject) (held : Nat) : Nat :=
  (objectParams object.paramList).count held

/-! ## Counting up and down -/

/-- Change a live object. -/
def update (heap : ObjectHeap) (pointer : Nat) (change : ManagedObject → ManagedObject) :
    Option ObjectHeap :=
  (occupant heap pointer).map fun object => heap.set pointer (some (change object))

/-- `RefCount::refInc`. -/
def refInc (heap : ObjectHeap) (pointer : Nat) : Option ObjectHeap :=
  update heap pointer fun object => { object with refCounter := wrapInt (object.refCounter + 1) }

/-- The number of live objects. -/
def liveCount (heap : ObjectHeap) : Nat := total (fun _ => 1) heap

/-- Changing a live object leaves the number of live objects alone; destroying it
lowers the number. -/
theorem liveCount_set {heap : ObjectHeap} {pointer : Nat} {object : ManagedObject}
    (live : occupant heap pointer = some object) (slot : Option ManagedObject) :
    liveCount (heap.set pointer slot) + 1 = liveCount heap + slot.elim 0 (fun _ => 1) :=
  total_set (fun _ => 1) live slot

/-- `RefCount::refDec` for the first pointer, then for the others. The destructor
of an object that is no longer needed counts down what its parameters hold, one
after another, before anything that is still waiting. -/
def refDecs (heap : ObjectHeap) (pending : List Nat) : Option ObjectHeap :=
  match pending with
  | [] => some heap
  | pointer :: rest =>
    match _live : occupant heap pointer with
    | none => none
    | some object =>
      if wrapInt (object.refCounter - 1) = 0 then
        refDecs (heap.set pointer none) (objectParams object.paramList ++ rest)
      else
        refDecs (heap.set pointer
          (some { object with refCounter := wrapInt (object.refCounter - 1) })) rest
termination_by (liveCount heap, pending.length)
decreasing_by
  · have vacated := liveCount_set _live none
    rw [Option.elim_none] at vacated
    exact Prod.Lex.left _ _ (by omega)
  · have changed := liveCount_set _live
      (some { object with refCounter := wrapInt (object.refCounter - 1) })
    rw [Option.elim_some] at changed
    have same : liveCount (heap.set pointer
        (some { object with refCounter := wrapInt (object.refCounter - 1) })) = liveCount heap := by
      omega
    rw [same]
    exact Prod.Lex.right _ (Nat.lt_succ_self _)

theorem refDecs_cons {heap : ObjectHeap} {pointer : Nat} {object : ManagedObject}
    (live : occupant heap pointer = some object) (rest : List Nat) :
    refDecs heap (pointer :: rest) =
      if wrapInt (object.refCounter - 1) = 0 then
        refDecs (heap.set pointer none) (objectParams object.paramList ++ rest)
      else
        refDecs (heap.set pointer
          (some { object with refCounter := wrapInt (object.refCounter - 1) })) rest := by
  rw [refDecs]
  split
  · rename_i dead
    rw [live] at dead
    cases dead
  · rename_i found same
    obtain rfl : object = found := Option.some.inj (live.symm.trans same)
    rfl

/-! ## The calls -/

/-- `if (object) object->refInc()`. -/
def refIncValue (heap : ObjectHeap) : Option Nat → Option ObjectHeap
  | some object => refInc heap object
  | none => some heap

/-- `if (existing) existing->refDec()`. -/
def refDecExisting (heap : ObjectHeap) : Option Nat → Option ObjectHeap
  | some existing => refDecs heap [existing]
  | none => some heap

/-- `ParameterizedObject::setParam` with the general `Param::set`: the value is
assigned, whatever it was before. -/
def setParam (heap : ObjectHeap) (object : Nat) (name : String) (value : Any) :
    Option ObjectHeap :=
  update heap object fun object =>
    { object with paramList := writeParam (addParam object.paramList name) name value }

namespace ISPCDevice

/-- Create an object, with one reference for the application. -/
def newObject (heap : ObjectHeap) : ObjectHeap :=
  heap ++ [some { refCounter := 1, paramList := [] }]

/-- `setObject`, that is `setParam` with `Param::set<OSP_PTR>`: the new object is
counted up, the one the parameter holds is counted down, and only then is the
parameter assigned. -/
def setObject (heap : ObjectHeap) (target : Nat) (name : String) (value : Option Nat) :
    Option ObjectHeap := do
  let found ← update heap target fun object =>
    { object with paramList := addParam object.paramList name }
  let counted ← refIncValue found value
  let owner ← occupant counted target
  let freed ← refDecExisting counted ((findParam owner.paramList name).bind Any.held)
  update freed target fun object =>
    { object with paramList := writeParam object.paramList name (.object value) }

/-- `removeParam`: an object is counted down before its parameter goes. -/
def removeParam (heap : ObjectHeap) (object : Nat) (name : String) : Option ObjectHeap := do
  let owner ← occupant heap object
  let freed ← refDecExisting heap ((findParam owner.paramList name).bind Any.held)
  update freed object fun object =>
    { object with paramList := eraseParam object.paramList name }

/-- `release`; a null handle is ignored. -/
def release (heap : ObjectHeap) : Option Nat → Option ObjectHeap
  | none => some heap
  | some object => refDecs heap [object]

section Scalars

variable (heap : ObjectHeap) (object : Nat) (name : String)

/-- `setInt`. -/
def setInt (value : Int) : Option ObjectHeap := setParam heap object name (.scalar (.int value))

/-- `setBool`, which stores an `int`. -/
def setBool (value : Bool) : Option ObjectHeap :=
  setParam heap object name (.scalar (.int (if value then 1 else 0)))

/-- `setFloat`. -/
def setFloat (bits : UInt32) : Option ObjectHeap :=
  setParam heap object name (.scalar (.float bits))

/-- `setString`. -/
def setString (value : String) : Option ObjectHeap :=
  setParam heap object name (.scalar (.string value))

/-- `setVoidPtr`. -/
def setVoidPtr (address : UInt64) : Option ObjectHeap :=
  setParam heap object name (.scalar (.voidPtr address))

/-- `setVec2f`. -/
def setVec2f (x y : UInt32) : Option ObjectHeap :=
  setParam heap object name (.scalar (.vec2f x y))

/-- `setVec3f`. -/
def setVec3f (x y z : UInt32) : Option ObjectHeap :=
  setParam heap object name (.scalar (.vec3f x y z))

/-- `setVec4f`. -/
def setVec4f (x y z w : UInt32) : Option ObjectHeap :=
  setParam heap object name (.scalar (.vec4f x y z w))

/-- `setVec2i`. -/
def setVec2i (x y : Int) : Option ObjectHeap :=
  setParam heap object name (.scalar (.vec2i x y))

/-- `setVec3i`. -/
def setVec3i (x y z : Int) : Option ObjectHeap :=
  setParam heap object name (.scalar (.vec3i x y z))

end Scalars

end ISPCDevice

/-- The calls that create, link and release objects. A scalar or string call is
its parameter and the value it stores. -/
inductive ObjectCall where
  | newObject
  | setObject (target : Nat) (name : String) (value : Option Nat)
  | setScalar (object : Nat) (name : String) (value : Scalar)
  | removeParam (object : Nat) (name : String)
  | release (object : Option Nat)

/-- The objects, and for each one the handles the application has not released. -/
structure DeviceState where
  heap : ObjectHeap
  handles : Nat → Nat

/-- Before the first call. -/
def DeviceState.initial : DeviceState := { heap := [], handles := fun _ => 0 }

/-- One call on the device. -/
def DeviceState.perform (state : DeviceState) : ObjectCall → Option DeviceState
  | .newObject =>
    some
      { heap := ISPCDevice.newObject state.heap
        handles := Function.update state.handles state.heap.length 1 }
  | .setObject target name value =>
    (ISPCDevice.setObject state.heap target name value).map ({ state with heap := · })
  | .setScalar object name value =>
    (setParam state.heap object name (.scalar value)).map ({ state with heap := · })
  | .removeParam object name =>
    (ISPCDevice.removeParam state.heap object name).map ({ state with heap := · })
  | .release none => (ISPCDevice.release state.heap none).map ({ state with heap := · })
  | .release (some object) =>
    (ISPCDevice.release state.heap (some object)).map fun heap =>
      { heap, handles := Function.update state.handles object (state.handles object - 1) }

/-- How many parameters of live objects hold an object. -/
def holders (heap : ObjectHeap) (held : Nat) : Nat := total (fun object => object.holds held) heap

/-- Reference counts are exact: a counter is the number of handles and holders, what
is referenced is alive, and what is alive is referenced. -/
structure DeviceState.Exact (state : DeviceState) : Prop where
  counts : ∀ pointer object, occupant state.heap pointer = some object →
    object.refCounter = state.handles pointer + holders state.heap pointer
  referencedAlive : ∀ pointer, 0 < state.handles pointer + holders state.heap pointer →
    ∃ object, occupant state.heap pointer = some object
  aliveReferenced : ∀ pointer object, occupant state.heap pointer = some object →
    0 < state.handles pointer + holders state.heap pointer

/-- What the API asks of the application: it passes objects for which it has a
handle, or null where the call allows it; the value of a parameter is alive. -/
def DeviceState.Allowed (state : DeviceState) : ObjectCall → Prop
  | .newObject => True
  | .setObject target _ value => 0 < state.handles target ∧
    ∀ object, value = some object → ∃ live, occupant state.heap object = some live
  | .setScalar object _ _ | .removeParam object _ => 0 < state.handles object
  | .release object => ∀ released, object = some released → 0 < state.handles released

/-- No scalar or string is set under a name that holds an object, and no object is
set as a parameter whose counter has reached the largest `int`. -/
def DeviceState.Admissible (state : DeviceState) : ObjectCall → Prop
  | .setObject _ _ value => ∀ object, value = some object →
    state.handles object + holders state.heap object < 2 ^ 31 - 1
  | .setScalar object name _ => ∀ owner, occupant state.heap object = some owner →
    (findParam owner.paramList name).bind Any.held = none
  | _ => True

/-- A call within the API that meets the condition. -/
def DeviceState.AdmissibleStep (state next : DeviceState) : Prop :=
  ∃ call, state.Allowed call ∧ state.Admissible call ∧ state.perform call = some next

/-! ## What the edits of a parameter list do to its objects -/

/-- An object held by a value, counted. -/
def Any.count (data : Any) (held : Nat) : Nat := data.held.toList.count held

theorem objectParams_cons (param : Param) (rest : List Param) (held : Nat) :
    (objectParams (param :: rest)).count held =
      param.data.count held + (objectParams rest).count held := by
  cases object : param.data.held with
  | none => simp [objectParams, Any.count, object]
  | some pointer =>
    simp only [objectParams, Any.count, List.filterMap_cons, object, Option.toList_some,
      List.count_cons, List.count_nil]
    omega

theorem findParam_cons (param : Param) (rest : List Param) (name : String) :
    findParam (param :: rest) name =
      if param.name = name then some param.data else findParam rest name := by
  by_cases same : param.name = name
  · simp [findParam, same]
  · simp [findParam, same]

theorem objectParams_addParam (paramList : List Param) (name : String) :
    objectParams (addParam paramList name) = objectParams paramList := by
  rw [addParam]
  split
  · rfl
  · simp [objectParams, Any.held]

theorem findParam_addParam (paramList : List Param) (name : String) :
    ∃ data, findParam (addParam paramList name) name = some data ∧
      data.held = (findParam paramList name).bind Any.held := by
  cases found : findParam paramList name with
  | some data =>
    refine ⟨data, ?_, rfl⟩
    rw [addParam, found, Option.isSome_some, if_pos rfl, found]
  | none =>
    refine ⟨.empty, ?_, rfl⟩
    have absent : paramList.find? (fun param => param.name = name) = none := by
      simpa [findParam] using found
    rw [addParam, found, Option.isSome_none, if_neg Bool.false_ne_true, findParam,
      List.find?_append, absent]
    simp

/-- Assigning to a parameter trades the object it held for the one it is given. -/
theorem count_writeParam {paramList : List Param} {name : String} {before : Any}
    (found : findParam paramList name = some before) (data : Any) (held : Nat) :
    (objectParams (writeParam paramList name data)).count held + before.count held =
      (objectParams paramList).count held + data.count held := by
  induction paramList with
  | nil => cases found
  | cons param rest inductionHypothesis =>
    rw [findParam_cons] at found
    by_cases same : param.name = name
    · rw [if_pos same, Option.some.injEq] at found
      rw [writeParam, if_pos same, objectParams_cons, objectParams_cons, found]
      simp only
      omega
    · rw [if_neg same] at found
      rw [writeParam, if_neg same, objectParams_cons, objectParams_cons]
      have onwards := inductionHypothesis found
      omega

theorem count_eraseParam (paramList : List Param) (name : String) (held : Nat) :
    (objectParams (eraseParam paramList name)).count held +
        ((findParam paramList name).bind Any.held).toList.count held =
      (objectParams paramList).count held := by
  induction paramList with
  | nil => rfl
  | cons param rest inductionHypothesis =>
    rw [findParam_cons]
    by_cases same : param.name = name
    · rw [if_pos same, eraseParam, List.eraseP_cons_of_pos (by simp [same]), objectParams_cons,
        Option.bind_some, Any.count]
      omega
    · rw [if_neg same, eraseParam, List.eraseP_cons_of_neg (by simp [same]), objectParams_cons,
        objectParams_cons]
      rw [eraseParam] at inductionHypothesis
      omega

/-! ## Balanced counts -/

/-- The counters in the middle of a call. Some decrements are pending, and `owed`
is what the objects are owed from outside the heap: the handles, a reference just
taken for a parameter still to be assigned, less one that is already given back
but whose parameter still stands. -/
structure Balanced (heap : ObjectHeap) (owed : Nat → Int) (pending : List Nat) : Prop where
  counts : ∀ pointer object, occupant heap pointer = some object →
    object.refCounter = owed pointer + holders heap pointer + pending.count pointer
  alive : ∀ pointer, 0 < owed pointer + holders heap pointer + pending.count pointer →
    ∃ object, occupant heap pointer = some object
  needed : ∀ pointer object, occupant heap pointer = some object → 0 < object.refCounter
  bounded : ∀ pointer object, occupant heap pointer = some object → object.refCounter < 2 ^ 31

theorem wrapInt_of_bounded {value : Int} (natural : 0 ≤ value) (bounded : value < 2 ^ 31) :
    wrapInt value = value := by
  rw [wrapInt, Int.bmod_def]
  omega

/-- The counts stay balanced when the same total is owed in another way. -/
theorem Balanced.regroup {heap : ObjectHeap} {owed others : Nat → Int}
    {pending remaining : List Nat} (balanced : Balanced heap owed pending)
    (same : ∀ pointer, others pointer + remaining.count pointer =
      owed pointer + pending.count pointer) : Balanced heap others remaining := by
  constructor
  · intro pointer object live
    have counted := balanced.counts pointer object live
    have total := same pointer
    omega
  · intro pointer positive
    apply balanced.alive pointer
    have total := same pointer
    omega
  · exact balanced.needed
  · exact balanced.bounded

/-- Changing a live object keeps the counts balanced when what it is owed and what
it holds change with it. -/
theorem Balanced.replace {heap : ObjectHeap} {owed others : Nat → Int}
    {pending remaining : List Nat} (balanced : Balanced heap owed pending) {pointer : Nat}
    {object changed : ManagedObject} (live : occupant heap pointer = some object)
    (needed : 0 < changed.refCounter) (bounded : changed.refCounter < 2 ^ 31)
    (own : others pointer + changed.holds pointer + remaining.count pointer - changed.refCounter =
      owed pointer + object.holds pointer + pending.count pointer - object.refCounter)
    (rest : ∀ other, other ≠ pointer →
      others other + changed.holds other + remaining.count other =
        owed other + object.holds other + pending.count other) :
    Balanced (heap.set pointer (some changed)) others remaining := by
  have traded : ∀ held, holders (heap.set pointer (some changed)) held + object.holds held =
      holders heap held + changed.holds held := by
    intro held
    exact total_set (fun object => object.holds held) live (some changed)
  constructor
  · intro other found occupied
    have trade := traded other
    obtain ⟨rfl, same⟩ | ⟨apart, before⟩ := occupied_set live occupied
    · obtain rfl := Option.some.inj same
      have counted := balanced.counts other object live
      omega
    · have counted := balanced.counts other found before
      have unchanged := rest other apart
      omega
  · intro other positive
    rw [occupant_set live]
    by_cases same : other = pointer
    · exact ⟨changed, if_pos same⟩
    · rw [if_neg same]
      apply balanced.alive other
      have trade := traded other
      have unchanged := rest other same
      omega
  · intro other found occupied
    obtain ⟨-, same⟩ | ⟨-, before⟩ := occupied_set live occupied
    · exact Option.some.inj same ▸ needed
    · exact balanced.needed other found before
  · intro other found occupied
    obtain ⟨-, same⟩ | ⟨-, before⟩ := occupied_set live occupied
    · exact Option.some.inj same ▸ bounded
    · exact balanced.bounded other found before

theorem Balanced.decrement {heap : ObjectHeap} {owed : Nat → Int} {pointer : Nat}
    {rest : List Nat} (balanced : Balanced heap owed (pointer :: rest)) {object : ManagedObject}
    (live : occupant heap pointer = some object) (shared : object.refCounter ≠ 1) :
    Balanced (heap.set pointer (some { object with refCounter := object.refCounter - 1 }))
      owed rest := by
  have needed := balanced.needed pointer object live
  have bounded := balanced.bounded pointer object live
  apply balanced.replace live
  · simp only
    omega
  · simp only
    omega
  · simp only [ManagedObject.holds, List.count_cons_self]
    omega
  · intro other apart
    rw [List.count_cons_of_ne (Ne.symm apart)]
    rfl

/-- Destroying an object that only the pending decrement needed: what its
parameters hold is counted down next. -/
theorem Balanced.destroy {heap : ObjectHeap} {owed : Nat → Int} {pointer : Nat}
    {rest : List Nat} (balanced : Balanced heap owed (pointer :: rest)) {object : ManagedObject}
    (live : occupant heap pointer = some object) (last : object.refCounter = 1) :
    Balanced (heap.set pointer none) owed (objectParams object.paramList ++ rest) := by
  have traded : ∀ held, holders (heap.set pointer none) held + object.holds held =
      holders heap held := by
    intro held
    exact total_set (fun object => object.holds held) live none
  have counted := balanced.counts pointer object live
  rw [last, List.count_cons_self] at counted
  have kept : ∀ other, other ≠ pointer →
      owed other + holders (heap.set pointer none) other +
          (objectParams object.paramList ++ rest).count other =
        owed other + holders heap other + (pointer :: rest).count other := by
    intro other apart
    have trade := traded other
    rw [List.count_append, List.count_cons_of_ne (Ne.symm apart)]
    rw [ManagedObject.holds] at trade
    omega
  constructor
  · intro other found occupied
    obtain ⟨-, same⟩ | ⟨apart, before⟩ := occupied_set live occupied
    · cases same
    · rw [kept other apart]
      exact balanced.counts other found before
  · intro other positive
    rw [occupant_set live]
    by_cases same : other = pointer
    · subst same
      have trade := traded other
      rw [ManagedObject.holds] at trade
      rw [List.count_append] at positive
      omega
    · rw [if_neg same]
      rw [kept other same] at positive
      exact balanced.alive other positive
  · intro other found occupied
    obtain ⟨-, same⟩ | ⟨-, before⟩ := occupied_set live occupied
    · cases same
    · exact balanced.needed other found before
  · intro other found occupied
    obtain ⟨-, same⟩ | ⟨-, before⟩ := occupied_set live occupied
    · cases same
    · exact balanced.bounded other found before

/-- An object that is owed a reference or holds itself outlives every decrement. -/
def Kept (heap : ObjectHeap) (owed : Nat → Int) (keeper : Nat) (object : ManagedObject) : Prop :=
  occupant heap keeper = some object ∧ 0 < owed keeper + object.holds keeper

/-- Where more has been given back than is owed, the parameters of an object that
is kept make up for it. -/
def Covered (heap : ObjectHeap) (owed : Nat → Int) : Prop :=
  ∀ pointer, owed pointer < 0 → ∃ keeper object, Kept heap owed keeper object ∧
    0 ≤ owed pointer + object.holds pointer

theorem Covered.nonnegative {heap : ObjectHeap} {owed : Nat → Int} (covered : Covered heap owed)
    (pointer : Nat) : 0 ≤ owed pointer + holders heap pointer := by
  by_cases negative : owed pointer < 0
  · obtain ⟨keeper, object, ⟨live, -⟩, enough⟩ := covered pointer negative
    have part : object.holds pointer ≤ holders heap pointer :=
      weight_le_total (fun object => object.holds pointer) live
    omega
  · omega

theorem Balanced.kept_ne {heap : ObjectHeap} {owed : Nat → Int} {pointer : Nat} {rest : List Nat}
    (balanced : Balanced heap owed (pointer :: rest)) {object : ManagedObject}
    (live : occupant heap pointer = some object) (last : object.refCounter = 1)
    {keeper : Nat} {kept : ManagedObject} (keeps : Kept heap owed keeper kept) :
    keeper ≠ pointer := by
  rintro rfl
  obtain ⟨keptLive, positive⟩ := keeps
  obtain rfl : object = kept := Option.some.inj (live.symm.trans keptLive)
  have counted := balanced.counts keeper object live
  have part : object.holds keeper ≤ holders heap keeper :=
    weight_le_total (fun object => object.holds keeper) live
  rw [last, List.count_cons_self] at counted
  omega

theorem Kept.counted {heap : ObjectHeap} {owed : Nat → Int} {pointer keeper : Nat}
    {object kept : ManagedObject} (live : occupant heap pointer = some object)
    (keeps : Kept heap owed keeper kept) (counter : Int) :
    ∃ after, Kept (heap.set pointer (some { object with refCounter := counter })) owed keeper after ∧
      after.paramList = kept.paramList := by
  obtain ⟨keptLive, positive⟩ := keeps
  by_cases same : keeper = pointer
  · subst same
    obtain rfl : object = kept := Option.some.inj (live.symm.trans keptLive)
    refine ⟨{ object with refCounter := counter }, ⟨?_, positive⟩, rfl⟩
    rw [occupant_set live, if_pos rfl]
  · exact ⟨kept, ⟨by rw [occupant_set live, if_neg same, keptLive], positive⟩, rfl⟩

theorem holds_congr {first second : ManagedObject} (same : first.paramList = second.paramList)
    (held : Nat) : first.holds held = second.holds held := by
  rw [ManagedObject.holds, ManagedObject.holds, same]

theorem Covered.counted {heap : ObjectHeap} {owed : Nat → Int} {pointer : Nat}
    {object : ManagedObject} (covered : Covered heap owed)
    (live : occupant heap pointer = some object) (counter : Int) :
    Covered (heap.set pointer (some { object with refCounter := counter })) owed := by
  intro other negative
  obtain ⟨keeper, kept, keeps, enough⟩ := covered other negative
  obtain ⟨after, keepsAfter, same⟩ := keeps.counted live counter
  exact ⟨keeper, after, keepsAfter, by rw [holds_congr same]; exact enough⟩

/-- Counting down never touches a destroyed object, ends with balanced counts, and
leaves the parameters of the kept objects alone. The induction is on the cascade;
a destroyed object is none of the kept ones. -/
theorem refDecs_balanced {heap : ObjectHeap} {owed : Nat → Int} {pending : List Nat}
    (balanced : Balanced heap owed pending) (covered : Covered heap owed) :
    ∃ next, refDecs heap pending = some next ∧ Balanced next owed [] ∧
      ∀ keeper object, Kept heap owed keeper object →
        ∃ after, occupant next keeper = some after ∧ after.paramList = object.paramList := by
  induction heap, pending using refDecs.induct with
  | case1 heap =>
    rw [refDecs]
    exact ⟨heap, rfl, balanced, fun keeper object keeps => ⟨object, keeps.1, rfl⟩⟩
  | case2 heap pointer rest dead =>
    have natural := covered.nonnegative pointer
    obtain ⟨object, live⟩ := balanced.alive pointer (by rw [List.count_cons_self]; omega)
    rw [live] at dead
    cases dead
  | case3 heap pointer rest object live last inductionHypothesis =>
    have needed := balanced.needed pointer object live
    have bounded := balanced.bounded pointer object live
    rw [wrapInt_of_bounded (by omega) (by omega)] at last
    have single : object.refCounter = 1 := by omega
    have keptStays : ∀ keeper kept, Kept heap owed keeper kept →
        Kept (heap.set pointer none) owed keeper kept := by
      intro keeper kept keeps
      have apart := balanced.kept_ne live single keeps
      exact ⟨by rw [occupant_set live, if_neg apart, keeps.1], keeps.2⟩
    have coveredAfter : Covered (heap.set pointer none) owed := by
      intro other negative
      obtain ⟨keeper, kept, keeps, enough⟩ := covered other negative
      exact ⟨keeper, kept, keptStays keeper kept keeps, enough⟩
    obtain ⟨next, freed, balancedAfter, stays⟩ :=
      inductionHypothesis (balanced.destroy live single) coveredAfter
    refine ⟨next, ?_, balancedAfter, ?_⟩
    · rw [refDecs_cons live, wrapInt_of_bounded (by omega) (by omega), if_pos last, freed]
    · intro keeper kept keeps
      exact stays keeper kept (keptStays keeper kept keeps)
  | case4 heap pointer rest object live shared inductionHypothesis =>
    have needed := balanced.needed pointer object live
    have bounded := balanced.bounded pointer object live
    rw [wrapInt_of_bounded (by omega) (by omega)] at shared inductionHypothesis
    have several : object.refCounter ≠ 1 := by omega
    obtain ⟨next, freed, balancedAfter, stays⟩ :=
      inductionHypothesis (balanced.decrement live several) (covered.counted live _)
    refine ⟨next, ?_, balancedAfter, ?_⟩
    · rw [refDecs_cons live, wrapInt_of_bounded (by omega) (by omega), if_neg shared, freed]
    · intro keeper kept keeps
      obtain ⟨changed, keepsChanged, same⟩ := keeps.counted live (object.refCounter - 1)
      obtain ⟨after, found, unchanged⟩ := stays keeper changed keepsChanged
      exact ⟨after, found, unchanged.trans same⟩

/-! ## What one call does -/

theorem refDecExisting_eq (heap : ObjectHeap) (held : Option Nat) :
    refDecExisting heap held = refDecs heap held.toList := by
  cases held with
  | none =>
    rw [Option.toList_none, refDecs]
    rfl
  | some existing => rfl

theorem held_count_le (paramList : List Param) (name : String) (pointer : Nat) :
    ((findParam paramList name).bind Any.held).toList.count pointer ≤
      (objectParams paramList).count pointer := by
  have erased := count_eraseParam paramList name pointer
  omega

/-- Giving back what a parameter of a kept object holds, while the parameter still
stands: the counts are balanced with that reference owed back. -/
theorem giveBack_balanced {heap : ObjectHeap} {owed : Nat → Int}
    (balanced : Balanced heap owed []) (natural : ∀ pointer, 0 ≤ owed pointer) {target : Nat}
    (needed : 0 < owed target) {owner : ManagedObject} (live : occupant heap target = some owner)
    (name : String) :
    let held := ((findParam owner.paramList name).bind Any.held).toList
    ∃ next after, refDecs heap held = some next ∧
      Balanced next (fun pointer => owed pointer - held.count pointer) [] ∧
      occupant next target = some after ∧ after.paramList = owner.paramList := by
  intro held
  have part : ∀ pointer, held.count pointer ≤ owner.holds pointer :=
    held_count_le owner.paramList name
  have keeps : Kept heap (fun pointer => owed pointer - held.count pointer) target owner := by
    refine ⟨live, ?_⟩
    have own := part target
    simp only
    omega
  have covered : Covered heap (fun pointer => owed pointer - held.count pointer) := by
    intro pointer _
    refine ⟨target, owner, keeps, ?_⟩
    have enough := part pointer
    have nonnegative := natural pointer
    simp only
    omega
  have pending : Balanced heap (fun pointer => owed pointer - held.count pointer) held := by
    apply balanced.regroup
    intro pointer
    simp only [List.count_nil]
    omega
  obtain ⟨next, freed, balancedAfter, stays⟩ := refDecs_balanced pending covered
  obtain ⟨after, found, same⟩ := stays target owner keeps
  exact ⟨next, after, freed, balancedAfter, found, same⟩

theorem Balanced.handled {heap : ObjectHeap} {handles : Nat → Nat}
    (balanced : Balanced heap (fun pointer => handles pointer) []) {pointer : Nat}
    (handle : 0 < handles pointer) : ∃ object, occupant heap pointer = some object := by
  apply balanced.alive pointer
  simp only [List.count_nil]
  omega

/-- Changing the parameters of a live object, and what the objects are owed with
them, keeps the counts balanced. -/
theorem Balanced.reparam {heap : ObjectHeap} {owed others : Nat → Int}
    (balanced : Balanced heap owed []) {pointer : Nat} {object : ManagedObject}
    (live : occupant heap pointer = some object) (paramList : List Param)
    (traded : ∀ held, others held + (objectParams paramList).count held =
      owed held + object.holds held) :
    Balanced (heap.set pointer (some { object with paramList })) others [] := by
  apply balanced.replace live
  · exact balanced.needed pointer object live
  · exact balanced.bounded pointer object live
  · have own := traded pointer
    simp only [ManagedObject.holds, List.count_nil] at *
    omega
  · intro other _
    have own := traded other
    simp only [ManagedObject.holds, List.count_nil] at *
    omega

/-- Setting a scalar under a name that holds no object keeps the counts balanced. -/
theorem setParam_balanced {heap : ObjectHeap} {handles : Nat → Nat}
    (balanced : Balanced heap (fun pointer => handles pointer) []) {target : Nat}
    (handle : 0 < handles target) (name : String) (value : Scalar)
    (noObject : ∀ owner, occupant heap target = some owner →
      (findParam owner.paramList name).bind Any.held = none) :
    ∃ next, setParam heap target name (.scalar value) = some next ∧
      Balanced next (fun pointer => handles pointer) [] := by
  obtain ⟨owner, live⟩ := balanced.handled handle
  refine ⟨_, by rw [setParam, update, live, Option.map_some], ?_⟩
  apply balanced.reparam live
  intro held
  obtain ⟨data, found, same⟩ := findParam_addParam owner.paramList name
  have traded := count_writeParam found (.scalar value) held
  rw [objectParams_addParam] at traded
  have nothing : data.count held = 0 := by
    rw [Any.count, same, noObject owner live]
    rfl
  have scalar : (Any.scalar value).count held = 0 := rfl
  rw [nothing, scalar] at traded
  rw [ManagedObject.holds]
  omega

theorem removeParam_balanced {heap : ObjectHeap} {handles : Nat → Nat}
    (balanced : Balanced heap (fun pointer => handles pointer) []) {target : Nat}
    (handle : 0 < handles target) (name : String) :
    ∃ next, ISPCDevice.removeParam heap target name = some next ∧
      Balanced next (fun pointer => handles pointer) [] := by
  obtain ⟨owner, live⟩ := balanced.handled handle
  obtain ⟨freed, after, given, balancedFreed, found, same⟩ := giveBack_balanced balanced
    (fun pointer => Int.natCast_nonneg (handles pointer)) (Int.ofNat_lt.mpr handle) live name
  refine ⟨freed.set target (some { after with paramList := eraseParam after.paramList name }),
    ?_, ?_⟩
  · simp only [ISPCDevice.removeParam, live, refDecExisting_eq, given, update, found,
      Option.bind_eq_bind, Option.bind_some, Option.map_some]
  · apply balancedFreed.reparam found
    intro held
    have erased := count_eraseParam owner.paramList name held
    rw [ManagedObject.holds, same]
    omega

/-- Counting up an object takes a reference to it. -/
theorem refInc_balanced {heap : ObjectHeap} {owed : Nat → Int} (balanced : Balanced heap owed [])
    {pointer : Nat} {object : ManagedObject} (live : occupant heap pointer = some object)
    (room : object.refCounter < 2 ^ 31 - 1) :
    refInc heap pointer =
        some (heap.set pointer (some { object with refCounter := object.refCounter + 1 })) ∧
      Balanced (heap.set pointer (some { object with refCounter := object.refCounter + 1 }))
        (fun other => owed other + [pointer].count other) [] := by
  have needed := balanced.needed pointer object live
  constructor
  · rw [refInc, update, live, Option.map_some, wrapInt_of_bounded (by omega) (by omega)]
  · apply balanced.replace live
    · simp only
      omega
    · simp only
      omega
    · simp only [ManagedObject.holds, List.count_nil, List.count_singleton_self]
      omega
    · intro other apart
      simp only [ManagedObject.holds, List.count_cons_of_ne (Ne.symm apart), List.count_nil]
      omega

/-- Counting up the object of a call takes a reference to it and leaves all
parameters alone. -/
theorem refIncValue_balanced {heap : ObjectHeap} {owed : Nat → Int}
    (balanced : Balanced heap owed []) (value : Option Nat)
    (alive : ∀ pointer, value = some pointer → ∃ object, occupant heap pointer = some object ∧
      object.refCounter < 2 ^ 31 - 1)
    {target : Nat} {owner : ManagedObject} (live : occupant heap target = some owner) :
    ∃ counted after, refIncValue heap value = some counted ∧
      Balanced counted (fun pointer => owed pointer + value.toList.count pointer) [] ∧
      occupant counted target = some after ∧ after.paramList = owner.paramList := by
  cases value with
  | none =>
    refine ⟨heap, owner, rfl, balanced.regroup ?_, live, rfl⟩
    intro pointer
    simp
  | some pointer =>
    obtain ⟨object, liveObject, room⟩ := alive pointer rfl
    obtain ⟨increased, balancedIncreased⟩ := refInc_balanced balanced liveObject room
    by_cases same : target = pointer
    · subst same
      obtain rfl : owner = object := Option.some.inj (live.symm.trans liveObject)
      refine ⟨_, { owner with refCounter := owner.refCounter + 1 }, increased,
        balancedIncreased, ?_, rfl⟩
      rw [occupant_set live, if_pos rfl]
    · refine ⟨_, owner, increased, balancedIncreased, ?_, rfl⟩
      rw [occupant_set liveObject, if_neg same, live]

theorem counter_reparam {heap : ObjectHeap} {target : Nat} {owner : ManagedObject}
    (live : occupant heap target = some owner) (paramList : List Param) {pointer : Nat}
    {object : ManagedObject} (liveObject : occupant heap pointer = some object) :
    ∃ after, occupant (heap.set target (some { owner with paramList })) pointer = some after ∧
      after.refCounter = object.refCounter := by
  rw [occupant_set live]
  by_cases same : pointer = target
  · subst same
    obtain rfl : owner = object := Option.some.inj (live.symm.trans liveObject)
    exact ⟨{ owner with paramList }, if_pos rfl, rfl⟩
  · exact ⟨object, by rw [if_neg same, liveObject], rfl⟩

/-- Setting an object as a parameter keeps the counts balanced. -/
theorem setObject_balanced {heap : ObjectHeap} {handles : Nat → Nat}
    (balanced : Balanced heap (fun pointer => handles pointer) []) {target : Nat}
    (handle : 0 < handles target) (name : String) (value : Option Nat)
    (alive : ∀ pointer, value = some pointer → ∃ object, occupant heap pointer = some object ∧
      object.refCounter < 2 ^ 31 - 1) :
    ∃ next, ISPCDevice.setObject heap target name value = some next ∧
      Balanced next (fun pointer => handles pointer) [] := by
  obtain ⟨owner, live⟩ := balanced.handled handle
  -- the parameter is found or added
  let named : ManagedObject := { owner with paramList := addParam owner.paramList name }
  have balancedNamed : Balanced (heap.set target (some named)) (fun pointer => handles pointer) [] := by
    apply balanced.reparam live
    intro held
    rw [objectParams_addParam]
    rfl
  have liveNamed : occupant (heap.set target (some named)) target = some named := by
    rw [occupant_set live, if_pos rfl]
  -- the new object is counted up
  obtain ⟨counted, countedOwner, increased, balancedCounted, liveCounted, sameNamed⟩ :=
    refIncValue_balanced balancedNamed value (fun pointer given => by
      obtain ⟨object, liveObject, room⟩ := alive pointer given
      obtain ⟨after, liveAfter, same⟩ := counter_reparam live named.paramList liveObject
      exact ⟨after, liveAfter, same ▸ room⟩) liveNamed
  -- the object the parameter holds is counted down
  have neededCounted : (0 : Int) < handles target + value.toList.count target := by omega
  obtain ⟨freed, after, given, balancedFreed, found, sameCounted⟩ :=
    giveBack_balanced balancedCounted (fun pointer => by omega) neededCounted liveCounted name
  -- the parameter is assigned
  obtain ⟨data, foundParam, -⟩ := findParam_addParam owner.paramList name
  have foundAfter : findParam after.paramList name = some data := by
    rw [sameCounted, sameNamed, foundParam]
  refine ⟨freed.set target
    (some { after with paramList := writeParam after.paramList name (.object value) }), ?_, ?_⟩
  · simp only [ISPCDevice.setObject, update, live, increased, liveCounted, refDecExisting_eq, given,
      found, Option.bind_eq_bind, Option.bind_some, Option.map_some, named]
  · apply balancedFreed.reparam found
    intro held
    have traded := count_writeParam foundAfter (.object value) held
    have object : (Any.object value).count held = value.toList.count held := rfl
    have before : data.count held =
        ((findParam countedOwner.paramList name).bind Any.held).toList.count held := by
      rw [sameNamed, foundParam]
      rfl
    rw [object, before] at traded
    rw [ManagedObject.holds]
    omega

/-- A new object is owed the handle that the application gets. -/
theorem newObject_balanced {heap : ObjectHeap} {handles : Nat → Nat}
    (balanced : Balanced heap (fun pointer => handles pointer) []) :
    Balanced (ISPCDevice.newObject heap)
      (fun pointer => (Function.update handles heap.length 1 pointer : Nat)) [] := by
  have fresh : ∀ object, occupant heap heap.length ≠ some object := by
    intro object live
    exact absurd (occupant_lt live) (Nat.lt_irrefl _)
  have unreferenced : (handles heap.length : Int) + holders heap heap.length = 0 := by
    by_contra referenced
    obtain ⟨object, live⟩ := balanced.alive heap.length (by simp only [List.count_nil]; omega)
    exact fresh object live
  have same : ∀ pointer, holders (ISPCDevice.newObject heap) pointer = holders heap pointer := by
    intro pointer
    exact total_append (fun object => object.holds pointer) heap _
  constructor
  · intro pointer object
    rw [ISPCDevice.newObject, occupant_append]
    intro occupied
    have unchanged := same pointer
    rw [ISPCDevice.newObject] at unchanged
    rw [unchanged]
    by_cases last : pointer = heap.length
    · rw [if_pos last, Option.some.injEq] at occupied
      rw [← occupied, last, Function.update_self]
      simp only [List.count_nil]
      omega
    · rw [if_neg last] at occupied
      rw [Function.update_of_ne last]
      exact balanced.counts pointer object occupied
  · intro pointer positive
    rw [same] at positive
    rw [ISPCDevice.newObject, occupant_append]
    by_cases last : pointer = heap.length
    · exact ⟨_, if_pos last⟩
    · rw [if_neg last]
      rw [Function.update_of_ne last] at positive
      exact balanced.alive pointer positive
  · intro pointer object
    rw [ISPCDevice.newObject, occupant_append]
    intro occupied
    by_cases last : pointer = heap.length
    · rw [if_pos last, Option.some.injEq] at occupied
      rw [← occupied]
      decide
    · rw [if_neg last] at occupied
      exact balanced.needed pointer object occupied
  · intro pointer object
    rw [ISPCDevice.newObject, occupant_append]
    intro occupied
    by_cases last : pointer = heap.length
    · rw [if_pos last, Option.some.injEq] at occupied
      rw [← occupied]
      decide
    · rw [if_neg last] at occupied
      exact balanced.bounded pointer object occupied

/-- Releasing a handle keeps the counts balanced. -/
theorem release_balanced {heap : ObjectHeap} {handles : Nat → Nat}
    (balanced : Balanced heap (fun pointer => handles pointer) []) {pointer : Nat}
    (handle : 0 < handles pointer) :
    ∃ next, ISPCDevice.release heap (some pointer) = some next ∧
      Balanced next
        (fun other => (Function.update handles pointer (handles pointer - 1) other : Nat)) [] := by
  have pending : Balanced heap
      (fun other => (Function.update handles pointer (handles pointer - 1) other : Nat))
      [pointer] := by
    apply balanced.regroup
    intro other
    by_cases same : other = pointer
    · subst same
      rw [Function.update_self, List.count_singleton_self, List.count_nil]
      omega
    · rw [Function.update_of_ne same, List.count_cons_of_ne (Ne.symm same)]
  have covered : Covered heap
      (fun other => (Function.update handles pointer (handles pointer - 1) other : Nat)) := by
    intro other negative
    exact absurd negative (Int.not_lt.mpr (Int.natCast_nonneg _))
  obtain ⟨next, freed, balancedAfter, -⟩ := refDecs_balanced pending covered
  exact ⟨next, freed, balancedAfter⟩

namespace DeviceState

/-- Between two calls the objects are owed the application's handles. -/
def InBalance (state : DeviceState) : Prop :=
  Balanced state.heap (fun pointer => state.handles pointer) []

theorem InBalance.exact {state : DeviceState} (balanced : state.InBalance) : state.Exact := by
  constructor
  · intro pointer object live
    have counted := balanced.counts pointer object live
    simp only [List.count_nil] at counted
    omega
  · intro pointer referenced
    apply balanced.alive pointer
    simp only [List.count_nil]
    omega
  · intro pointer object live
    have counted := balanced.counts pointer object live
    have needed := balanced.needed pointer object live
    simp only [List.count_nil] at counted
    omega

/-- A call within the API that meets the condition has a result, and keeps the
counts balanced. -/
theorem perform_balanced {state : DeviceState} (balanced : state.InBalance) (call : ObjectCall)
    (allowed : state.Allowed call) (admissible : state.Admissible call) :
    ∃ next, state.perform call = some next ∧ next.InBalance := by
  cases call with
  | newObject => exact ⟨_, rfl, newObject_balanced balanced⟩
  | setObject target name value =>
    obtain ⟨handle, alive⟩ := allowed
    obtain ⟨heap, performed, after⟩ := setObject_balanced balanced handle name value (by
      intro pointer given
      obtain ⟨object, live⟩ := alive pointer given
      have counted := balanced.exact.counts pointer object live
      have room := admissible pointer given
      exact ⟨object, live, by omega⟩)
    exact ⟨{ state with heap }, by rw [perform, performed, Option.map_some], after⟩
  | setScalar object name value =>
    obtain ⟨heap, performed, after⟩ := setParam_balanced balanced allowed name value admissible
    exact ⟨{ state with heap }, by rw [perform, performed, Option.map_some], after⟩
  | removeParam object name =>
    obtain ⟨heap, performed, after⟩ := removeParam_balanced balanced allowed name
    exact ⟨{ state with heap }, by rw [perform, performed, Option.map_some], after⟩
  | release object =>
    cases object with
    | none => exact ⟨_, rfl, balanced⟩
    | some pointer =>
      obtain ⟨heap, performed, after⟩ := release_balanced balanced (allowed pointer rfl)
      exact ⟨⟨heap, Function.update state.handles pointer (state.handles pointer - 1)⟩,
        by rw [perform, performed, Option.map_some], after⟩

theorem initial_balanced : initial.InBalance := by
  constructor
  · intro pointer object live
    cases live
  · intro pointer positive
    simp [initial, holders, total] at positive
  · intro pointer object live
    cases live
  · intro pointer object live
    cases live

/-- In every run of calls within the API in which no scalar or string replaces an
object, and no counter passes the largest `int`, reference counts are exact in
every state, and no call that meets these conditions touches a destroyed object. -/
theorem counts_exact {state : DeviceState}
    (reached : Reachable (· = initial) AdmissibleStep state) :
    state.Exact ∧ ∀ call, state.Allowed call → state.Admissible call →
      ∃ next, state.perform call = some next := by
  have balanced : state.InBalance := by
    apply reachable_invariant _ _ reached
    · rintro origin rfl
      exact initial_balanced
    · rintro before after held ⟨call, allowed, admissible, performed⟩
      obtain ⟨next, performedAgain, balanced⟩ := perform_balanced held call allowed admissible
      obtain rfl : next = after := Option.some.inj (performedAgain.symm.trans performed)
      exact balanced
  refine ⟨balanced.exact, ?_⟩
  intro call allowed admissible
  obtain ⟨next, performed, -⟩ := perform_balanced balanced call allowed admissible
  exact ⟨next, performed⟩

/-- A scalar or string set under a name that holds an object always leaves a
reference behind that nothing accounts for. -/
theorem scalar_leaks {state next : DeviceState} (exact_ : state.Exact) {target : Nat}
    {name : String} {value : Scalar} {owner : ManagedObject} {pointer : Nat}
    (live : occupant state.heap target = some owner)
    (holdsObject : (findParam owner.paramList name).bind Any.held = some pointer)
    (performed : state.perform (.setScalar target name value) = some next) : ¬ next.Exact := by
  have after : next = { state with heap := state.heap.set target (some { owner with
      paramList := writeParam (addParam owner.paramList name) name (.scalar value) }) } := by
    simp only [perform, setParam, update, live, Option.map_some] at performed
    exact (Option.some.inj performed).symm
  obtain ⟨data, found, same⟩ := findParam_addParam owner.paramList name
  have traded := count_writeParam found (.scalar value) pointer
  have held : data.count pointer = 1 := by
    rw [Any.count, same, holdsObject, Option.toList_some, List.count_singleton_self]
  have scalar : (Any.scalar value).count pointer = 0 := rfl
  rw [objectParams_addParam, held, scalar] at traded
  have whole := total_set (fun object => object.holds pointer) live
    (some { owner with paramList := writeParam (addParam owner.paramList name) name (.scalar value) })
  have part : owner.holds pointer ≤ holders state.heap pointer :=
    weight_le_total (fun object => object.holds pointer) live
  simp only [Option.elim_some, ManagedObject.holds] at whole part
  obtain ⟨object, liveObject⟩ := exact_.referencedAlive pointer (by omega)
  obtain ⟨changed, liveAfter, sameCounter⟩ := counter_reparam live
    (writeParam (addParam owner.paramList name) name (.scalar value)) liveObject
  have before := exact_.counts pointer object liveObject
  intro exactAfter
  rw [after] at exactAfter
  have counted := exactAfter.counts pointer changed liveAfter
  simp only [holders, ManagedObject.holds] at counted before
  omega

/-- Two objects, each with the handle of the application. -/
def twoObjects : DeviceState :=
  { heap := [some { refCounter := 1, paramList := [] }, some { refCounter := 1, paramList := [] }]
    handles := Function.update (Function.update (fun _ => 0) 0 1) 1 1 }

/-- The second of two objects is set as a parameter of the first. -/
def oneHoldsOther : DeviceState :=
  { twoObjects with
    heap := [some { refCounter := 1, paramList := [⟨"material", .object (some 1)⟩] },
      some { refCounter := 2, paramList := [] }] }

theorem create_twoObjects : ∃ first, initial.perform .newObject = some first ∧
    first.perform .newObject = some twoObjects :=
  ⟨_, rfl, rfl⟩

theorem setObject_twoObjects :
    twoObjects.Allowed (.setObject 0 "material" (some 1)) ∧
      twoObjects.Admissible (.setObject 0 "material" (some 1)) ∧
      twoObjects.perform (.setObject 0 "material" (some 1)) = some oneHoldsOther := by
  refine ⟨⟨by decide, ?_⟩, ?_, rfl⟩
  · rintro pointer given
    obtain rfl := Option.some.inj given
    exact ⟨_, rfl⟩
  · rintro pointer given
    obtain rfl := Option.some.inj given
    decide

/-- The run in which one object becomes a parameter of another. -/
theorem counts_exact_oneHoldsOther :
    oneHoldsOther.Exact ∧ ∀ call, oneHoldsOther.Allowed call → oneHoldsOther.Admissible call →
      ∃ next, oneHoldsOther.perform call = some next := by
  obtain ⟨first, created, createdBoth⟩ := create_twoObjects
  obtain ⟨allowed, admissible, set_⟩ := setObject_twoObjects
  have start : AdmissibleStep initial first := ⟨.newObject, trivial, trivial, created⟩
  have both : AdmissibleStep first twoObjects := ⟨.newObject, trivial, trivial, createdBoth⟩
  have linked : AdmissibleStep twoObjects oneHoldsOther := ⟨_, allowed, admissible, set_⟩
  exact counts_exact ⟨initial, rfl, ((Relation.ReflTransGen.single start).tail both).tail linked⟩

/-- An `int` is set under the name that holds the second object: that object keeps
a count of two, with a single handle and no holder. -/
theorem replaced_object_leaks :
    ¬ ∀ state, Reachable (· = initial)
      (fun before after => ∃ call, before.Allowed call ∧ before.perform call = some after) state →
        state.Exact := by
  intro always
  obtain ⟨first, created, createdBoth⟩ := create_twoObjects
  obtain ⟨allowed, -, set_⟩ := setObject_twoObjects
  let step (before after : DeviceState) : Prop :=
    ∃ call, before.Allowed call ∧ before.perform call = some after
  have start : step initial first := ⟨.newObject, trivial, created⟩
  have both : step first twoObjects := ⟨.newObject, trivial, createdBoth⟩
  have linked : step twoObjects oneHoldsOther := ⟨_, allowed, set_⟩
  have run := ((Relation.ReflTransGen.single start).tail both).tail linked
  obtain ⟨next, replaced⟩ : ∃ next,
      oneHoldsOther.perform (.setScalar 0 "material" (.int 5)) = some next := ⟨_, rfl⟩
  have handle : 0 < oneHoldsOther.handles 0 := by decide
  have last : step oneHoldsOther next :=
    ⟨.setScalar 0 "material" (.int 5), handle, replaced⟩
  exact scalar_leaks (always oneHoldsOther ⟨initial, rfl, run⟩) rfl rfl replaced
    (always next ⟨initial, rfl, run.tail last⟩)

end DeviceState

end Ospray

import Ospray.Library.Lifetimes

/-!
# Values that may be there

`Optional<T>` keeps raw storage for one value and a flag that says whether it is there. Any number of such objects, of
any number of types, are created, changed and destroyed in any order. What they are meant to be is a map from the living
objects to options.

A copy and a conversion to another type take the same steps; a copy is the conversion that changes nothing. Constructors
and conversions of the values throw nothing, and the argument of `emplace` is no part of the object itself.
-/

namespace Ospray.Optional

open Library.Lifetimes

variable {ι : Type}

/-- The types of the values: their default, what a move leaves behind, and whether their destructor does nothing. -/
structure Classes (ι : Type) where
  Value : ι → Type
  default (kind : ι) : Value kind
  moved (kind : ι) : Value kind → Value kind
  trivial : ι → Bool

/-- The objects of each type. -/
structure Name (ι : Type) where
  kind : ι
  index : Nat
deriving DecidableEq

variable (C : Classes ι)

/-- The storage of all objects, and the flags of those that live. -/
structure State where
  storage : Storage fun p : Name ι => C.Value p.kind
  hasValue (p : Name ι) : Option Bool

/-- No object lives. -/
def State.start : State C where
  storage := .start
  hasValue _ := none

variable {C} [DecidableEq ι]

/-! ## The class -/

/-- `Optional()` -/
def construct (p : Name ι) (s : State C) : State C :=
  { s with hasValue := Function.update s.hasValue p (some false) }

/-- `reset`. No destructor is called that does nothing. -/
def reset (p : Name ι) (s : State C) : Except Fault (State C) := do
  let storage ←
    if !C.trivial p.kind && s.hasValue p = some true then s.storage.destroy p
    else pure (if C.trivial p.kind then s.storage.abandon p else s.storage)
  return { storage := storage, hasValue := Function.update s.hasValue p (some false) }

/-- `~Optional` -/
def destruct (p : Name ι) (s : State C) : Except Fault (State C) := do
  let s ← reset p s
  return { s with hasValue := Function.update s.hasValue p none }

/-- `emplace` -/
def emplace (p : Name ι) (v : C.Value p.kind) (s : State C) : Except Fault (State C) := do
  let s ← reset p s
  let storage ← s.storage.construct p v
  return { storage := storage, hasValue := Function.update s.hasValue p (some true) }

/-- `default_construct_storage_if_needed` -/
def defaultConstructStorageIfNeeded (p : Name ι) (s : State C) : Except Fault (Storage fun p : Name ι => C.Value p.kind) :=
  if s.hasValue p = some true then pure s.storage else s.storage.construct p (C.default p.kind)

/-- `Optional(const T &)` -/
def constructValue (p : Name ι) (v : C.Value p.kind) (s : State C) : Except Fault (State C) :=
  emplace p v (construct p s)

/-- `operator=(U &&)`, with the value that the right side is converted to. -/
def assign (p : Name ι) (v : C.Value p.kind) (s : State C) : Except Fault (State C) := do
  let storage ← defaultConstructStorageIfNeeded p s
  let storage ← storage.assign p v
  return { storage := storage, hasValue := Function.update s.hasValue p (some true) }

/-- `operator=(const Optional &)` and `operator=(const Optional<U> &)`. They are chosen if what is copied is constant. -/
def copyAssign (source target : Name ι) (convert : C.Value source.kind → C.Value target.kind) (s : State C) :
    Except Fault (State C) := do
  let storage ← defaultConstructStorageIfNeeded target s
  let v ← storage.read source
  let storage ← storage.assign target (convert v)
  return { storage := storage, hasValue := Function.update s.hasValue target (some true) }

/-- `operator=(Optional<U> &&)`, which copies. -/
def convertMoveAssign (source target : Name ι) (convert : C.Value source.kind → C.Value target.kind) (s : State C) :
    Except Fault (State C) :=
  copyAssign source target convert s

/-- `value() = std::move(other.value())` -/
def moveValue (source target : Name ι) (convert : C.Value source.kind → C.Value target.kind)
    (storage : Storage fun p : Name ι => C.Value p.kind) : Except Fault (Storage fun p : Name ι => C.Value p.kind) := do
  let v ← storage.read source
  let storage ← storage.assign target (convert v)
  storage.assign source (C.moved source.kind v)

/-- `operator=(Optional &&)` -/
def moveAssign (kind : ι) (source target : Nat) (s : State C) : Except Fault (State C) := do
  let storage ← defaultConstructStorageIfNeeded ⟨kind, target⟩ s
  let storage ← moveValue ⟨kind, source⟩ ⟨kind, target⟩ id storage
  return { storage := storage, hasValue := Function.update s.hasValue ⟨kind, target⟩ (some true) }

/-- `Optional(const Optional<T> &)` and `Optional(const Optional<U> &)` -/
def copyConstruct (source target : Name ι) (convert : C.Value source.kind → C.Value target.kind) (s : State C) :
    Except Fault (State C) := do
  let s := construct target s
  if s.hasValue source = some true then
    let v ← s.storage.read source
    assign target (convert v) s
  else return s

/-- `Optional(Optional<T> &&)` and `Optional(Optional<U> &&)` -/
def moveConstruct (source target : Name ι) (convert : C.Value source.kind → C.Value target.kind) (s : State C) :
    Except Fault (State C) := do
  let s := construct target s
  if s.hasValue source = some true then
    let s ← reset target s
    let storage ← moveValue source target convert s.storage
    return { storage := storage, hasValue := Function.update s.hasValue target (some true) }
  else return s

variable (C) in
/-- What is done to objects. -/
inductive Op where
  | construct (p : Name ι)
  | constructValue (p : Name ι) (v : C.Value p.kind)
  | copyConstruct (source target : Name ι) (convert : C.Value source.kind → C.Value target.kind)
  | moveConstruct (source target : Name ι) (convert : C.Value source.kind → C.Value target.kind)
  | destruct (p : Name ι)
  | assign (p : Name ι) (v : C.Value p.kind)
  | copyAssign (source target : Name ι) (convert : C.Value source.kind → C.Value target.kind)
  | convertMoveAssign (source target : Name ι) (convert : C.Value source.kind → C.Value target.kind)
  | moveAssign (kind : ι) (source target : Nat)
  | reset (p : Name ι)
  | emplace (p : Name ι) (v : C.Value p.kind)

/-- One operation. -/
def step (s : State C) : Op C → Except Fault (State C)
  | .construct p => return construct p s
  | .constructValue p v => constructValue p v s
  | .copyConstruct source target convert => copyConstruct source target convert s
  | .moveConstruct source target convert => moveConstruct source target convert s
  | .destruct p => destruct p s
  | .assign p v => assign p v s
  | .copyAssign source target convert => copyAssign source target convert s
  | .convertMoveAssign source target convert => convertMoveAssign source target convert s
  | .moveAssign kind source target => moveAssign kind source target s
  | .reset p => reset p s
  | .emplace p v => emplace p v s

/-- Operations one after another. -/
def run (s : State C) (ops : List (Op C)) : Except Fault (State C) := ops.foldlM step s

/-! ## Options -/

variable (C) in
/-- The living objects, each with a value or without. -/
abbrev Options := ∀ p : Name ι, Option (Option (C.Value p.kind))

variable (C) in
/-- No object lives. -/
def Options.start : Options C := fun _ => none

/-- The value of an object. -/
def Options.value (o : Options C) (p : Name ι) : Option (C.Value p.kind) := (o p).join

/-- An object with its new value or without. -/
def Options.set (o : Options C) (p : Name ι) (v : Option (C.Value p.kind)) : Options C := Function.update o p (some v)

namespace Op

/-- What an operation is meant to do. What is copied or moved is a value if there is one. -/
def apply (o : Options C) : Op C → Options C
  | .construct p | .reset p => o.set p none
  | .constructValue p v | .assign p v | .emplace p v => o.set p (some v)
  | .copyConstruct source target convert | .copyAssign source target convert | .convertMoveAssign source target convert =>
    o.set target ((o.value source).map convert)
  | .moveConstruct source target convert =>
    (o.set target ((o.value source).map convert)).set source ((o.value source).map (C.moved source.kind))
  | .moveAssign kind source target =>
    (o.set ⟨kind, target⟩ (o.value ⟨kind, source⟩)).set ⟨kind, source⟩
      ((o.value ⟨kind, source⟩).map (C.moved kind))
  | .destruct p => Function.update o p none

/-- New objects are none that live, and others live. -/
def Possible (o : Options C) : Op C → Prop
  | .construct p | .constructValue p _ => o p = none
  | .copyConstruct source target _ | .moveConstruct source target _ => o source ≠ none ∧ o target = none
  | .destruct p | .assign p _ | .reset p | .emplace p _ => o p ≠ none
  | .copyAssign source target _ | .convertMoveAssign source target _ => o source ≠ none ∧ o target ≠ none
  | .moveAssign kind source target => o ⟨kind, source⟩ ≠ none ∧ o ⟨kind, target⟩ ≠ none

/-- What is assigned has a value, and what is moved to a new object has none. -/
def Met (o : Options C) : Op C → Prop
  | .moveConstruct source _ _ => o.value source = none
  | .copyAssign source _ _ | .convertMoveAssign source _ _ => o.value source ≠ none
  | .moveAssign kind source _ => o.value ⟨kind, source⟩ ≠ none
  | _ => True

end Op

/-- What operations are meant to do. -/
def Options.run (o : Options C) (ops : List (Op C)) : Options C := ops.foldl Op.apply o

/-- A condition on each operation, and what the objects are meant to be before it. -/
def Each (condition : Options C → Op C → Prop) : Options C → List (Op C) → Prop
  | _, [] => True
  | o, op :: ops => condition o op ∧ Each condition (op.apply o) ops

/-! ## What the class keeps -/

/-- The objects are what they are meant to be, and every value constructed so far is destroyed once or still there. -/
structure Agrees (s : State C) (o : Options C) : Prop where
  flags : s.hasValue = fun p => (o p).map Option.isSome
  values : s.storage.value = o.value
  accounted : s.storage.Accounted

omit [DecidableEq ι] in
theorem start_agrees : Agrees (State.start C) (Options.start C) where
  flags := rfl
  values := rfl
  accounted := Storage.start_accounted

theorem flags_set (o : Options C) (p : Name ι) (v : Option (C.Value p.kind)) :
    (fun q => (o.set p v q).map Option.isSome) =
      Function.update (fun q => (o q).map Option.isSome) p (some v.isSome) := by
  funext q
  exact Function.apply_update (fun _ => Option.map Option.isSome) o p (some v) q

theorem value_set (o : Options C) (p : Name ι) (v : Option (C.Value p.kind)) :
    (o.set p v).value = Function.update o.value p v := by
  funext q
  exact Function.apply_update (fun _ => Option.join) o p (some v) q

theorem set_set (o : Options C) (p : Name ι) (v w : Option (C.Value p.kind)) : (o.set p v).set p w = o.set p w :=
  Function.update_idem ..

namespace Agrees

variable {s : State C} {o : Options C} {p : Name ι}

omit [DecidableEq ι] in
theorem hasValue_iff (agrees : Agrees s o) (p : Name ι) : s.hasValue p = some true ↔ s.storage.value p ≠ none := by
  rw [agrees.flags, agrees.values, Options.value]
  cases same : o p with
  | none => simp [same]
  | some v => cases v <;> simp [same]

omit [DecidableEq ι] in
theorem flag_none (agrees : Agrees s o) (none_ : o.value p = none) : s.hasValue p ≠ some true := by
  rw [Ne, agrees.hasValue_iff, agrees.values, none_]
  exact not_not.mpr rfl

omit [DecidableEq ι] in
theorem flag_some (agrees : Agrees s o) {v : C.Value p.kind} (given : o.value p = some v) : s.hasValue p = some true := by
  rw [agrees.hasValue_iff, agrees.values, given]
  exact Option.some_ne_none v

theorem set (agrees : Agrees s o) (v : Option (C.Value p.kind)) {storage : Storage fun p : Name ι => C.Value p.kind}
    (value : storage.value = Function.update s.storage.value p v) (accounted : storage.Accounted) :
    Agrees { storage := storage, hasValue := Function.update s.hasValue p (some v.isSome) } (o.set p v) where
  flags := by rw [flags_set, ← agrees.flags]
  values := by rw [value_set, ← agrees.values, value]
  accounted := accounted

theorem set_none (agrees : Agrees s o) (empty : s.storage.value p = none) :
    Agrees { s with hasValue := Function.update s.hasValue p (some false) } (o.set p none) := by
  refine agrees.set none ?_ agrees.accounted
  rw [← empty, Function.update_eq_self]

theorem construct (agrees : Agrees s o) (new : o p = none) : Agrees (construct p s) (o.set p none) := by
  apply agrees.set_none
  rw [agrees.values, Options.value, new]
  rfl

theorem reset (agrees : Agrees s o) (p : Name ι) : ∃ s', reset p s = .ok s' ∧ Agrees s' (o.set p none) := by
  obtain ⟨value, accounted⟩ := Storage.abandon_spec agrees.accounted p
  have abandoned := agrees.set none value accounted
  rw [Optional.reset]
  cases C.trivial p.kind with
  | true => exact ⟨_, rfl, abandoned⟩
  | false =>
    by_cases full : s.hasValue p = some true
    · obtain ⟨v, held⟩ := Option.ne_none_iff_exists'.mp ((agrees.hasValue_iff p).mp full)
      refine ⟨_, ?_, abandoned⟩
      rw [if_pos (by simp [full]), Storage.destroy_eq held]
      rfl
    · have empty : s.storage.value p = none := not_not.mp fun held => full ((agrees.hasValue_iff p).mpr held)
      refine ⟨_, ?_, agrees.set_none empty⟩
      rw [if_neg (by simp [full])]
      rfl

theorem destruct (agrees : Agrees s o) (p : Name ι) :
    ∃ s', destruct p s = .ok s' ∧ Agrees s' (Function.update o p none) := by
  obtain ⟨s', done, agrees'⟩ := agrees.reset p
  refine ⟨{ s' with hasValue := Function.update s'.hasValue p none }, by rw [Optional.destruct, done]; rfl, ?_, ?_,
    agrees'.accounted⟩
  · rw [agrees'.flags, flags_set, Function.update_idem]
    funext q
    exact (Function.apply_update (fun _ => Option.map Option.isSome) o p none q).symm
  · rw [agrees'.values, value_set]
    funext q
    exact (Function.apply_update (fun _ => Option.join) o p none q).symm

theorem emplace (agrees : Agrees s o) (p : Name ι) (v : C.Value p.kind) :
    ∃ s', emplace p v s = .ok s' ∧ Agrees s' (o.set p (some v)) := by
  obtain ⟨s', done, agrees'⟩ := agrees.reset p
  have empty : s'.storage.value p = none := by
    rw [agrees'.values, value_set, Function.update_self]
  obtain ⟨storage, constructed, value, accounted⟩ := Storage.construct_spec agrees'.accounted empty v
  have set := agrees'.set (some v) value accounted
  rw [set_set] at set
  refine ⟨_, ?_, set⟩
  rw [Optional.emplace, done]
  simp only [bind, Except.bind, constructed]
  rfl

/-- The storage holds a value then. The values that were there are left. -/
theorem defaultConstruct (agrees : Agrees s o) (p : Name ι) :
    ∃ storage v, defaultConstructStorageIfNeeded p s = .ok storage ∧ storage.Accounted ∧
      storage.value = Function.update s.storage.value p (some v) ∧
      ∀ q w, o.value q = some w → storage.value q = some w := by
  rw [defaultConstructStorageIfNeeded]
  by_cases full : s.hasValue p = some true
  · obtain ⟨v, held⟩ := Option.ne_none_iff_exists'.mp ((agrees.hasValue_iff p).mp full)
    refine ⟨s.storage, v, by rw [if_pos full]; rfl, agrees.accounted, ?_, fun q w given => ?_⟩
    · rw [← held, Function.update_eq_self]
    · rw [agrees.values, given]
  · have empty : s.storage.value p = none := not_not.mp fun held => full ((agrees.hasValue_iff p).mpr held)
    obtain ⟨storage, constructed, value, accounted⟩ :=
      Storage.construct_spec agrees.accounted empty (C.default p.kind)
    refine ⟨storage, C.default p.kind, by rw [if_neg full, constructed], accounted, value, fun q w given => ?_⟩
    have other : q ≠ p := by
      rintro rfl
      rw [← agrees.values, empty] at given
      cases given
    rw [value, Function.update_of_ne other, agrees.values, given]

theorem assign (agrees : Agrees s o) (p : Name ι) (v : C.Value p.kind) :
    ∃ s', assign p v s = .ok s' ∧ Agrees s' (o.set p (some v)) := by
  obtain ⟨storage, before, needed, accounted, value, -⟩ := agrees.defaultConstruct p
  have held : storage.value p = some before := by rw [value, Function.update_self]
  obtain ⟨storage', assigned, value', accounted'⟩ := Storage.assign_spec accounted held v
  rw [value, Function.update_idem] at value'
  refine ⟨_, ?_, agrees.set (some v) value' accounted'⟩
  rw [Optional.assign, needed]
  simp only [bind, Except.bind, assigned]
  rfl

variable {source target : Name ι} {convert : C.Value source.kind → C.Value target.kind}

theorem copyAssign (agrees : Agrees s o) {v : C.Value source.kind} (given : o.value source = some v) :
    ∃ s', copyAssign source target convert s = .ok s' ∧ Agrees s' (o.set target (some (convert v))) := by
  obtain ⟨storage, before, needed, accounted, value, kept⟩ := agrees.defaultConstruct target
  have held : storage.value target = some before := by rw [value, Function.update_self]
  obtain ⟨storage', assigned, value', accounted'⟩ := Storage.assign_spec accounted held (convert v)
  rw [value, Function.update_idem] at value'
  refine ⟨_, ?_, agrees.set (some (convert v)) value' accounted'⟩
  rw [Optional.copyAssign, needed]
  simp only [bind, Except.bind, Storage.read_eq (kept source v given), assigned]
  rfl

theorem moveValue {storage : Storage fun p : Name ι => C.Value p.kind} (accounted : storage.Accounted)
    {v : C.Value source.kind} (given : storage.value source = some v) {before : C.Value target.kind}
    (held : storage.value target = some before) :
    ∃ storage', moveValue source target convert storage = .ok storage' ∧ storage'.Accounted ∧ storage'.value =
      Function.update (Function.update storage.value target (some (convert v))) source (some (C.moved source.kind v)) := by
  obtain ⟨storage', assigned, value', accounted'⟩ := Storage.assign_spec accounted held (convert v)
  have still : ∃ between, storage'.value source = some between := by
    rw [value']
    by_cases own : source = target
    · subst own
      exact ⟨_, Function.update_self ..⟩
    · exact ⟨v, by rw [Function.update_of_ne own, given]⟩
  obtain ⟨between, still⟩ := still
  obtain ⟨storage'', moved, value'', accounted''⟩ := Storage.assign_spec accounted' still (C.moved source.kind v)
  refine ⟨storage'', ?_, accounted'', by rw [value'', value']⟩
  rw [Optional.moveValue, Storage.read_eq given]
  simp only [bind, Except.bind, assigned, moved]

/-- What has a value is moved. -/
theorem moveAssign (agrees : Agrees s o) {kind : ι} {source target : Nat} {v : C.Value kind}
    (given : o.value ⟨kind, source⟩ = some v) :
    ∃ s', moveAssign kind source target s = .ok s' ∧
      Agrees s' ((o.set ⟨kind, target⟩ (some v)).set ⟨kind, source⟩ (some (C.moved kind v))) := by
  obtain ⟨storage, before, needed, accounted, value, kept⟩ := agrees.defaultConstruct ⟨kind, target⟩
  have held : storage.value ⟨kind, target⟩ = some before := by rw [value, Function.update_self]
  obtain ⟨storage', moved, accounted', value'⟩ :=
    @moveValue ι C _ ⟨kind, source⟩ ⟨kind, target⟩ id storage accounted v (kept ⟨kind, source⟩ v given) before held
  have flag := agrees.flag_some given
  have still : Function.update s.hasValue ⟨kind, target⟩ (some true) ⟨kind, source⟩ = some true := by
    by_cases own : (⟨kind, source⟩ : Name ι) = ⟨kind, target⟩
    · rw [own, Function.update_self]
    · rw [Function.update_of_ne own, flag]
  refine ⟨{ storage := storage', hasValue := Function.update s.hasValue ⟨kind, target⟩ (some true) }, ?_, ?_, ?_,
    accounted'⟩
  · rw [Optional.moveAssign, needed]
    simp only [bind, Except.bind, moved]
    rfl
  · rw [flags_set, flags_set, ← agrees.flags]
    exact (Function.update_eq_self_iff.mpr still.symm).symm
  · rw [value_set, value_set, ← agrees.values, value', value, Function.update_idem]
    rfl

/-- A new object gets the value of another one, if that has one. -/
theorem copyConstruct (agrees : Agrees s o) (lives : o source ≠ none) (new : o target = none) :
    ∃ s', copyConstruct source target convert s = .ok s' ∧ Agrees s' (o.set target ((o.value source).map convert)) := by
  have constructed := agrees.construct new
  have different : source ≠ target := by
    rintro rfl
    exact lives new
  have flag : (Optional.construct target s).hasValue source = some true ↔ o.value source ≠ none := by
    rw [constructed.hasValue_iff, constructed.values, value_set, Function.update_of_ne different]
  rw [Optional.copyConstruct]
  cases given : o.value source with
  | none => exact ⟨_, by rw [if_neg (by rw [flag, given]; exact not_not.mpr rfl)]; rfl, constructed⟩
  | some v =>
    obtain ⟨s', assigned, agrees'⟩ := constructed.assign target (convert v)
    rw [set_set] at agrees'
    have read : (Optional.construct target s).storage.value source = some v := by
      rw [constructed.values, value_set, Function.update_of_ne different, given]
    refine ⟨s', ?_, agrees'⟩
    rw [if_pos (flag.mpr (by rw [given]; exact Option.some_ne_none v))]
    simp only [bind, Except.bind, Storage.read_eq read, assigned]

/-- A new object that is moved to from one without a value has none. -/
theorem moveConstruct (agrees : Agrees s o) (lives : o source ≠ none) (new : o target = none)
    (none_ : o.value source = none) :
    ∃ s', moveConstruct source target convert s = .ok s' ∧ Agrees s' ((o.set target none).set source none) := by
  have constructed := agrees.construct new
  have different : source ≠ target := by
    rintro rfl
    exact lives new
  have flag : (Optional.construct target s).hasValue source ≠ some true :=
    constructed.flag_none (by rw [value_set, Function.update_of_ne different, none_])
  have same : (o.set target none).set source none = o.set target none := by
    apply Function.update_eq_self_iff.mpr
    rw [Options.set, Function.update_of_ne different]
    rw [Options.value] at none_
    cases own : o source with
    | none => exact absurd own lives
    | some v =>
      rw [own, Option.join_some] at none_
      rw [none_]
  rw [Optional.moveConstruct, same]
  exact ⟨_, by rw [if_neg flag]; rfl, constructed⟩

/-- A value that is moved to a new object is assigned to storage that holds none. -/
theorem moveConstruct_assigns (agrees : Agrees s o) (new : o target = none) {v : C.Value source.kind}
    (given : o.value source = some v) : Optional.moveConstruct source target convert s = .error .assigns := by
  have constructed := agrees.construct new
  have different : source ≠ target := by
    rintro rfl
    rw [Options.value, new] at given
    cases given
  have flag : (Optional.construct target s).hasValue source = some true :=
    constructed.flag_some (by rw [value_set, Function.update_of_ne different, given])
  obtain ⟨s', done, reset⟩ := constructed.reset target
  rw [set_set] at reset
  have read : s'.storage.value source = some v := by
    rw [reset.values, value_set, Function.update_of_ne different, given]
  have empty : s'.storage.value target = none := by rw [reset.values, value_set, Function.update_self]
  rw [Optional.moveConstruct, if_pos flag, done]
  simp only [bind, Except.bind, Optional.moveValue, Storage.read_eq read, Storage.assign_none empty]

end Agrees

/-! ## Runs -/

theorem bind_ok {α β : Type} {x : Except Fault α} {f : α → Except Fault β} {b : β} (ok : x >>= f = .ok b) :
    ∃ a, x = .ok a ∧ f a = .ok b := by
  cases x with
  | error fault => cases ok
  | ok a => exact ⟨a, rfl, ok⟩

theorem copyAssign_flag {source target : Name ι} {convert : C.Value source.kind → C.Value target.kind} {s s' : State C}
    (done : copyAssign source target convert s = .ok s') : s'.hasValue target = some true := by
  obtain ⟨_, -, done⟩ := bind_ok done
  obtain ⟨_, -, done⟩ := bind_ok done
  obtain ⟨_, -, done⟩ := bind_ok done
  rw [← Except.ok.inj done]
  exact Function.update_self ..

theorem moveAssign_flag {kind : ι} {source target : Nat} {s s' : State C}
    (done : moveAssign kind source target s = .ok s') : s'.hasValue ⟨kind, target⟩ = some true := by
  obtain ⟨_, -, done⟩ := bind_ok done
  obtain ⟨_, -, done⟩ := bind_ok done
  rw [← Except.ok.inj done]
  exact Function.update_self ..

variable {s : State C} {o : Options C}

theorem copyAssign_iff (agrees : Agrees s o) {source target : Name ι}
    {convert : C.Value source.kind → C.Value target.kind} :
    (∃ s', copyAssign source target convert s = .ok s' ∧ Agrees s' (o.set target ((o.value source).map convert))) ↔
      o.value source ≠ none := by
  cases given : o.value source with
  | none =>
    refine iff_of_false ?_ (not_not.mpr rfl)
    rintro ⟨s', done, agrees'⟩
    exact agrees'.flag_none (by rw [value_set, Function.update_self]; rfl) (copyAssign_flag done)
  | some v => exact iff_of_true (agrees.copyAssign given) (Option.some_ne_none v)

/-- An operation does what it is meant to exactly if its condition is met. -/
theorem step_iff (agrees : Agrees s o) {op : Op C} (possible : op.Possible o) :
    (∃ s', step s op = .ok s' ∧ Agrees s' (op.apply o)) ↔ op.Met o := by
  cases op with
  | construct p => exact iff_of_true ⟨_, rfl, agrees.construct possible⟩ trivial
  | constructValue p v =>
    obtain ⟨s', done, agrees'⟩ := (agrees.construct possible).emplace p v
    rw [set_set] at agrees'
    exact iff_of_true ⟨s', done, agrees'⟩ trivial
  | copyConstruct source target convert => exact iff_of_true (agrees.copyConstruct possible.1 possible.2) trivial
  | moveConstruct source target convert =>
    cases given : o.value source with
    | none =>
      refine iff_of_true ?_ given
      rw [Op.apply, given]
      exact agrees.moveConstruct possible.1 possible.2 given
    | some v =>
      refine iff_of_false ?_ (by rw [Op.Met, given]; exact Option.some_ne_none v)
      rintro ⟨s', done, -⟩
      rw [step, agrees.moveConstruct_assigns possible.2 given] at done
      cases done
  | destruct p => exact iff_of_true (agrees.destruct p) trivial
  | assign p v => exact iff_of_true (agrees.assign p v) trivial
  | copyAssign source target convert => exact copyAssign_iff agrees
  | convertMoveAssign source target convert => exact copyAssign_iff agrees
  | moveAssign kind source target =>
    cases given : o.value ⟨kind, source⟩ with
    | none =>
      refine iff_of_false ?_ (by rw [Op.Met, given]; exact not_not.mpr rfl)
      rintro ⟨s', done, agrees'⟩
      rw [Op.apply, given] at agrees'
      have none_ : ((o.set ⟨kind, target⟩ none).set ⟨kind, source⟩ none).value ⟨kind, target⟩ = none := by
        rw [value_set, value_set]
        by_cases own : (⟨kind, target⟩ : Name ι) = ⟨kind, source⟩
        · rw [own, Function.update_self]
        · rw [Function.update_of_ne own, Function.update_self]
      exact agrees'.flag_none none_ (moveAssign_flag done)
    | some v =>
      refine iff_of_true ?_ (by rw [Op.Met, given]; exact Option.some_ne_none v)
      rw [Op.apply, given]
      exact agrees.moveAssign given
  | reset p => exact iff_of_true (agrees.reset p) trivial
  | emplace p v => exact iff_of_true (agrees.emplace p v) trivial

/-- After every operation of a run the objects are what they are meant to be, exactly if the condition of each operation
is met. -/
theorem run_iff (agrees : Agrees s o) {ops : List (Op C)} (possible : Each (fun o op => op.Possible o) o ops) :
    (∀ done, done <+: ops → ∃ s', run s done = .ok s' ∧ Agrees s' (o.run done)) ↔ Each (fun o op => op.Met o) o ops := by
  induction ops generalizing s o with
  | nil =>
    refine iff_of_true (fun done before => ?_) trivial
    rw [List.prefix_nil.mp before]
    exact ⟨s, rfl, agrees⟩
  | cons op ops inductionHypothesis =>
    constructor
    · intro follows
      obtain ⟨s', done, agrees'⟩ := follows [op] (List.prefix_append [op] ops)
      obtain ⟨s₁, first, same⟩ := bind_ok (f := fun s => run s []) done
      obtain rfl : s₁ = s' := Except.ok.inj same
      refine ⟨(step_iff agrees possible.1).mp ⟨s₁, first, agrees'⟩, (inductionHypothesis agrees' possible.2).mp ?_⟩
      intro done before
      obtain ⟨s', more, final⟩ := follows (op :: done) ((List.prefix_cons_inj op).mpr before)
      obtain ⟨s₂, again, further⟩ := bind_ok (f := fun s => run s done) more
      obtain rfl := Except.ok.inj (first.symm.trans again)
      exact ⟨s', further, final⟩
    · rintro ⟨met, later⟩ done before
      rcases List.prefix_cons_iff.mp before with rfl | ⟨done, rfl, less⟩
      · exact ⟨s, rfl, agrees⟩
      · obtain ⟨s₁, first, agrees'⟩ := (step_iff agrees possible.1).mpr met
        obtain ⟨s', further, final⟩ := (inductionHypothesis agrees' possible.2).mpr later done less
        refine ⟨s', ?_, final⟩
        rw [run, List.foldlM_cons, first]
        exact further

/-- From the first object on, the objects are what they are meant to be after every operation, with a flag exactly where
the storage holds a value and every value destroyed once, exactly if only objects with a value are assigned and only
objects without one are moved to new objects. -/
theorem optional_iff (C : Classes ι) (ops : List (Op C)) (possible : Each (fun o op => op.Possible o) (Options.start C) ops) :
    (∀ done, done <+: ops → ∃ s, run (State.start C) done = .ok s ∧ Agrees s ((Options.start C).run done) ∧
        ∀ p, s.hasValue p = some true ↔ s.storage.value p ≠ none) ↔
      Each (fun o op => op.Met o) (Options.start C) ops := by
  rw [← run_iff start_agrees possible]
  constructor
  · intro follows done before
    obtain ⟨s, done, agrees, -⟩ := follows done before
    exact ⟨s, done, agrees⟩
  · intro follows done before
    obtain ⟨s, done, agrees⟩ := follows done before
    exact ⟨s, done, agrees, agrees.hasValue_iff⟩

/-- Numbers with a destructor of their own. -/
def numbers : Classes Unit where
  Value _ := Nat
  default _ := 0
  moved _ _ := 0
  trivial _ := false

/-- A value is copied, the copy is moved back, and both objects are destroyed. -/
def copied : List (Op numbers) :=
  [.constructValue ⟨(), 0⟩ (5 : Nat), .copyConstruct ⟨(), 0⟩ ⟨(), 1⟩ id, .moveAssign () 1 0, .destruct ⟨(), 0⟩,
    .destruct ⟨(), 1⟩]

/-- These operations meet the condition, so the objects are what they are meant to be. -/
theorem optional_iff_copy : Each (fun o op => op.Met o) (Options.start numbers) copied ∧
    ∀ done, done <+: copied → ∃ s, run (State.start numbers) done = .ok s ∧
      Agrees s ((Options.start numbers).run done) ∧ ∀ p, s.hasValue p = some true ↔ s.storage.value p ≠ none := by
  have met : Each (fun o op => op.Met o) (Options.start numbers) copied := by
    simp [copied, Each, Op.Met, Op.apply, Options.set, Options.value]
  refine ⟨met, (optional_iff numbers copied ?_).mpr met⟩
  simp [copied, Each, Op.Possible, Op.apply, Options.start, Options.set, Options.value]

/-- A new object that another one is moved to is assigned to before it holds a value. -/
theorem moved_assigns : ¬∀ ops : List (Op numbers), Each (fun o op => op.Possible o) (Options.start numbers) ops →
    ∃ s, run (State.start numbers) ops = .ok s ∧ Agrees s ((Options.start numbers).run ops) := by
  intro follows
  obtain ⟨s, done, -⟩ := follows [.constructValue ⟨(), 0⟩ (5 : Nat), .moveConstruct ⟨(), 0⟩ ⟨(), 1⟩ id]
    (by simp [Each, Op.Possible, Op.apply, Options.start, Options.set])
  have stopped : run (State.start numbers) [.constructValue ⟨(), 0⟩ (5 : Nat), .moveConstruct ⟨(), 0⟩ ⟨(), 1⟩ id] =
      .error .assigns := rfl
  rw [stopped] at done
  cases done

end Ospray.Optional

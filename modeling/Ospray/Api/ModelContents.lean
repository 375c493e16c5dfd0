import Mathlib.Data.Multiset.AddSub
import Ospray.Library.Runs
import Ospray.Library.Vectors

/-!
# The contents of a model under the three devices

A model holds its geometries and its volumes in two vectors, and every device has
its own copy of the four calls that edit them. The contract of those calls is
stated over multisets: an add inserts one occurrence, a remove deletes one
occurrence if there is one. The local device keeps it. The worker's removal of a
volume first appends the volume it is about to remove, and the distributed device
erases a single entry at the end that `std::remove` returns, which is the end of
the vector when nothing was removed.
-/

namespace Ospray

open Library.Runs
open Library.Vectors

/-- The calls of the API that edit the contents of a model. -/
inductive ModelCall (Geometry Volume : Type) where
  | addGeometry (geometry : Geometry)
  | removeGeometry (geometry : Geometry)
  | addVolume (volume : Volume)
  | removeVolume (volume : Volume)

/-- The two vectors of a model. -/
structure Model (Geometry Volume : Type) where
  geometry : List Geometry := []
  volume : List Volume := []
  deriving DecidableEq

variable {Geometry Volume : Type}

/-- What a model is for: which objects it holds, and how often. -/
structure Contents (Geometry Volume : Type) where
  geometry : Multiset Geometry := 0
  volume : Multiset Volume := 0

/-- A model holds the specified contents. -/
structure Model.Holds (model : Model Geometry Volume) (contents : Contents Geometry Volume) :
    Prop where
  geometry : (model.geometry : Multiset Geometry) = contents.geometry
  volume : (model.volume : Multiset Volume) = contents.volume

section Holds

variable {model : Model Geometry Volume} {contents : Contents Geometry Volume}

theorem Model.Holds.withGeometry (holds : model.Holds contents) {objects : List Geometry}
    {counts : Multiset Geometry} (same : (objects : Multiset Geometry) = counts) :
    Model.Holds { model with geometry := objects } { contents with geometry := counts } := by
  constructor
  · exact same
  · exact holds.volume

theorem Model.Holds.withVolume (holds : model.Holds contents) {objects : List Volume}
    {counts : Multiset Volume} (same : (objects : Multiset Volume) = counts) :
    Model.Holds { model with volume := objects } { contents with volume := counts } := by
  constructor
  · exact holds.geometry
  · exact same

theorem holds_empty : Model.Holds ({} : Model Geometry Volume) {} := by
  constructor
  · rfl
  · rfl

end Holds

variable [DecidableEq Geometry] [DecidableEq Volume]

/-- `find_if` for an object, then `erase` unless the end was reached. -/
def eraseFound {Object : Type} [DecidableEq Object] (objects : List Object) (object : Object) :
    List Object :=
  (eraseAt objects (findIf objects (fun held => object = held))).getD objects

/-- `erase` at what `std::remove` returns. -/
def eraseRemoved {Object : Type} [DecidableEq Object] (objects : List Object) (object : Object) :
    Option (List Object) :=
  eraseAt (remove objects object).1 (remove objects object).2

/-! ## The devices -/

namespace ISPCDevice

/-- Append a geometry to a model. -/
def addGeometry (model : Model Geometry Volume) (geometry : Geometry) : Model Geometry Volume :=
  { model with geometry := model.geometry ++ [geometry] }

/-- Erase the first occurrence of a geometry. -/
def removeGeometry (model : Model Geometry Volume) (geometry : Geometry) :
    Model Geometry Volume :=
  { model with geometry := eraseFound model.geometry geometry }

/-- Append a volume to a model. -/
def addVolume (model : Model Geometry Volume) (volume : Volume) : Model Geometry Volume :=
  { model with volume := model.volume ++ [volume] }

/-- Erase the first occurrence of a volume. -/
def removeVolume (model : Model Geometry Volume) (volume : Volume) : Model Geometry Volume :=
  { model with volume := eraseFound model.volume volume }

/-- The local device performs one call. -/
def perform (model : Model Geometry Volume) :
    ModelCall Geometry Volume → Option (Model Geometry Volume)
  | .addGeometry geometry => some (addGeometry model geometry)
  | .removeGeometry geometry => some (removeGeometry model geometry)
  | .addVolume volume => some (addVolume model volume)
  | .removeVolume volume => some (removeVolume model volume)

end ISPCDevice

namespace Mpi

/-- The work item that appends a geometry. -/
def AddGeometry.run (model : Model Geometry Volume) (geometry : Geometry) :
    Model Geometry Volume :=
  { model with geometry := model.geometry ++ [geometry] }

/-- The work item that appends a volume. -/
def AddVolume.run (model : Model Geometry Volume) (volume : Volume) : Model Geometry Volume :=
  { model with volume := model.volume ++ [volume] }

/-- The work item that erases the first occurrence of a geometry. -/
def RemoveGeometry.run (model : Model Geometry Volume) (geometry : Geometry) :
    Model Geometry Volume :=
  { model with geometry := eraseFound model.geometry geometry }

/-- The work item that removes a volume. It appends the volume before it erases
the first occurrence. -/
def RemoveVolume.run (model : Model Geometry Volume) (volume : Volume) : Model Geometry Volume :=
  { model with volume := eraseFound (model.volume ++ [volume]) volume }

/-- An offload worker performs one call. -/
def runWork (model : Model Geometry Volume) :
    ModelCall Geometry Volume → Option (Model Geometry Volume)
  | .addGeometry geometry => some (AddGeometry.run model geometry)
  | .removeGeometry geometry => some (RemoveGeometry.run model geometry)
  | .addVolume volume => some (AddVolume.run model volume)
  | .removeVolume volume => some (RemoveVolume.run model volume)

end Mpi

namespace MPIDistributedDevice

/-- Append a geometry to a model. -/
def addGeometry (model : Model Geometry Volume) (geometry : Geometry) : Model Geometry Volume :=
  { model with geometry := model.geometry ++ [geometry] }

/-- Append a volume to a model. -/
def addVolume (model : Model Geometry Volume) (volume : Volume) : Model Geometry Volume :=
  { model with volume := model.volume ++ [volume] }

/-- Erase one entry at the end `std::remove` returns for a geometry. -/
def removeGeometry (model : Model Geometry Volume) (geometry : Geometry) :
    Option (Model Geometry Volume) :=
  (eraseRemoved model.geometry geometry).map fun left => { model with geometry := left }

/-- Erase one entry at the end `std::remove` returns for a volume. -/
def removeVolume (model : Model Geometry Volume) (volume : Volume) :
    Option (Model Geometry Volume) :=
  (eraseRemoved model.volume volume).map fun left => { model with volume := left }

/-- The distributed device performs one call. Undefined behaviour has no result. -/
def perform (model : Model Geometry Volume) :
    ModelCall Geometry Volume → Option (Model Geometry Volume)
  | .addGeometry geometry => some (addGeometry model geometry)
  | .removeGeometry geometry => removeGeometry model geometry
  | .addVolume volume => some (addVolume model volume)
  | .removeVolume volume => removeVolume model volume

end MPIDistributedDevice

/-! ## The contract -/

/-- An add inserts one occurrence; a remove deletes one, if there is one. -/
def Contents.specified (contents : Contents Geometry Volume) :
    ModelCall Geometry Volume → Contents Geometry Volume
  | .addGeometry geometry => { contents with geometry := geometry ::ₘ contents.geometry }
  | .removeGeometry geometry => { contents with geometry := contents.geometry.erase geometry }
  | .addVolume volume => { contents with volume := volume ::ₘ contents.volume }
  | .removeVolume volume => { contents with volume := contents.volume.erase volume }

/-- After a history of calls on a new model, a device holds what the contract says. -/
def KeepsContents (device : Model Geometry Volume → ModelCall Geometry Volume →
    Option (Model Geometry Volume)) (calls : List (ModelCall Geometry Volume)) : Prop :=
  ∃ model, calls.foldlM device {} = some model ∧
    model.Holds (calls.foldl Contents.specified ({} : Contents Geometry Volume))

/-- All three devices hold the same contents, those of the contract. -/
def SameContents (calls : List (ModelCall Geometry Volume)) : Prop :=
  KeepsContents ISPCDevice.perform calls ∧ KeepsContents Mpi.runWork calls ∧
    KeepsContents MPIDistributedDevice.perform calls

/-! ## What one edit does -/

section Edits

variable {Object : Type}

theorem coe_append_one (objects : List Object) (object : Object) :
    ((objects ++ [object] : List Object) : Multiset Object) = object ::ₘ (objects : Multiset Object) := by
  rw [Multiset.cons_coe, Multiset.coe_eq_coe]
  exact List.perm_append_singleton object objects

variable [DecidableEq Object]

theorem eraseFound_eq (objects : List Object) (object : Object) :
    eraseFound objects object = objects.erase object := by
  rw [eraseFound, erase_found]
  by_cases present : object ∈ objects
  · rw [if_pos present, Option.getD_some]
  · rw [if_neg present, Option.getD_none, List.erase_of_not_mem present]

theorem eraseFound_append_one (objects : List Object) (object : Object) :
    ((eraseFound (objects ++ [object]) object : List Object) : Multiset Object) = objects := by
  rw [eraseFound_eq, ← Multiset.coe_erase, coe_append_one, Multiset.erase_cons_head]

/-- An erase that must delete one occurrence finds one: all entries from the last
one that would be left over onwards are copies of the object. -/
def Removable (objects : List Object) (object : Object) : Prop :=
  object ∈ objects ∧
    ∀ held ∈ objects.drop (objects.length - (objects.count object - 1)), held = object

/-- Erasing at what `std::remove` returns deletes one occurrence exactly from a
vector in which the object is present and whose last entries, one fewer than its
occurrences, are that object. -/
theorem eraseRemoved_iff (objects : List Object) (object : Object) :
    (∃ left, eraseRemoved objects object = some left ∧
      (left : Multiset Object) = (objects : Multiset Object).erase object) ↔
        Removable objects object := by
  have fits : (objects.drop (objects.length - (objects.count object - 1))).length =
      objects.count object - 1 := by
    have bounded : objects.count object ≤ objects.length := List.count_le_length
    rw [List.length_drop]
    omega
  rw [eraseRemoved, erase_removed, Removable]
  constructor
  · rintro ⟨left, erased, same⟩
    by_cases present : object ∈ objects
    · rw [if_pos present, Option.some.injEq] at erased
      rw [← erased, Multiset.coe_erase, Multiset.coe_eq_coe] at same
      exact ⟨present, (others_append_perm_erase present _ fits).mp same⟩
    · rw [if_neg present] at erased
      cases erased
  · rintro ⟨present, copies⟩
    refine ⟨_, if_pos present, ?_⟩
    rw [Multiset.coe_erase, Multiset.coe_eq_coe]
    exact (others_append_perm_erase present _ fits).mpr copies

end Edits

/-! ## What one call does -/

/-- The worker removes a volume only when there is none to remove. -/
def WorkerAdmissible (model : Model Geometry Volume) : ModelCall Geometry Volume → Prop
  | .removeVolume volume => volume ∉ model.volume
  | _ => True

/-- The distributed device removes an object that is present and whose further
occurrences are the last entries. -/
def DistributedAdmissible (model : Model Geometry Volume) : ModelCall Geometry Volume → Prop
  | .removeGeometry geometry => Removable model.geometry geometry
  | .removeVolume volume => Removable model.volume volume
  | _ => True

section Calls

variable {model : Model Geometry Volume} {contents : Contents Geometry Volume}

theorem append_specified {Object : Type} {objects : List Object} {counts : Multiset Object}
    (same : (objects : Multiset Object) = counts) (object : Object) :
    ((objects ++ [object] : List Object) : Multiset Object) = object ::ₘ counts := by
  rw [coe_append_one, same]

theorem eraseFound_specified {Object : Type} [DecidableEq Object] {objects : List Object}
    {counts : Multiset Object} (same : (objects : Multiset Object) = counts) (object : Object) :
    ((eraseFound objects object : List Object) : Multiset Object) = counts.erase object := by
  rw [eraseFound_eq, ← Multiset.coe_erase, same]

theorem ispc_step (holds : model.Holds contents) (call : ModelCall Geometry Volume) :
    ∃ next, ISPCDevice.perform model call = some next ∧ next.Holds (contents.specified call) := by
  cases call with
  | addGeometry geometry =>
    exact ⟨_, rfl, holds.withGeometry (append_specified holds.geometry geometry)⟩
  | removeGeometry geometry =>
    exact ⟨_, rfl, holds.withGeometry (eraseFound_specified holds.geometry geometry)⟩
  | addVolume volume =>
    exact ⟨_, rfl, holds.withVolume (append_specified holds.volume volume)⟩
  | removeVolume volume =>
    exact ⟨_, rfl, holds.withVolume (eraseFound_specified holds.volume volume)⟩

/-- A call on the worker keeps the contract exactly when it does not remove a
volume that is present: the removal leaves every count as it was. -/
theorem worker_step_iff (holds : model.Holds contents) (call : ModelCall Geometry Volume) :
    (∃ next, Mpi.runWork model call = some next ∧ next.Holds (contents.specified call)) ↔
      WorkerAdmissible model call := by
  cases call with
  | addGeometry geometry =>
    exact iff_of_true
      ⟨_, rfl, holds.withGeometry (append_specified holds.geometry geometry)⟩ trivial
  | removeGeometry geometry =>
    exact iff_of_true
      ⟨_, rfl, holds.withGeometry (eraseFound_specified holds.geometry geometry)⟩ trivial
  | addVolume volume =>
    exact iff_of_true ⟨_, rfl, holds.withVolume (append_specified holds.volume volume)⟩ trivial
  | removeVolume volume =>
    have unchanged := eraseFound_append_one model.volume volume
    constructor
    · rintro ⟨next, performed, after⟩ present
      obtain rfl := Option.some.inj performed
      have same : contents.volume = contents.volume.erase volume :=
        holds.volume.symm.trans (unchanged.symm.trans after.volume)
      have member : volume ∈ contents.volume := by
        rw [← holds.volume]
        exact present
      have shorter := Multiset.card_erase_lt_of_mem member
      rw [← same] at shorter
      exact Nat.lt_irrefl _ shorter
    · intro absent
      have nothing : contents.volume.erase volume = contents.volume := by
        apply Multiset.erase_of_notMem
        rw [← holds.volume]
        exact absent
      refine ⟨_, rfl, holds.withVolume ?_⟩
      rw [nothing, ← holds.volume]
      exact unchanged

/-- A call on the distributed device keeps the contract exactly when an object it
removes is present and its further occurrences are the last entries. -/
theorem distributed_step_iff (holds : model.Holds contents) (call : ModelCall Geometry Volume) :
    (∃ next, MPIDistributedDevice.perform model call = some next ∧
      next.Holds (contents.specified call)) ↔ DistributedAdmissible model call := by
  cases call with
  | addGeometry geometry =>
    exact iff_of_true
      ⟨_, rfl, holds.withGeometry (append_specified holds.geometry geometry)⟩ trivial
  | addVolume volume =>
    exact iff_of_true ⟨_, rfl, holds.withVolume (append_specified holds.volume volume)⟩ trivial
  | removeGeometry geometry =>
    rw [DistributedAdmissible, ← eraseRemoved_iff]
    constructor
    · rintro ⟨next, performed, after⟩
      obtain ⟨left, erased, rfl⟩ := Option.map_eq_some_iff.mp performed
      refine ⟨left, erased, ?_⟩
      rw [holds.geometry]
      exact after.geometry
    · rintro ⟨left, erased, same⟩
      rw [holds.geometry] at same
      exact ⟨_, Option.map_eq_some_iff.mpr ⟨left, erased, rfl⟩, holds.withGeometry same⟩
  | removeVolume volume =>
    rw [DistributedAdmissible, ← eraseRemoved_iff]
    constructor
    · rintro ⟨next, performed, after⟩
      obtain ⟨left, erased, rfl⟩ := Option.map_eq_some_iff.mp performed
      refine ⟨left, erased, ?_⟩
      rw [holds.volume]
      exact after.volume
    · rintro ⟨left, erased, same⟩
      rw [holds.volume] at same
      exact ⟨_, Option.map_eq_some_iff.mpr ⟨left, erased, rfl⟩, holds.withVolume same⟩

end Calls

/-! ## Histories of calls -/

theorem ispc_keepsContents (calls : List (ModelCall Geometry Volume)) :
    KeepsContents ISPCDevice.perform calls := by
  have always := (lockstep_iff Model.Holds (fun _ _ => True)
    (fun _ _ call holds => iff_of_true (ispc_step holds call) trivial)
    (@holds_empty Geometry Volume) calls).mpr
  exact always (fun _ _ _ _ _ => trivial) calls (List.prefix_refl calls)

/-- Over a history, the three devices hold the contents of the contract after
every call exactly when no call removes a volume that the worker's model holds,
and every object removed on the distributed device is present with its further
occurrences as the last entries of the vector. -/
theorem devices_sameContents_iff (calls : List (ModelCall Geometry Volume)) :
    (∀ done, done <+: calls → SameContents done) ↔
      ∀ done call, done ++ [call] <+: calls →
        (∀ model, done.foldlM Mpi.runWork {} = some model → WorkerAdmissible model call) ∧
        (∀ model, done.foldlM MPIDistributedDevice.perform {} = some model →
          DistributedAdmissible model call) := by
  have worker := lockstep_iff Model.Holds WorkerAdmissible
    (fun _ _ call holds => worker_step_iff holds call)
    (@holds_empty Geometry Volume) calls
  have distributed := lockstep_iff Model.Holds DistributedAdmissible
    (fun _ _ call holds => distributed_step_iff holds call)
    (@holds_empty Geometry Volume) calls
  constructor
  · intro same done call before
    constructor
    · exact worker.mp (fun done before => (same done before).2.1) done call before
    · exact distributed.mp (fun done before => (same done before).2.2) done call before
  · intro admissible done before
    refine ⟨ispc_keepsContents done, ?_, ?_⟩
    · exact worker.mpr (fun done call before => (admissible done call before).1) done before
    · exact distributed.mpr (fun done call before => (admissible done call before).2) done before

/-- A model with one volume, from which that volume is removed: the worker still
holds it. -/
theorem removed_volume_stays :
    ¬ ∀ calls : List (ModelCall Nat Nat), SameContents calls := by
  intro same
  obtain ⟨-, ⟨model, performed, holds⟩, -⟩ := same [.addVolume 7, .removeVolume 7]
  have left : model = { volume := [7] } := (Option.some.inj performed).symm
  have emptied := holds.volume
  rw [left] at emptied
  simp [Contents.specified] at emptied

end Ospray

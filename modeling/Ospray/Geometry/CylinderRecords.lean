import Ospray.Geometry.SphereRecords

/-!
# Records of cylinders

Any number of cylinders is accepted. Most kernels read their fields by offsets of 32 bits, with a
sign or without, and only the areas are computed with offsets of 64 bits.
-/

namespace Ospray.Geometry

variable {ι : Type}

/-! ## Accepted cylinders -/

/-- The parameters of cylinders. -/
structure CylinderParams where
  bytes_per_cylinder : Option (BitVec 32)
  offset_v0 : Option (BitVec 32)
  offset_v1 : Option (BitVec 32)
  offset_radius : Option (BitVec 32)
  offset_materialID : Option (BitVec 32)
  offset_colorID : Option (BitVec 32)
  cylinderData : Option DataArray
  colorData : Option DataArray
  texcoordData : Option DataArray

/-- `Cylinders`, as the kernels know them. -/
structure CylinderRecords extends Records where
  offset_v0 : BitVec 32
  offset_v1 : BitVec 32
  offset_radius : BitVec 32
  offset_materialID : BitVec 32
  offset_colorID : BitVec 32
  color : Option Nat
  color_stride : BitVec 32
  has_alpha : Bool
  texcoord : Option Nat
  numCylinders : Nat

/-- `Cylinders::finalize`, up to what is handed to the kernels. -/
def CylinderParams.finalize (params : CylinderParams) : Except Failure CylinderRecords := do
  let bytesPerCylinder := params.bytes_per_cylinder.getD 24
  let cylinderData ← orFail "#ospray:geometry/cylinders: no 'cylinders' data specified" params.cylinderData
  if bytesPerCylinder = 0 then .error (.exception "#ospray:geometry/cylinders: no 'cylinders' data specified")
  else
    let colComps := if params.colorData.any fun colorData => colorData.type = .float3 then 3 else 4
    pure
      { data := cylinderData.data
        stride := bytesPerCylinder
        offset_v0 := params.offset_v0.getD 0
        offset_v1 := params.offset_v1.getD 12
        offset_radius := params.offset_radius.getD (-1)
        offset_materialID := params.offset_materialID.getD (-1)
        offset_colorID := params.offset_colorID.getD (-1)
        color := params.colorData.map DataArray.data
        color_stride := colComps * 4
        has_alpha := params.colorData.any fun colorData => colorData.type = .float4
        texcoord := params.texcoordData.map DataArray.data
        numCylinders := recordCount cylinderData bytesPerCylinder }

namespace CylinderRecords

/-! ## Kernels -/

variable (self : CylinderRecords) (addressing : IspcAddressing) (memory : Nat → BitVec 32) (primID : Nat)

/-- What a kernel reads of the shape of a cylinder through a pointer to it. -/
def shape (cylinderPtr : BitVec 64) : List Access :=
  self.fieldIfPresent primID cylinderPtr self.offset_radius ++
    [self.field primID cylinderPtr self.offset_v0, self.field primID cylinderPtr self.offset_v1]

/-- `Cylinders_bounds` -/
def bounds : List Access := self.shape primID (self.intPtr primID)

/-- `Cylinders_intersect_kernel`, where the number of the cylinder is unsigned. -/
def intersect : List Access := self.shape primID (self.unsignedPtr primID)

/-- `Cylinders_getMaterialID` -/
def getMaterialID : List Access := self.fieldIfPresent primID (self.intPtr primID) self.offset_materialID

/-- `Cylinders_sampleArea` -/
def sampleArea : List Access := self.shape primID (self.intPtr primID)

/-- `Cylinders_getAreas`, where the stride has 64 bits. -/
def getAreas : List Access := self.shape primID (self.int64Ptr primID)

/-- The color of a cylinder, by a product without a sign. -/
def colorAccess (color : Nat) : Access where
  address := BitVec.ofNat 64 color +
    addressing.laneOffset ((self.colorID memory self.offset_colorID primID * self.color_stride).setWidth 64)
  base := color
  stride := self.color_stride.toNat
  index := (self.storedColorID memory self.offset_colorID primID).toNat
  offset := 0

/-- What `Cylinders_postIntersect` reads for a color. -/
def colorReads : List Access :=
  match self.color with
  | some color =>
    self.fieldIfPresent primID (self.intPtr primID) self.offset_colorID ++
      [self.colorAccess addressing memory primID color]
  | none => []

/-- What `Cylinders_postIntersect` reads for a texture coordinate, of which there are two. -/
def texcoordReads : List Access :=
  match self.texcoord with
  | some texcoord => [element addressing texcoord 16 primID]
  | none => []

/-- `Cylinders_postIntersect` -/
def postIntersect (flags : Flags) : List Access :=
  onlyIf (flags.color = true) (self.colorReads addressing memory primID) ++
    onlyIf (flags.texcoord = true) (self.texcoordReads addressing primID) ++
    onlyIf (flags.materialID = true) (self.getMaterialID primID)

/-- All addresses that the kernels form for a cylinder are exact. -/
structure AddressesExact (cylinders : CylinderRecords) (addressing : IspcAddressing) (memory : Nat → BitVec 32)
    (primID : Nat) : Prop where
  bounds : ∀ access ∈ cylinders.bounds primID, access.Exact
  intersect : ∀ access ∈ cylinders.intersect primID, access.Exact
  postIntersect : ∀ flags, ∀ access ∈ cylinders.postIntersect addressing memory primID flags, access.Exact
  getMaterialID : ∀ access ∈ cylinders.getMaterialID primID, access.Exact
  sampleArea : ∀ access ∈ cylinders.sampleArea primID, access.Exact
  getAreas : ∀ access ∈ cylinders.getAreas primID, access.Exact

/-- A cylinder whose offset fits in 32 bits with a sign, and the offset of its color without one. -/
structure Addressable (cylinders : CylinderRecords) (addressing : IspcAddressing) (memory : Nat → BitVec 32)
    (primID : Nat) : Prop where
  record : cylinders.stride.toInt * primID < 2 ^ 31
  v0 : 0 ≤ cylinders.fieldPlace primID cylinders.offset_v0
  v1 : 0 ≤ cylinders.fieldPlace primID cylinders.offset_v1
  color : cylinders.color.isSome →
    cylinders.color_stride.toNat * (cylinders.storedColorID memory cylinders.offset_colorID primID).toNat < 2 ^ 32
  narrowColor : cylinders.color.isSome → addressing = .bits32 →
    cylinders.color_stride.toNat * (cylinders.storedColorID memory cylinders.offset_colorID primID).toNat < 2 ^ 31
  texcoord : cylinders.texcoord.isSome → addressing = .bits32 → 16 * primID < 2 ^ 31

/-! ## What is accepted -/

/-- What is known of a cylinder below the count. -/
structure Valid (cylinders : CylinderRecords) (primID : Nat) : Prop where
  holds : cylinders.Holds primID
  color : ∀ color, cylinders.color = some color → color < 2 ^ 63
  color_stride : cylinders.color_stride.toNat ≤ 16
  texcoord : ∀ texcoord, cylinders.texcoord = some texcoord → texcoord < 2 ^ 63

theorem valid_of_finalize {params : CylinderParams} {cylinders : CylinderRecords}
    (accepted : params.finalize = .ok cylinders) {primID : Nat} (below : primID < cylinders.numCylinders) :
    cylinders.Valid primID := by
  obtain ⟨cylinderData, -, accepted⟩ := bind_eq_ok accepted
  split at accepted
  · cases accepted
  obtain rfl := Except.ok.inj accepted
  obtain ⟨positive, inside⟩ := record_inside below
  refine ⟨⟨positive, inside⟩, fun _ => SphereRecords.data_lt, ?_, fun _ => SphereRecords.data_lt⟩
  dsimp only
  split <;> decide

/-! ## Exact addresses -/

section Exact

variable {self : CylinderRecords} {addressing : IspcAddressing} {memory : Nat → BitVec 32} {primID : Nat}

theorem forall_mem_shape {cylinderPtr : BitVec 64} {P : Access → Prop} :
    (∀ access ∈ self.shape primID cylinderPtr, P access) ↔
      (0 ≤ self.offset_radius.toInt → P (self.field primID cylinderPtr self.offset_radius)) ∧
        P (self.field primID cylinderPtr self.offset_v0) ∧ P (self.field primID cylinderPtr self.offset_v1) := by
  rw [shape, List.forall_mem_append, Records.forall_mem_fieldIfPresent, List.forall_mem_cons,
    List.forall_mem_singleton]

/-- A color is read exactly if its offset has no more than 32 bits, and the bits that lanes have for it. -/
theorem Valid.colorAccess_iff (valid : self.Valid primID) {color : Nat} (present : self.color = some color)
    (read : self.colorID memory self.offset_colorID primID = self.storedColorID memory self.offset_colorID primID) :
    (self.colorAccess addressing memory primID color).Exact ↔
      self.color_stride.toNat * (self.storedColorID memory self.offset_colorID primID).toNat < 2 ^ 32 ∧
        (addressing = .bits32 → self.color_stride.toNat * (self.storedColorID memory self.offset_colorID primID).toNat < 2 ^ 31) := by
  have inMemory := valid.color color present
  set index := self.storedColorID memory self.offset_colorID primID with index_def
  set offset := self.color_stride.toNat * index.toNat with offset_def
  have most : offset ≤ 16 * 2 ^ 32 := Nat.mul_le_mul valid.color_stride index.isLt.le
  have product : (index * self.color_stride).setWidth 64 = BitVec.ofInt 64 (offset % 2 ^ 32 : Nat) := by
    apply BitVec.eq_of_toNat_eq
    rw [BitVec.toNat_setWidth, BitVec.toNat_mul, BitVec.ofInt_natCast, BitVec.toNat_ofNat, Nat.mul_comm index.toNat]
  have formed : (self.colorAccess addressing memory primID color).address =
      BitVec.ofInt 64 (color + addressing.wrap (offset % 2 ^ 32 : Nat) + 0) := by
    dsimp only [colorAccess]
    rw [read, product, laneOffset_ofInt, Int.add_zero, BitVec.ofInt_add, BitVec.ofInt_natCast]
  have place : (self.colorAccess addressing memory primID color).place = color + offset := by
    rw [Access.place, offset_def]
    dsimp only [colorAccess]
    push_cast
    exact Int.add_zero _
  have element : (self.colorAccess addressing memory primID color).stride *
      (self.colorAccess addressing memory primID color).index = offset := by
    rw [offset_def]
    dsimp only [colorAccess]
    push_cast
    rfl
  obtain ⟨low, high⟩ := wrap_bounds addressing (Int.natCast_nonneg (offset % 2 ^ 32))
  rw [Access.exact_iff formed (by rw [element]; omega) fun _ => by rw [place]; omega, place, element]
  cases addressing with
  | bits32 =>
    obtain ⟨k, wrapped, fits⟩ := toInt_ofInt_eq (offset % 2 ^ 32 : Nat)
    rw [imp_iff_right rfl, IspcAddressing.wrap]
    rw [wrapped] at fits ⊢
    unfold Fits32 at fits
    omega
  | bits64 =>
    simp only [IspcAddressing.wrap, reduceCtorEq, false_imp_iff, and_true]
    omega

theorem Valid.colorReads_iff (valid : self.Valid primID) (small : self.stride.toInt * primID < 2 ^ 31) :
    (∀ access ∈ self.colorReads addressing memory primID, access.Exact) ↔
      (self.color.isSome →
        self.color_stride.toNat * (self.storedColorID memory self.offset_colorID primID).toNat < 2 ^ 32) ∧
      (self.color.isSome → addressing = .bits32 →
        self.color_stride.toNat * (self.storedColorID memory self.offset_colorID primID).toNat < 2 ^ 31) := by
  rw [colorReads]
  cases present : self.color with
  | none => simp
  | some color =>
    rw [List.forall_mem_append, Records.forall_mem_fieldIfPresent, List.forall_mem_singleton, valid.holds.intPtr_iff,
      valid.colorAccess_iff present (valid.holds.colorID_eq fun _ => small), Option.isSome_some, imp_iff_right rfl,
      imp_iff_right rfl]
    exact and_iff_right fun there => ⟨small, valid.holds.fieldPlace_nonneg there⟩

theorem Valid.texcoordReads_iff (valid : self.Valid primID) (small : primID < 2 ^ 31) :
    (∀ access ∈ self.texcoordReads addressing primID, access.Exact) ↔
      (self.texcoord.isSome → addressing = .bits32 → 16 * primID < 2 ^ 31) := by
  rw [texcoordReads]
  cases present : self.texcoord with
  | none => simp
  | some texcoord =>
    rw [List.forall_mem_singleton, element_iff addressing (valid.texcoord texcoord present) le_rfl small]
    exact (imp_iff_right rfl).symm

theorem postIntersect_iff :
    (∀ flags, ∀ access ∈ self.postIntersect addressing memory primID flags, access.Exact) ↔
      (∀ access ∈ self.colorReads addressing memory primID, access.Exact) ∧
      (∀ access ∈ self.texcoordReads addressing primID, access.Exact) ∧
      ∀ access ∈ self.getMaterialID primID, access.Exact := by
  simp only [postIntersect, List.forall_mem_append, forall_mem_onlyIf]
  constructor
  · intro all
    obtain ⟨⟨color, texcoord⟩, materialID⟩ := all ⟨true, true, true⟩
    exact ⟨color rfl, texcoord rfl, materialID rfl⟩
  · rintro ⟨color, texcoord, materialID⟩ flags
    exact ⟨⟨fun _ => color, fun _ => texcoord⟩, fun _ => materialID⟩

theorem Valid.shape_exact (valid : self.Valid primID) {cylinderPtr : BitVec 64}
    (formed : cylinderPtr = BitVec.ofInt 64 (self.data + self.stride.toInt * primID))
    (v0 : 0 ≤ self.fieldPlace primID self.offset_v0) (v1 : 0 ≤ self.fieldPlace primID self.offset_v1) :
    ∀ access ∈ self.shape primID cylinderPtr, access.Exact :=
  forall_mem_shape.mpr
    ⟨fun there => (valid.holds.field_iff_of_exact formed).mpr (valid.holds.fieldPlace_nonneg there),
      (valid.holds.field_iff_of_exact formed).mpr v0, (valid.holds.field_iff_of_exact formed).mpr v1⟩

/-- All addresses for a cylinder are exact if and only if the cylinder is addressable. -/
theorem addressesExact_iff (valid : self.Valid primID) :
    self.AddressesExact addressing memory primID ↔ self.Addressable addressing memory primID := by
  constructor
  · intro exact
    obtain ⟨-, v0, v1⟩ := forall_mem_shape.mp exact.bounds
    obtain ⟨record, start⟩ := valid.holds.intPtr_iff.mp v0
    obtain ⟨color, texcoord, -⟩ := postIntersect_iff.mp exact.postIntersect
    have number := valid.holds.le_offset
    obtain ⟨fits, narrow⟩ := (valid.colorReads_iff record).mp color
    exact ⟨record, start, (valid.holds.intPtr_iff.mp v1).2, fits, narrow,
      (valid.texcoordReads_iff (by omega)).mp texcoord⟩
  · rintro ⟨record, v0, v1, color, narrowColor, texcoord⟩
    have number := valid.holds.le_offset
    have narrow : ∀ access ∈ self.bounds primID, access.Exact :=
      forall_mem_shape.mpr ⟨fun there => valid.holds.intPtr_iff.mpr ⟨record, valid.holds.fieldPlace_nonneg there⟩,
        valid.holds.intPtr_iff.mpr ⟨record, v0⟩, valid.holds.intPtr_iff.mpr ⟨record, v1⟩⟩
    have material : ∀ access ∈ self.getMaterialID primID, access.Exact :=
      Records.forall_mem_fieldIfPresent.mpr fun there =>
        valid.holds.intPtr_iff.mpr ⟨record, valid.holds.fieldPlace_nonneg there⟩
    refine ⟨narrow, ?_, postIntersect_iff.mpr ⟨?_, ?_, material⟩, material, narrow, ?_⟩
    · exact valid.shape_exact (valid.holds.unsignedPtr_eq record) v0 v1
    · exact (valid.colorReads_iff record).mpr ⟨color, narrowColor⟩
    · exact (valid.texcoordReads_iff (by omega)).mpr texcoord
    · exact valid.shape_exact (Records.int64Ptr_eq (by omega)) v0 v1

end Exact

end CylinderRecords

/-! ## Spheres and cylinders -/

/-- The addresses for accepted spheres and cylinders are exact if and only if these are addressable. -/
theorem records_exact_iff (addressing : IspcAddressing) (memory : Nat → BitVec 32) {sphereParams : SphereParams}
    {spheres : SphereRecords} (acceptedSpheres : sphereParams.finalize = .ok spheres) {cylinderParams : CylinderParams}
    {cylinders : CylinderRecords} (acceptedCylinders : cylinderParams.finalize = .ok cylinders) :
    (∀ (lanes : List ι) (primID : ι → Nat), ∀ lane ∈ lanes, primID lane < spheres.numSpheres →
      (spheres.AddressesExact addressing memory lanes primID lane ↔
        spheres.Addressable addressing memory (primID lane))) ∧
    ∀ primID < cylinders.numCylinders,
      (cylinders.AddressesExact addressing memory primID ↔ cylinders.Addressable addressing memory primID) := by
  constructor
  · intro lanes primID lane active below
    exact SphereRecords.addressesExact_iff (SphereRecords.valid_of_finalize acceptedSpheres below) active
  · intro primID below
    exact CylinderRecords.addressesExact_iff (CylinderRecords.valid_of_finalize acceptedCylinders below)

/-! ## Default layouts -/

/-- An array of floats. -/
def floats (numItems : Nat) (inMemory : 4096 + numItems * 4 < 2 ^ 63) : DataArray where
  data := 4096
  numItems := numItems
  type := .float
  bytes := 4
  sized := rfl
  inMemory := inMemory

/-- Spheres with the default layout. -/
def plainSpheres (array : DataArray) : SphereParams where
  bytes_per_sphere := none
  offset_center := none
  offset_radius := none
  offset_materialID := none
  offset_colorID := none
  color_offset := none
  color_stride := none
  color_format := none
  sphereData := some array
  colorData := none
  texcoordData := none

/-- Cylinders with the default layout. -/
def plainCylinders (array : DataArray) : CylinderParams where
  bytes_per_cylinder := none
  offset_v0 := none
  offset_v1 := none
  offset_radius := none
  offset_materialID := none
  offset_colorID := none
  cylinderData := some array
  colorData := none
  texcoordData := none

/-- What the kernels know of two spheres with the default layout. -/
def twoSpheres : SphereRecords where
  data := 4096
  stride := 16
  offset_center := 0
  offset_radius := -1
  offset_materialID := -1
  offset_colorID := -1
  color := none
  color_offset := 0
  color_stride := 0
  color_format := .unknown
  texcoord := none
  numSpheres := 2
  huge_mesh := false

/-- What the kernels know of cylinders with the default layout. -/
def cylindersInRow (numCylinders : Nat) : CylinderRecords where
  data := 4096
  stride := 24
  offset_v0 := 0
  offset_v1 := 12
  offset_radius := -1
  offset_materialID := -1
  offset_colorID := -1
  color := none
  color_stride := 16
  has_alpha := false
  texcoord := none
  numCylinders := numCylinders

/-- Two spheres and two cylinders. -/
theorem records_exact_iff_two :
    (∀ (lanes : List Unit) (primID : Unit → Nat), ∀ lane ∈ lanes, primID lane < twoSpheres.numSpheres →
      (twoSpheres.AddressesExact .bits32 (fun _ => 0) lanes primID lane ↔
        twoSpheres.Addressable .bits32 (fun _ => 0) (primID lane))) ∧
    ∀ primID < (cylindersInRow 2).numCylinders,
      ((cylindersInRow 2).AddressesExact .bits32 (fun _ => 0) primID ↔
        (cylindersInRow 2).Addressable .bits32 (fun _ => 0) primID) :=
  @records_exact_iff Unit .bits32 (fun _ => 0) (plainSpheres (floats 8 (by decide))) twoSpheres rfl
    (plainCylinders (floats 12 (by decide))) (cylindersInRow 2) rfl

/-- With more than two gigabytes of cylinders the offsets of 32 bits wrap around. -/
theorem cylinders_wrap_around :
    (plainCylinders (floats 600000000 (by decide))).finalize = .ok (cylindersInRow 100000000) ∧
      89478486 < (cylindersInRow 100000000).numCylinders ∧
      ¬(cylindersInRow 100000000).AddressesExact .bits64 (fun _ => 0) 89478486 := by
  refine ⟨rfl, by decide, fun exact => ?_⟩
  have last := exact.bounds ((cylindersInRow 100000000).field 89478486
    ((cylindersInRow 100000000).intPtr 89478486) 12) (by simp [CylinderRecords.bounds, CylinderRecords.shape, cylindersInRow])
  revert last
  decide

end Ospray.Geometry

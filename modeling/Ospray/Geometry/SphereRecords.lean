import Mathlib.Tactic.LinearCombination
import Ospray.Geometry.Records

/-!
# Records of spheres

There are fewer than `2 ^ 30` spheres. The kernels read their fields, some by offsets of 64 bits,
some by offsets of 32 bits in pages of the records, and some by offsets of 32 bits alone.
-/

namespace Ospray.Geometry

open SafeGather Library.ForeachUnique

variable {ι : Type}

/-! ## Accepted spheres -/

/-- The parameters of spheres. -/
structure SphereParams where
  bytes_per_sphere : Option (BitVec 32)
  offset_center : Option (BitVec 32)
  offset_radius : Option (BitVec 32)
  offset_materialID : Option (BitVec 32)
  offset_colorID : Option (BitVec 32)
  color_offset : Option (BitVec 32)
  color_stride : Option (BitVec 32)
  color_format : Option DataType
  sphereData : Option DataArray
  colorData : Option DataArray
  texcoordData : Option DataArray

/-- `Spheres`, as the kernels know them. -/
structure SphereRecords extends Records where
  offset_center : BitVec 32
  offset_radius : BitVec 32
  offset_materialID : BitVec 32
  offset_colorID : BitVec 32
  color : Option Nat
  color_offset : BitVec 32
  color_stride : BitVec 32
  color_format : DataType
  texcoord : Option Nat
  numSpheres : Nat
  huge_mesh : Bool

/-- The formats of colors. -/
def colorFormats : List DataType := [.float4, .float3, .float3a, .uchar4]

/-- `colorFormat`, which is checked if there are colors. -/
def SphereParams.colorFormat (params : SphereParams) : Except Failure DataType :=
  match params.colorData with
  | some colorData =>
    let colorFormat := params.color_format.getD colorData.type
    if colorFormat ∉ colorFormats then
      .error (.exception ("#ospray:geometry/spheres: invalid colorFormat specified! Must be one of: " ++
        "OSP_FLOAT4, OSP_FLOAT3, OSP_FLOAT3A or OSP_UCHAR4."))
    else .ok colorFormat
  | none => .ok .unknown

/-- An array needs 64-bit addressing. -/
def needs64 : Option DataArray → Bool
  | some array => decide (array.numBytes > INT32_MAX)
  | none => false

/-- `Spheres::finalize`, up to what is handed to the kernels. -/
def SphereParams.finalize (params : SphereParams) : Except Failure SphereRecords := do
  let bytesPerSphere := params.bytes_per_sphere.getD 16
  let colorFormat ← params.colorFormat
  -- the guard value has no size
  let colorStride := params.color_stride.getD (BitVec.ofNat 32 (colorFormat.sizeOf.getD 0))
  let sphereData ← orFail "#ospray:geometry/spheres: no 'spheres' data specified" params.sphereData
  if bytesPerSphere = 0 then .error .divisionByZero
  else if recordCount sphereData bytesPerSphere ≥ 1 <<< 30 then
    .error (.exception ("#ospray::Spheres: too many spheres in this sphere geometry. Consider splitting this " ++
      "geometry in multiple geometries with fewer spheres (you can still put all those geometries into a single " ++
      "model, but you can't put that many spheres into a single geometry without causing address overflows)"))
  else
    pure
      { data := sphereData.data
        stride := bytesPerSphere
        offset_center := params.offset_center.getD 0
        offset_radius := params.offset_radius.getD (-1)
        offset_materialID := params.offset_materialID.getD (-1)
        offset_colorID := params.offset_colorID.getD (-1)
        color := params.colorData.map DataArray.data
        color_offset := params.color_offset.getD 0
        color_stride := colorStride
        color_format := colorFormat
        texcoord := params.texcoordData.map DataArray.data
        numSpheres := recordCount sphereData bytesPerSphere
        huge_mesh := needs64 params.colorData || needs64 params.texcoordData }

namespace SphereRecords

/-! ## Kernels -/

variable (self : SphereRecords) (addressing : IspcAddressing) (memory : Nat → BitVec 32) (lanes : List ι)
  (primID : ι → Nat) (lane : ι)

/-- What a kernel reads of the shape of a sphere through a pointer to it. -/
def shape (n : Nat) (spherePtr : BitVec 64) : List Access :=
  self.fieldIfPresent n spherePtr self.offset_radius ++ [self.field n spherePtr self.offset_center]

/-- `Spheres_bounds` -/
def bounds (n : Nat) : List Access := self.shape n (self.int64Ptr n)

/-- `Spheres_intersect_kernel` -/
def intersect (n : Nat) : List Access := self.shape n (self.int64Ptr n)

/-- `primsPerPage` -/
def primsPerPage : BitVec 32 := 1024 * 1024 * 64

/-- The pointers of `Spheres_getMaterialID` and `Spheres_sampleArea`; a page has an offset of 64 bits. -/
def pagedPtr : BitVec 64 :=
  let id := fun lane => BitVec.ofNat 32 (primID lane)
  if lanes.any fun lane => primsPerPage.sle (id lane) then
    let primPageID := fun lane => (id lane).sdiv primsPerPage
    let localPrimID := fun lane => (id lane).srem primsPerPage
    foreachUnique lanes primPageID
      (fun primPage lane =>
        let pagePtr := BitVec.ofNat 64 self.data +
          primPage.signExtend 64 * primsPerPage.signExtend 64 * self.stride.signExtend 64
        pagePtr + (self.stride * localPrimID lane).signExtend 64)
      (fun _ => 0) lane
  else BitVec.ofNat 64 self.data + (self.stride * id lane).signExtend 64

/-- `Spheres_getMaterialID` -/
def getMaterialID : List Access :=
  self.fieldIfPresent (primID lane) (self.pagedPtr lanes primID lane) self.offset_materialID

/-- `Spheres_sampleArea` -/
def sampleArea : List Access := self.shape (primID lane) (self.pagedPtr lanes primID lane)

/-- `Spheres_getAreas` -/
def getAreas (n : Nat) : List Access := self.fieldIfPresent n (self.int64Ptr n) self.offset_radius

/-- The pointer of `Spheres_postIntersect`, where the offset with 64 bits is added by the lanes. -/
def lanePtr (n : Nat) : BitVec 64 :=
  BitVec.ofNat 64 self.data +
    addressing.laneOffset (self.stride.signExtend 64 * (BitVec.ofNat 32 n).signExtend 64)

/-- The color of a sphere, by `gather_byte_stride_vec4f`, `gather_byte_stride_vec3f` or `gather_stride_uint32`. -/
def colorAccess (color : Nat) : Access where
  address := gatherStride lanes self.huge_mesh (BitVec.ofNat 64 color + self.color_offset.signExtend 64)
    self.color_stride (fun lane => self.colorID memory self.offset_colorID (primID lane)) lane
  base := color
  stride := self.color_stride.toInt
  index := (self.storedColorID memory self.offset_colorID (primID lane)).toNat
  offset := self.color_offset.toInt

/-- What `Spheres_postIntersect` reads for a color. -/
def colorReads : List Access :=
  match self.color with
  | some color =>
    self.fieldIfPresent (primID lane) (self.intPtr (primID lane)) self.offset_colorID ++
      onlyIf (self.color_format ∈ colorFormats) [self.colorAccess memory lanes primID lane color]
  | none => []

/-- What `Spheres_postIntersect` reads for a texture coordinate. -/
def texcoordReads (n : Nat) : List Access :=
  match self.texcoord with
  | some texcoord => [element addressing texcoord 8 n]
  | none => []

/-- `Spheres_postIntersect` -/
def postIntersect (flags : Flags) : List Access :=
  self.fieldIfPresent (primID lane) (self.lanePtr addressing (primID lane)) self.offset_radius ++
    onlyIf (flags.color = true) (self.colorReads memory lanes primID lane) ++
    onlyIf (flags.texcoord = true) (self.texcoordReads addressing (primID lane)) ++
    onlyIf (flags.materialID = true) (self.getMaterialID lanes primID lane)

/-- All addresses that the kernels form for the sphere of a lane are exact. -/
structure AddressesExact (spheres : SphereRecords) (addressing : IspcAddressing) (memory : Nat → BitVec 32)
    (lanes : List ι) (primID : ι → Nat) (lane : ι) : Prop where
  bounds : ∀ access ∈ spheres.bounds (primID lane), access.Exact
  intersect : ∀ access ∈ spheres.intersect (primID lane), access.Exact
  postIntersect : ∀ flags, ∀ access ∈ spheres.postIntersect addressing memory lanes primID lane flags, access.Exact
  getMaterialID : ∀ access ∈ spheres.getMaterialID lanes primID lane, access.Exact
  sampleArea : ∀ access ∈ spheres.sampleArea lanes primID lane, access.Exact
  getAreas : ∀ access ∈ spheres.getAreas (primID lane), access.Exact

/-- The color of a sphere can be gathered: what is scaled with 32 bits fits, and in a huge mesh the index has no sign. -/
structure ColorAddressable (spheres : SphereRecords) (color index : Nat) : Prop where
  fits : Fits32 (spheres.color_stride.toInt * (if spheres.huge_mesh then index % 2 ^ 20 else index : Nat))
  sign : spheres.huge_mesh = true → index < 2 ^ 31 ∨ spheres.color_stride.toInt = 0
  nonneg : 0 ≤ color + spheres.color_stride.toInt * index + spheres.color_offset.toInt

/-- A sphere whose offsets fit in 32 bits wherever they have to. -/
structure Addressable (spheres : SphereRecords) (addressing : IspcAddressing) (memory : Nat → BitVec 32) (n : Nat) :
    Prop where
  page : spheres.stride.toInt * (n % 2 ^ 26 : Nat) < 2 ^ 31
  center : 0 ≤ spheres.fieldPlace n spheres.offset_center
  radius : addressing = .bits32 → 0 ≤ spheres.offset_radius.toInt → spheres.stride.toInt * n < 2 ^ 31
  colorID : spheres.color.isSome → 0 ≤ spheres.offset_colorID.toInt → spheres.stride.toInt * n < 2 ^ 31
  color : ∀ color, spheres.color = some color →
    spheres.ColorAddressable color (spheres.storedColorID memory spheres.offset_colorID n).toNat
  texcoord : spheres.texcoord.isSome → addressing = .bits32 → 8 * n < 2 ^ 31

/-! ## What is accepted -/

/-- What is known of a sphere below the count. -/
structure Valid (spheres : SphereRecords) (n : Nat) : Prop where
  holds : spheres.Holds n
  few : n < 2 ^ 30
  format : spheres.color.isSome → spheres.color_format ∈ colorFormats
  color : ∀ color, spheres.color = some color → color < 2 ^ 63
  texcoord : ∀ texcoord, spheres.texcoord = some texcoord → texcoord < 2 ^ 63

theorem data_lt {array : Option DataArray} {base : Nat} (present : array.map DataArray.data = some base) :
    base < 2 ^ 63 := by
  obtain ⟨data, -, rfl⟩ := Option.map_eq_some_iff.mp present
  exact (Nat.le_add_right _ _).trans_lt data.inMemory

theorem colorFormat_spec {params : SphereParams} {format : DataType} (ok : params.colorFormat = .ok format)
    (present : params.colorData.isSome) : format ∈ colorFormats := by
  obtain ⟨colorData, some⟩ := Option.isSome_iff_exists.mp present
  simp only [SphereParams.colorFormat, some] at ok
  split at ok
  · cases ok
  · rename_i valid
    exact Except.ok.inj ok ▸ not_not.mp valid

theorem valid_of_finalize {params : SphereParams} {spheres : SphereRecords} (accepted : params.finalize = .ok spheres)
    {n : Nat} (below : n < spheres.numSpheres) : spheres.Valid n := by
  obtain ⟨format, formatted, accepted⟩ := bind_eq_ok accepted
  obtain ⟨sphereData, -, accepted⟩ := bind_eq_ok accepted
  split at accepted
  · cases accepted
  split at accepted
  · cases accepted
  rename_i few
  obtain rfl := Except.ok.inj accepted
  obtain ⟨positive, inside⟩ := record_inside below
  refine ⟨⟨positive, inside⟩, below.trans (Nat.not_le.mp few), fun present => ?_, fun _ => data_lt, fun _ => data_lt⟩
  exact colorFormat_spec formatted (by simpa using present)

/-! ## Exact addresses -/

namespace Valid

variable {self : SphereRecords} {addressing : IspcAddressing} {memory : Nat → BitVec 32} {lanes : List ι}
  {primID : ι → Nat} {lane : ι} {n : Nat}

theorem number (valid : self.Valid n) : (BitVec.ofNat 32 n).toInt = n :=
  toInt_ofNat_of_lt (valid.few.trans (by decide))

theorem page_number (valid : self.Valid n) :
    ((BitVec.ofNat 32 n).sdiv primsPerPage).toInt = (n / 2 ^ 26 : Nat) ∧
      (BitVec.ofNat 32 n).srem primsPerPage = BitVec.ofNat 32 (n % 2 ^ 26) := by
  have page : primsPerPage.toInt = 2 ^ 26 := by decide
  have few := valid.few
  constructor
  · rw [BitVec.toInt_sdiv, valid.number, page, Int.tdiv_eq_ediv_of_nonneg (Int.natCast_nonneg _), Int.bmod_def]
    split <;> omega
  · apply BitVec.eq_of_toInt_eq
    rw [BitVec.toInt_srem, valid.number, page, Int.tmod_eq_emod_of_nonneg (Int.natCast_nonneg _),
      toInt_ofNat_of_lt (by omega)]
    omega

/-- The offset in a page is a product of 32 bits. -/
theorem pagedPtr_eq (valid : self.Valid (primID lane)) (active : lane ∈ lanes) :
    self.pagedPtr lanes primID lane = BitVec.ofInt 64 (self.data +
      ((primID lane / 2 ^ 26 : Nat) * 2 ^ 26 * self.stride.toInt +
        (BitVec.ofInt 32 (self.stride.toInt * (primID lane % 2 ^ 26 : Nat))).toInt)) := by
  obtain ⟨page, localID⟩ := valid.page_number
  have page_toInt : primsPerPage.toInt = 2 ^ 26 := by decide
  rw [pagedPtr]
  split
  · refine (foreachUnique_apply active _).trans ?_
    dsimp only
    rw [localID, mul_ofNat, BitVec.signExtend, BitVec.signExtend, BitVec.signExtend, BitVec.signExtend, page, page_toInt,
      ← BitVec.ofInt_mul, ← BitVec.ofInt_mul, ← BitVec.ofInt_natCast, ← BitVec.ofInt_add, ← BitVec.ofInt_add, Int.add_assoc]
  · rename_i below
    -- without spheres beyond the first page, the sphere is in the first page
    have first : primID lane < 2 ^ 26 := by
      by_contra beyond
      refine below (List.any_eq_true.mpr ⟨lane, active, ?_⟩)
      rw [BitVec.sle_iff_toInt_le, page_toInt, valid.number]
      omega
    have zero : (primID lane / 2 ^ 26 : Nat) = 0 := by omega
    have same : primID lane % 2 ^ 26 = primID lane := Nat.mod_eq_of_lt first
    dsimp only
    rw [zero, same, mul_ofNat, BitVec.signExtend, ← BitVec.ofInt_natCast, ← BitVec.ofInt_add]
    congr 1
    omega

/-- A field is read exactly through a page if the offset in the page fits. -/
theorem pagedPtr_iff (valid : self.Valid (primID lane)) (active : lane ∈ lanes) {offset : BitVec 32} :
    (self.field (primID lane) (self.pagedPtr lanes primID lane) offset).Exact ↔
      self.stride.toInt * (primID lane % 2 ^ 26 : Nat) < 2 ^ 31 ∧ 0 ≤ self.fieldPlace (primID lane) offset := by
  obtain ⟨-, wrapped, low, high⟩ := toInt_ofInt_eq (self.stride.toInt * (primID lane % 2 ^ 26 : Nat))
  have positive := valid.holds.positive
  have most := BitVec.toInt_lt (x := self.stride)
  have parts : self.stride.toInt * primID lane =
      (primID lane / 2 ^ 26 : Nat) * 2 ^ 26 * self.stride.toInt + self.stride.toInt * (primID lane % 2 ^ 26 : Nat) := by
    have split : (primID lane : Int) = (primID lane / 2 ^ 26 : Nat) * 2 ^ 26 + (primID lane % 2 ^ 26 : Nat) := by omega
    nth_rewrite 1 [split]
    ring
  have inPage : 0 ≤ self.stride.toInt * (primID lane % 2 ^ 26 : Nat) :=
    Int.mul_nonneg positive.le (Int.natCast_nonneg _)
  have before : 0 ≤ (primID lane / 2 ^ 26 : Nat) * 2 ^ 26 * self.stride.toInt :=
    Int.mul_nonneg (Int.mul_nonneg (Int.natCast_nonneg _) (by decide)) positive.le
  have inside := valid.holds.inside
  rw [valid.holds.field_iff (valid.pagedPtr_eq active) (by omega) (by omega), parts, Int.add_right_inj,
    toInt_ofInt_iff, Fits32]
  refine and_congr_left' ⟨And.right, fun less => ⟨?_, less⟩⟩
  omega

theorem lanePtr_iff (valid : self.Valid n) {offset : BitVec 32} :
    (self.field n (self.lanePtr addressing n) offset).Exact ↔
      (addressing = .bits32 → self.stride.toInt * n < 2 ^ 31) ∧ 0 ≤ self.fieldPlace n offset := by
  have before := valid.holds.offset_nonneg
  have inside := valid.holds.inside
  obtain ⟨low, high⟩ := wrap_bounds addressing before
  have formed : self.lanePtr addressing n =
      BitVec.ofInt 64 (self.data + addressing.wrap (self.stride.toInt * n)) := by
    rw [lanePtr, BitVec.signExtend, BitVec.signExtend, valid.number, ← BitVec.ofInt_mul, laneOffset_ofInt,
      BitVec.ofInt_add, BitVec.ofInt_natCast]
  rw [valid.holds.field_iff formed (by omega) (by omega), wrap_eq_iff, Fits32]
  refine and_congr_left' (forall_congr' fun _ => ⟨And.right, fun less => ⟨?_, less⟩⟩)
  omega

end Valid

theorem scaled_bounds (stride : BitVec 32) {n bound : Int} (nonneg : 0 ≤ n) (le : n ≤ bound) :
    -(2 ^ 31 * bound) ≤ stride.toInt * n ∧ stride.toInt * n ≤ 2 ^ 31 * bound := by
  have least := Int.mul_le_mul_of_nonneg_right (BitVec.le_toInt stride) nonneg
  have most := Int.mul_le_mul_of_nonneg_right (BitVec.toInt_lt (x := stride)).le nonneg
  omega

/-- In a huge mesh the product is exact if the lower bits are scaled exactly, and the index has no sign. -/
theorem huge_product_iff (stride index : BitVec 32) :
    (index.toInt - index.toNat % 2 ^ 20) * stride.toInt +
        (BitVec.ofInt 32 (stride.toInt * (index.toNat % 2 ^ 20 : Nat))).toInt = stride.toInt * index.toNat ↔
      Fits32 (stride.toInt * (index.toNat % 2 ^ 20 : Nat)) ∧ (index.toNat < 2 ^ 31 ∨ stride.toInt = 0) := by
  obtain ⟨-, -, low, high⟩ := toInt_ofInt_eq (stride.toInt * (index.toNat % 2 ^ 20 : Nat))
  rw [← toInt_ofInt_iff]
  set scaled := (BitVec.ofInt 32 (stride.toInt * (index.toNat % 2 ^ 20 : Nat))).toInt with scaled_def
  by_cases small : index.toNat < 2 ^ 31
  · rw [BitVec.toInt_eq_toNat_of_lt (by omega), and_iff_left (Or.inl small)]
    push_cast
    constructor
    · intro same
      linear_combination same
    · intro same
      linear_combination same
  · have signed : index.toInt = index.toNat - 2 ^ 32 := by
      rw [BitVec.toInt_eq_toNat_cond, if_neg (by omega)]
      rfl
    rw [signed, or_iff_right small]
    constructor
    · intro same
      -- the scaled lower bits cannot make up for the sign
      have lower : ((index.toNat % 2 ^ 20 : Nat) : Int) = index.toNat % 2 ^ 20 := by omega
      have sum : scaled = stride.toInt * ((index.toNat % 2 ^ 20 : Nat) + 2 ^ 32) := by
        rw [lower]
        linear_combination same
      have zero : stride.toInt = 0 := by
        obtain negative | zero | positive := Int.lt_trichotomy stride.toInt 0
        · have most := Int.mul_le_mul_of_nonneg_right (Int.le_sub_one_of_lt negative)
            (by omega : (0 : Int) ≤ (index.toNat % 2 ^ 20 : Nat) + 2 ^ 32)
          omega
        · exact zero
        · have least := Int.mul_le_mul_of_nonneg_right (Int.add_one_le_of_lt positive)
            (by omega : (0 : Int) ≤ (index.toNat % 2 ^ 20 : Nat) + 2 ^ 32)
          omega
      refine ⟨?_, zero⟩
      rw [sum, zero, Int.zero_mul, Int.zero_mul]
    · rintro ⟨same, zero⟩
      rw [same, zero]
      ring

/-- What an index is scaled to. -/
def colorProduct (spheres : SphereRecords) (index : BitVec 32) : Int :=
  if spheres.huge_mesh then
    (index.toInt - index.toNat % 2 ^ 20) * spheres.color_stride.toInt +
      (BitVec.ofInt 32 (spheres.color_stride.toInt * (index.toNat % 2 ^ 20 : Nat))).toInt
  else (BitVec.ofInt 32 (spheres.color_stride.toInt * index.toNat)).toInt

section Colors

variable {self : SphereRecords} {memory : Nat → BitVec 32} {lanes : List ι} {primID : ι → Nat} {lane : ι} {color : Nat}

theorem colorProduct_eq_iff (index : BitVec 32) :
    self.colorProduct index = self.color_stride.toInt * index.toNat ↔
      Fits32 (self.color_stride.toInt * (if self.huge_mesh then index.toNat % 2 ^ 20 else index.toNat : Nat)) ∧
        (self.huge_mesh = true → index.toNat < 2 ^ 31 ∨ self.color_stride.toInt = 0) := by
  rw [colorProduct]
  cases self.huge_mesh with
  | true =>
    rw [if_pos rfl, if_pos rfl, huge_product_iff]
    exact and_congr_right' (imp_iff_right rfl).symm
  | false =>
    rw [if_neg Bool.false_ne_true, if_neg Bool.false_ne_true, toInt_ofInt_iff]
    exact (and_iff_left fun huge => absurd huge Bool.false_ne_true).symm

/-- A scaled index is off by less than all addresses. -/
theorem colorProduct_near (index : BitVec 32) :
    -2 ^ 64 < self.colorProduct index - self.color_stride.toInt * index.toNat ∧
      self.colorProduct index - self.color_stride.toInt * index.toNat < 2 ^ 64 := by
  have word := index.isLt
  rw [colorProduct]
  split
  · obtain ⟨-, -, low, high⟩ := toInt_ofInt_eq (self.color_stride.toInt * (index.toNat % 2 ^ 20 : Nat))
    have upper : 0 ≤ index.toNat - (index.toInt - index.toNat % 2 ^ 20) ∧
        index.toNat - (index.toInt - index.toNat % 2 ^ 20) ≤ 2 ^ 32 + 2 ^ 20 := by
      rw [BitVec.toInt_eq_toNat_cond]
      split <;> omega
    obtain ⟨least, most⟩ := scaled_bounds self.color_stride upper.1 upper.2
    rw [Int.mul_sub] at least most
    rw [Int.mul_comm (index.toInt - _)]
    omega
  · obtain ⟨-, -, low, high⟩ := toInt_ofInt_eq (self.color_stride.toInt * index.toNat)
    obtain ⟨least, most⟩ := scaled_bounds self.color_stride (Int.natCast_nonneg index.toNat)
      (by omega : (index.toNat : Int) ≤ 2 ^ 32)
    omega

theorem product_le_of_eq {index : BitVec 32} (same : self.colorProduct index = self.color_stride.toInt * index.toNat) :
    self.color_stride.toInt * index.toNat ≤ 2 ^ 62 := by
  obtain ⟨fits, sign⟩ := (colorProduct_eq_iff index).mp same
  by_cases huge : self.huge_mesh = true
  · obtain small | zero := sign huge
    · exact (scaled_bounds self.color_stride (Int.natCast_nonneg index.toNat) (by omega : (index.toNat : Int) ≤ 2 ^ 31)).2
    · rw [zero, Int.zero_mul]
      decide
  · rw [if_neg huge] at fits
    have most := fits.2
    omega

theorem colorAccess_formed (active : lane ∈ lanes) {index : BitVec 32} (here : self.colorID memory self.offset_colorID (primID lane) = index) :
    (self.colorAccess memory lanes primID lane color).address =
      BitVec.ofInt 64 (color + self.colorProduct index + self.color_offset.toInt) := by
  have product : ∀ word : BitVec 32, word * self.color_stride = BitVec.ofInt 32 (self.color_stride.toInt * word.toNat) := by
    intro word
    rw [← mul_ofNat, BitVec.ofNat_toNat, BitVec.setWidth_eq, BitVec.mul_comm]
  have sum : ∀ n : Int, BitVec.ofNat 64 color + self.color_offset.signExtend 64 + BitVec.ofInt 64 n =
      BitVec.ofInt 64 (color + n + self.color_offset.toInt) := by
    intro n
    rw [BitVec.signExtend, ← BitVec.ofInt_natCast, ← BitVec.ofInt_add, ← BitVec.ofInt_add, Int.add_right_comm]
  dsimp only [colorAccess]
  rw [colorProduct]
  cases self.huge_mesh with
  | true => rw [gatherStride_huge_apply active, here, product, toNat_lo, if_pos rfl, sum]
  | false => rw [gatherStride_small, here, BitVec.mul_comm, product, if_neg Bool.false_ne_true, sum]

/-- A color is gathered exactly if it can be. -/
theorem colorAccess_iff (active : lane ∈ lanes) (inMemory : color < 2 ^ 63)
    (read : self.colorID memory self.offset_colorID (primID lane) = self.storedColorID memory self.offset_colorID (primID lane)) :
    (self.colorAccess memory lanes primID lane color).Exact ↔
      self.ColorAddressable color (self.storedColorID memory self.offset_colorID (primID lane)).toNat := by
  have room : self.colorProduct (self.storedColorID memory self.offset_colorID (primID lane)) =
      self.color_stride.toInt * (self.storedColorID memory self.offset_colorID (primID lane)).toNat →
      (self.colorAccess memory lanes primID lane color).place < 2 ^ 64 := by
    intro same
    have most := BitVec.toInt_lt (x := self.color_offset)
    have bound := product_le_of_eq same
    dsimp only [colorAccess, Access.place]
    omega
  rw [Access.exact_iff (colorAccess_formed active read) (colorProduct_near _) room]
  dsimp only [colorAccess, Access.place]
  rw [colorProduct_eq_iff]
  constructor
  · rintro ⟨⟨fits, sign⟩, nonneg⟩
    exact ⟨fits, sign, nonneg⟩
  · rintro ⟨fits, sign, nonneg⟩
    exact ⟨⟨fits, sign⟩, nonneg⟩

end Colors

/-! ## Kernels in total -/

section Exact

variable {self : SphereRecords} {addressing : IspcAddressing} {memory : Nat → BitVec 32} {lanes : List ι}
  {primID : ι → Nat} {lane : ι}

theorem forall_mem_shape {n : Nat} {spherePtr : BitVec 64} {P : Access → Prop} :
    (∀ access ∈ self.shape n spherePtr, P access) ↔
      (0 ≤ self.offset_radius.toInt → P (self.field n spherePtr self.offset_radius)) ∧
        P (self.field n spherePtr self.offset_center) := by
  rw [shape, List.forall_mem_append, Records.forall_mem_fieldIfPresent, List.forall_mem_singleton]

/-- After a hit a sphere is read for its epsilon, and for what the flags ask for. -/
theorem postIntersect_iff :
    (∀ flags, ∀ access ∈ self.postIntersect addressing memory lanes primID lane flags, access.Exact) ↔
      (0 ≤ self.offset_radius.toInt →
        (self.field (primID lane) (self.lanePtr addressing (primID lane)) self.offset_radius).Exact) ∧
      (∀ access ∈ self.colorReads memory lanes primID lane, access.Exact) ∧
      (∀ access ∈ self.texcoordReads addressing (primID lane), access.Exact) ∧
      ∀ access ∈ self.getMaterialID lanes primID lane, access.Exact := by
  simp only [postIntersect, List.forall_mem_append, Records.forall_mem_fieldIfPresent, forall_mem_onlyIf]
  constructor
  · intro all
    obtain ⟨⟨⟨radius, color⟩, texcoord⟩, materialID⟩ := all ⟨true, true, true⟩
    exact ⟨radius, color rfl, texcoord rfl, materialID rfl⟩
  · rintro ⟨radius, color, texcoord, materialID⟩ flags
    exact ⟨⟨⟨radius, fun _ => color⟩, fun _ => texcoord⟩, fun _ => materialID⟩

/-- The color of a sphere, and the field of it. -/
theorem colorReads_iff (valid : self.Valid (primID lane)) (active : lane ∈ lanes) :
    (∀ access ∈ self.colorReads memory lanes primID lane, access.Exact) ↔
      (self.color.isSome → 0 ≤ self.offset_colorID.toInt → self.stride.toInt * primID lane < 2 ^ 31) ∧
      ∀ color, self.color = some color →
        self.ColorAddressable color (self.storedColorID memory self.offset_colorID (primID lane)).toNat := by
  rw [colorReads]
  cases present : self.color with
  | none => simp
  | some color =>
    have format := valid.format (Option.isSome_of_eq_some present)
    have inMemory := valid.color color present
    simp only [List.forall_mem_append, Records.forall_mem_fieldIfPresent, forall_mem_onlyIf, List.forall_mem_singleton,
      imp_iff_right format, Option.isSome_some, true_imp_iff, Option.some.injEq, forall_eq']
    rw [valid.holds.intPtr_iff]
    constructor
    · rintro ⟨field, exact⟩
      have small := fun there => (field there).1
      exact ⟨small, (colorAccess_iff active inMemory (valid.holds.colorID_eq small)).mp exact⟩
    · rintro ⟨small, gathered⟩
      exact ⟨fun there => ⟨small there, valid.holds.fieldPlace_nonneg there⟩,
        (colorAccess_iff active inMemory (valid.holds.colorID_eq small)).mpr gathered⟩

theorem texcoordReads_iff (valid : self.Valid (primID lane)) :
    (∀ access ∈ self.texcoordReads addressing (primID lane), access.Exact) ↔
      (self.texcoord.isSome → addressing = .bits32 → 8 * primID lane < 2 ^ 31) := by
  rw [texcoordReads]
  cases present : self.texcoord with
  | none => simp
  | some texcoord =>
    have few := valid.few
    rw [List.forall_mem_singleton, element_iff addressing (valid.texcoord texcoord present) (by decide) (by omega)]
    exact (imp_iff_right rfl).symm

/-- All addresses for a sphere are exact if and only if the sphere is addressable. -/
theorem addressesExact_iff (valid : self.Valid (primID lane)) (active : lane ∈ lanes) :
    self.AddressesExact addressing memory lanes primID lane ↔ self.Addressable addressing memory (primID lane) := by
  have wide := @Records.int64Ptr_eq self.toRecords _ (valid.few.trans (by decide))
  constructor
  · intro exact
    obtain ⟨-, center⟩ := forall_mem_shape.mp exact.sampleArea
    obtain ⟨radius, color, texcoord, -⟩ := postIntersect_iff.mp exact.postIntersect
    obtain ⟨page, nonneg⟩ := (valid.pagedPtr_iff active).mp center
    obtain ⟨colorID, gathered⟩ := (colorReads_iff valid active).mp color
    exact ⟨page, nonneg, fun narrow there => (valid.lanePtr_iff.mp (radius there)).1 narrow, colorID, gathered,
      (texcoordReads_iff valid).mp texcoord⟩
  · rintro ⟨page, center, radius, colorID, gathered, texcoord⟩
    have paged : ∀ access ∈ self.getMaterialID lanes primID lane, access.Exact :=
      Records.forall_mem_fieldIfPresent.mpr fun there =>
        (valid.pagedPtr_iff active).mpr ⟨page, valid.holds.fieldPlace_nonneg there⟩
    have whole : ∀ access ∈ self.bounds (primID lane), access.Exact :=
      forall_mem_shape.mpr ⟨fun there => (valid.holds.field_iff_of_exact wide).mpr (valid.holds.fieldPlace_nonneg there),
        (valid.holds.field_iff_of_exact wide).mpr center⟩
    refine ⟨whole, whole, postIntersect_iff.mpr ⟨fun there => ?_, ?_, ?_, paged⟩, paged, ?_, ?_⟩
    · exact valid.lanePtr_iff.mpr ⟨fun narrow => radius narrow there, valid.holds.fieldPlace_nonneg there⟩
    · exact (colorReads_iff valid active).mpr ⟨colorID, gathered⟩
    · exact (texcoordReads_iff valid).mpr texcoord
    · exact forall_mem_shape.mpr ⟨fun there => (valid.pagedPtr_iff active).mpr
        ⟨page, valid.holds.fieldPlace_nonneg there⟩, (valid.pagedPtr_iff active).mpr ⟨page, center⟩⟩
    · exact Records.forall_mem_fieldIfPresent.mpr fun there =>
        (valid.holds.field_iff_of_exact wide).mpr (valid.holds.fieldPlace_nonneg there)

end Exact

end SphereRecords

end Ospray.Geometry

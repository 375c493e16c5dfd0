import Ospray.Common.DataTypes
import Ospray.Geometry.Meshes

/-!
# Records

Spheres and cylinders are records in an array of bytes. A record is found by its number and the
stride of the records, and a field by its offset in the record. Pointers have 64 bits, and most
numbers have 32, so that an address is exact only if nothing is lost on the way.
-/

namespace Ospray.Geometry

open SafeGather

/-! ## Machine numbers -/

/-- A number that an `int` can hold. -/
def Fits32 (n : Int) : Prop := -2 ^ 31 ≤ n ∧ n < 2 ^ 31

instance (n : Int) : Decidable (Fits32 n) := inferInstanceAs (Decidable (_ ∧ _))

theorem toInt_ofInt_eq (n : Int) :
    ∃ k, (BitVec.ofInt 32 n).toInt = n + 2 ^ 32 * k ∧ Fits32 (BitVec.ofInt 32 n).toInt := by
  refine ⟨-((n + 2 ^ 31) / 2 ^ 32), ?_⟩
  rw [BitVec.toInt_ofInt, Int.bmod_def, Fits32]
  split <;> omega

theorem toInt_ofInt_iff (n : Int) : (BitVec.ofInt 32 n).toInt = n ↔ Fits32 n := by
  obtain ⟨k, wrapped, fits⟩ := toInt_ofInt_eq n
  rw [wrapped] at fits ⊢
  unfold Fits32 at fits ⊢
  omega

theorem toInt_ofNat_of_lt {n : Nat} (small : n < 2 ^ 31) : (BitVec.ofNat 32 n).toInt = n := by
  rw [BitVec.toInt_eq_toNat_of_lt] <;> rw [BitVec.toNat_ofNat] <;> omega

theorem mul_ofNat (stride : BitVec 32) (n : Nat) : stride * BitVec.ofNat 32 n = BitVec.ofInt 32 (stride.toInt * n) := by
  rw [BitVec.ofInt_mul, BitVec.ofInt_toInt, BitVec.ofInt_natCast]

/-- `OSPRAY_ISPC_ADDRESSING`, the bits of the offsets that the lanes add to pointers. -/
inductive IspcAddressing where
  | bits32
  | bits64
  deriving DecidableEq

/-- The offset that a lane adds to a pointer. -/
def IspcAddressing.laneOffset : IspcAddressing → BitVec 64 → BitVec 64
  | .bits32, offset => (offset.setWidth 32).signExtend 64
  | .bits64, offset => offset

/-- What is left of an offset that a lane adds. -/
def IspcAddressing.wrap : IspcAddressing → Int → Int
  | .bits32, n => (BitVec.ofInt 32 n).toInt
  | .bits64, n => n

theorem laneOffset_ofInt (addressing : IspcAddressing) (n : Int) :
    addressing.laneOffset (BitVec.ofInt 64 n) = BitVec.ofInt 64 (addressing.wrap n) := by
  cases addressing with
  | bits32 =>
    have low : (BitVec.ofInt 64 n).setWidth 32 = BitVec.ofInt 32 n := by
      apply BitVec.eq_of_toNat_eq
      rw [BitVec.toNat_setWidth, BitVec.toNat_ofInt, BitVec.toNat_ofInt]
      omega
    rw [IspcAddressing.laneOffset, IspcAddressing.wrap, low, BitVec.signExtend]
  | bits64 => rfl

theorem wrap_eq_iff (addressing : IspcAddressing) (n : Int) :
    addressing.wrap n = n ↔ (addressing = .bits32 → Fits32 n) := by
  cases addressing with
  | bits32 => exact (toInt_ofInt_iff n).trans (imp_iff_right rfl).symm
  | bits64 => simp [IspcAddressing.wrap]

theorem wrap_bounds (addressing : IspcAddressing) {n : Int} (nonneg : 0 ≤ n) :
    -2 ^ 31 ≤ addressing.wrap n ∧ addressing.wrap n ≤ max n (2 ^ 31) := by
  cases addressing with
  | bits32 =>
    obtain ⟨-, -, low, high⟩ := toInt_ofInt_eq n
    exact ⟨low, high.le.trans (le_max_right _ _)⟩
  | bits64 => exact ⟨by rw [IspcAddressing.wrap]; omega, le_max_left _ _⟩

/-! ## Arrays -/

/-- `Data`, an array in the memory of a process, which is the lower half of all addresses. -/
structure DataArray where
  data : Nat
  numItems : Nat
  type : DataType
  bytes : Nat
  sized : type.sizeOf = some bytes
  inMemory : data + numItems * bytes < 2 ^ 63

/-- `numBytes` -/
def DataArray.numBytes (self : DataArray) : Nat := self.numItems * self.bytes

/-- An exception with its message, or a trap of the processor. -/
inductive Failure where
  | exception (what : String)
  | divisionByZero
  deriving DecidableEq

/-- The array of the records, or an exception. -/
def orFail (what : String) : Option DataArray → Except Failure DataArray
  | some array => .ok array
  | none => .error (.exception what)

/-- How many records an array has; a stride is made unsigned with 64 bits. -/
def recordCount (array : DataArray) (stride : BitVec 32) : Nat := array.numBytes / (stride.signExtend 64).toNat

/-- Where there are records, the stride is positive, and they lie in their array. -/
theorem record_inside {array : DataArray} {stride : BitVec 32} {n : Nat} (valid : n < recordCount array stride) :
    0 < stride.toInt ∧ array.data + stride.toInt * n < 2 ^ 63 := by
  have inMemory := array.inMemory
  rw [← DataArray.numBytes] at inMemory
  have word := stride.isLt
  have extended : (stride.signExtend 64).toNat = stride.toInt % 2 ^ 64 := by
    rw [BitVec.signExtend, BitVec.toNat_ofInt]
    omega
  have whole : (n + 1) * (stride.signExtend 64).toNat ≤ array.numBytes := by
    refine (Nat.le_div_iff_mul_le ?_).mp valid
    refine Nat.pos_of_ne_zero fun zero => ?_
    rw [recordCount, zero, Nat.div_zero] at valid
    exact Nat.not_lt_zero n valid
  have positive : 0 < stride.toInt := by
    refine lt_of_le_of_ne (Int.not_lt.mp fun negative => ?_) fun zero => ?_
    · have large : 2 ^ 64 - 2 ^ 31 ≤ (stride.signExtend 64).toNat := by
        have least := BitVec.le_toInt stride
        omega
      have least : (stride.signExtend 64).toNat ≤ (n + 1) * (stride.signExtend 64).toNat :=
        Nat.le_mul_of_pos_left _ n.succ_pos
      omega
    · rw [← zero] at extended
      have none : (stride.signExtend 64).toNat = 0 := by omega
      rw [recordCount, none, Nat.div_zero] at valid
      exact Nat.not_lt_zero n valid
  have same : ((stride.signExtend 64).toNat : Int) = stride.toInt := by
    have most := BitVec.toInt_lt (x := stride)
    omega
  refine ⟨positive, ?_⟩
  have within : ((n : Int) + 1) * stride.toInt ≤ array.numBytes := by
    rw [← same]
    exact_mod_cast whole
  have before : stride.toInt * n ≤ (n + 1) * stride.toInt := by
    rw [Int.add_mul, Int.one_mul, Int.mul_comm]
    omega
  omega

/-! ## Addresses -/

/-- An address that is formed, and the element that it is meant to be of. -/
structure Access where
  address : BitVec 64
  base : Nat
  stride : Int
  index : Nat
  offset : Int

namespace Access

/-- Where the element lies. -/
def place (self : Access) : Int := self.base + self.stride * self.index + self.offset

/-- The address is that of the element, as a mathematical integer. -/
def Exact (self : Access) : Prop := (self.address.toNat : Int) = self.place

instance (self : Access) : Decidable self.Exact := inferInstanceAs (Decidable (_ = _))

/-- An address is exact if and only if the product is, and the element lies at an address at all. -/
theorem exact_iff {access : Access} {product : Int}
    (formed : access.address = BitVec.ofInt 64 (access.base + product + access.offset))
    (near : -2 ^ 64 < product - access.stride * access.index ∧ product - access.stride * access.index < 2 ^ 64)
    (room : product = access.stride * access.index → access.place < 2 ^ 64) :
    access.Exact ↔ product = access.stride * access.index ∧ 0 ≤ access.place := by
  have wrapped : (access.address.toNat : Int) = (access.base + product + access.offset) % 2 ^ 64 := by
    rw [formed, BitVec.toNat_ofInt]
    omega
  rw [Exact, wrapped]
  unfold place at room ⊢
  constructor
  · intro same
    omega
  · rintro ⟨same, nonneg⟩
    have less := room same
    omega

end Access

/-- An element that a lane reads at its index of an array. -/
def element (addressing : IspcAddressing) (base bytes index : Nat) : Access where
  address := BitVec.ofNat 64 base +
    addressing.laneOffset ((BitVec.ofNat 32 index).signExtend 64 * BitVec.ofNat 64 bytes)
  base := base
  stride := bytes
  index := index
  offset := 0

/-- An element is read exactly if its offset has no sign in the bits that lanes have for it. -/
theorem element_iff (addressing : IspcAddressing) {base bytes index : Nat} (inMemory : base < 2 ^ 63)
    (few : bytes ≤ 16) (small : index < 2 ^ 31) :
    (element addressing base bytes index).Exact ↔ (addressing = .bits32 → bytes * index < 2 ^ 31) := by
  have most : (bytes : Int) * index ≤ 16 * 2 ^ 31 := by
    exact_mod_cast Nat.mul_le_mul few small.le
  have least : (0 : Int) ≤ bytes * index := Int.mul_nonneg (Int.natCast_nonneg _) (Int.natCast_nonneg _)
  obtain ⟨low, high⟩ := wrap_bounds addressing least
  have formed : (element addressing base bytes index).address =
      BitVec.ofInt 64 (base + addressing.wrap (bytes * index) + 0) := by
    dsimp only [element]
    rw [BitVec.signExtend, toInt_ofNat_of_lt small, ← BitVec.ofInt_natCast 64 bytes, ← BitVec.ofInt_mul,
      Int.mul_comm, laneOffset_ofInt, ← BitVec.ofInt_natCast, ← BitVec.ofInt_add, Int.add_zero]
  have place : (element addressing base bytes index).place = base + bytes * index := by
    rw [Access.place]
    exact Int.add_zero _
  rw [Access.exact_iff formed (by dsimp only [element]; omega) fun _ => by omega, place]
  dsimp only [element]
  rw [wrap_eq_iff, Fits32, ← Nat.cast_mul]
  constructor
  · rintro ⟨fits, -⟩ narrow
    have less := fits narrow
    omega
  · intro less
    refine ⟨fun narrow => ?_, by omega⟩
    have fits := less narrow
    omega

/-- The reads of a list that happen if a condition holds. -/
def onlyIf (condition : Prop) [Decidable condition] (reads : List Access) : List Access :=
  if condition then reads else []

theorem forall_mem_onlyIf {condition : Prop} [Decidable condition] {reads : List Access} {P : Access → Prop} :
    (∀ access ∈ onlyIf condition reads, P access) ↔ (condition → ∀ access ∈ reads, P access) := by
  by_cases holds : condition <;> simp [onlyIf, holds]

/-- What `postIntersect` is asked for. -/
structure Flags where
  color : Bool
  texcoord : Bool
  materialID : Bool

/-- Records in memory: their address and their stride. -/
structure Records where
  data : Nat
  stride : BitVec 32

namespace Records

variable (self : Records)

/-- A field of a record that is read through a pointer to the record. -/
def field (primID : Nat) (recordPtr : BitVec 64) (offset : BitVec 32) : Access where
  address := recordPtr + offset.signExtend 64
  base := self.data
  stride := self.stride.toInt
  index := primID
  offset := offset.toInt

/-- A field that the records need not have. -/
def fieldIfPresent (primID : Nat) (recordPtr : BitVec 64) (offset : BitVec 32) : List Access :=
  onlyIf (0 ≤ offset.toInt) [self.field primID recordPtr offset]

/-- A pointer to a record, with a product of `int`s. -/
def intPtr (primID : Nat) : BitVec 64 :=
  BitVec.ofNat 64 self.data + (self.stride * BitVec.ofNat 32 primID).signExtend 64

/-- A pointer to a record, with a product of an `int` and an `unsigned int`. -/
def unsignedPtr (primID : Nat) : BitVec 64 :=
  BitVec.ofNat 64 self.data + (self.stride * BitVec.ofNat 32 primID).setWidth 64

/-- A pointer to a record, with a product of 64 bits. -/
def int64Ptr (primID : Nat) : BitVec 64 :=
  BitVec.ofNat 64 self.data + self.stride.signExtend 64 * (BitVec.ofNat 32 primID).signExtend 64

/-- Where a field of a record lies. -/
def fieldPlace (primID : Nat) (offset : BitVec 32) : Int := self.data + self.stride.toInt * primID + offset.toInt

/-- The color of a primitive: what its field holds as it is read, or the number of the primitive. -/
def colorID (memory : Nat → BitVec 32) (offset_colorID : BitVec 32) (primID : Nat) : BitVec 32 :=
  if 0 ≤ offset_colorID.toInt then memory (self.intPtr primID + offset_colorID.signExtend 64).toNat
  else BitVec.ofNat 32 primID

/-- The color of a primitive: what its field holds, or the number of the primitive. -/
def storedColorID (memory : Nat → BitVec 32) (offset_colorID : BitVec 32) (primID : Nat) : BitVec 32 :=
  if 0 ≤ offset_colorID.toInt then memory (self.fieldPlace primID offset_colorID).toNat
  else BitVec.ofNat 32 primID

/-! ## Exact fields -/

/-- A record that lies in memory. -/
structure Holds (records : Records) (primID : Nat) : Prop where
  positive : 0 < records.stride.toInt
  inside : records.data + records.stride.toInt * primID < 2 ^ 63

variable {self} {primID : Nat} {offset : BitVec 32} {recordPtr : BitVec 64}

theorem int64Ptr_eq (small : primID < 2 ^ 31) :
    self.int64Ptr primID = BitVec.ofInt 64 (self.data + self.stride.toInt * primID) := by
  rw [int64Ptr, BitVec.signExtend, BitVec.signExtend, toInt_ofNat_of_lt small, BitVec.ofInt_add, BitVec.ofInt_mul,
    BitVec.ofInt_natCast, BitVec.ofInt_natCast]

namespace Holds

variable (holds : self.Holds primID)
include holds

theorem offset_nonneg : 0 ≤ self.stride.toInt * primID := Int.mul_nonneg holds.positive.le (Int.natCast_nonneg _)

theorem le_offset : (primID : Int) ≤ self.stride.toInt * primID :=
  le_mul_of_one_le_left (Int.natCast_nonneg _) holds.positive

theorem fieldPlace_nonneg (present : 0 ≤ offset.toInt) : 0 ≤ self.fieldPlace primID offset := by
  have before := holds.offset_nonneg
  rw [fieldPlace]
  omega

theorem field_iff {product : Int} (formed : recordPtr = BitVec.ofInt 64 (self.data + product))
    (low : -2 ^ 63 ≤ product) (high : product < 2 ^ 63 + 2 ^ 31) :
    (self.field primID recordPtr offset).Exact ↔
      product = self.stride.toInt * primID ∧ 0 ≤ self.fieldPlace primID offset := by
  have before := holds.offset_nonneg
  have inside := holds.inside
  have most := BitVec.toInt_lt (x := offset)
  refine Access.exact_iff ?_ ⟨?_, ?_⟩ fun _ => ?_
  · rw [field, formed, BitVec.signExtend, ← BitVec.ofInt_add]
  · dsimp only [field]
    omega
  · dsimp only [field]
    omega
  · dsimp only [field, Access.place]
    omega

theorem intPtr_iff :
    (self.field primID (self.intPtr primID) offset).Exact ↔
      self.stride.toInt * primID < 2 ^ 31 ∧ 0 ≤ self.fieldPlace primID offset := by
  obtain ⟨-, -, low, high⟩ := toInt_ofInt_eq (self.stride.toInt * primID)
  have before := holds.offset_nonneg
  have formed : self.intPtr primID =
      BitVec.ofInt 64 (self.data + (BitVec.ofInt 32 (self.stride.toInt * primID)).toInt) := by
    rw [intPtr, mul_ofNat, BitVec.signExtend, BitVec.ofInt_add, BitVec.ofInt_natCast]
  rw [holds.field_iff formed (by omega) (by omega), toInt_ofInt_iff, Fits32]
  refine and_congr_left' ⟨And.right, fun less => ⟨?_, less⟩⟩
  omega

theorem field_iff_of_exact (formed : recordPtr = BitVec.ofInt 64 (self.data + self.stride.toInt * primID)) :
    (self.field primID recordPtr offset).Exact ↔ 0 ≤ self.fieldPlace primID offset := by
  have before := holds.offset_nonneg
  have inside := holds.inside
  rw [holds.field_iff formed (by omega) (by omega)]
  exact and_iff_right rfl

theorem unsignedPtr_eq (small : self.stride.toInt * primID < 2 ^ 31) :
    self.unsignedPtr primID = BitVec.ofInt 64 (self.data + self.stride.toInt * primID) := by
  have before := holds.offset_nonneg
  rw [unsignedPtr, mul_ofNat, BitVec.ofInt_add, BitVec.ofInt_natCast]
  congr 1
  apply BitVec.eq_of_toNat_eq
  rw [BitVec.toNat_setWidth, BitVec.toNat_ofInt, BitVec.toNat_ofInt]
  omega

theorem colorID_eq {memory : Nat → BitVec 32} (small : 0 ≤ offset.toInt → self.stride.toInt * primID < 2 ^ 31) :
    self.colorID memory offset primID = self.storedColorID memory offset primID := by
  rw [colorID, storedColorID]
  split
  · rename_i present
    have exact : (self.field primID (self.intPtr primID) offset).Exact :=
      holds.intPtr_iff.mpr ⟨small present, holds.fieldPlace_nonneg present⟩
    have place : ((self.intPtr primID + offset.signExtend 64).toNat : Int) = self.fieldPlace primID offset := exact
    rw [← place, Int.toNat_natCast]
  · rfl

end Holds

theorem forall_mem_fieldIfPresent {P : Access → Prop} :
    (∀ access ∈ self.fieldIfPresent primID recordPtr offset, P access) ↔
      (0 ≤ offset.toInt → P (self.field primID recordPtr offset)) := by
  rw [fieldIfPresent, forall_mem_onlyIf]
  exact imp_congr_right fun _ => List.forall_mem_singleton

end Records

end Ospray.Geometry

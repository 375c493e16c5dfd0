import Ospray.Fb.LocalFrameBuffer

/-!
# Addresses in frame buffers

The number of pixels of a frame and the index of a pixel are products of two `int`s.
The color buffer is allocated with a product of `size_t`, the kernels of `LocalFB.ispc`
start their rows at a product of `uint64`; the other buffers are allocated with a
product of `int`, and the master of a distributed frame buffer finds the pixels of a
message with one.
-/

namespace Ospray

open Library.Loops

/-- The size of a frame: two `int`s, which the constructor asserts to be positive. -/
structure FrameSize extends Vec2i where
  positive : 0 < x ∧ 0 < y
  bounded : x < 2 ^ 31 ∧ y < 2 ^ 31
  deriving DecidableEq

/-- Some buffer besides the color buffer. -/
def Channels.any (channels : Channels) : Bool :=
  channels.hasDepthBuffer || channels.hasAccumBuffer || channels.hasVarianceBuffer ||
    channels.hasNormalBuffer || channels.hasAlbedoBuffer

namespace FrameSize

variable (size : FrameSize)

/-- The number of pixels. -/
def pixels : Nat := size.x * size.y

/-- What is left of a value in an `int`. -/
def asInt (value : Int) : Int := value.bmod (2 ^ 32)

/-- `size.x*size.y` as the number of elements of `alignedMalloc<T>`: a product of `int`s,
converted to a `size_t`. -/
def nElements : UInt64 := UInt64.ofInt (asInt (size.x * size.y))

/-- `sizeof` of a color. -/
def sizeofColor : ColorBufferFormat → UInt64
  | .none => 0
  | .rgba8 => 4
  | .srgba => 4
  | .rgba32f => 16

/-- The bytes of the color buffer: `sizeof(T)*size.x*size.y`, all in `size_t`. -/
def colorBytes (format : ColorBufferFormat) : UInt64 :=
  sizeofColor format * UInt64.ofNat size.x * UInt64.ofNat size.y

/-- The elements of the buffers that `LocalFrameBuffer` allocates: of the color buffer,
and of those for depth, accumulation, variance, normal and albedo. -/
def allocated (format : ColorBufferFormat) (channels : Channels) : List UInt64 :=
  (if format = .none then [] else [size.colorBytes format / sizeofColor format]) ++
    (if channels.hasDepthBuffer then [size.nElements] else []) ++
    (if channels.hasAccumBuffer then [size.nElements] else []) ++
    (if channels.hasVarianceBuffer then [size.nElements] else []) ++
    (if channels.hasNormalBuffer then [size.nElements] else []) ++
    (if channels.hasAlbedoBuffer then [size.nElements] else [])

/-- Where the kernels of `LocalFB.ispc` have moved a buffer to when they enter a row of
a region, in elements. -/
def rowPointer (region : Region) : Nat → UInt64
  | 0 => UInt64.ofNat region.lower.y * UInt64.ofNat size.x
  | row + 1 => rowPointer region row + UInt64.ofNat size.x

/-- `iix` of a lane in a chunk of the row. -/
def iix (programCount : Nat) (region : Region) (lane : Nat) : Nat → UInt32
  | 0 => UInt32.ofNat (region.lower.x + lane)
  | chunk + 1 => iix programCount region lane chunk + UInt32.ofNat programCount

/-- The element that a lane addresses. -/
def kernelIndex (target : Target) (region : Region) (step : Nat × Nat × Nat) : UInt64 :=
  size.rowPointer region step.1 + (iix target.programCount region step.2.2 step.2.1).toUInt64

/-- `iix + iiy * numPixels.x` of `DistributedFrameBuffer::processMessage`. -/
def masterIndex (x y : Nat) : Int := asInt (x + asInt (y * size.x))

/-- Every buffer has an element for every pixel, and every index is that of its pixel. -/
structure Addressed (target : Target) (format : ColorBufferFormat) (channels : Channels) :
    Prop where
  allocated : ∀ count ∈ size.allocated format channels, count.toNat = size.pixels
  kernels : ∀ (tile : Vec2i) (step : Nat × Nat × Nat),
    step ∈ localLoop target (tileRegion target.tileSize tile size.toVec2i).size →
      (size.kernelIndex target (tileRegion target.tileSize tile size.toVec2i) step).toNat =
        frameIndex target size.toVec2i (tileRegion target.tileSize tile size.toVec2i) step
  master : ∀ x y : Nat, x < size.x → y < size.y →
    size.masterIndex x y = ((x + y * size.x : Nat) : Int)

theorem asInt_of_lt {value : Int} (natural : 0 ≤ value) (small : value < 2 ^ 31) :
    asInt value = value := by
  rw [asInt, Int.bmod_def]
  omega

theorem asInt_bounds (value : Int) : -2 ^ 31 ≤ asInt value ∧ asInt value < 2 ^ 31 := by
  rw [asInt, Int.bmod_def]
  omega

theorem pixels_lt : size.pixels < 2 ^ 62 := by
  have width := size.bounded.1
  have height := size.bounded.2
  have product := Nat.mul_lt_mul'' width height
  exact product

/-- The product of `int`s is the number of pixels exactly below `2 ^ 31`. -/
theorem nElements_iff : size.nElements.toNat = size.pixels ↔ size.pixels < 2 ^ 31 := by
  have small := size.pixels_lt
  have product : ((size.x : Int) * size.y) = (size.pixels : Int) := by
    rw [pixels]
    push_cast
    rfl
  have left : size.nElements.toNat = (asInt size.pixels % 2 ^ 64).toNat := by
    have word : (asInt size.pixels % 2 ^ 64).toNat < 2 ^ 64 := by omega
    rw [nElements, product, UInt64.ofInt, UInt64.toNat_ofNat_of_lt' word]
  have bounds := asInt_bounds size.pixels
  rw [left]
  constructor
  · omega
  · intro fits
    rw [asInt_of_lt (by omega) (by omega)]
    omega

/-- The color buffer has an element for every pixel while its bytes fit into a `size_t`. -/
theorem colorElements (format : ColorBufferFormat) (some_ : format ≠ .none)
    (fits : size.pixels < 2 ^ 60) :
    (size.colorBytes format / sizeofColor format).toNat = size.pixels := by
  have width : (UInt64.ofNat size.x).toNat = size.x :=
    UInt64.toNat_ofNat_of_lt' (Nat.lt_trans size.bounded.1 (by decide))
  have height : (UInt64.ofNat size.y).toNat = size.y :=
    UInt64.toNat_ofNat_of_lt' (Nat.lt_trans size.bounded.2 (by decide))
  have bytes : ∀ element : Nat, element ≤ 16 →
      element * size.x % 2 ^ 64 * size.y % 2 ^ 64 = element * size.pixels := by
    intro element few
    have product : element * size.x * size.y = element * size.pixels := Nat.mul_assoc _ _ _
    have small : element * size.pixels ≤ 16 * size.pixels := Nat.mul_le_mul_right _ few
    rw [← Nat.mul_mod_mod, Nat.mod_mul_mod, Nat.mul_mod_mod, product]
    exact Nat.mod_eq_of_lt (by omega)
  rw [colorBytes, UInt64.toNat_div, UInt64.toNat_mul, UInt64.toNat_mul, width, height]
  cases format with
  | none => exact absurd rfl some_
  | rgba8 =>
    change 4 * size.x % 2 ^ 64 * size.y % 2 ^ 64 / 4 = _
    rw [bytes 4 (by decide), Nat.mul_div_cancel_left _ (by decide)]
  | srgba =>
    change 4 * size.x % 2 ^ 64 * size.y % 2 ^ 64 / 4 = _
    rw [bytes 4 (by decide), Nat.mul_div_cancel_left _ (by decide)]
  | rgba32f =>
    change 16 * size.x % 2 ^ 64 * size.y % 2 ^ 64 / 16 = _
    rw [bytes 16 (by decide), Nat.mul_div_cancel_left _ (by decide)]

/-- A row of a region starts at its first element in the frame. -/
theorem rowPointer_toNat (region : Region) (row : Nat) (inside : region.lower.y + row < size.y) :
    (size.rowPointer region row).toNat = (region.lower.y + row) * size.x := by
  have width : (UInt64.ofNat size.x).toNat = size.x :=
    UInt64.toNat_ofNat_of_lt' (Nat.lt_trans size.bounded.1 (by decide))
  have small := size.pixels_lt
  have below : ∀ rows, rows ≤ size.y → rows * size.x < 2 ^ 64 := by
    intro rows few
    have product : rows * size.x ≤ size.y * size.x := Nat.mul_le_mul_right _ few
    rw [pixels, Nat.mul_comm] at small
    omega
  induction row with
  | zero =>
    have height : (UInt64.ofNat region.lower.y).toNat = region.lower.y :=
      UInt64.toNat_ofNat_of_lt' (Nat.lt_trans (by omega)
        (Nat.lt_trans size.bounded.2 (by decide : 2 ^ 31 < 2 ^ 64)))
    rw [rowPointer, UInt64.toNat_mul, height, width, Nat.add_zero]
    exact Nat.mod_eq_of_lt (below _ (by omega))
  | succ row inductionHypothesis =>
    have next : (region.lower.y + row) * size.x + size.x = (region.lower.y + (row + 1)) * size.x := by
      rw [← Nat.add_assoc, Nat.succ_mul]
    rw [rowPointer, UInt64.toNat_add, inductionHypothesis (by omega), width, next]
    exact Nat.mod_eq_of_lt (below _ (by omega))

theorem iix_toNat (programCount : Nat) (region : Region) (lane chunk : Nat)
    (small : region.lower.x + (chunk * programCount + lane) < 2 ^ 32) :
    (iix programCount region lane chunk).toNat =
      region.lower.x + (chunk * programCount + lane) := by
  induction chunk with
  | zero =>
    rw [iix, Nat.zero_mul, Nat.zero_add]
    rw [Nat.zero_mul, Nat.zero_add] at small
    exact UInt32.toNat_ofNat_of_lt' small
  | succ chunk inductionHypothesis =>
    rw [Nat.succ_mul] at small ⊢
    have lanes : (UInt32.ofNat programCount).toNat = programCount :=
      UInt32.toNat_ofNat_of_lt' (Nat.lt_of_le_of_lt (by omega) small)
    rw [iix, UInt32.toNat_add, inductionHypothesis (by omega), lanes]
    rw [Nat.mod_eq_of_lt (by omega)]
    omega

/-- The kernels address the pixel of the frame, whatever its size. -/
theorem kernelIndex_toNat (target : Target) (tile : Vec2i) (step : Nat × Nat × Nat)
    (visited : step ∈ localLoop target (tileRegion target.tileSize tile size.toVec2i).size) :
    (size.kernelIndex target (tileRegion target.tileSize tile size.toVec2i) step).toNat =
      frameIndex target size.toVec2i (tileRegion target.tileSize tile size.toVec2i) step := by
  have inside : (step.1, step.2.1 * target.programCount + step.2.2) ∈
      chunkLanes (tileRegion target.tileSize tile size.toVec2i).size.y
        (tileRegion target.tileSize tile size.toVec2i).size.x := by
    rw [← localLoop_pixels target]
    exact List.mem_map.mpr ⟨step, visited, rfl⟩
  obtain ⟨inRows, inColumns⟩ := (mem_chunkLanes _ _ _).mp inside
  have column := tileRegion_column target.tileSize tile size.toVec2i inColumns
  have row : (tileRegion target.tileSize tile size.toVec2i).lower.y + step.1 < size.y := by
    simp only [tileRegion, Region.size] at inRows ⊢
    omega
  have width := size.bounded.1
  have small := size.pixels_lt
  have rows : ((tileRegion target.tileSize tile size.toVec2i).lower.y + step.1) * size.x + size.x ≤
      size.pixels := by
    rw [pixels, Nat.mul_comm size.x, ← Nat.succ_mul]
    exact Nat.mul_le_mul_right _ row
  rw [kernelIndex, UInt64.toNat_add, UInt32.toNat_toUInt64, size.rowPointer_toNat _ _ row,
    iix_toNat _ _ _ _ (by omega), frameIndex]
  exact Nat.mod_eq_of_lt (by omega)

/-- The master's index is that of the pixel exactly when the latter is below `2 ^ 31`. -/
theorem masterIndex_iff (x y : Nat) :
    size.masterIndex x y = ((x + y * size.x : Nat) : Int) ↔ x + y * size.x < 2 ^ 31 := by
  have index : size.masterIndex x y = asInt ((x + y * size.x : Nat) : Int) := by
    simp only [masterIndex, asInt, Int.add_bmod_bmod]
    push_cast
    rfl
  have bounds := asInt_bounds ((x + y * size.x : Nat) : Int)
  rw [index]
  constructor
  · omega
  · intro small
    exact asInt_of_lt (by omega) (by omega)

/-- The buffers there are. -/
theorem mem_allocated (format : ColorBufferFormat) (channels : Channels) (count : UInt64) :
    count ∈ size.allocated format channels ↔
      (format ≠ .none ∧ count = size.colorBytes format / sizeofColor format) ∨
        (channels.any = true ∧ count = size.nElements) := by
  rw [allocated]
  generalize size.nElements = elements
  generalize size.colorBytes format / sizeofColor format = color
  simp only [List.mem_append, List.mem_ite_nil_left, List.mem_ite_nil_right, List.mem_singleton,
    Channels.any, Bool.or_eq_true]
  constructor
  · rintro (((((colored | depth) | accum) | variance) | normal) | albedo)
    · exact .inl colored
    · exact .inr ⟨.inl (.inl (.inl (.inl depth.1))), depth.2⟩
    · exact .inr ⟨.inl (.inl (.inl (.inr accum.1))), accum.2⟩
    · exact .inr ⟨.inl (.inl (.inr variance.1)), variance.2⟩
    · exact .inr ⟨.inl (.inr normal.1), normal.2⟩
    · exact .inr ⟨.inr albedo.1, albedo.2⟩
  · rintro (colored | ⟨((((depth | accum) | variance) | normal) | albedo), same⟩)
    · exact .inl (.inl (.inl (.inl (.inl colored))))
    · exact .inl (.inl (.inl (.inl (.inr ⟨depth, same⟩))))
    · exact .inl (.inl (.inl (.inr ⟨accum, same⟩)))
    · exact .inl (.inl (.inr ⟨variance, same⟩))
    · exact .inl (.inr ⟨normal, same⟩)
    · exact .inr ⟨albedo, same⟩

/-- For every size and format and all channels: the buffers have an element for every
pixel and all indices are right exactly up to `2 ^ 31` pixels, and below that number
when there is a buffer besides the color buffer. -/
theorem addressed_iff (target : Target) (format : ColorBufferFormat) (channels : Channels) :
    size.Addressed target format channels ↔
      size.pixels ≤ 2 ^ 31 ∧ (channels.any = true → size.pixels < 2 ^ 31) := by
  have last : size.x - 1 + (size.y - 1) * size.x + 1 = size.pixels := by
    obtain ⟨row, rows⟩ := Nat.exists_eq_add_one.mpr size.positive.2
    have width := size.positive.1
    rw [pixels, rows, Nat.add_sub_cancel, Nat.mul_comm size.x, Nat.succ_mul]
    omega
  constructor
  · rintro ⟨allocated, -, master⟩
    refine ⟨?_, ?_⟩
    · have corner := (size.masterIndex_iff _ _).mp
        (master (size.x - 1) (size.y - 1) (Nat.sub_lt size.positive.1 Nat.one_pos)
          (Nat.sub_lt size.positive.2 Nat.one_pos))
      omega
    · intro some_
      exact size.nElements_iff.mp (allocated _ ((size.mem_allocated format channels _).mpr
        (.inr ⟨some_, rfl⟩)))
  · rintro ⟨small, smaller⟩
    refine ⟨?_, size.kernelIndex_toNat target, ?_⟩
    · intro count member
      obtain ⟨colored, rfl⟩ | ⟨some_, rfl⟩ := (size.mem_allocated format channels count).mp member
      · exact size.colorElements format colored (by omega)
      · exact size.nElements_iff.mpr (smaller some_)
    · intro x y column row
      refine (size.masterIndex_iff x y).mpr ?_
      have below : y * size.x + size.x ≤ size.pixels := by
        rw [pixels, Nat.mul_comm size.x, ← Nat.succ_mul]
        exact Nat.mul_le_mul_right _ row
      omega

/-- An image of 65536 by 65536 pixels with a depth buffer: the product of `int`s is zero. -/
theorem depth_not_allocated :
    let size : FrameSize := ⟨⟨65536, 65536⟩, by decide, by decide⟩
    let channels : Channels := ⟨true, false, false, false, false, nofun⟩
    size.nElements ∈ size.allocated .rgba8 channels ∧ size.nElements.toNat = 0 ∧
      ∀ target, ¬ size.Addressed target .rgba8 channels := by
  intro size channels
  have none_ : size.nElements.toNat = 0 := by decide
  have member : size.nElements ∈ size.allocated .rgba8 channels :=
    (size.mem_allocated _ _ _).mpr (.inr ⟨rfl, rfl⟩)
  refine ⟨member, none_, ?_⟩
  rintro target ⟨allocated, -, -⟩
  have wrong := allocated _ member
  rw [none_] at wrong
  exact absurd wrong (by decide)

end FrameSize

end Ospray

import Mathlib.Algebra.Order.Group.Nat
import Ospray.Library.Loops
import Ospray.Fb.Tile

/-!
# The tiles of a frame

`createTiles` numbers the tiles of a frame row by row. A pixel of the frame lies
in the region of exactly one tile, which integer division finds, and the tile
stores it at an index that division finds as well. Tiles are dealt out to the
ranks in turn.
-/

namespace Ospray

open Library.Loops

theorem tile_size_pos : 0 < 64 := by decide

/-- `numTiles` of a frame. -/
def numTiles (tileSize : Nat) (size : Vec2i) : Vec2i :=
  ⟨divRoundUp size.x tileSize, divRoundUp size.y tileSize⟩

/-- `getTotalTiles`. -/
def totalTiles (tileSize : Nat) (size : Vec2i) : Nat :=
  (numTiles tileSize size).x * (numTiles tileSize size).y

/-- The loops of `createTiles`: the first pixel of every tile, in the order of the
tile IDs. -/
def createTiles (tileSize : Nat) (size : Vec2i) : List Vec2i :=
  (List.range' 0 (numTiles tileSize size).y tileSize).flatMap fun y =>
    (List.range' 0 (numTiles tileSize size).x tileSize).map fun x => ⟨x, y⟩

/-- The coordinates `startNewFrame` computes for a tile ID. -/
def tileCoords (tileSize : Nat) (size : Vec2i) (tileID : Nat) : Vec2i :=
  let nx := (numTiles tileSize size).x
  ⟨tileID - tileID / nx * nx, tileID / nx⟩

/-- `TileDesc::begin`, the first pixel of a tile. -/
def tileBegin (tileSize : Nat) (size : Vec2i) (tileID : Nat) : Vec2i :=
  let coords := tileCoords tileSize size tileID
  ⟨coords.x * tileSize, coords.y * tileSize⟩

/-- `getTileIDof`. -/
def tileIDof (tileSize : Nat) (size pixel : Vec2i) : Nat :=
  pixel.x / tileSize + pixel.y / tileSize * (numTiles tileSize size).x

/-- Where a tile keeps a pixel of its region. -/
def tilePixel (tileSize : Nat) (pixel : Vec2i) : Nat :=
  pixel.x % tileSize + pixel.y % tileSize * tileSize

section Grid

variable {tileSize : Nat} {size : Vec2i}

theorem tileCoords_eq (tileID : Nat) :
    tileCoords tileSize size tileID =
      ⟨tileID % (numTiles tileSize size).x, tileID / (numTiles tileSize size).x⟩ := by
  have split := Nat.div_add_mod tileID (numTiles tileSize size).x
  rw [Nat.mul_comm] at split
  unfold tileCoords
  simp only [Vec2i.mk.injEq, and_true]
  omega

theorem range'_stride (count stride : Nat) :
    List.range' 0 count stride = (List.range count).map (· * stride) := by
  refine List.ext_getElem (by simp) ?_
  intro i _ _
  simp [Nat.mul_comm]

theorem createTiles_eq :
    createTiles tileSize size =
      (List.range (totalTiles tileSize size)).map (tileBegin tileSize size) := by
  have rows : createTiles tileSize size =
      (chunkLanes (numTiles tileSize size).y (numTiles tileSize size).x).map
        (fun step => ⟨step.2 * tileSize, step.1 * tileSize⟩) := by
    unfold createTiles chunkLanes
    simp only [range'_stride, List.flatMap_map, List.map_flatMap, List.map_map]
    rfl
  unfold totalTiles
  rw [rows, Nat.mul_comm, ← chunkLanes_index, List.map_map]
  refine List.map_congr_left ?_
  rintro ⟨row, col⟩ member
  have inRow := ((mem_chunkLanes _ _ _).mp member).2
  have positive : 0 < (numTiles tileSize size).x := Nat.zero_lt_of_lt inRow
  simp only [Function.comp_apply, tileBegin, tileCoords_eq, Nat.mod_eq_of_lt inRow, Nat.mul_comm row, Nat.mul_add_div positive,
    Nat.div_eq_of_lt inRow, Nat.add_zero, Nat.mul_add_mod]

/-- A coordinate of the frame lies in the tile that division names, and in no other. -/
theorem column_tile (positive : 0 < tileSize) {width x : Nat} (inside : x < width) (column : Nat) :
    (column * tileSize ≤ x ∧ x < min (column * tileSize + tileSize) width) ↔
      column = x / tileSize := by
  have split := Nat.div_add_mod x tileSize
  have rest := Nat.mod_lt x positive
  rw [Nat.mul_comm] at split
  constructor
  · rintro ⟨lower, upper⟩
    refine (Nat.div_eq_of_lt_le lower ?_).symm
    rw [Nat.succ_mul]
    omega
  · rintro rfl
    omega

theorem column_lt (positive : 0 < tileSize) {width x : Nat} (inside : x < width) :
    x / tileSize < divRoundUp width tileSize := by
  have enough := le_divRoundUp_mul width positive
  exact Nat.div_lt_of_lt_mul (by rw [Nat.mul_comm]; omega)

theorem tileIDof_lt (positive : 0 < tileSize) {pixel : Vec2i} (inRow : pixel.x < size.x)
    (inColumn : pixel.y < size.y) :
    tileIDof tileSize size pixel < totalTiles tileSize size := by
  have column : pixel.x / tileSize < (numTiles tileSize size).x := column_lt positive inRow
  have row : pixel.y / tileSize < (numTiles tileSize size).y := column_lt positive inColumn
  have next := Nat.mul_le_mul_right (numTiles tileSize size).x (Nat.succ_le_of_lt row)
  rw [Nat.succ_mul] at next
  unfold tileIDof totalTiles
  rw [Nat.mul_comm (numTiles tileSize size).x]
  omega

/-- Every pixel of the frame belongs to exactly one tile. -/
theorem tileRegion_contains_iff (positive : 0 < tileSize) (pixel : Vec2i)
    (inRow : pixel.x < size.x) (inColumn : pixel.y < size.y) (tileID : Nat) :
    (tileRegion tileSize (tileCoords tileSize size tileID) size).Contains pixel ↔
      tileID = tileIDof tileSize size pixel := by
  have column : pixel.x / tileSize < divRoundUp size.x tileSize := column_lt positive inRow
  have named := column_tile positive inRow (tileID % (numTiles tileSize size).x)
  have placed := column_tile positive inColumn (tileID / (numTiles tileSize size).x)
  simp only [Region.Contains, tileRegion, tileCoords_eq, named, placed, tileIDof]
  have split := Nat.div_add_mod tileID (numTiles tileSize size).x
  constructor
  · rintro ⟨rest, quotient⟩
    rw [← rest, ← quotient, Nat.mul_comm]
    omega
  · rintro rfl
    have inside : pixel.x / tileSize < (numTiles tileSize size).x := column
    rw [Nat.add_mul_mod_self_right, Nat.mod_eq_of_lt inside,
      Nat.add_mul_div_right _ _ (Nat.zero_lt_of_lt inside), Nat.div_eq_of_lt inside, Nat.zero_add]
    exact ⟨rfl, rfl⟩

theorem tileBegin_covers_iff (positive : 0 < tileSize) {x y : Nat} (inRow : x < size.x)
    (inColumn : y < size.y) (tileID : Nat) :
    (((tileBegin tileSize size tileID).x ≤ x ∧ x < (tileBegin tileSize size tileID).x + tileSize) ∧
        (tileBegin tileSize size tileID).y ≤ y ∧
          y < (tileBegin tileSize size tileID).y + tileSize) ↔
      tileID = tileIDof tileSize size ⟨x, y⟩ := by
  rw [← tileRegion_contains_iff positive ⟨x, y⟩ inRow inColumn tileID]
  simp only [Region.Contains, tileRegion, tileBegin]
  omega

theorem tileBegin_tileIDof (positive : 0 < tileSize) {pixel : Vec2i} (inRow : pixel.x < size.x)
    (inColumn : pixel.y < size.y) :
    tileBegin tileSize size (tileIDof tileSize size pixel) =
      ⟨pixel.x / tileSize * tileSize, pixel.y / tileSize * tileSize⟩ := by
  have contains := (tileRegion_contains_iff positive pixel inRow inColumn _).mpr
    (rfl : tileIDof tileSize size pixel = _)
  have column := (column_tile positive inRow _).mp contains.1
  have row := (column_tile positive inColumn _).mp contains.2
  simp only [tileBegin, column, row]

/-- Column and row of a pixel within the region of its tile. -/
theorem tileRegion_offset (positive : 0 < tileSize) (pixel : Vec2i) (inRow : pixel.x < size.x)
    (inColumn : pixel.y < size.y) :
    let region := tileRegion tileSize
      (tileCoords tileSize size (tileIDof tileSize size pixel)) size
    (region.lower.x + pixel.x % tileSize = pixel.x ∧
        region.lower.y + pixel.y % tileSize = pixel.y) ∧
      pixel.x % tileSize < region.size.x ∧ pixel.y % tileSize < region.size.y := by
  intro region
  obtain ⟨⟨_, right⟩, _, upper⟩ := (tileRegion_contains_iff positive pixel inRow inColumn _).mpr
    (rfl : tileIDof tileSize size pixel = _)
  have begins : region.lower = _ := tileBegin_tileIDof positive inRow inColumn
  have columns := Nat.div_add_mod pixel.x tileSize
  have rows := Nat.div_add_mod pixel.y tileSize
  rw [Nat.mul_comm] at columns rows
  have left : region.lower.x + pixel.x % tileSize = pixel.x := by
    rw [begins]
    exact columns
  have lower : region.lower.y + pixel.y % tileSize = pixel.y := by
    rw [begins]
    exact rows
  refine ⟨⟨left, lower⟩, ?_, ?_⟩
  · exact Nat.lt_sub_of_add_lt (by rw [Nat.add_comm, left]; exact right)
  · exact Nat.lt_sub_of_add_lt (by rw [Nat.add_comm, lower]; exact upper)

end Grid

/-- `ownerIDFromTileID`, for `ranks` ranks of which the master is the first. -/
def ownerIDFromTileID (ranks : Nat) (masterIsAWorker : Bool) (tileID : Nat) : Nat :=
  if masterIsAWorker then tileID % ranks else 1 + tileID % (ranks - 1)

theorem ownerIDFromTileID_lt {ranks : Nat} {masterIsAWorker : Bool} (some : 0 < ranks)
    (workers : masterIsAWorker = false → 1 < ranks) (tileID : Nat) :
    ownerIDFromTileID ranks masterIsAWorker tileID < ranks := by
  cases masterIsAWorker with
  | true => exact Nat.mod_lt _ some
  | false =>
    have more := workers rfl
    have rest := Nat.mod_lt tileID (show 0 < ranks - 1 by omega)
    simp only [ownerIDFromTileID, Bool.false_eq_true, if_false]
    omega

end Ospray

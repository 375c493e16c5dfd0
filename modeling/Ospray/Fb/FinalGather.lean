import Ospray.Fb.FrameAddresses
import Ospray.Fb.TileCompletion
import Ospray.Maml.Context

/-!
# The final gather

Once the frame is closed on every rank, the ranks compress the messages in their
gather buffers and send them to the master. The master puts the compressed buffers
one behind the other, decompresses each of them to the place of its rank's messages,
and processes the messages side by side. Counts and offsets of bytes are `int`s there,
and so are the indices of the pixels.
-/

namespace Ospray

open Library.Loops Library.Runs Library.Buffers FrameSize

/-- The snappy library, assumed to be lossless for any length. Decompressing nothing fails
and writes nothing. -/
structure LosslessSnappy extends Maml.Snappy where
  lossless : ∀ data, rawUncompress (rawCompress data) = data
  rawUncompress_nil : rawUncompress [] = []

/-- The buffers into which the master gathers, with what earlier frames left there. -/
structure GatherBuffers where
  compressedResults : List UInt8
  tileGatherResult : List UInt8

/-- `error < (float)inf`. -/
def belowInfinity (error : FloatBits) : Bool :=
  error &&& 0x7f800000 != 0x7f800000 || error == 0xff800000

/-- The messages that a rank has appended. -/
def RankFrame.tileBytes (state : RankFrame) : List UInt8 :=
  read state.tileGatherBuffer 0 state.nextTileWrite

/-- What a rank sends. Without any bytes nothing is compressed. -/
def LosslessSnappy.sent (snappy : LosslessSnappy) (state : RankFrame) : List UInt8 :=
  if 0 < state.nextTileWrite then snappy.rawCompress state.tileBytes else []

/-- `offset` when the loop over `gatherSizes` reaches a rank. -/
def gatherOffset (gatherSizes : Nat → Nat) : Nat → Nat
  | 0 => 0
  | rank + 1 => gatherOffset gatherSizes rank + gatherSizes rank

/-- Whether the indices that `processMessage` computes are `int`s. -/
def MasterTileMessage.indicesFit {C E D V : Type} (msg : MasterTileMessage C E D V)
    (tileSize : Nat) (size : Vec2i) : Prop :=
  ∀ step ∈ chunkLanes tileSize tileSize, step.1 + msg.coords.y < size.y →
    step.2 + msg.coords.x < size.x →
      step.2 + msg.coords.x + (step.1 + msg.coords.y) * size.x < 2 ^ 31

instance {C E D V : Type} (msg : MasterTileMessage C E D V) (tileSize : Nat) (size : Vec2i) :
    Decidable (msg.indicesFit tileSize size) :=
  inferInstanceAs (Decidable (∀ step ∈ chunkLanes tileSize tileSize, _))

namespace DistributedFrame

section Gather

variable {E : Type} [LE E] [DecidableLE E] (frame : DistributedFrame E)
variable (C : Type) [PixelColor C]

/-- `tileBytesExpected`, an `int`. -/
def tileBytesExpected (rank : Nat) : Int :=
  asInt (frame.numTilesExpected rank * masterMsgSize C frame.channels frame.tileSize)

/-- `recvOffset` when the loop over the ranks reaches a rank, a `size_t`. -/
def recvOffset : Nat → Int
  | 0 => 0
  | rank + 1 => (recvOffset rank + frame.tileBytesExpected C rank) % 2 ^ 64

/-- `processOffsets`, which are `int`s. -/
def processOffsets (rank : Nat) : Int := asInt (frame.recvOffset C rank)

/-- `totalTilesExpected`. -/
def totalTilesExpected : Nat := ((List.range frame.ranks).map frame.numTilesExpected).sum

variable {C}

omit [LE E] [DecidableLE E] in
/-- An iteration of the last loop of `gatherFinalTiles`. -/
def processTile (tileGatherResult : List UInt8) (master : MasterFrame C FloatBits FloatBits Vec3f)
    (tile : Nat) : Option (MasterFrame C FloatBits FloatBits Vec3f) := do
  let tileSize := masterMsgSize C frame.channels frame.tileSize
  let msg ← readMessage C frame.tileSize (read tileGatherResult (tile * tileSize) tileSize)
  if msg.indicesFit frame.tileSize frame.size then
    some (processMessage frame.tileSize frame.size frame.channels belowInfinity master msg)
  else none

/-- `gatherFinalTiles` on the master, which processes the messages in some order. Bytes
that an `int` does not count are not gathered. -/
def gatherFinalTiles (snappy : LosslessSnappy) (states : Nat → RankFrame) (order : List Nat)
    (buffers : GatherBuffers) (master : MasterFrame C FloatBits FloatBits Vec3f) :
    Option (MasterFrame C FloatBits FloatBits Vec3f) := do
  let tileSize := masterMsgSize C frame.channels frame.tileSize
  let ranks := List.range frame.ranks
  let sent := fun rank => snappy.sent (states rank)
  let gatherSizes := fun rank => (sent rank).length
  let compressedOffsets := gatherOffset gatherSizes
  let offset := gatherOffset gatherSizes frame.ranks
  if offset < 2 ^ 31 then
    let compressedResults ← copyAll
      (ranks.map fun rank => ((compressedOffsets rank : Int), sent rank))
      (buffers.compressedResults.takeD offset 0)
    let tileGatherResult ← copyAll
      (ranks.map fun rank => (frame.processOffsets C rank,
        snappy.rawUncompress (read compressedResults (compressedOffsets rank) (gatherSizes rank))))
      (buffers.tileGatherResult.takeD (frame.totalTilesExpected * tileSize) 0)
    order.foldlM (frame.processTile tileGatherResult) master
  else none

/-! ## What the gather is for -/

/-- The tiles are partitioned among the ranks, and the pixels among the tiles. -/
def Partitioned : Prop :=
  ∃ allTiles, frame.createTiles = some allTiles ∧
    (∀ tile ∈ allTiles, ∃! rank, rank < frame.ranks ∧ tile ∈ frame.myTiles rank) ∧
    ∀ x < frame.size.x, ∀ y < frame.size.y, ∃! tile, tile ∈ allTiles ∧
      (tile.begin.x ≤ x ∧ x < tile.begin.x + frame.tileSize) ∧
        tile.begin.y ≤ y ∧ y < tile.begin.y + frame.tileSize

/-- Every rank can go on until its frame is closed. No message is appended past the end
of its gather buffer on the way, and in the end the master expects as many bytes as were
appended. -/
def Counted (tiles : Nat → FinalTile C) : Prop :=
  ∀ rank < frame.ranks, ∀ state, frame.Reached tiles rank state →
    (∃ last, frame.Reached tiles rank last ∧ last.frameIsDone = true) ∧
    state.nextTileWrite ≤ state.tileGatherBuffer.length ∧
    (∀ tileID message n, state.progress tileID = .appending message n →
      n + message.length ≤ state.tileGatherBuffer.length) ∧
    (state.frameIsDone = true → state.nextTileWrite =
      frame.numTilesExpected rank * masterMsgSize C frame.channels frame.tileSize)

/-- The pixels of the tiles that were rendered are final, and the others are left alone. -/
def Gathered (tiles : Nat → FinalTile C) (master after : MasterFrame C FloatBits FloatBits Vec3f) :
    Prop :=
  ∀ x < frame.size.x, ∀ y < frame.size.y,
    let tileID := tileIDof frame.tileSize frame.size ⟨x, y⟩
    after.pixel (x + y * frame.size.x) =
      if frame.skipped tileID = true then master.pixel (x + y * frame.size.x)
      else (tiles tileID).pixel frame.channels (tilePixel frame.tileSize ⟨x, y⟩)
        (master.pixel (x + y * frame.size.x))

/-- Every rank's frame is closed. -/
def Closed (tiles : Nat → FinalTile C) (states : Nat → RankFrame) : Prop :=
  ∀ rank < frame.ranks, frame.Reached tiles rank (states rank) ∧
    (states rank).frameIsDone = true

/-- The final gather loses nothing. -/
def Lossless (tiles : Nat → FinalTile C) (snappy : LosslessSnappy) (states : Nat → RankFrame)
    (order : List Nat) (buffers : GatherBuffers)
    (master : MasterFrame C FloatBits FloatBits Vec3f) : Prop :=
  frame.Partitioned ∧ frame.Counted tiles ∧
    ∃ after, frame.gatherFinalTiles snappy states order buffers master = some after ∧
      frame.Gathered tiles master after

variable (C) in
/-- What has to fit into `int`s. -/
structure GatherFits (snappy : LosslessSnappy) (states : Nat → RankFrame) : Prop where
  renders : frame.masterIsAWorker = true ∨ 1 < frame.ranks
  counts : frame.CountsFit
  compressed : ((List.range frame.ranks).map fun rank => (snappy.sent (states rank)).length).sum <
    2 ^ 31
  offsets : ∀ rank < frame.ranks, frame.activeTiles rank ≠ [] →
    ((List.range rank).map fun earlier => (frame.activeTiles earlier).length).sum *
      masterMsgSize C frame.channels frame.tileSize < 2 ^ 31
  pixels : ∀ x < frame.size.x, ∀ y < frame.size.y,
    frame.skipped (tileIDof frame.tileSize frame.size ⟨x, y⟩) = false →
      x + y * frame.size.x < 2 ^ 31

end Gather

end DistributedFrame

/-! ## Offsets -/

section Offsets

theorem gatherOffset_eq (piece : Nat → List UInt8) (rank : Nat) :
    gatherOffset (fun rank => (piece rank).length) rank = startOf piece rank := by
  induction rank with
  | zero => rfl
  | succ rank inductionHypothesis => rw [gatherOffset, inductionHypothesis, startOf_succ]

theorem LosslessSnappy.uncompress_sent (snappy : LosslessSnappy) {state : RankFrame}
    (inside : state.nextTileWrite ≤ state.tileGatherBuffer.length) :
    snappy.rawUncompress (snappy.sent state) = state.tileBytes := by
  have sized : state.tileBytes.length = state.nextTileWrite := length_read (by omega)
  unfold LosslessSnappy.sent
  split
  · next some_ => exact snappy.lossless _
  · next empty =>
    rw [snappy.rawUncompress_nil]
    exact (List.length_eq_zero_iff.mp (by omega)).symm

theorem asInt_congr {first second : Int} (same : first % 2 ^ 32 = second % 2 ^ 32) :
    asInt first = asInt second := by
  rw [asInt, asInt, Int.bmod_def, Int.bmod_def]
  omega

end Offsets

namespace DistributedFrame

section Closed

variable {E C : Type} [LE E] [DecidableLE E] [PixelColor C] {frame : DistributedFrame E}
  {tiles : Nat → FinalTile C} {states : Nat → RankFrame}

theorem length_tileBytes (closed : frame.Closed tiles states) {rank : Nat}
    (exists_ : rank < frame.ranks) :
    (states rank).tileBytes.length =
      (frame.activeTiles rank).length * masterMsgSize C frame.channels frame.tileSize := by
  obtain ⟨reached, done⟩ := closed rank exists_
  rw [RankFrame.tileBytes, length_read (by have inside := (reached_inside reached).1; omega),
    (closed_appended reached done).1, numTilesExpected_eq]

theorem startOf_tileBytes (closed : frame.Closed tiles states) {rank : Nat}
    (exists_ : rank ≤ frame.ranks) :
    startOf (fun rank => (states rank).tileBytes) rank =
      ((List.range rank).map fun earlier => (frame.activeTiles earlier).length).sum *
        masterMsgSize C frame.channels frame.tileSize := by
  induction rank with
  | zero => simp
  | succ rank inductionHypothesis =>
    rw [startOf_succ, inductionHypothesis (by omega), length_tileBytes closed (by omega),
      List.range_succ, List.map_append, List.sum_append, List.map_singleton, List.sum_singleton,
      Nat.add_mul]

/-- The offsets are right up to multiples of the range of `int`. -/
theorem processOffsets_eq (closed : frame.Closed tiles states) {rank : Nat}
    (exists_ : rank ≤ frame.ranks) :
    frame.processOffsets C rank = asInt (startOf (fun rank => (states rank).tileBytes) rank) := by
  refine asInt_congr ?_
  induction rank with
  | zero => rfl
  | succ rank inductionHypothesis =>
    have before := inductionHypothesis (by omega)
    have own : frame.tileBytesExpected C rank % 2 ^ 32 =
        ((states rank).tileBytes.length : Int) % 2 ^ 32 := by
      rw [tileBytesExpected, numTilesExpected_eq, length_tileBytes closed (by omega), asInt,
        Int.bmod_def]
      push_cast
      omega
    rw [recvOffset, startOf_succ]
    push_cast
    omega

/-- Once the compressed buffers are gathered, the master decompresses the messages of each
rank. -/
theorem gatherFinalTiles_eq (closed : frame.Closed tiles states) (snappy : LosslessSnappy)
    (order : List Nat) (buffers : GatherBuffers)
    (master : MasterFrame C FloatBits FloatBits Vec3f) :
    frame.gatherFinalTiles snappy states order buffers master =
      if ((List.range frame.ranks).map fun rank => (snappy.sent (states rank)).length).sum <
          2 ^ 31 then
        (copyAll ((List.range frame.ranks).map fun rank =>
            (frame.processOffsets C rank, (states rank).tileBytes))
          (buffers.tileGatherResult.takeD
            (frame.totalTilesExpected * masterMsgSize C frame.channels frame.tileSize) 0)).bind
          fun tileGatherResult => order.foldlM (frame.processTile tileGatherResult) master
      else none := by
  have offsets : ∀ rank, gatherOffset (fun rank => (snappy.sent (states rank)).length) rank =
      startOf (fun rank => snappy.sent (states rank)) rank :=
    gatherOffset_eq fun rank => snappy.sent (states rank)
  unfold gatherFinalTiles
  simp only [offsets, ← startOf_eq]
  split
  · next fits =>
    have compressedResults : copyAll ((List.range frame.ranks).map fun rank =>
          ((startOf (fun rank => snappy.sent (states rank)) rank : Int), snappy.sent (states rank)))
        (buffers.compressedResults.takeD
          (startOf (fun rank => snappy.sent (states rank)) frame.ranks) 0) =
        some ((List.range frame.ranks).flatMap fun rank => snappy.sent (states rank)) :=
      copyAll_startOf _ (List.takeD_length _ _ _)
    rw [compressedResults, Option.bind_eq_bind, Option.bind_some]
    congr 2
    refine List.map_congr_left fun rank member => ?_
    have exists_ := List.mem_range.mp member
    rw [read_startOf (fun rank => snappy.sent (states rank)) exists_,
      snappy.uncompress_sent (reached_inside (closed rank exists_).1).1]
  · rfl

/-- The offsets are `int`s, and right where the messages of a rank begin within their
range. -/
theorem processOffsets_right (closed : frame.Closed tiles states) {rank : Nat}
    (exists_ : rank < frame.ranks) :
    frame.processOffsets C rank < 2 ^ 31 ∧
      (startOf (fun rank => (states rank).tileBytes) rank < (2 ^ 31 : Int) →
        frame.processOffsets C rank = startOf (fun rank => (states rank).tileBytes) rank) := by
  rw [processOffsets_eq closed exists_.le]
  exact ⟨(asInt_bounds _).2, fun small => asInt_of_lt (Int.natCast_nonneg _) small⟩

theorem tileBytes_ne_nil (closed : frame.Closed tiles states) {rank : Nat}
    (exists_ : rank < frame.ranks) :
    (states rank).tileBytes ≠ [] ↔ frame.activeTiles rank ≠ [] := by
  have sized := length_tileBytes closed exists_
  have positive : 0 < masterMsgSize C frame.channels frame.tileSize :=
    Nat.lt_of_lt_of_le (by decide) (header_fits C frame.channels frame.tileSize)
  rw [← List.length_pos_iff, ← List.length_pos_iff, sized]
  exact ⟨fun some_ => Nat.pos_of_mul_pos_right some_, fun some_ => Nat.mul_pos some_ positive⟩

/-- A gather that is defined had sizes and offsets that fit: the messages of a rank with a
wrong offset would meet those of another. -/
theorem gatherFinalTiles_fits (closed : frame.Closed tiles states) {snappy : LosslessSnappy}
    {order : List Nat} {buffers : GatherBuffers}
    {master after : MasterFrame C FloatBits FloatBits Vec3f}
    (gathered : frame.gatherFinalTiles snappy states order buffers master = some after) :
    ((List.range frame.ranks).map fun rank => (snappy.sent (states rank)).length).sum < 2 ^ 31 ∧
      ∀ rank < frame.ranks, frame.activeTiles rank ≠ [] →
        ((List.range rank).map fun earlier => (frame.activeTiles earlier).length).sum *
          masterMsgSize C frame.channels frame.tileSize < 2 ^ 31 := by
  rw [gatherFinalTiles_eq closed] at gathered
  split at gathered
  · next fits =>
    obtain ⟨tileGatherResult, copied, -⟩ := Option.bind_eq_some_iff.mp gathered
    refine ⟨fits, ?_⟩
    intro rank exists_ some_
    have bounded := copyAll_bounded
      (fun rank exists_ => (processOffsets_right closed exists_).1)
      (fun rank exists_ => (processOffsets_right closed exists_).2) copied rank exists_
      ((tileBytes_ne_nil closed exists_).mpr some_)
    rw [startOf_tileBytes closed exists_.le] at bounded
    exact_mod_cast bounded
  · cases gathered

/-- With sizes and offsets that fit, the messages of all ranks stand one behind the
other. -/
theorem gatherFinalTiles_of_fits (closed : frame.Closed tiles states) (snappy : LosslessSnappy)
    (order : List Nat) (buffers : GatherBuffers)
    (master : MasterFrame C FloatBits FloatBits Vec3f)
    (compressed : ((List.range frame.ranks).map fun rank =>
      (snappy.sent (states rank)).length).sum < 2 ^ 31)
    (offsets : ∀ rank < frame.ranks, frame.activeTiles rank ≠ [] →
      ((List.range rank).map fun earlier => (frame.activeTiles earlier).length).sum *
        masterMsgSize C frame.channels frame.tileSize < 2 ^ 31) :
    frame.gatherFinalTiles snappy states order buffers master =
      order.foldlM (frame.processTile
        ((List.range frame.ranks).flatMap fun rank => (states rank).tileBytes)) master := by
  have fits : (buffers.tileGatherResult.takeD
      (frame.totalTilesExpected * masterMsgSize C frame.channels frame.tileSize) 0).length =
      startOf (fun rank => (states rank).tileBytes) frame.ranks := by
    have expected : frame.numTilesExpected = fun rank => (frame.activeTiles rank).length :=
      funext frame.numTilesExpected_eq
    rw [List.takeD_length, startOf_tileBytes closed le_rfl, totalTilesExpected, expected]
  rw [gatherFinalTiles_eq closed, if_pos compressed, copyAll_right fits, Option.bind_some]
  intro rank exists_ some_
  refine (processOffsets_right closed exists_).2 ?_
  rw [startOf_tileBytes closed exists_.le]
  exact_mod_cast offsets rank exists_ ((tileBytes_ne_nil closed exists_).mp some_)

/-! ## Messages -/

/-- The pixels of a tile have indices that are `int`s. -/
def IndicesFit (frame : DistributedFrame E) (tileID : Nat) : Prop :=
  ∀ x < frame.size.x, ∀ y < frame.size.y,
    tileIDof frame.tileSize frame.size ⟨x, y⟩ = tileID → x + y * frame.size.x < 2 ^ 31

/-- The message that stands at a position has the final pixels of a tile. -/
def Stands (frame : DistributedFrame E) (tiles : Nat → FinalTile C) (bytes : List UInt8)
    (position tileID : Nat) : Prop :=
  ∃ msg, readMessage C frame.tileSize
        (read bytes (position * masterMsgSize C frame.channels frame.tileSize)
          (masterMsgSize C frame.channels frame.tileSize)) = some msg ∧
      msg.coords = tileBegin frame.tileSize frame.size tileID ∧
      ∀ j < frame.tileSize * frame.tileSize, ∀ old,
        msg.pixel frame.channels j old = (tiles tileID).pixel frame.channels j old

omit [LE E] [DecidableLE E] in
theorem tileBegin_lt (counts : frame.CountsFit) {tileID : Nat} (exists_ : tileID < frame.totalTiles) :
    (tileBegin frame.tileSize frame.size tileID).x < 2 ^ 31 ∧
      (tileBegin frame.tileSize frame.size tileID).y < 2 ^ 31 := by
  obtain ⟨width, height, -⟩ := counts
  have columns : 0 < (numTiles frame.tileSize frame.size).x :=
    Nat.pos_of_mul_pos_right (Nat.zero_lt_of_lt exists_)
  have column := Nat.mod_lt tileID columns
  have row : tileID / (numTiles frame.tileSize frame.size).x <
      (numTiles frame.tileSize frame.size).y := Nat.div_lt_of_lt_mul exists_
  have lastColumn := Nat.mul_le_mul_right frame.tileSize column.le
  have lastRow := Nat.mul_le_mul_right frame.tileSize row.le
  have wide := Nat.div_mul_le_self (frame.size.x + frame.tileSize - 1) frame.tileSize
  have high := Nat.div_mul_le_self (frame.size.y + frame.tileSize - 1) frame.tileSize
  have positive := frame.tileSizePositive
  simp only [numTiles, divRoundUp] at lastColumn lastRow
  simp only [tileBegin, tileCoords_eq, numTiles, divRoundUp]
  omega

omit [LE E] [DecidableLE E] in
theorem stands_of_log {log : List (Nat × List UInt8)}
    (built : ∀ entry ∈ log, frame.IsMessage tiles entry.1 entry.2) (counts : frame.CountsFit)
    {position : Nat} {entry : Nat × List UInt8} (placed : log[position]? = some entry)
    (exists_ : entry.1 < frame.totalTiles) :
    frame.Stands tiles (log.flatMap Prod.snd) position entry.1 := by
  have bytes := read_piece log (fun entry member => (built entry member).length_eq) placed
  obtain ⟨memory, -, message⟩ := built entry (List.mem_of_getElem? placed)
  obtain ⟨column, row⟩ := tileBegin_lt counts exists_
  obtain ⟨msg, readable, begins, -, pixels⟩ := buildMessage_read message column row
  exact ⟨msg, by rw [bytes, readable], begins, pixels⟩

omit [LE E] [DecidableLE E] [PixelColor C] in
/-- The indices of a message are those of the pixels of its tile. -/
theorem indicesFit_iff {F D V : Type} (msg : MasterTileMessage C F D V) (tileID : Nat)
    (begins : msg.coords = tileBegin frame.tileSize frame.size tileID) :
    msg.indicesFit frame.tileSize frame.size ↔ frame.IndicesFit tileID := by
  constructor
  · intro fits x inRow y inColumn own
    obtain ⟨⟨left, right⟩, lower, upper⟩ :=
      (tileBegin_covers_iff frame.tileSizePositive inRow inColumn tileID).mpr own.symm
    rw [← begins] at left right lower upper
    have column : x - msg.coords.x + msg.coords.x = x := Nat.sub_add_cancel left
    have row : y - msg.coords.y + msg.coords.y = y := Nat.sub_add_cancel lower
    have pixel := fits (y - msg.coords.y, x - msg.coords.x)
      ((mem_chunkLanes _ _ _).mpr ⟨by simp only; omega, by simp only; omega⟩)
    simp only [column, row] at pixel
    exact pixel inColumn inRow
  · rintro fits ⟨row, column⟩ visited inColumn inRow
    obtain ⟨inTileRow, inTile⟩ := (mem_chunkLanes _ _ _).mp visited
    refine fits _ inRow _ inColumn ?_
    refine ((tileBegin_covers_iff frame.tileSizePositive inRow inColumn tileID).mp ?_).symm
    rw [← begins]
    simp only at inTileRow inTile ⊢
    omega

omit [LE E] [DecidableLE E] in
/-- Processing the message of a tile writes the pixels of that tile. -/
theorem processTile_stands {bytes : List UInt8} {position tileID : Nat}
    (stands : frame.Stands tiles bytes position tileID)
    (master : MasterFrame C FloatBits FloatBits Vec3f) :
    ((frame.processTile bytes master position).isSome ↔ frame.IndicesFit tileID) ∧
      ∀ after, frame.processTile bytes master position = some after →
        ∀ x < frame.size.x, ∀ y < frame.size.y, after.pixel (x + y * frame.size.x) =
          if tileID = tileIDof frame.tileSize frame.size ⟨x, y⟩ then
            (tiles tileID).pixel frame.channels (tilePixel frame.tileSize ⟨x, y⟩)
              (master.pixel (x + y * frame.size.x))
          else master.pixel (x + y * frame.size.x) := by
  obtain ⟨msg, readable, begins, pixels⟩ := stands
  have processed : frame.processTile bytes master position =
      if msg.indicesFit frame.tileSize frame.size then
        some (processMessage frame.tileSize frame.size frame.channels belowInfinity master msg)
      else none := by
    rw [processTile, readable, Option.bind_eq_bind, Option.bind_some]
  rw [processed]
  split
  · next fits =>
    refine ⟨iff_of_true rfl ((indicesFit_iff msg tileID begins).mp fits), ?_⟩
    intro after same x inRow y inColumn
    obtain rfl := Option.some.inj same
    have inTile : tilePixel frame.tileSize ⟨x, y⟩ < frame.tileSize * frame.tileSize := by
      have inside := stride_lt (Nat.mod_lt x frame.tileSizePositive)
        (Nat.mod_lt y frame.tileSizePositive)
      rw [Nat.add_comm] at inside
      exact inside
    rw [processMessage_tile frame.tileSize frame.size frame.channels frame.tileSizePositive
      belowInfinity master msg tileID begins inRow inColumn, pixels _ inTile]
  · next large =>
    exact ⟨iff_of_false Bool.false_ne_true fun fits =>
      large ((indicesFit_iff msg tileID begins).mpr fits), nofun⟩

omit [LE E] [DecidableLE E] in
/-- Processing the messages of distinct tiles writes the pixels of these tiles, whatever the
order is. -/
theorem processTiles_stand {bytes : List UInt8} {tileAt : Nat → Nat} {positions : List Nat}
    (distinct : (positions.map tileAt).Nodup)
    (stand : ∀ position ∈ positions, frame.Stands tiles bytes position (tileAt position))
    (master : MasterFrame C FloatBits FloatBits Vec3f) :
    ((positions.foldlM (frame.processTile bytes) master).isSome ↔
        ∀ position ∈ positions, frame.IndicesFit (tileAt position)) ∧
      ∀ after, positions.foldlM (frame.processTile bytes) master = some after →
        ∀ x < frame.size.x, ∀ y < frame.size.y, after.pixel (x + y * frame.size.x) =
          if tileIDof frame.tileSize frame.size ⟨x, y⟩ ∈ positions.map tileAt then
            (tiles (tileIDof frame.tileSize frame.size ⟨x, y⟩)).pixel frame.channels
              (tilePixel frame.tileSize ⟨x, y⟩) (master.pixel (x + y * frame.size.x))
          else master.pixel (x + y * frame.size.x) := by
  induction positions generalizing master with
  | nil =>
    refine ⟨iff_of_true rfl (fun _ member => absurd member List.not_mem_nil), ?_⟩
    rintro _ same x _ y _
    obtain rfl := Option.some.inj same
    rfl
  | cons position rest inductionHypothesis =>
    obtain ⟨apart, distinctRest⟩ := List.nodup_cons.mp distinct
    obtain ⟨defined, written⟩ := processTile_stands (stand position List.mem_cons_self) master
    have later := inductionHypothesis distinctRest
      fun other member => stand other (List.mem_cons_of_mem position member)
    rw [List.foldlM_cons, List.forall_mem_cons]
    simp only [List.map_cons, List.mem_cons]
    cases processed : frame.processTile bytes master position with
    | none =>
      rw [processed] at defined
      refine ⟨iff_of_false Bool.false_ne_true fun fits => ?_, nofun⟩
      exact Bool.false_ne_true (defined.mpr fits.1)
    | some next =>
      obtain ⟨definedRest, writtenRest⟩ := later next
      rw [processed] at defined
      rw [Option.bind_eq_bind, Option.bind_some]
      refine ⟨definedRest.trans (and_iff_right (defined.mp rfl)).symm, ?_⟩
      intro after ends x inRow y inColumn
      rw [writtenRest after ends x inRow y inColumn, written next processed x inRow y inColumn]
      by_cases own : tileAt position = tileIDof frame.tileSize frame.size ⟨x, y⟩
      · rw [own] at apart
        rw [if_neg apart, if_pos own, if_pos (Or.inl own.symm), own]
      · rw [if_neg own]
        simp only [Ne.symm own, false_or]

omit [LE E] [DecidableLE E] in
theorem ownerID_lt (renders : frame.masterIsAWorker = true ∨ 1 < frame.ranks) (tileID : Nat) :
    frame.ownerID tileID < frame.ranks := by
  refine ownerIDFromTileID_lt frame.ranksPositive ?_ tileID
  intro idle
  rw [idle] at renders
  exact renders.resolve_left Bool.false_ne_true

/-- The messages of all ranks: one for each tile that is not skipped. -/
theorem gathered_log (closed : frame.Closed tiles states)
    (renders : frame.masterIsAWorker = true ∨ 1 < frame.ranks) :
    ∃ log : List (Nat × List UInt8),
      ((List.range frame.ranks).flatMap fun rank => (states rank).tileBytes) =
        log.flatMap Prod.snd ∧
      (log.map Prod.fst).Nodup ∧
      (∀ tileID, tileID ∈ log.map Prod.fst ↔
        tileID < frame.totalTiles ∧ frame.skipped tileID = false) ∧
      (∀ entry ∈ log, frame.IsMessage tiles entry.1 entry.2) ∧
      log.length = frame.totalTilesExpected := by
  have appended : ∀ rank, rank < frame.ranks → ∃ log : List (Nat × List UInt8),
      (log.map Prod.fst).Perm (frame.activeTiles rank) ∧
        (∀ entry ∈ log, frame.IsMessage tiles entry.1 entry.2) ∧
        (states rank).tileBytes = log.flatMap Prod.snd := fun rank exists_ =>
    (closed_appended (closed rank exists_).1 (closed rank exists_).2).2
  choose! log active built bytes using appended
  have member : ∀ tileID rank, rank < frame.ranks →
      (tileID ∈ (log rank).map Prod.fst ↔ tileID ∈ frame.activeTiles rank) :=
    fun tileID rank exists_ => (active rank exists_).mem_iff
  refine ⟨(List.range frame.ranks).flatMap log, ?_, ?_, ?_, ?_, ?_⟩
  · rw [List.flatMap_assoc]
    exact List.flatMap_congr fun rank member => bytes rank (List.mem_range.mp member)
  · rw [List.map_flatMap, List.nodup_flatMap]
    refine ⟨fun rank member => ?_, ?_⟩
    · exact (active rank (List.mem_range.mp member)).nodup_iff.mpr (frame.activeTiles_nodup rank)
    · refine List.Pairwise.imp_of_mem ?_ List.nodup_range
      intro first second inFirst inSecond apart tileID one other
      have owner := (frame.mem_activeTiles.mp
        ((member tileID first (List.mem_range.mp inFirst)).mp one)).2.1
      have owner' := (frame.mem_activeTiles.mp
        ((member tileID second (List.mem_range.mp inSecond)).mp other)).2.1
      exact apart (owner.symm.trans owner')
  · intro tileID
    rw [List.map_flatMap, List.mem_flatMap]
    constructor
    · rintro ⟨rank, inRange, inLog⟩
      obtain ⟨exists_, -, rendered⟩ := frame.mem_activeTiles.mp
        ((member tileID rank (List.mem_range.mp inRange)).mp inLog)
      exact ⟨exists_, rendered⟩
    · rintro ⟨exists_, rendered⟩
      have owned := ownerID_lt renders tileID
      exact ⟨frame.ownerID tileID, List.mem_range.mpr owned,
        (member tileID _ owned).mpr (frame.mem_activeTiles.mpr ⟨exists_, rfl, rendered⟩)⟩
  · intro entry inLog
    obtain ⟨rank, inRange, own⟩ := List.mem_flatMap.mp inLog
    exact built rank (List.mem_range.mp inRange) entry own
  · rw [List.length_flatMap, totalTilesExpected]
    refine congrArg List.sum (List.map_congr_left fun rank inRange => ?_)
    rw [numTilesExpected_eq, ← (active rank (List.mem_range.mp inRange)).length_eq,
      List.length_map]

/-- Processing the messages of all ranks, in some order. -/
theorem processTiles_gathered (closed : frame.Closed tiles states)
    (renders : frame.masterIsAWorker = true ∨ 1 < frame.ranks) (counts : frame.CountsFit)
    {order : List Nat} (any : order.Perm (List.range frame.totalTilesExpected))
    (master : MasterFrame C FloatBits FloatBits Vec3f) :
    let processed := order.foldlM (frame.processTile
      ((List.range frame.ranks).flatMap fun rank => (states rank).tileBytes)) master
    (processed.isSome ↔ ∀ tileID < frame.totalTiles, frame.skipped tileID = false →
        frame.IndicesFit tileID) ∧
      ∀ after, processed = some after → frame.Gathered tiles master after := by
  obtain ⟨log, bytes, distinct, logged, built, whole⟩ := gathered_log closed renders
  rw [bytes]
  rw [← whole] at any
  have every : (order.map fun position => (log.map Prod.fst).getD position 0).Perm
      (log.map Prod.fst) := by
    have inOrder : (List.range log.length).map (fun position => (log.map Prod.fst).getD position 0) =
        log.map Prod.fst := by
      refine List.ext_getElem (by simp) ?_
      intro position inside _
      have bounded : position < log.length := by simpa using inside
      simp [bounded]
    have mapped := any.map fun position => (log.map Prod.fst).getD position 0
    rwa [inOrder] at mapped
  have stand : ∀ position ∈ order, frame.Stands tiles (log.flatMap Prod.snd) position
      ((log.map Prod.fst).getD position 0) := by
    intro position member
    have inside : position < log.length := List.mem_range.mp (any.mem_iff.mp member)
    have placed := List.getElem?_eq_getElem inside
    have exists_ := ((logged (log[position].1)).mp
      (List.mem_map.mpr ⟨_, List.getElem_mem inside, rfl⟩)).1
    have own : (log.map Prod.fst).getD position 0 = log[position].1 := by simp [inside]
    rw [own]
    exact stands_of_log built counts placed exists_
  obtain ⟨defined, written⟩ := processTiles_stand (every.nodup_iff.mpr distinct) stand master
  refine ⟨defined.trans ?_, ?_⟩
  · constructor
    · intro fits tileID exists_ rendered
      obtain ⟨position, member, rfl⟩ :=
        List.mem_map.mp (every.mem_iff.mpr ((logged tileID).mpr ⟨exists_, rendered⟩))
      exact fits position member
    · intro fits position member
      obtain ⟨exists_, rendered⟩ := (logged _).mp
        (every.mem_iff.mp (List.mem_map.mpr ⟨position, member, rfl⟩))
      exact fits _ exists_ rendered
  · intro after ends x inRow y inColumn
    have exists_ : tileIDof frame.tileSize frame.size ⟨x, y⟩ < frame.totalTiles :=
      tileIDof_lt frame.tileSizePositive inRow inColumn
    have rendered := (every.mem_iff).trans (logged (tileIDof frame.tileSize frame.size ⟨x, y⟩))
    rw [written after ends x inRow y inColumn]
    simp only [rendered, exists_, true_and]
    cases frame.skipped (tileIDof frame.tileSize frame.size ⟨x, y⟩) <;> rfl

/-! ## When the gather is lossless -/

omit [LE E] [DecidableLE E] in
/-- With a rank that renders and counts that fit, the frame is partitioned. -/
theorem partitioned (renders : frame.masterIsAWorker = true ∨ 1 < frame.ranks)
    (counts : frame.CountsFit) : frame.Partitioned := by
  refine ⟨frame.allTiles, if_pos counts, ?_, ?_⟩
  · intro tile member
    have owned : tile.ownerID < frame.ranks := by
      rw [allTiles_eq] at member
      obtain ⟨tileID, -, rfl⟩ := List.mem_map.mp member
      exact ownerID_lt renders tileID
    refine ⟨tile.ownerID, ⟨owned, List.mem_filter.mpr ⟨member, by simp⟩⟩, ?_⟩
    rintro rank ⟨-, mine⟩
    simpa [eq_comm] using (List.mem_filter.mp mine).2
  · intro x inRow y inColumn
    have exists_ : tileIDof frame.tileSize frame.size ⟨x, y⟩ < frame.totalTiles :=
      tileIDof_lt frame.tileSizePositive inRow inColumn
    simp only [allTiles_eq, List.mem_map, List.mem_range]
    refine ⟨_, ⟨⟨_, exists_, rfl⟩, ?_⟩, ?_⟩
    · exact (tileBegin_covers_iff frame.tileSizePositive inRow inColumn _).mpr rfl
    · rintro _ ⟨⟨tileID, -, rfl⟩, covers⟩
      rw [(tileBegin_covers_iff frame.tileSizePositive inRow inColumn tileID).mp covers]

omit [LE E] [DecidableLE E] in
/-- A frame is partitioned only if some rank renders and its counts fit. -/
theorem fits_of_partitioned (whole : frame.Partitioned) :
    (frame.masterIsAWorker = true ∨ 1 < frame.ranks) ∧ frame.CountsFit := by
  obtain ⟨allTiles, created, owners, cover⟩ := whole
  unfold createTiles at created
  split at created
  · next counts =>
    obtain rfl := Option.some.inj created
    refine ⟨?_, counts⟩
    obtain ⟨tile, ⟨member, -⟩, -⟩ := cover 0 frame.sizePositive.1 0 frame.sizePositive.2
    obtain ⟨rank, ⟨exists_, mine⟩, -⟩ := owners tile member
    have owner : tile.ownerID = rank := by simpa using (List.mem_filter.mp mine).2
    rw [allTiles_eq] at member
    obtain ⟨tileID, -, rfl⟩ := List.mem_map.mp member
    cases worker : frame.masterIsAWorker with
    | true => exact Or.inl rfl
    | false =>
      simp only [ownerID, ownerIDFromTileID, worker, Bool.false_eq_true, if_false] at owner
      exact Or.inr (by omega)
  · cases created

theorem counted (tiles : Nat → FinalTile C) : frame.Counted tiles := by
  intro rank _ state reached
  obtain ⟨reserved, pending⟩ := reached_inside reached
  exact ⟨frame_closes reached, reserved,
    fun tileID message n appending => (pending tileID message n appending).trans reserved,
    fun done => (closed_appended reached done).1⟩

/-- The final gather is lossless exactly if its counts, offsets and indices fit into
`int`s. -/
theorem finalGather_lossless_iff (closed : frame.Closed tiles states) (snappy : LosslessSnappy)
    {order : List Nat} (any : order.Perm (List.range frame.totalTilesExpected))
    (buffers : GatherBuffers) (master : MasterFrame C FloatBits FloatBits Vec3f) :
    frame.Lossless tiles snappy states order buffers master ↔
      frame.GatherFits C snappy states := by
  constructor
  · rintro ⟨whole, -, after, gathered, -⟩
    obtain ⟨renders, counts⟩ := fits_of_partitioned whole
    obtain ⟨compressed, offsets⟩ := gatherFinalTiles_fits closed gathered
    rw [gatherFinalTiles_of_fits closed snappy order buffers master compressed offsets] at gathered
    have fits := (processTiles_gathered closed renders counts any master).1.mp
      (Option.isSome_of_eq_some gathered)
    refine ⟨renders, counts, compressed, offsets, ?_⟩
    intro x inRow y inColumn rendered
    exact fits _ (tileIDof_lt frame.tileSizePositive inRow inColumn) rendered x inRow y inColumn rfl
  · intro fits
    obtain ⟨defined, written⟩ :=
      processTiles_gathered closed fits.renders fits.counts any master
    obtain ⟨after, gathered⟩ := Option.isSome_iff_exists.mp (defined.mpr (by
      rintro tileID _ rendered x inRow y inColumn rfl
      exact fits.pixels x inRow y inColumn rendered))
    refine ⟨partitioned fits.renders fits.counts, counted tiles, after, ?_, written after gathered⟩
    rw [gatherFinalTiles_of_fits closed snappy order buffers master fits.compressed fits.offsets]
    exact gathered

end Closed

/-! ## Small and large frames -/

/-- A frame of a single pixel, which the master renders itself. -/
def onePixel : DistributedFrame Nat :=
  { tileSize := 1
    size := ⟨1, 1⟩
    channels := ⟨false, false, false, false, false, no_variance⟩
    ranks := 1
    masterIsAWorker := true
    tileError := fun _ => 0
    errorThreshold := 0
    tileSizePositive := Nat.one_pos
    sizePositive := ⟨Nat.one_pos, Nat.one_pos⟩
    ranksPositive := Nat.one_pos }

/-- A black tile without an error. -/
def blackTile {C : Type} (black : C) : FinalTile C :=
  ⟨0, fun _ => black, fun _ => 0, fun _ => (0, 0, 0), fun _ => (0, 0, 0)⟩

/-- The message of the black pixel: `MASTER_WRITE_TILE_I8`, and zeros. -/
def onePixelMessage : List UInt8 := 4 :: List.replicate 19 0

/-- `snappy` on that message: its size, two literal bytes, and a copy of 18 bytes from one
byte before. Other data is stored. -/
def onePixelSnappy : LosslessSnappy :=
  let compressed : List UInt8 := [20, 4, 4, 0, 70, 1, 0]
  let compress := fun data : List UInt8 => if data = onePixelMessage then compressed else 0 :: data
  let uncompress := fun bytes : List UInt8 => if bytes = compressed then onePixelMessage else bytes.tail
  have lossless : ∀ data, uncompress (compress data) = data := by
    intro data
    by_cases message : data = onePixelMessage
    · simp [uncompress, compress, message]
    · simp [uncompress, compress, compressed, message]
  { rawCompress := compress
    rawUncompress := uncompress
    roundTrip := fun data _ => lossless data
    lossless := lossless
    rawUncompress_nil := rfl }

/-- The master when it has completed the pixel. -/
def onePixelDone : RankFrame :=
  { nextTileWrite := 20
    tileGatherBuffer := onePixelMessage
    numTilesCompletedThisFrame := 1
    frameIsDone := true
    started := true
    progress := Function.update (Function.update (Function.update (fun _ => .rendering) 0
      (.appending onePixelMessage 0)) 0 .appended) 0 .completed }

theorem onePixelDone_closed :
    onePixel.Closed (fun _ => blackTile (0 : UInt32)) fun _ => onePixelDone := by
  intro rank exists_
  obtain rfl : rank = 0 := Nat.lt_one_iff.mp exists_
  have active : 0 ∈ onePixel.activeTiles 0 := by decide
  have message : onePixel.IsMessage (fun _ => blackTile (0 : UInt32)) 0 onePixelMessage :=
    ⟨onePixelMessage, rfl, by decide +kernel⟩
  have begun : onePixel.Reached (fun _ => blackTile (0 : UInt32)) 0 (onePixel.startNewFrame 0 20) :=
    reachable_start rfl
  have reserved := reachable_step begun (.fetchAdd _ 0 onePixelMessage active rfl message)
  have copied := reachable_step reserved
    (.memcpy _ 0 onePixelMessage 0 onePixelMessage rfl (by decide +kernel))
  have completed := reachable_step copied (.count _ 0 rfl)
  have started := reachable_step completed (.start _ rfl)
  exact ⟨started, rfl⟩

/-- A master with a white pixel. -/
def whiteMaster : MasterFrame UInt32 FloatBits FloatBits Vec3f :=
  ⟨⟨fun _ => 0xffffffff, fun _ => 0, fun _ => (0, 0, 0), fun _ => (0, 0, 0)⟩, fun _ => 0⟩

/-- The gather of the single pixel is lossless. -/
theorem onePixel_lossless :
    onePixel.Lossless (fun _ => blackTile (0 : UInt32)) onePixelSnappy (fun _ => onePixelDone) [0]
      ⟨[], []⟩ whiteMaster := by
  refine (finalGather_lossless_iff onePixelDone_closed onePixelSnappy (by decide) ⟨[], []⟩
    whiteMaster).mpr ?_
  exact
    { renders := Or.inl rfl
      counts := by decide
      compressed := by decide +kernel
      offsets := by decide
      pixels := by decide }

/-- A frame of which three ranks render 7000 tiles each, with all channels. -/
def largeFrame : DistributedFrame Nat :=
  { tileSize := 64
    size := ⟨8960, 9600⟩
    channels := ⟨true, false, false, true, true, no_variance⟩
    ranks := 4
    masterIsAWorker := false
    tileError := fun _ => 0
    errorThreshold := 0
    tileSizePositive := tile_size_pos
    sizePositive := by decide
    ranksPositive := by decide }

theorem largeFrame_activeTiles {rank : Nat} (worker : 0 < rank) (exists_ : rank < 4) :
    (largeFrame.activeTiles rank).length = 7000 := by
  have counted := Nat.count_modEq_card 21000 (show 0 < 3 by decide) (rank - 1)
  have total : largeFrame.totalTiles = 21000 := by decide
  have owned : ∀ tileID, (decide (largeFrame.ownerID tileID = rank) &&
      !largeFrame.skipped tileID) = decide (tileID ≡ rank - 1 [MOD 3]) := by
    intro tileID
    have owner : largeFrame.ownerID tileID = 1 + tileID % 3 := rfl
    have rendered : largeFrame.skipped tileID = false := rfl
    rw [owner, rendered, Bool.not_false, Bool.and_true]
    refine decide_eq_decide.mpr ?_
    unfold Nat.ModEq
    omega
  rw [activeTiles, ← List.countP_eq_length_filter, total]
  simp only [owned]
  exact counted

theorem bytes_beyond_int (counts : Nat → Nat) (first : counts 1 = 7000)
    (second : counts 2 = 7000) :
    2 ^ 31 ≤ ((List.range 3).map counts).sum * 180240 := by
  have ranges : List.range 3 = [0, 1, 2] := by decide
  rw [ranges]
  simp only [List.map_cons, List.map_nil, List.sum_cons, List.sum_nil, first, second]
  omega

/-- The bytes of the last rank would begin behind what an `int` counts. -/
theorem largeFrame_not_lossless :
    (∀ tiles : Nat → FinalTile Vec4f, ∃ states, largeFrame.Closed tiles states) ∧
      ∀ (tiles : Nat → FinalTile Vec4f) (snappy : LosslessSnappy) (states : Nat → RankFrame)
        (order : List Nat) (buffers : GatherBuffers)
        (master : MasterFrame Vec4f FloatBits FloatBits Vec3f),
        largeFrame.Closed tiles states →
          ¬ largeFrame.Lossless tiles snappy states order buffers master := by
  constructor
  · intro tiles
    have closes : ∀ rank, ∃ state, largeFrame.Reached tiles rank state ∧ state.frameIsDone = true :=
      fun rank => frame_closes (reachable_start rfl)
    choose states closed using closes
    exact ⟨states, fun rank _ => closed rank⟩
  · rintro tiles snappy states order buffers master closed ⟨-, -, after, gathered, -⟩
    have offset := (gatherFinalTiles_fits closed gathered).2 3 (by decide) (by
      rw [← List.length_pos_iff, largeFrame_activeTiles (by decide) (by decide)]
      decide)
    have size : masterMsgSize Vec4f largeFrame.channels largeFrame.tileSize = 180240 := by decide
    rw [size] at offset
    have beyond := bytes_beyond_int (fun rank => (largeFrame.activeTiles rank).length)
      (largeFrame_activeTiles (by decide) (by decide))
      (largeFrame_activeTiles (by decide) (by decide))
    exact Nat.not_lt.mpr beyond offset

end DistributedFrame

end Ospray

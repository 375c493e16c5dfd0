import Ospray.Common.Streams
import Ospray.Library.Buffers

/-!
# The memory of buffered streams

The streams copy between the memory of their callers, a buffer that was allocated
once and the blocks of the fabric, with `size_t` counters. No copy leaves its
memory, every call returns, and each stream does on its memory what it does on
the bytes it holds. The blocks that arrive need not be those that were sent: any
other division of the same bytes is read the same.
-/

namespace Ospray.Networking

open Library

/-- Why a call does not return: its loop is still running, it waits for the
fabric, or it copied from or to memory that is not its own. -/
inductive StreamStop
  | unfinished
  | waiting
  | outOfBounds
  deriving DecidableEq, Repr

/-- `memcpy(target + offset, source + position, count)`. -/
def memcpy (target : List UInt8) (offset : UInt64) (source : List UInt8)
    (position count : UInt64) : Except StreamStop (List UInt8) :=
  if position.toNat + count.toNat ≤ source.length then
    match Buffers.write target offset.toNat
        (Buffers.read source position.toNat count.toNat) with
    | some copied => .ok copied
    | none => .error .outOfBounds
  else .error .outOfBounds

theorem memcpy_inside {target source : List UInt8} {offset position count : UInt64}
    (inSource : position.toNat + count.toNat ≤ source.length)
    (inTarget : offset.toNat + count.toNat ≤ target.length) :
    ∃ copied, memcpy target offset source position count = .ok copied ∧
      Buffers.write target offset.toNat
        (Buffers.read source position.toNat count.toNat) = some copied := by
  have length := Buffers.length_read inSource
  obtain ⟨copied, written⟩ := Option.isSome_iff_exists.mp
    (Buffers.write_isSome.mpr (length.symm ▸ inTarget) : (Buffers.write target offset.toNat
      (Buffers.read source position.toNat count.toNat)).isSome)
  refine ⟨copied, ?_, written⟩
  rw [memcpy, if_pos inSource, written]

/-! ## The fabric as a list of blocks -/

/-- A fabric that takes every block, and delivers those it holds in order. -/
structure BlockFabric where
  blocks : List (List UInt8) := []

/-- The blocks are in flight until they are read. -/
instance : LosslessFabric BlockFabric where
  send fabric block := some { blocks := fabric.blocks ++ [block] }
  read fabric := fabric.blocks.head?.map fun block => (block, { blocks := fabric.blocks.tail })
  queued fabric := fabric.blocks.length
  inFlight fabric := fabric.blocks.flatten
  read_queued := by
    rintro ⟨_ | ⟨first, rest⟩⟩ block next delivered
    · cases delivered
    · cases delivered
      exact Nat.lt_succ_self _
  inFlight_send := by
    intro fabric block next sent
    cases sent
    simp
  inFlight_read := by
    rintro ⟨_ | ⟨first, rest⟩⟩ block next delivered
    · cases delivered
    · cases delivered
      rfl
  inFlight_waiting := by
    rintro ⟨_ | ⟨first, rest⟩⟩ waits
    · rfl
    · cases waits

theorem BlockFabric.accepts (fabric : BlockFabric) (block : List UInt8) :
    Fabric.send fabric block ≠ none := nofun

/-! ## Writing -/

/-- The memory and the counters of `BufferedWriteStream`, and the blocks that it
gave to its fabric. -/
structure WriteBuffer where
  buffer : List UInt8
  maxBufferSize : UInt64
  numInBuffer : UInt64
  sent : List (List UInt8)

/-- The constructor, with the memory that `new byte_t[maxBufferSize]` found. -/
def WriteBuffer.new (memory : List UInt8) (maxBufferSize : UInt64) : WriteBuffer where
  buffer := memory
  maxBufferSize := maxBufferSize
  numInBuffer := 0
  sent := []

/-- `BufferedWriteStream::flush`. -/
def WriteBuffer.flush (stream : WriteBuffer) : Except StreamStop WriteBuffer :=
  if 0 < stream.numInBuffer then
    if stream.numInBuffer.toNat ≤ stream.buffer.length then
      .ok { stream with
        sent := stream.sent ++ [Buffers.read stream.buffer 0 stream.numInBuffer.toNat]
        numInBuffer := 0 }
    else .error .outOfBounds
  else .ok { stream with numInBuffer := 0 }

/-- The loop of `BufferedWriteStream::write`, run for at most `fuel` iterations. -/
def WriteBuffer.writeLoop (mem : List UInt8) :
    Nat → WriteBuffer → UInt64 → UInt64 → Except StreamStop WriteBuffer
  | 0, stream, _, stillToWrite => if stillToWrite = 0 then .ok stream else .error .unfinished
  | fuel + 1, stream, readPtr, stillToWrite =>
    if stillToWrite = 0 then .ok stream else do
      let numWeCanWrite := min stillToWrite (stream.maxBufferSize - stream.numInBuffer)
      let buffer ← memcpy stream.buffer stream.numInBuffer mem readPtr numWeCanWrite
      let filled := { stream with buffer, numInBuffer := stream.numInBuffer + numWeCanWrite }
      let next ← if filled.numInBuffer = filled.maxBufferSize then filled.flush else .ok filled
      writeLoop mem fuel next (readPtr + numWeCanWrite) (stillToWrite - numWeCanWrite)

/-- `BufferedWriteStream::write`. -/
def WriteBuffer.write (fuel : Nat) (stream : WriteBuffer) (mem : ByteString) :
    Except StreamStop WriteBuffer :=
  WriteBuffer.writeLoop mem.bytes fuel stream 0 mem.size

/-- A call on a write stream. -/
inductive WriteCall
  | write (mem : ByteString)
  | flush
  deriving DecidableEq

/-- The bytes a call writes. -/
def WriteCall.bytes : WriteCall → List UInt8
  | .write mem => mem.bytes
  | .flush => []

/-- One call. A write may run for as many iterations as there are bytes. -/
def WriteBuffer.call (stream : WriteBuffer) : WriteCall → Except StreamStop WriteBuffer
  | .write mem => stream.write mem.bytes.length mem
  | .flush => stream.flush

/-- Calls in sequence. -/
def WriteBuffer.callAll (stream : WriteBuffer) (calls : List WriteCall) :
    Except StreamStop WriteBuffer :=
  calls.foldlM WriteBuffer.call stream

/-- The buffer is as large as it was allocated, and has room for a byte. -/
structure WriteBuffer.Sound (stream : WriteBuffer) : Prop where
  allocated : stream.buffer.length = stream.maxBufferSize.toNat
  room : stream.numInBuffer < stream.maxBufferSize

/-- The stream of bytes that the memory holds. -/
def WriteBuffer.contents (stream : WriteBuffer) : BufferedWriteStream BlockFabric where
  fabric := { blocks := stream.sent }
  maxBufferSize := stream.maxBufferSize.toNat
  buffer := Buffers.read stream.buffer 0 stream.numInBuffer.toNat

theorem WriteBuffer.Sound.contents {stream : WriteBuffer} (sound : stream.Sound) :
    stream.contents.Room := by
  have room : stream.numInBuffer.toNat < stream.maxBufferSize.toNat := sound.room
  have allocated := sound.allocated
  change (Buffers.read stream.buffer 0 stream.numInBuffer.toNat).length <
    stream.maxBufferSize.toNat
  rw [Buffers.length_read (by omega)]
  exact room

/-- A flush of memory is a flush of the bytes. -/
theorem flush_contents (stream : WriteBuffer)
    (allocated : stream.buffer.length = stream.maxBufferSize.toNat)
    (inside : stream.numInBuffer ≤ stream.maxBufferSize) (positive : 0 < stream.maxBufferSize) :
    ∃ next, stream.flush = .ok next ∧ next.Sound ∧ next.contents.buffer = [] ∧
      stream.contents.flush = .ok next.contents := by
  have inside' : stream.numInBuffer.toNat ≤ stream.buffer.length := allocated.symm ▸ inside
  have length : stream.contents.buffer.length = stream.numInBuffer.toNat :=
    Buffers.length_read (by omega)
  by_cases pending : 0 < stream.numInBuffer
  · have pending' : 0 < stream.contents.buffer.length := length.symm ▸ pending
    refine ⟨{ stream with
      sent := stream.sent ++ [Buffers.read stream.buffer 0 stream.numInBuffer.toNat]
      numInBuffer := 0 }, ?_, ⟨allocated, positive⟩, rfl, ?_⟩
    · rw [WriteBuffer.flush, if_pos pending, if_pos inside']
    · rw [BufferedWriteStream.flush, if_pos pending']
      rfl
  · have empty : ¬ 0 < stream.contents.buffer.length := length.symm ▸ pending
    refine ⟨{ stream with numInBuffer := 0 }, ?_, ⟨allocated, positive⟩, rfl, ?_⟩
    · rw [WriteBuffer.flush, if_neg pending]
    · rw [BufferedWriteStream.flush, if_neg empty]
      rfl

theorem writeLoop_succ {φ : Type} [Fabric φ] (fuel : Nat) (stream : BufferedWriteStream φ)
    (mem : List UInt8) (some_ : mem ≠ []) :
    stream.writeLoop (fuel + 1) mem =
      (let numWeCanWrite := min mem.length (stream.maxBufferSize - stream.buffer.length)
      let filled := { stream with buffer := stream.buffer ++ mem.take numWeCanWrite }
      (if filled.buffer.length = filled.maxBufferSize then filled.flush else .ok filled).bind
        fun next => next.writeLoop fuel (mem.drop numWeCanWrite)) := by
  cases mem with
  | nil => exact absurd rfl some_
  | cons byte rest =>
    simp only [BufferedWriteStream.writeLoop]
    split <;> rfl

theorem toNat_ne_zero {size : UInt64} (some_ : size ≠ 0) : size.toNat ≠ 0 :=
  fun zero => some_ (UInt64.toNat_inj.mp zero)

theorem toNat_min (first second : UInt64) :
    (min first second).toNat = min first.toNat second.toNat := by
  have chosen : min first second = if first ≤ second then first else second := rfl
  rw [chosen]
  split
  · next below => exact (Nat.min_eq_left below).symm
  · next above => exact (Nat.min_eq_right (Nat.le_of_not_le above)).symm

theorem toNat_add_of_le {first second bound : UInt64}
    (fits : first.toNat + second.toNat ≤ bound.toNat) :
    (first + second).toNat = first.toNat + second.toNat := by
  rw [UInt64.toNat_add]
  exact Nat.mod_eq_of_lt (Nat.lt_of_le_of_lt fits bound.toNat_lt)

theorem held_written {buffer copied data : List UInt8} {held : Nat}
    (written : Buffers.write buffer held data = some copied) :
    Buffers.read copied 0 (held + data.length) = Buffers.read buffer 0 held ++ data := by
  have front : Buffers.read copied 0 held = Buffers.read buffer 0 held :=
    Buffers.read_write_apart written (Or.inl (by omega))
  have back : Buffers.read copied (0 + held) data.length = data := by
    rw [Nat.zero_add]
    exact Buffers.read_write_self written
  rw [Buffers.read_add, front, back]

/-- A flush of memory that is full is a flush of the bytes that fill it. -/
theorem flushIfFull_contents (filled : WriteBuffer)
    (allocated : filled.buffer.length = filled.maxBufferSize.toNat)
    (within : filled.numInBuffer ≤ filled.maxBufferSize) (positive : 0 < filled.maxBufferSize) :
    ∃ next, (if filled.numInBuffer = filled.maxBufferSize then filled.flush else .ok filled) =
        .ok next ∧ next.Sound ∧
      (if filled.contents.buffer.length = filled.contents.maxBufferSize then filled.contents.flush
        else .ok filled.contents) = .ok next.contents := by
  have length : filled.contents.buffer.length = filled.numInBuffer.toNat :=
    Buffers.length_read (by rw [allocated, Nat.zero_add]; exact within)
  have same : filled.contents.buffer.length = filled.contents.maxBufferSize ↔
      filled.numInBuffer = filled.maxBufferSize := by
    rw [length]
    exact UInt64.toNat_inj
  by_cases full : filled.numInBuffer = filled.maxBufferSize
  · rw [if_pos full, if_pos (same.mpr full)]
    obtain ⟨next, flushed, sound, -, onBytes⟩ := flush_contents filled allocated within positive
    exact ⟨next, flushed, sound, onBytes⟩
  · rw [if_neg full, if_neg (fun other => full (same.mp other))]
    exact ⟨filled, rfl, ⟨allocated, UInt64.lt_of_le_of_ne within full⟩, rfl⟩

/-- One iteration on memory takes some bytes, and is one iteration on the bytes. -/
theorem writeLoop_iteration (mem : List UInt8) (fuel : Nat) (stream : WriteBuffer)
    (readPtr stillToWrite : UInt64) (sound : stream.Sound) (open_ : stillToWrite ≠ 0)
    (inside : readPtr.toNat + stillToWrite.toNat = mem.length) :
    ∃ next, ∃ taken : UInt64, 0 < taken.toNat ∧ taken.toNat ≤ stillToWrite.toNat ∧ next.Sound ∧
      WriteBuffer.writeLoop mem (fuel + 1) stream readPtr stillToWrite =
        WriteBuffer.writeLoop mem fuel next (readPtr + taken) (stillToWrite - taken) ∧
      stream.contents.writeLoop (fuel + 1) (mem.drop readPtr.toNat) =
        next.contents.writeLoop fuel (mem.drop (readPtr.toNat + taken.toNat)) := by
  have room : stream.numInBuffer.toNat < stream.maxBufferSize.toNat := sound.room
  have allocated := sound.allocated
  have positive : 0 < stillToWrite.toNat := Nat.pos_of_ne_zero (toNat_ne_zero open_)
  have length : stream.contents.buffer.length = stream.numInBuffer.toNat :=
    Buffers.length_read (by omega)
  have missing : (mem.drop readPtr.toNat).length = stillToWrite.toNat := by
    rw [List.length_drop]
    omega
  obtain ⟨taken, taken_eq⟩ : ∃ taken, taken =
      min stillToWrite (stream.maxBufferSize - stream.numInBuffer) := ⟨_, rfl⟩
  have size : taken.toNat =
      min stillToWrite.toNat (stream.maxBufferSize.toNat - stream.numInBuffer.toNat) := by
    rw [taken_eq, toNat_min, UInt64.toNat_sub_of_le _ _ (Nat.le_of_lt room)]
  obtain ⟨copied, copy, written⟩ := @memcpy_inside stream.buffer mem stream.numInBuffer readPtr taken
    (by omega) (by omega)
  have piece : (Buffers.read mem readPtr.toNat taken.toNat).length = taken.toNat :=
    Buffers.length_read (by omega)
  have total : (stream.numInBuffer + taken).toNat = stream.numInBuffer.toNat + taken.toNat :=
    toNat_add_of_le (by omega : _ ≤ stream.maxBufferSize.toNat)
  obtain ⟨filled, filled_eq⟩ : ∃ filled : WriteBuffer, filled =
      { stream with buffer := copied, numInBuffer := stream.numInBuffer + taken } := ⟨_, rfl⟩
  -- the filled memory holds the filled bytes
  have contents : filled.contents = { stream.contents with
      buffer := stream.contents.buffer ++ (mem.drop readPtr.toNat).take taken.toNat } := by
    have held := held_written written
    rw [piece, ← total] at held
    rw [filled_eq, WriteBuffer.contents, held]
    rfl
  have allocated' : filled.buffer.length = filled.maxBufferSize.toNat := by
    rw [filled_eq]
    exact (Buffers.length_write written).trans allocated
  have onMemory : WriteBuffer.writeLoop mem (fuel + 1) stream readPtr stillToWrite =
      (if filled.numInBuffer = filled.maxBufferSize then filled.flush else .ok filled).bind
        fun next => WriteBuffer.writeLoop mem fuel next (readPtr + taken) (stillToWrite - taken) := by
    rw [WriteBuffer.writeLoop, if_neg open_]
    simp only [← taken_eq, copy, filled_eq, bind, Except.bind]
    split <;> rfl
  have onBytes : stream.contents.writeLoop (fuel + 1) (mem.drop readPtr.toNat) =
      (if filled.contents.buffer.length = filled.contents.maxBufferSize then filled.contents.flush
        else .ok filled.contents).bind
        fun next => next.writeLoop fuel (mem.drop (readPtr.toNat + taken.toNat)) := by
    have capacity : stream.contents.maxBufferSize = stream.maxBufferSize.toNat := rfl
    rw [writeLoop_succ _ _ _ (List.ne_nil_of_length_pos (missing.symm ▸ positive)), missing, length,
      capacity, ← size, contents, ← List.drop_drop]
    rfl
  have within : filled.numInBuffer ≤ filled.maxBufferSize := by
    rw [filled_eq, UInt64.le_iff_toNat_le, total]
    change _ ≤ stream.maxBufferSize.toNat
    omega
  have allowed : 0 < filled.maxBufferSize := by
    rw [filled_eq]
    exact UInt64.lt_of_le_of_lt (UInt64.zero_le) sound.room
  obtain ⟨next, settled, sound', onBytes'⟩ := flushIfFull_contents filled allocated' within allowed
  refine ⟨next, taken, by omega, by omega, sound', ?_, ?_⟩
  · rw [onMemory, settled]
    rfl
  · rw [onBytes, onBytes']
    rfl

/-- The loop on memory is the loop on the bytes. The induction is on the iterations,
each of which takes at least one byte. -/
theorem writeLoop_contents (mem : List UInt8) (fuel : Nat) (stream : WriteBuffer)
    (readPtr stillToWrite : UInt64) (sound : stream.Sound)
    (inside : readPtr.toNat + stillToWrite.toNat = mem.length)
    (bounded : mem.length < 2 ^ 64) (enough : stillToWrite.toNat ≤ fuel) :
    ∃ next, WriteBuffer.writeLoop mem fuel stream readPtr stillToWrite = .ok next ∧ next.Sound ∧
      stream.contents.writeLoop fuel (mem.drop readPtr.toNat) = .ok next.contents := by
  induction fuel generalizing stream readPtr stillToWrite with
  | zero =>
    have done : stillToWrite = 0 := UInt64.toNat_inj.mp (Nat.le_zero.mp enough)
    have empty : mem.drop readPtr.toNat = [] :=
      List.drop_eq_nil_of_le (by rw [done] at inside; exact Nat.le_of_eq inside.symm)
    refine ⟨stream, ?_, sound, ?_⟩
    · rw [WriteBuffer.writeLoop, if_pos done]
    · rw [empty, BufferedWriteStream.writeLoop]
  | succ fuel inductionHypothesis =>
    by_cases done : stillToWrite = 0
    · have empty : mem.drop readPtr.toNat = [] :=
        List.drop_eq_nil_of_le (by rw [done] at inside; exact Nat.le_of_eq inside.symm)
      refine ⟨stream, ?_, sound, ?_⟩
      · rw [WriteBuffer.writeLoop, if_pos done]
      · rw [empty, BufferedWriteStream.writeLoop]
    · obtain ⟨next, taken, positive, within, sound', onMemory, onBytes⟩ :=
        writeLoop_iteration mem fuel stream readPtr stillToWrite sound done inside
      have moved : (readPtr + taken).toNat = readPtr.toNat + taken.toNat := by
        rw [UInt64.toNat_add]
        exact Nat.mod_eq_of_lt (by omega)
      have left : (stillToWrite - taken).toNat = stillToWrite.toNat - taken.toNat :=
        UInt64.toNat_sub_of_le _ _ within
      obtain ⟨final, returned, sound'', sameBytes⟩ := inductionHypothesis next (readPtr + taken)
        (stillToWrite - taken) sound' (by omega) (by omega)
      refine ⟨final, onMemory.trans returned, sound'', ?_⟩
      rw [onBytes, ← moved, sameBytes]

/-- A call returns with the stream sound, and writes its bytes. -/
theorem call_returns (stream : WriteBuffer) (call : WriteCall) (sound : stream.Sound) :
    ∃ next, stream.call call = .ok next ∧ next.Sound ∧
      Wrote stream.contents call.bytes next.contents := by
  cases call with
  | write mem =>
    have inside : (0 : UInt64).toNat + mem.size.toNat = mem.bytes.length := by
      rw [ByteString.size_toNat]
      exact Nat.zero_add _
    obtain ⟨next, returned, sound', onBytes⟩ := writeLoop_contents mem.bytes mem.bytes.length stream
      0 mem.size sound inside mem.fits (Nat.le_of_eq mem.size_toNat)
    obtain ⟨written, same, wrote⟩ := write_returns stream.contents mem.bytes sound.contents
      fun fabric block _ => fabric.accepts block
    obtain rfl : written = next.contents := Except.ok.inj (same.symm.trans onBytes)
    exact ⟨next, returned, sound', wrote⟩
  | flush =>
    obtain ⟨next, returned, sound', _, onBytes⟩ := flush_contents stream sound.allocated
      (UInt64.le_of_lt sound.room) (UInt64.lt_of_le_of_lt UInt64.zero_le sound.room)
    obtain ⟨written, same, _, wrote⟩ := flush_returns stream.contents sound.contents
      fun fabric block _ => fabric.accepts block
    obtain rfl : written = next.contents := Except.ok.inj (same.symm.trans onBytes)
    exact ⟨next, returned, sound', wrote⟩

theorem callAll_returns (stream : WriteBuffer) (calls : List WriteCall) (sound : stream.Sound) :
    ∃ next, stream.callAll calls = .ok next ∧ next.Sound ∧
      Wrote stream.contents (calls.flatMap WriteCall.bytes) next.contents := by
  induction calls generalizing stream with
  | nil => exact ⟨stream, rfl, sound, Wrote.refl sound.contents⟩
  | cons call rest inductionHypothesis =>
    obtain ⟨middle, returned, sound', front⟩ := call_returns stream call sound
    obtain ⟨next, finished, sound'', back⟩ := inductionHypothesis middle sound'
    refine ⟨next, ?_, sound'', front.trans back⟩
    rw [WriteBuffer.callAll, List.foldlM_cons, returned]
    exact finished

/-- Calls that end with a flush send what they wrote. -/
theorem callAll_flushed (memory : List UInt8) (maxBufferSize : UInt64) (calls : List WriteCall)
    (allocated : memory.length = maxBufferSize.toNat) (positive : 1 ≤ maxBufferSize) :
    ∃ writer, (WriteBuffer.new memory maxBufferSize).callAll (calls ++ [.flush]) = .ok writer ∧
      writer.sent.flatten = calls.flatMap WriteCall.bytes := by
  have sound : (WriteBuffer.new memory maxBufferSize).Sound :=
    ⟨allocated, UInt64.lt_of_lt_of_le UInt64.zero_lt_one positive⟩
  obtain ⟨middle, returned, sound', wrote⟩ := callAll_returns _ calls sound
  obtain ⟨writer, flushed, _, empty, onBytes⟩ := flush_contents middle sound'.allocated
    (UInt64.le_of_lt sound'.room) (UInt64.lt_of_le_of_lt UInt64.zero_le sound'.room)
  obtain ⟨bytes, same, _, wrote'⟩ := flush_returns middle.contents sound'.contents
    fun fabric block _ => fabric.accepts block
  obtain rfl : bytes = writer.contents := Except.ok.inj (same.symm.trans onBytes)
  refine ⟨writer, ?_, ?_⟩
  · rw [WriteBuffer.callAll, List.foldlM_append]
    change (WriteBuffer.callAll _ calls).bind _ = _
    rw [returned]
    change (middle.flush).bind _ = _
    rw [flushed]
    rfl
  · have whole := (wrote.trans wrote').written
    rw [BufferedWriteStream.written, empty, List.append_nil, List.append_nil] at whole
    exact whole

/-! ## Reading -/

/-- A block that `Fabric::read` delivers: it has a byte, and its size is a `size_t`. -/
structure Block extends ByteString where
  nonempty : bytes ≠ []
  deriving DecidableEq

/-- The block and the counter of `BufferedReadStream`, and the blocks that its
fabric will deliver. `position` is where `buffer` points inside the block. -/
structure ReadBuffer where
  delivered : List Block
  block : List UInt8 := []
  position : UInt64 := 0
  numAvailable : UInt64 := 0

theorem missing_decreases {available missing : UInt64} (something : min available missing ≠ 0) :
    (missing - min available missing).toNat < missing.toNat := by
  have size := toNat_min available missing
  have positive := toNat_ne_zero something
  rw [UInt64.toNat_sub_of_le _ _ (UInt64.le_iff_toNat_le.mpr (by omega))]
  omega

theorem available_zero {available missing : UInt64} (open_ : missing ≠ 0)
    (nothing : min available missing = 0) : available.toNat = 0 := by
  have size := toNat_min available missing
  have positive := toNat_ne_zero open_
  rw [nothing] at size
  change 0 = _ at size
  omega

/-- The loop of `BufferedReadStream::read`. -/
def ReadBuffer.readLoop (stream : ReadBuffer) (mem : List UInt8)
    (writePtr numStillMissing : UInt64) : Except StreamStop (List UInt8 × ReadBuffer) :=
  if numStillMissing = 0 then
    .ok (mem, stream)
  else
    let numWeCanDeliver := min stream.numAvailable numStillMissing
    if numWeCanDeliver = 0 then
      match _fetched : stream.delivered with
      | [] => .error .waiting
      | block :: rest =>
        ReadBuffer.readLoop { delivered := rest, block := block.bytes, numAvailable := block.size }
          mem writePtr numStillMissing
    else
      match memcpy mem writePtr stream.block stream.position numWeCanDeliver with
      | .error stop => .error stop
      | .ok mem =>
        ReadBuffer.readLoop
          { stream with
            position := stream.position + numWeCanDeliver
            numAvailable := stream.numAvailable - numWeCanDeliver }
          mem (writePtr + numWeCanDeliver) (numStillMissing - numWeCanDeliver)
termination_by (numStillMissing.toNat, stream.delivered.length)
decreasing_by
  · rw [_fetched]
    exact Prod.Lex.right _ (Nat.lt_succ_self _)
  · rename_i something
    exact Prod.Lex.left _ _ (missing_decreases something)

/-- `BufferedReadStream::read` into the given memory. -/
def ReadBuffer.read (stream : ReadBuffer) (mem : ByteString) :
    Except StreamStop (List UInt8 × ReadBuffer) :=
  stream.readLoop mem.bytes 0 mem.size

/-- Reads in sequence: what each left in its memory, and the stream after it. -/
def ReadBuffer.readAll : ReadBuffer → List ByteString →
    Except StreamStop (List (List UInt8 × ReadBuffer))
  | _, [] => .ok []
  | stream, mem :: rest => do
    let first ← stream.read mem
    let others ← ReadBuffer.readAll first.2 rest
    .ok (first :: others)

/-- What is available lies inside the block. -/
structure ReadBuffer.Sound (stream : ReadBuffer) : Prop where
  inside : stream.position.toNat + stream.numAvailable.toNat ≤ stream.block.length
  bounded : stream.block.length < 2 ^ 64

/-- The stream of bytes that the memory holds. -/
def ReadBuffer.contents (stream : ReadBuffer) : BufferedReadStream BlockFabric where
  fabric := { blocks := stream.delivered.map fun block => block.bytes }
  buffer := Buffers.read stream.block stream.position.toNat stream.numAvailable.toNat

theorem fetched_contents (block : Block) (rest : List Block) :
    let fresh : ReadBuffer := { delivered := rest, block := block.bytes, numAvailable := block.size }
    fresh.Sound ∧ fresh.contents =
      { fabric := { blocks := rest.map fun block => block.bytes }, buffer := block.bytes } := by
  have whole : Buffers.read block.bytes 0 block.size.toNat = block.bytes := by
    rw [ByteString.size_toNat, Buffers.read_all]
  refine ⟨⟨?_, block.fits⟩, congrArg (BufferedReadStream.mk _) whole⟩
  rw [ByteString.size_toNat]
  exact Nat.le_of_eq (Nat.zero_add _)

/-- What is left of a block when some of its bytes are taken. -/
theorem taken_contents {stream : ReadBuffer} (sound : stream.Sound) {deliver : UInt64}
    (available : deliver.toNat ≤ stream.numAvailable.toNat) :
    let further : ReadBuffer :=
      { stream with
        position := stream.position + deliver
        numAvailable := stream.numAvailable - deliver }
    further.Sound ∧ further.contents =
      { stream.contents with buffer := stream.contents.buffer.drop deliver.toNat } := by
  have room := sound.inside
  have short := sound.bounded
  have advanced : (stream.position + deliver).toNat = stream.position.toNat + deliver.toNat := by
    rw [UInt64.toNat_add]
    exact Nat.mod_eq_of_lt (by omega)
  have fewer : (stream.numAvailable - deliver).toNat = stream.numAvailable.toNat - deliver.toNat :=
    UInt64.toNat_sub_of_le _ _ available
  refine ⟨⟨?_, short⟩, ?_⟩
  · rw [advanced, fewer]
    change _ ≤ stream.block.length
    omega
  · rw [ReadBuffer.contents, advanced, fewer]
    simp only [ReadBuffer.contents, Buffers.read, List.drop_take, List.drop_drop]

/-- The loop on memory serves what the stream of bytes serves, and leaves it in the
memory of the caller. The cases are those of the loop. -/
theorem readLoop_contents (stream : ReadBuffer) (mem : List UInt8) (writePtr missing : UInt64)
    (sound : stream.Sound) (inside : writePtr.toNat + missing.toNat ≤ mem.length)
    (bounded : mem.length < 2 ^ 64) {served : List UInt8} {after : BufferedReadStream BlockFabric}
    (serves : stream.contents.read missing.toNat = .ok (served, after)) :
    ∃ written next, stream.readLoop mem writePtr missing = .ok (written, next) ∧ next.Sound ∧
      Buffers.write mem writePtr.toNat served = some written ∧ next.contents = after := by
  have held : stream.contents.buffer.length = stream.numAvailable.toNat :=
    Buffers.length_read sound.inside
  induction stream, mem, writePtr, missing using ReadBuffer.readLoop.induct generalizing served with
  | case1 stream mem writePtr =>
    rw [BufferedReadStream.read, if_pos (by rfl)] at serves
    cases serves
    refine ⟨mem, stream, ?_, sound, Buffers.write_nil (by omega), rfl⟩
    rw [ReadBuffer.readLoop, if_pos rfl]
  | case2 stream mem writePtr missing open_ deliver nothing drained =>
    have used := available_zero open_ nothing
    have empty : stream.contents.buffer = [] := List.eq_nil_of_length_eq_zero (held.trans used)
    have waits : Fabric.read stream.contents.fabric = none := by
      rw [ReadBuffer.contents, drained]
      rfl
    rw [read_waiting _ _ (toNat_ne_zero open_) empty waits] at serves
    cases serves
  | case3 stream mem writePtr missing open_ deliver nothing block rest fetched inductionHypothesis =>
    have used := available_zero open_ nothing
    have empty : stream.contents.buffer = [] := List.eq_nil_of_length_eq_zero (held.trans used)
    obtain ⟨fresh, fresh_eq⟩ : ∃ fresh : ReadBuffer, fresh =
      { delivered := rest, block := block.bytes, numAvailable := block.size } := ⟨_, rfl⟩
    obtain ⟨sound', contents⟩ := fetched_contents block rest
    rw [← fresh_eq] at sound' contents
    have fetches : Fabric.read stream.contents.fabric =
        some (block.bytes, { blocks := rest.map fun block => block.bytes }) := by
      rw [ReadBuffer.contents, fetched]
      rfl
    rw [read_fetched _ _ (toNat_ne_zero open_) empty fetches, ← contents] at serves
    rw [← fresh_eq] at inductionHypothesis
    obtain ⟨written, next, returned, rest_⟩ := inductionHypothesis sound' inside bounded serves
      (Buffers.length_read sound'.inside)
    refine ⟨written, next, ?_, rest_⟩
    rw [ReadBuffer.readLoop, if_neg open_, if_pos nothing, ← returned, fresh_eq]
    split
    · next other => rw [fetched] at other; cases other
    · next first others other =>
      rw [fetched] at other
      cases other
      rfl
  | case4 stream mem writePtr missing open_ deliver something stop failed =>
    have size : deliver.toNat = min stream.numAvailable.toNat missing.toNat := toNat_min _ _
    have room := sound.inside
    obtain ⟨copied, copy, _⟩ := @memcpy_inside mem stream.block writePtr stream.position deliver
      (by omega) (by omega)
    rw [failed] at copy
    cases copy
  | case5 stream mem writePtr missing open_ deliver something copied copy inductionHypothesis =>
    have size : deliver.toNat = min stream.numAvailable.toNat missing.toNat := toNat_min _ _
    have room := sound.inside
    have short := sound.bounded
    obtain ⟨copied', copy', first⟩ := @memcpy_inside mem stream.block writePtr stream.position deliver
      (by omega) (by omega)
    obtain rfl : copied' = copied := Except.ok.inj (copy'.symm.trans copy)
    have positive := toNat_ne_zero something
    have moved : (writePtr + deliver).toNat = writePtr.toNat + deliver.toNat := by
      rw [UInt64.toNat_add]
      exact Nat.mod_eq_of_lt (by omega)
    have left : (missing - deliver).toNat = missing.toNat - deliver.toNat :=
      UInt64.toNat_sub_of_le _ _ (UInt64.le_iff_toNat_le.mpr (by omega))
    obtain ⟨further, further_eq⟩ : ∃ further : ReadBuffer, further =
      { stream with
        position := stream.position + deliver
        numAvailable := stream.numAvailable - deliver } := ⟨_, rfl⟩
    obtain ⟨sound', contents⟩ := @taken_contents stream sound deliver (by omega)
    rw [← further_eq] at sound' contents
    have piece : stream.contents.buffer.take deliver.toNat =
        Buffers.read stream.block stream.position.toNat deliver.toNat := by
      simp only [ReadBuffer.contents, Buffers.read, List.take_take]
      congr 1
      omega
    rw [read_delivered _ _ (by omega), held, ← size, ← left, ← contents, piece] at serves
    cases onwards : further.contents.read (missing - deliver).toNat with
    | error stop =>
      rw [onwards] at serves
      cases serves
    | ok result =>
      obtain ⟨later, after'⟩ := result
      rw [onwards] at serves
      cases serves
      rw [← further_eq] at inductionHypothesis
      obtain ⟨written, next, returned, sound'', second, same⟩ := inductionHypothesis sound'
        (by rw [Buffers.length_write first]; omega) (by rw [Buffers.length_write first]; exact bounded)
        onwards (Buffers.length_read sound'.inside)
      refine ⟨written, next, ?_, sound'', ?_, same⟩
      · rw [ReadBuffer.readLoop, if_neg open_, if_neg something, copy, ← returned, further_eq]
      · have length : (Buffers.read stream.block stream.position.toNat deliver.toNat).length =
            deliver.toNat := Buffers.length_read (by omega)
        rw [moved, ← length] at second
        exact Buffers.write_append first second

theorem read_serves (stream : ReadBuffer) (mem : ByteString) (sound : stream.Sound)
    (front rest : List UInt8) (holds : stream.contents.unread = front ++ rest)
    (asked : front.length = mem.bytes.length) :
    ∃ next, stream.read mem = .ok (front, next) ∧ next.Sound ∧ next.contents.unread = rest := by
  obtain ⟨after, serves, left⟩ := read_served stream.contents mem.bytes.length front rest holds asked
  rw [← mem.size_toNat] at serves
  have inside : (0 : UInt64).toNat + mem.size.toNat ≤ mem.bytes.length := by
    rw [ByteString.size_toNat]
    exact Nat.le_of_eq (Nat.zero_add _)
  obtain ⟨written, next, returned, sound', copied, rfl⟩ :=
    readLoop_contents stream mem.bytes 0 mem.size sound inside mem.fits serves
  have filled : Buffers.read written 0 front.length = front := Buffers.read_write_self copied
  have length : front.length = written.length := asked.trans (Buffers.length_write copied).symm
  rw [length, Buffers.read_all] at filled
  exact ⟨next, filled ▸ returned, sound', left⟩

/-- Reads of as many bytes as there are serve all of them, each exactly its size. -/
theorem readAll_serves (stream : ReadBuffer) (mems : List ByteString) (sound : stream.Sound)
    (total : (mems.map fun mem => mem.bytes.length).sum = stream.contents.unread.length) :
    ∃ results, stream.readAll mems = .ok results ∧
      results.map (fun result => result.1.length) = mems.map (fun mem => mem.bytes.length) ∧
      (results.map Prod.fst).flatten = stream.contents.unread ∧
      ∀ (index : Nat) (result : List UInt8 × ReadBuffer), results[index]? = some result →
        result.2.contents.unread = stream.contents.unread.drop
          ((mems.take (index + 1)).map fun mem => mem.bytes.length).sum := by
  induction mems generalizing stream with
  | nil =>
    have empty : stream.contents.unread = [] := List.eq_nil_of_length_eq_zero total.symm
    refine ⟨[], rfl, rfl, empty.symm, ?_⟩
    intro index result found
    simp at found
  | cons mem rest inductionHypothesis =>
    rw [List.map_cons, List.sum_cons] at total
    obtain ⟨next, served, sound', left⟩ := read_serves stream mem sound
      (stream.contents.unread.take mem.bytes.length) (stream.contents.unread.drop mem.bytes.length)
      (List.take_append_drop _ _).symm (by rw [List.length_take]; omega)
    obtain ⟨others, returned, sizes, concatenation, consumed⟩ := inductionHypothesis next sound'
      (by rw [left, List.length_drop]; omega)
    refine ⟨(stream.contents.unread.take mem.bytes.length, next) :: others, ?_, ?_, ?_, ?_⟩
    · rw [ReadBuffer.readAll, served]
      change (next.readAll rest).bind _ = _
      rw [returned]
      rfl
    · rw [List.map_cons, List.map_cons, sizes, List.length_take]
      congr 1
      omega
    · rw [List.map_cons, List.flatten_cons, concatenation, left, List.take_append_drop]
    · intro index result found
      cases index with
      | zero =>
        obtain rfl : _ = result := Option.some.inj found
        simpa using left
      | succ index =>
        have later := consumed index result found
        rw [later, left, List.drop_drop, List.take_succ_cons, List.map_cons, List.sum_cons]

/-- Whatever the size of the buffer, the calls, the division of the sent bytes into
delivered blocks and the sizes of the reads: every call returns without a copy
outside its memory, each read takes exactly its size, and the bytes read are the
bytes written. -/
theorem streams_transparent (maxBufferSize : UInt64) (memory : List UInt8)
    (allocated : memory.length = maxBufferSize.toNat) (positive : 1 ≤ maxBufferSize)
    (calls : List WriteCall) (mems : List ByteString)
    (total : (mems.map fun mem => mem.bytes.length).sum = (calls.flatMap WriteCall.bytes).length) :
    ∃ writer, (WriteBuffer.new memory maxBufferSize).callAll (calls ++ [.flush]) = .ok writer ∧
      ∀ delivered : List Block,
        (delivered.map fun block => block.bytes).flatten = writer.sent.flatten →
        ∃ results, ReadBuffer.readAll { delivered } mems = .ok results ∧
          results.map (fun result => result.1.length) = mems.map (fun mem => mem.bytes.length) ∧
          (results.map Prod.fst).flatten = calls.flatMap WriteCall.bytes ∧
          ∀ (index : Nat) (result : List UInt8 × ReadBuffer), results[index]? = some result →
            result.2.contents.unread = (calls.flatMap WriteCall.bytes).drop
              ((mems.take (index + 1)).map fun mem => mem.bytes.length).sum := by
  obtain ⟨writer, returned, sent⟩ := callAll_flushed memory maxBufferSize calls allocated positive
  refine ⟨writer, returned, ?_⟩
  intro delivered regrouped
  have sound : ReadBuffer.Sound { delivered } := ⟨Nat.le_refl _, Nat.two_pow_pos 64⟩
  have unread : (ReadBuffer.contents { delivered }).unread = calls.flatMap WriteCall.bytes := by
    rw [← sent, ← regrouped]
    rfl
  have served := readAll_serves { delivered } mems sound (unread.symm ▸ total)
  rw [unread] at served
  exact served

/-- A buffer of two bytes: four bytes are sent as two blocks, and read out of blocks
of one and three. -/
theorem streams_transparent_regrouped :
    ∃ writer, (WriteBuffer.new [7, 7] 2).callAll
        ([.write ⟨[1, 2, 3], by decide⟩, .write ⟨[4], by decide⟩] ++ [.flush]) = .ok writer ∧
      writer.sent = [[1, 2], [3, 4]] ∧
      ∃ results, ReadBuffer.readAll
          { delivered := [⟨⟨[1], by decide⟩, by decide⟩, ⟨⟨[2, 3, 4], by decide⟩, by decide⟩] }
          [⟨[0, 0], by decide⟩, ⟨[], by decide⟩, ⟨[0, 0], by decide⟩] = .ok results ∧
        results.map (fun result => result.1.length) = [2, 0, 2] ∧
        (results.map Prod.fst).flatten = [1, 2, 3, 4] := by
  obtain ⟨writer, returned, reads⟩ := streams_transparent 2 [7, 7] rfl (by decide)
    [.write ⟨[1, 2, 3], by decide⟩, .write ⟨[4], by decide⟩]
    [⟨[0, 0], by decide⟩, ⟨[], by decide⟩, ⟨[0, 0], by decide⟩] rfl
  have sent : writer.sent = [[1, 2], [3, 4]] := by
    have computed : (WriteBuffer.new [7, 7] 2).callAll
        ([.write ⟨[1, 2, 3], by decide⟩, .write ⟨[4], by decide⟩] ++ [.flush]) =
        .ok ⟨[3, 4], 2, 0, [[1, 2], [3, 4]]⟩ := by rfl
    rw [computed] at returned
    rw [← Except.ok.inj returned]
  obtain ⟨results, served, sizes, concatenation, _⟩ :=
    reads [⟨⟨[1], by decide⟩, by decide⟩, ⟨⟨[2, 3, 4], by decide⟩, by decide⟩] (by rw [sent]; rfl)
  exact ⟨writer, returned, sent, results, served, sizes, concatenation⟩

end Ospray.Networking

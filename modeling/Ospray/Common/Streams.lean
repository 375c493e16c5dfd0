import Ospray.Library.Bytes

/-!
# Buffered streams over a fabric

`BufferedWriteStream` gathers written bytes in a buffer and hands the buffer to
the fabric when it is full or when it is flushed. `BufferedReadStream` serves
reads of any size from the blocks the fabric delivers. Whatever the sizes of the
writes, of the buffer and of the reads, the bytes read are the bytes written.
-/

namespace Ospray.Networking

open Library.Bytes

/-- `Fabric`: transmits blocks of bytes. `send` has no result when it ends the
program, `read` has none while it waits for a block. Only finitely many blocks
can be read before the next one is sent. -/
class Fabric (φ : Type) where
  send : φ → List UInt8 → Option φ
  read : φ → Option (List UInt8 × φ)
  queued : φ → Nat
  read_queued : ∀ {fabric block rest}, read fabric = some (block, rest) → queued rest < queued fabric

/-- A fabric that delivers the sent bytes in order, in blocks of its choice. -/
class LosslessFabric (φ : Type) extends Fabric φ where
  inFlight : φ → List UInt8
  inFlight_send : ∀ {fabric block next}, send fabric block = some next →
    inFlight next = inFlight fabric ++ block
  inFlight_read : ∀ {fabric block next}, read fabric = some (block, next) →
    inFlight fabric = block ++ inFlight next
  inFlight_waiting : ∀ {fabric}, read fabric = none → inFlight fabric = []

/-- Why a writer does not return: the fabric ended the program, or the loop of
`write` is still running after one iteration for every byte. -/
inductive WriteStop
  | assertion
  | unfinished
  deriving DecidableEq, Repr

/-- Why a reader does not return: it waits for the fabric, or it threw. -/
inductive ReadStop
  | waiting
  | runtimeError (message : String)
  deriving DecidableEq, Repr

/-- `BufferedWriteStream`. The buffer holds the first `numInBuffer` bytes. -/
structure BufferedWriteStream (φ : Type) where
  fabric : φ
  maxBufferSize : Nat
  buffer : List UInt8 := []

/-- `BufferedReadStream`. The buffer holds the `numAvailable` bytes left of the
current block. -/
structure BufferedReadStream (φ : Type) where
  fabric : φ
  buffer : List UInt8 := []

/-- `MPIBcastFabric`: the blocks that were broadcast and not read yet. -/
structure MPIBcastFabric where
  blocks : List (List UInt8) := []
  deriving DecidableEq

/-- The sizes that `MPIBcastFabric::send` asserts to be broadcast. -/
def maxBcastSize : Nat := 2 ^ 30

/-- `MPIBcastFabric::send`. The asserted bound keeps the size within the 32 bits
it is broadcast in. -/
def MPIBcastFabric.send (fabric : MPIBcastFabric) (block : List UInt8) : Option MPIBcastFabric :=
  if block.length < maxBcastSize then some { blocks := fabric.blocks ++ [block] } else none

/-- `MPIBcastFabric::read`. -/
def MPIBcastFabric.read (fabric : MPIBcastFabric) : Option (List UInt8 × MPIBcastFabric) :=
  match fabric.blocks with
  | [] => none
  | block :: rest => some (block, { blocks := rest })

/-- A broadcast delivers every block as it was sent. -/
instance : LosslessFabric MPIBcastFabric where
  send := MPIBcastFabric.send
  read := MPIBcastFabric.read
  queued fabric := fabric.blocks.length
  inFlight fabric := fabric.blocks.flatten
  read_queued := by
    rintro ⟨_ | ⟨first, rest⟩⟩ block next delivered
    · cases delivered
    · cases delivered
      exact Nat.lt_succ_self _
  inFlight_send := by
    intro fabric block next sent
    unfold MPIBcastFabric.send at sent
    split at sent
    · cases sent
      simp
    · cases sent
  inFlight_read := by
    rintro ⟨_ | ⟨first, rest⟩⟩ block next delivered
    · cases delivered
    · cases delivered
      rfl
  inFlight_waiting := by
    rintro ⟨_ | ⟨first, rest⟩⟩ waits
    · rfl
    · cases waits

section WriteStream

variable {φ : Type} [Fabric φ]

/-- `BufferedWriteStream::flush`. -/
def BufferedWriteStream.flush (stream : BufferedWriteStream φ) :
    Except WriteStop (BufferedWriteStream φ) :=
  if 0 < stream.buffer.length then
    match Fabric.send stream.fabric stream.buffer with
    | none => .error .assertion
    | some fabric => .ok { stream with fabric, buffer := [] }
  else
    .ok { stream with buffer := [] }

/-- The loop of `BufferedWriteStream::write`, run for at most `fuel` iterations. -/
def BufferedWriteStream.writeLoop :
    Nat → BufferedWriteStream φ → List UInt8 → Except WriteStop (BufferedWriteStream φ)
  | _, stream, [] => .ok stream
  | 0, _, _ :: _ => .error .unfinished
  | fuel + 1, stream, byte :: rest => do
    let mem := byte :: rest
    let numWeCanWrite := min mem.length (stream.maxBufferSize - stream.buffer.length)
    let filled := { stream with buffer := stream.buffer ++ mem.take numWeCanWrite }
    let next ← if filled.buffer.length = filled.maxBufferSize then filled.flush else .ok filled
    writeLoop fuel next (mem.drop numWeCanWrite)

/-- `BufferedWriteStream::write`. Every iteration but the last fills the buffer,
so a buffer with room needs no more iterations than there are bytes. -/
def BufferedWriteStream.write (stream : BufferedWriteStream φ) (mem : List UInt8) :
    Except WriteStop (BufferedWriteStream φ) :=
  stream.writeLoop mem.length mem

/-- The calls of `write` that serialize one object, in order. -/
def BufferedWriteStream.writeAll (stream : BufferedWriteStream φ) (mems : List (List UInt8)) :
    Except WriteStop (BufferedWriteStream φ) :=
  mems.foldlM BufferedWriteStream.write stream

/-- The stream can take a byte: what is buffered leaves room. -/
def BufferedWriteStream.Room (stream : BufferedWriteStream φ) : Prop :=
  stream.buffer.length < stream.maxBufferSize

/-- Bytes that leave room in the buffer are only buffered. -/
theorem writeLoop_fits (fuel : Nat) (stream : BufferedWriteStream φ) (mem : List UInt8)
    (enough : mem.length ≤ fuel) (fits : stream.buffer.length + mem.length < stream.maxBufferSize) :
    stream.writeLoop fuel mem = .ok { stream with buffer := stream.buffer ++ mem } := by
  cases fuel with
  | zero =>
    have empty : mem = [] := List.eq_nil_of_length_eq_zero (Nat.le_zero.mp enough)
    simp [empty, BufferedWriteStream.writeLoop]
  | succ fuel =>
    cases mem with
    | nil => simp [BufferedWriteStream.writeLoop]
    | cons byte rest =>
      have whole : min (byte :: rest).length (stream.maxBufferSize - stream.buffer.length) =
          (byte :: rest).length := by omega
      have open_ : (stream.buffer ++ (byte :: rest)).length ≠ stream.maxBufferSize := by
        rw [List.length_append]
        omega
      simp only [BufferedWriteStream.writeLoop, whole, List.take_length, List.drop_length, open_,
        if_false]
      rfl

/-- Bytes that fill the buffer: it is filled, flushed, and the rest is written. -/
theorem writeLoop_full (fuel : Nat) (stream : BufferedWriteStream φ) (mem : List UInt8)
    (room : stream.Room) (full : stream.maxBufferSize ≤ stream.buffer.length + mem.length) :
    stream.writeLoop (fuel + 1) mem =
      (BufferedWriteStream.flush { stream with
          buffer := stream.buffer ++ mem.take (stream.maxBufferSize - stream.buffer.length) }).bind
        fun next => next.writeLoop fuel (mem.drop (stream.maxBufferSize - stream.buffer.length)) := by
  unfold BufferedWriteStream.Room at room
  cases mem with
  | nil => simp at full; omega
  | cons byte rest =>
    have part : min (byte :: rest).length (stream.maxBufferSize - stream.buffer.length) =
        stream.maxBufferSize - stream.buffer.length := by omega
    have closed : (stream.buffer ++
        (byte :: rest).take (stream.maxBufferSize - stream.buffer.length)).length =
          stream.maxBufferSize := by
      rw [List.length_append, List.length_take]
      omega
    simp only [BufferedWriteStream.writeLoop, part, closed, if_true]
    rfl

end WriteStream

section Transparent

variable {φ : Type} [LosslessFabric φ]

/-- Everything written so far: what is in flight, then what is still buffered. -/
def BufferedWriteStream.written (stream : BufferedWriteStream φ) : List UInt8 :=
  LosslessFabric.inFlight stream.fabric ++ stream.buffer

/-- What a returning call that writes `mem` does to a stream. -/
structure Wrote (stream : BufferedWriteStream φ) (mem : List UInt8) (next : BufferedWriteStream φ) :
    Prop where
  room : next.Room
  maxBufferSize : next.maxBufferSize = stream.maxBufferSize
  written : next.written = stream.written ++ mem
  sent : LosslessFabric.inFlight stream.fabric <+: LosslessFabric.inFlight next.fabric

theorem Wrote.refl {stream : BufferedWriteStream φ} (room : stream.Room) : Wrote stream [] stream := by
  constructor
  · exact room
  · rfl
  · exact (List.append_nil _).symm
  · exact List.prefix_refl _

theorem Wrote.trans {stream middle next : BufferedWriteStream φ} {first second : List UInt8}
    (front : Wrote stream first middle) (back : Wrote middle second next) :
    Wrote stream (first ++ second) next := by
  constructor
  · exact back.room
  · exact back.maxBufferSize.trans front.maxBufferSize
  · rw [back.written, front.written, List.append_assoc]
  · exact front.sent.trans back.sent

/-- A flush ends the program only if the fabric does. It loses nothing and leaves
the buffer empty. -/
theorem flush_cases (stream : BufferedWriteStream φ) (positive : 0 < stream.maxBufferSize) :
    (0 < stream.buffer.length ∧ Fabric.send stream.fabric stream.buffer = none ∧
      stream.flush = .error .assertion) ∨
    ∃ next, stream.flush = .ok next ∧ next.buffer = [] ∧ Wrote stream [] next := by
  by_cases pending : 0 < stream.buffer.length
  · cases sent : Fabric.send stream.fabric stream.buffer with
    | none =>
      left
      simp [BufferedWriteStream.flush, pending, sent]
    | some fabric =>
      right
      refine ⟨{ stream with fabric, buffer := [] }, ?_, rfl, ⟨positive, rfl, ?_, ?_⟩⟩
      · simp [BufferedWriteStream.flush, pending, sent]
      · simp [BufferedWriteStream.written, LosslessFabric.inFlight_send sent]
      · exact ⟨stream.buffer, (LosslessFabric.inFlight_send sent).symm⟩
  · right
    have empty : stream.buffer = [] := List.eq_nil_of_length_eq_zero (by omega)
    refine ⟨{ stream with buffer := [] }, ?_, rfl, ⟨positive, rfl, ?_, List.prefix_refl _⟩⟩
    · simp [BufferedWriteStream.flush, pending]
    · simp [BufferedWriteStream.written, empty]

/-- The loop appends its bytes unless the fabric ends the program; it never runs
out of iterations. The induction is on the iterations, each of which takes at
least one byte. -/
theorem writeLoop_cases (fuel : Nat) (stream : BufferedWriteStream φ) (mem : List UInt8)
    (room : stream.Room) (enough : mem.length ≤ fuel) :
    stream.writeLoop fuel mem = .error .assertion ∨
      ∃ next, stream.writeLoop fuel mem = .ok next ∧ Wrote stream mem next := by
  induction fuel generalizing stream mem with
  | zero =>
    have empty : mem = [] := List.eq_nil_of_length_eq_zero (Nat.le_zero.mp enough)
    subst empty
    right
    exact ⟨stream, rfl, Wrote.refl room⟩
  | succ fuel inductionHypothesis =>
    by_cases fits : stream.buffer.length + mem.length < stream.maxBufferSize
    · right
      refine ⟨_, writeLoop_fits (fuel + 1) stream mem enough fits, ?_, rfl, ?_, List.prefix_refl _⟩
      · unfold BufferedWriteStream.Room
        rw [List.length_append]
        exact fits
      · simp [BufferedWriteStream.written]
    · rw [writeLoop_full fuel stream mem room (by omega)]
      have taken : 0 < stream.maxBufferSize - stream.buffer.length := Nat.sub_pos_of_lt room
      have positive : 0 < stream.maxBufferSize := by omega
      obtain ⟨_, _, stopped⟩ | ⟨middle, flushed, empty, wrote⟩ := flush_cases { stream with
          buffer := stream.buffer ++ mem.take (stream.maxBufferSize - stream.buffer.length) } positive
      · left
        rw [stopped]
        rfl
      · rw [flushed]
        have fewer : (mem.drop (stream.maxBufferSize - stream.buffer.length)).length ≤ fuel := by
          rw [List.length_drop]
          omega
        obtain stopped | ⟨next, finished, later⟩ := inductionHypothesis middle _ wrote.room fewer
        · exact .inl stopped
        · have whole := wrote.trans later
          refine .inr ⟨next, finished, whole.room, whole.maxBufferSize, ?_, whole.sent⟩
          rw [whole.written]
          simp only [BufferedWriteStream.written, List.append_assoc, List.nil_append,
            List.take_append_drop]

theorem write_cases (stream : BufferedWriteStream φ) (mem : List UInt8) (room : stream.Room) :
    stream.write mem = .error .assertion ∨
      ∃ next, stream.write mem = .ok next ∧ Wrote stream mem next :=
  writeLoop_cases mem.length stream mem room (Nat.le_refl _)

/-- A fabric that takes every block the buffer can hold does not stop the loop. -/
theorem writeLoop_not_stopped (fuel : Nat) (stream : BufferedWriteStream φ) (mem : List UInt8)
    (room : stream.Room) (enough : mem.length ≤ fuel) (accepts : ∀ (fabric : φ) (block : List UInt8),
      block.length ≤ stream.maxBufferSize → Fabric.send fabric block ≠ none) :
    stream.writeLoop fuel mem ≠ .error .assertion := by
  induction fuel generalizing stream mem with
  | zero => cases mem <;> simp [BufferedWriteStream.writeLoop]
  | succ fuel inductionHypothesis =>
    by_cases fits : stream.buffer.length + mem.length < stream.maxBufferSize
    · rw [writeLoop_fits (fuel + 1) stream mem enough fits]
      simp
    · rw [writeLoop_full fuel stream mem room (by omega)]
      have taken : 0 < stream.maxBufferSize - stream.buffer.length := Nat.sub_pos_of_lt room
      have positive : 0 < stream.maxBufferSize := by omega
      obtain ⟨_, refused, _⟩ | ⟨middle, flushed, empty, wrote⟩ := flush_cases { stream with
          buffer := stream.buffer ++ mem.take (stream.maxBufferSize - stream.buffer.length) } positive
      · refine absurd refused (accepts _ _ ?_)
        rw [List.length_append, List.length_take]
        omega
      · rw [flushed]
        apply inductionHypothesis middle _ wrote.room
        · rw [List.length_drop]
          omega
        · rw [wrote.maxBufferSize]
          exact accepts

theorem write_returns (stream : BufferedWriteStream φ) (mem : List UInt8) (room : stream.Room)
    (accepts : ∀ (fabric : φ) (block : List UInt8),
      block.length ≤ stream.maxBufferSize → Fabric.send fabric block ≠ none) :
    ∃ next, stream.write mem = .ok next ∧ Wrote stream mem next := by
  obtain stopped | returned := write_cases stream mem room
  · exact absurd stopped (writeLoop_not_stopped _ stream mem room (Nat.le_refl _) accepts)
  · exact returned

theorem flush_returns (stream : BufferedWriteStream φ) (room : stream.Room)
    (accepts : ∀ (fabric : φ) (block : List UInt8),
      block.length ≤ stream.maxBufferSize → Fabric.send fabric block ≠ none) :
    ∃ next, stream.flush = .ok next ∧ next.buffer = [] ∧ Wrote stream [] next := by
  have room' : stream.buffer.length < stream.maxBufferSize := room
  obtain ⟨_, refused, _⟩ | returned := flush_cases stream (by omega)
  · exact absurd refused (accepts _ _ (Nat.le_of_lt room'))
  · exact returned

/-- What a read stream has still to serve: the rest of its block, then what is in
flight. -/
def BufferedReadStream.unread (stream : BufferedReadStream φ) : List UInt8 :=
  stream.buffer ++ LosslessFabric.inFlight stream.fabric

end Transparent

section ReadStream

variable {φ : Type}

/-- `BufferedReadStream::read`. A read goes on to the next block once the buffer
is used up. -/
def BufferedReadStream.read [Fabric φ] (stream : BufferedReadStream φ) (numStillMissing : Nat) :
    Except ReadStop (List UInt8 × BufferedReadStream φ) :=
  if numStillMissing = 0 then
    .ok ([], stream)
  else
    let numWeCanDeliver := min stream.buffer.length numStillMissing
    if numWeCanDeliver = 0 then
      match delivered : Fabric.read stream.fabric with
      | none => .error .waiting
      | some (block, fabric) =>
        have _fewer := Fabric.read_queued delivered
        BufferedReadStream.read { fabric, buffer := block } numStillMissing
    else do
      let (later, next) ← BufferedReadStream.read
        { stream with buffer := stream.buffer.drop numWeCanDeliver } (numStillMissing - numWeCanDeliver)
      .ok (stream.buffer.take numWeCanDeliver ++ later, next)
termination_by Fabric.queued stream.fabric + numStillMissing

theorem read_waiting [Fabric φ] (stream : BufferedReadStream φ) (numStillMissing : Nat)
    (open_ : numStillMissing ≠ 0) (drained : stream.buffer = [])
    (waits : Fabric.read stream.fabric = none) :
    stream.read numStillMissing = .error .waiting := by
  rw [BufferedReadStream.read]
  simp only [open_, if_false, drained, List.length_nil, Nat.zero_min, if_true]
  split
  · rfl
  · rename_i delivered
    rw [waits] at delivered
    cases delivered

/-- A read that finds the buffer used up goes on with the next block. -/
theorem read_fetched [Fabric φ] (stream : BufferedReadStream φ) (numStillMissing : Nat)
    (open_ : numStillMissing ≠ 0) (drained : stream.buffer = []) {block : List UInt8} {fabric : φ}
    (delivered : Fabric.read stream.fabric = some (block, fabric)) :
    stream.read numStillMissing =
      BufferedReadStream.read { fabric, buffer := block } numStillMissing := by
  rw [BufferedReadStream.read]
  simp only [open_, if_false, drained, List.length_nil, Nat.zero_min, if_true]
  split
  · rename_i waits
    rw [delivered] at waits
    cases waits
  · rename_i other same
    rw [delivered] at same
    cases same
    rfl

theorem read_delivered [Fabric φ] (stream : BufferedReadStream φ) (numStillMissing : Nat)
    (something : min stream.buffer.length numStillMissing ≠ 0) :
    stream.read numStillMissing =
      (BufferedReadStream.read
        { stream with buffer := stream.buffer.drop (min stream.buffer.length numStillMissing) }
          (numStillMissing - min stream.buffer.length numStillMissing)).bind fun result =>
        .ok (stream.buffer.take (min stream.buffer.length numStillMissing) ++ result.1, result.2) := by
  have open_ : numStillMissing ≠ 0 := by omega
  rw [BufferedReadStream.read]
  simp only [open_, if_false, something]
  rfl

variable [LosslessFabric φ]

theorem unread_fetched (stream : BufferedReadStream φ) (drained : stream.buffer = [])
    {block : List UInt8} {fabric : φ} (delivered : Fabric.read stream.fabric = some (block, fabric)) :
    BufferedReadStream.unread { fabric, buffer := block } = stream.unread := by
  simp [BufferedReadStream.unread, drained, LosslessFabric.inFlight_read delivered]

/-- A read serves exactly the bytes it was asked for, and leaves the others. The
induction follows the loop: it fetches a block or delivers a part. -/
theorem read_served (stream : BufferedReadStream φ) (numStillMissing : Nat) (front rest : List UInt8)
    (holds : stream.unread = front ++ rest) (asked : front.length = numStillMissing) :
    ∃ next, stream.read numStillMissing = .ok (front, next) ∧ next.unread = rest := by
  induction stream, numStillMissing using BufferedReadStream.read.induct generalizing front with
  | case1 stream =>
    have empty : front = [] := List.eq_nil_of_length_eq_zero asked
    subst empty
    unfold BufferedReadStream.read
    exact ⟨stream, by simp, holds⟩
  | case2 stream missing open_ deliver nothing waits =>
    have drained : stream.buffer = [] := List.eq_nil_of_length_eq_zero (by omega)
    have silent : LosslessFabric.inFlight stream.fabric = [] := LosslessFabric.inFlight_waiting waits
    have none_left : front ++ rest = [] := by
      rw [← holds, BufferedReadStream.unread, drained, silent, List.append_nil]
    have empty : front = [] := (List.append_eq_nil_iff.mp none_left).1
    rw [empty] at asked
    exact absurd asked.symm open_
  | case3 stream missing open_ deliver nothing block fabric delivered _ inductionHypothesis =>
    have drained : stream.buffer = [] := List.eq_nil_of_length_eq_zero (by omega)
    rw [read_fetched stream missing open_ drained delivered]
    apply inductionHypothesis front
    · rw [unread_fetched stream drained delivered, holds]
    · exact asked
  | case4 stream missing open_ deliver something inductionHypothesis =>
    have inBuffer : deliver ≤ stream.buffer.length := Nat.min_le_left _ _
    have inFront : deliver ≤ front.length := asked ▸ Nat.min_le_right _ _
    have split_ : stream.buffer ++ LosslessFabric.inFlight stream.fabric = front ++ rest := holds
    have taken : stream.buffer.take deliver = front.take deliver := by
      rw [← List.take_append_of_le_length inBuffer, split_, List.take_append_of_le_length inFront]
    have kept : BufferedReadStream.unread { stream with buffer := stream.buffer.drop deliver } =
        front.drop deliver ++ rest := by
      rw [BufferedReadStream.unread, ← List.drop_append_of_le_length inBuffer, split_,
        List.drop_append_of_le_length inFront]
    have fewer : (front.drop deliver).length = missing - deliver := by
      rw [List.length_drop, asked]
    obtain ⟨next, served, left⟩ := inductionHypothesis (front.drop deliver) kept fewer
    refine ⟨next, ?_, left⟩
    rw [read_delivered stream missing something, served]
    change Except.ok (stream.buffer.take deliver ++ front.drop deliver, next) = _
    rw [taken, List.take_append_drop]

/-- A read that asks for more than there is waits for the fabric. -/
theorem read_short (stream : BufferedReadStream φ) (numStillMissing : Nat)
    (short : stream.unread.length < numStillMissing) :
    stream.read numStillMissing = .error .waiting := by
  induction stream, numStillMissing using BufferedReadStream.read.induct with
  | case1 stream => exact absurd short (Nat.not_lt_zero _)
  | case2 stream missing open_ deliver nothing waits =>
    have drained : stream.buffer = [] := List.eq_nil_of_length_eq_zero (by omega)
    exact read_waiting stream missing open_ drained waits
  | case3 stream missing open_ deliver nothing block fabric delivered _ inductionHypothesis =>
    have drained : stream.buffer = [] := List.eq_nil_of_length_eq_zero (by omega)
    rw [read_fetched stream missing open_ drained delivered]
    apply inductionHypothesis
    rw [unread_fetched stream drained delivered]
    exact short
  | case4 stream missing open_ deliver something inductionHypothesis =>
    have inBuffer : deliver ≤ stream.buffer.length := Nat.min_le_left _ _
    have inMissing : deliver ≤ missing := Nat.min_le_right _ _
    rw [read_delivered stream missing something, inductionHypothesis]
    · rfl
    · simp only [BufferedReadStream.unread, List.length_append, List.length_drop] at short ⊢
      omega

end ReadStream

section Operators

variable {φ : Type}

/-- A computation on a read stream. -/
abbrev StreamReader (φ α : Type) := Reader (BufferedReadStream φ) ReadStop α

/-- `ReadStream::read` into memory of the given size. -/
def readBytes [Fabric φ] (size : Nat) : StreamReader φ (List UInt8) :=
  fun stream => stream.read size

/-- A `std::string` or a `std::vector<byte_t>`, whose size is a `size_t`. -/
structure ByteString where
  bytes : List UInt8
  fits : bytes.length < 2 ^ 64
  deriving DecidableEq

/-- `size()` as it is written. -/
def ByteString.size (string : ByteString) : UInt64 := UInt64.ofNat string.bytes.length

/-- `resize(sz)`, and the bytes read into it. -/
def ByteString.resized (sz : UInt64) (bytes : List UInt8) : ByteString where
  bytes := bytes.take sz.toNat
  fits := Nat.lt_of_le_of_lt (List.length_take_le _ _) sz.toNat_lt

/-- `operator<<` of a plain value: one call of `write`. -/
def outRaw {α : Type} [Raw α] (rh : α) : List (List UInt8) := [Raw.toBytes rh]

/-- `operator>>` of a plain value. -/
def inRaw {α : Type} [Raw α] [Fabric φ] : StreamReader φ α := do
  let mem ← readBytes (Raw.size α)
  pure (Raw.ofBytes mem)

/-- `operator<<` of a `std::string`, and of an `ArrayView<byte_t>`: the size, then
all bytes with one call. -/
def outString (rh : ByteString) : List (List UInt8) := outRaw rh.size ++ [rh.bytes]

/-- `operator>>` of a `std::string`. -/
def inString [Fabric φ] : StreamReader φ ByteString := do
  let sz : UInt64 ← inRaw
  let mem ← readBytes sz.toNat
  pure (ByteString.resized sz mem)

/-- `operator<<` of a `std::vector<byte_t>`: the size, then one call per byte. -/
def outVector (rh : ByteString) : List (List UInt8) := outRaw rh.size ++ rh.bytes.flatMap outRaw

/-- The loop that reads the elements of a vector. -/
def readElements [Fabric φ] : Nat → StreamReader φ (List UInt8)
  | 0 => pure []
  | count + 1 => do
    let element ← inRaw
    let rest ← readElements count
    pure (element :: rest)

/-- `operator>>` of a `std::vector<byte_t>`. -/
def inVector [Fabric φ] : StreamReader φ ByteString := do
  let sz : UInt64 ← inRaw
  let elements ← readElements sz.toNat
  pure (ByteString.resized sz elements)

@[simp] theorem ByteString.size_toNat (string : ByteString) :
    string.size.toNat = string.bytes.length :=
  UInt64.toNat_ofNat_of_lt' string.fits

@[simp] theorem ByteString.resized_self (string : ByteString) :
    ByteString.resized string.size string.bytes = string := by
  cases string
  simp [ByteString.resized]

variable [LosslessFabric φ]

/-- A stream reader that takes exactly `bytes`, and waits while some are missing. -/
abbrev StreamReads {α : Type} (reader : StreamReader φ α) (bytes : List UInt8) (value : α) : Prop :=
  Reads BufferedReadStream.unread ReadStop.waiting reader bytes value

theorem reads_bytes (bytes : List UInt8) :
    StreamReads (readBytes bytes.length : StreamReader φ _) bytes bytes := by
  constructor
  · intro stream rest holds
    exact read_served stream bytes.length bytes rest holds rfl
  · intro stream missing some_ short
    apply read_short
    have positive := List.length_pos_iff.mpr some_
    rw [← short, List.length_append]
    omega

theorem reads_raw {α : Type} [Raw α] (value : α) :
    StreamReads (inRaw : StreamReader φ α) (Raw.toBytes value) value := by
  have bytes := reads_bytes (φ := φ) (Raw.toBytes value)
  rw [Raw.length_toBytes] at bytes
  have built := bytes.map (fun mem => (Raw.ofBytes mem : α))
  rwa [Raw.ofBytes_toBytes] at built

theorem reads_string (string : ByteString) :
    StreamReads (inString : StreamReader φ ByteString) (outString string).flatten string := by
  have written : (outString string).flatten = Raw.toBytes string.size ++ string.bytes := by
    simp [outString, outRaw]
  rw [written]
  apply (reads_raw string.size).bind
  have built := (reads_bytes (φ := φ) string.bytes).map (ByteString.resized string.size)
  rw [ByteString.resized_self] at built
  rwa [ByteString.size_toNat]

theorem reads_elements (bytes : List UInt8) :
    StreamReads (readElements bytes.length : StreamReader φ _) (bytes.flatMap outRaw).flatten bytes := by
  induction bytes with
  | nil => exact Reads.pure []
  | cons byte rest inductionHypothesis =>
    have written : ((byte :: rest).flatMap outRaw).flatten =
        Raw.toBytes byte ++ (rest.flatMap outRaw).flatten := by
      simp [outRaw]
    rw [written]
    apply (reads_raw byte).bind
    exact inductionHypothesis.map (byte :: ·)

theorem reads_vector (vector : ByteString) :
    StreamReads (inVector : StreamReader φ ByteString) (outVector vector).flatten vector := by
  have written : (outVector vector).flatten =
      Raw.toBytes vector.size ++ (vector.bytes.flatMap outRaw).flatten := by
    simp [outVector, outRaw]
  rw [written]
  apply (reads_raw vector.size).bind
  have built := (reads_elements (φ := φ) vector.bytes).map (ByteString.resized vector.size)
  rw [ByteString.resized_self] at built
  rwa [ByteString.size_toNat]

theorem toBytes_byte (byte : UInt8) : Raw.toBytes byte = [byte] := by
  change [UInt8.ofNat (byte.toNat % 256)] = [byte]
  rw [Nat.mod_eq_of_lt byte.toNat_lt, UInt8.ofNat_toNat]

/-- Writing an array byte by byte and writing it with one call give the same
bytes, so that a vector can be read from an array view. -/
theorem outVector_flatten (vector : ByteString) :
    (outVector vector).flatten = (outString vector).flatten := by
  have elements : (vector.bytes.flatMap outRaw).flatten = vector.bytes := by
    induction vector.bytes with
    | nil => rfl
    | cons byte rest inductionHypothesis =>
      simp [outRaw, toBytes_byte, inductionHypothesis]
  simp [outVector, outString, elements]

end Operators

end Ospray.Networking

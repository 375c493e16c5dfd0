import Ospray.Library.Buffers
import Ospray.Library.MachineIntegers

/-!
# Buffered sockets

A socket gathers written bytes in a buffer, and hands the buffer to the system when it is full or flushed. It serves
reads from another buffer, which the system fills. A call of `send` may take a part of what it is offered, and a call
of `recv` may return a part of what is on its way, so all three transfers are loops. However the system divides the
bytes, they arrive as they were written, except that the length of a flush passes through an `int`.

A call has no result if it leaves the memory of a buffer, waits for bytes that nobody sends, or never returns.
-/

namespace Ospray.Sockets

open Library

/-- Memory that `new char[size]` has allocated, with whatever it finds there. -/
structure Memory where
  bytes : List UInt8
  positive : 0 < bytes.length
  allocated : bytes.length < 2 ^ 63

/-- `buffered_socket_t` -/
structure BufferedSocket where
  ibuf : List UInt8
  isize : Nat
  istart : Nat
  iend : Nat
  obuf : List UInt8
  osize : Nat
  oend : Nat

/-- The constructor. -/
def BufferedSocket.new (ibuf obuf : Memory) : BufferedSocket where
  ibuf := ibuf.bytes
  isize := ibuf.bytes.length
  istart := 0
  iend := 0
  obuf := obuf.bytes
  osize := obuf.bytes.length
  oend := 0

/-- What the system decides: how many of the offered bytes each call of `send` takes, and how many of those that could
be returned each call of `recv` returns. -/
structure System where
  send : Nat → Nat → Nat
  recv : Nat → Nat → Nat
  send_le : ∀ call length, send call length ≤ length
  send_pos : ∀ call length, 0 < length → 0 < send call length
  recv_le : ∀ call length, recv call length ≤ length
  recv_pos : ∀ call length, 0 < length → 0 < recv call length

/-- A socket, the bytes on their way, and how many calls the system has decided. -/
structure Connection where
  socket : BufferedSocket
  stream : List UInt8
  calls : Nat

variable (system : System)

/-! ## Writing -/

/-- `(int)bytes`, where a `size_t` is expected. -/
def castSize (bytes : Nat) : Nat := ((BitVec.ofNat 32 bytes).signExtend 64).toNat

/-- `send`, from a place in the buffer. -/
def send (connection : Connection) (data length : Nat) : Option (Nat × Connection) :=
  if data + length ≤ connection.socket.obuf.length then
    let n := system.send connection.calls length
    some (n, { connection with
      stream := connection.stream ++ Buffers.read connection.socket.obuf data n
      calls := connection.calls + 1 })
  else none

/-- The loop of `flush`. It never ends once `send` takes nothing. -/
def flushLoop (connection : Connection) (data bytes : Nat) : Option Connection :=
  if 0 < bytes then
    match send system connection data (castSize bytes) with
    | none => none
    | some (n, next) => if 0 < n then flushLoop next (data + n) (bytes - n) else none
  else some connection
termination_by bytes

/-- `flush` -/
def flush (connection : Connection) : Option Connection := do
  let next ← flushLoop system connection 0 connection.socket.oend
  return { next with socket.oend := 0 }

/-- One iteration of the loop of `write`, and the number of bytes that it copies. -/
def writeSome (connection : Connection) (data : List UInt8) : Option (Nat × Connection) := do
  let room ← (if connection.socket.oend = connection.socket.osize then flush system connection else some connection)
  let bsize := min data.length (room.socket.osize - room.socket.oend)
  let obuf ← Buffers.write room.socket.obuf room.socket.oend (data.take bsize)
  return (bsize, { room with socket.obuf := obuf, socket.oend := room.socket.oend + bsize })

/-- `write`. The loop never ends once it copies nothing. -/
def write (connection : Connection) (data : List UInt8) : Option Connection :=
  if 0 < data.length then
    match writeSome system connection data with
    | none => none
    | some (bsize, next) => if 0 < bsize then write next (data.drop bsize) else none
  else some connection
termination_by data.length

/-! ## Reading -/

/-- `recv`, into the buffer. It waits if nothing is on its way. -/
def recv (connection : Connection) : Option Connection :=
  let most := min connection.socket.isize connection.stream.length
  if 0 < most then do
    let n := system.recv connection.calls most
    let ibuf ← Buffers.write connection.socket.ibuf 0 (connection.stream.take n)
    return { connection with
      socket.ibuf := ibuf, socket.istart := 0, socket.iend := n
      stream := connection.stream.drop n
      calls := connection.calls + 1 }
  else none

/-- `read_some` -/
def readSome (connection : Connection) (bytes : Nat) : Option (List UInt8 × Connection) := do
  let filled ← (if connection.socket.istart = connection.socket.iend then recv system connection else some connection)
  let bsize := min bytes (filled.socket.iend - filled.socket.istart)
  if filled.socket.istart + bsize ≤ filled.socket.ibuf.length then
    return (Buffers.read filled.socket.ibuf filled.socket.istart bsize,
      { filled with socket.istart := filled.socket.istart + bsize })
  else none

/-- `read`. The loop never ends once it gets nothing. -/
def read (connection : Connection) (bytes : Nat) : Option (List UInt8 × Connection) :=
  if 0 < bytes then
    match readSome system connection bytes with
    | none => none
    | some (data, next) =>
      if 0 < data.length then (read next (bytes - data.length)).map fun (rest, last) => (data ++ rest, last) else none
  else some ([], connection)
termination_by bytes

/-! ## The length of a flush -/

theorem castSize_of_lt {bytes : Nat} (small : bytes % 2 ^ 32 < 2 ^ 31) : castSize bytes = bytes % 2 ^ 32 := by
  have positive : (BitVec.ofNat 32 bytes).msb = false := by
    rw [BitVec.msb_eq_false_iff_two_mul_lt, BitVec.toNat_ofNat]
    omega
  rw [castSize, BitVec.toNat_signExtend, positive, BitVec.toNat_setWidth, BitVec.toNat_ofNat]
  simp only [Bool.false_eq_true, if_false]
  omega

theorem castSize_of_le {bytes : Nat} (large : 2 ^ 31 ≤ bytes % 2 ^ 32) : 2 ^ 63 ≤ castSize bytes := by
  have negative : (BitVec.ofNat 32 bytes).msb = true := by
    rw [BitVec.msb_eq_true_iff_two_mul_ge, BitVec.toNat_ofNat]
    omega
  rw [castSize, BitVec.toNat_signExtend, negative]
  simp only [if_true]
  omega

variable {system}

theorem send_inside {connection : Connection} {data length : Nat}
    (inside : data + length ≤ connection.socket.obuf.length) :
    send system connection data length = some (system.send connection.calls length,
      { connection with
        stream := connection.stream ++
          Buffers.read connection.socket.obuf data (system.send connection.calls length)
        calls := connection.calls + 1 }) :=
  if_pos inside

/-- A flush whose length is an `int` sends all bytes, in one or more calls. The induction is on their number. -/
theorem flushLoop_small {bytes : Nat} (small : bytes < 2 ^ 31) {connection : Connection} {data : Nat}
    (inside : data + bytes ≤ connection.socket.obuf.length) :
    ∃ calls, flushLoop system connection data bytes = some { connection with
      stream := connection.stream ++ Buffers.read connection.socket.obuf data bytes, calls } := by
  induction bytes using Nat.strongRecOn generalizing connection data with
  | ind bytes inductionHypothesis =>
    rw [flushLoop]
    by_cases remains : 0 < bytes
    · have same : castSize bytes = bytes := by
        rw [castSize_of_lt (by omega)]
        omega
      have positive := system.send_pos connection.calls bytes remains
      have part := system.send_le connection.calls bytes
      rw [if_pos remains, same, send_inside inside]
      generalize system.send connection.calls bytes = n at positive part
      simp only [if_pos positive]
      let next : Connection := { connection with
        stream := connection.stream ++ Buffers.read connection.socket.obuf data n
        calls := connection.calls + 1 }
      have room : data + n + (bytes - n) ≤ next.socket.obuf.length := by
        rwa [Nat.add_assoc, Nat.add_sub_cancel' part]
      obtain ⟨calls, ran⟩ := inductionHypothesis (bytes - n) (by omega) (by omega) room
      refine ⟨calls, ?_⟩
      have split : Buffers.read connection.socket.obuf data bytes =
          Buffers.read connection.socket.obuf data n ++
            Buffers.read connection.socket.obuf (data + n) (bytes - n) := by
        rw [← Buffers.read_add, Nat.add_sub_cancel' part]
      rw [ran, split, List.append_assoc]
    · obtain rfl : bytes = 0 := Nat.eq_zero_of_not_pos remains
      refine ⟨connection.calls, ?_⟩
      rw [if_neg remains, Buffers.read, List.take_zero, List.append_nil]

/-- A flush whose length is no `int` leaves the buffer or never ends, whatever the system does. The induction is on
the number of bytes: as long as the cut length is positive, it is sent first. -/
theorem flushLoop_large {bytes : Nat} (large : 2 ^ 31 ≤ bytes) {connection : Connection} {data : Nat}
    (allocated : connection.socket.obuf.length < 2 ^ 63) :
    flushLoop system connection data bytes = none := by
  induction bytes using Nat.strongRecOn generalizing connection data with
  | ind bytes inductionHypothesis =>
    rw [flushLoop, if_pos (by omega)]
    by_cases negative : 2 ^ 31 ≤ bytes % 2 ^ 32
    · have outside := castSize_of_le negative
      rw [send, if_neg (by omega)]
    · have length := castSize_of_lt (Nat.lt_of_not_le negative)
      by_cases inside : data + castSize bytes ≤ connection.socket.obuf.length
      · have part := system.send_le connection.calls (castSize bytes)
        rw [send_inside inside]
        generalize system.send connection.calls (castSize bytes) = n at part
        by_cases taken : 0 < n
        · simp only [if_pos taken]
          apply inductionHypothesis
          · omega
          · omega
          · exact allocated
        · simp only [if_neg taken]
      · rw [send, if_neg inside]

/-! ## What writing does -/

/-- The output buffer of a socket between two calls. -/
structure Writable (socket : BufferedSocket) : Prop where
  length : socket.obuf.length = socket.osize
  positive : 0 < socket.osize
  allocated : socket.osize < 2 ^ 63
  inside : socket.oend ≤ socket.osize

/-- The bytes that wait in the output buffer. -/
def BufferedSocket.waiting (socket : BufferedSocket) : List UInt8 := Buffers.read socket.obuf 0 socket.oend

variable {connection : Connection}

theorem writable_new (ibuf obuf : Memory) : Writable (BufferedSocket.new ibuf obuf) :=
  ⟨rfl, obuf.positive, obuf.allocated, Nat.zero_le _⟩

/-- How a call may change the output of a connection: the bytes on their way and the bytes that wait are those of
before and the written ones, and the buffer is the same memory. -/
structure Wrote (data : List UInt8) (before after : Connection) : Prop where
  writable : Writable after.socket
  osize : after.socket.osize = before.socket.osize
  bytes : after.stream ++ after.socket.waiting = before.stream ++ before.socket.waiting ++ data

theorem flush_small (writable : Writable connection.socket) (small : connection.socket.oend < 2 ^ 31) :
    ∃ next, flush system connection = some next ∧ Wrote [] connection next ∧ next.socket.oend = 0 ∧
      next.stream = connection.stream ++ connection.socket.waiting := by
  have inside : 0 + connection.socket.oend ≤ connection.socket.obuf.length := by
    rw [writable.length, Nat.zero_add]
    exact writable.inside
  obtain ⟨calls, ran⟩ := @flushLoop_small system _ small _ _ inside
  let next : Connection := { connection with
    socket.oend := 0, stream := connection.stream ++ connection.socket.waiting, calls }
  refine ⟨next, ?_, ⟨⟨writable.length, writable.positive, writable.allocated, Nat.zero_le _⟩, rfl, ?_⟩, rfl, rfl⟩
  · rw [flush, ran]
    rfl
  · rw [List.append_nil]
    exact List.append_nil _

theorem flush_large (writable : Writable connection.socket) (large : 2 ^ 31 ≤ connection.socket.oend) :
    flush system connection = none := by
  have allocated : connection.socket.obuf.length < 2 ^ 63 := writable.length ▸ writable.allocated
  rw [flush, flushLoop_large large allocated]
  rfl

theorem copy_room (writable : Writable connection.socket) {data : List UInt8}
    (fits : connection.socket.oend + data.length ≤ connection.socket.osize) :
    ∃ obuf, Buffers.write connection.socket.obuf connection.socket.oend data = some obuf ∧
      Writable { connection.socket with obuf, oend := connection.socket.oend + data.length } ∧
      BufferedSocket.waiting { connection.socket with obuf, oend := connection.socket.oend + data.length } =
        connection.socket.waiting ++ data := by
  have inside : connection.socket.oend + data.length ≤ connection.socket.obuf.length := writable.length ▸ fits
  obtain ⟨obuf, written⟩ := Option.isSome_iff_exists.mp (Buffers.write_isSome.mpr inside)
  refine ⟨obuf, written, ⟨?_, writable.positive, writable.allocated, fits⟩, ?_⟩
  · rw [Buffers.length_write written, writable.length]
  · rw [BufferedSocket.waiting, BufferedSocket.waiting, Buffers.read_add, Nat.zero_add,
      Buffers.read_write_self written, Buffers.read_write_apart written (Or.inl (Nat.le_of_eq (Nat.zero_add _)))]

/-- One iteration of `write` with room in the buffer. -/
theorem writeSome_room (writable : Writable connection.socket)
    (room : connection.socket.oend < connection.socket.osize) (data : List UInt8) :
    ∃ next, writeSome system connection data =
        some (min data.length (connection.socket.osize - connection.socket.oend), next) ∧
      Wrote (data.take (min data.length (connection.socket.osize - connection.socket.oend))) connection next ∧
      next.socket.oend =
        connection.socket.oend + min data.length (connection.socket.osize - connection.socket.oend) := by
  generalize size : min data.length (connection.socket.osize - connection.socket.oend) = bsize
  have length : (data.take bsize).length = bsize := by
    rw [List.length_take]
    omega
  obtain ⟨obuf, copied, after, waiting⟩ := @copy_room connection writable (data.take bsize) (by omega)
  rw [length] at after waiting
  refine ⟨{ connection with socket.obuf := obuf, socket.oend := connection.socket.oend + bsize }, ?_,
    ⟨after, rfl, ?_⟩, rfl⟩
  · rw [writeSome, if_neg (Nat.ne_of_lt room)]
    simp only [Option.bind_eq_bind, Option.bind_some, size, copied]
    rfl
  · rw [List.append_assoc, ← waiting]

theorem writeSome_full {flushed : Connection} (full : connection.socket.oend = connection.socket.osize)
    (ran : flush system connection = some flushed) (room : flushed.socket.oend ≠ flushed.socket.osize)
    (data : List UInt8) : writeSome system connection data = writeSome system flushed data := by
  rw [writeSome, writeSome, if_pos full, if_neg room, ran]

/-- Before an iteration, a buffer whose size is an `int` has room, or it gets room by a flush. -/
theorem makes_room (writable : Writable connection.socket) (small : connection.socket.osize < 2 ^ 31) :
    ∃ room, Wrote [] connection room ∧ room.socket.oend < room.socket.osize ∧
      ∀ data, writeSome system connection data = writeSome system room data := by
  by_cases full : connection.socket.oend = connection.socket.osize
  · obtain ⟨room, ran, wrote, empty, -⟩ := @flush_small system connection writable (full ▸ small)
    have space : room.socket.oend < room.socket.osize := by
      rw [empty]
      exact wrote.writable.positive
    exact ⟨room, wrote, space, writeSome_full full ran (Nat.ne_of_lt space)⟩
  · have space := Nat.lt_of_le_of_ne writable.inside full
    exact ⟨connection, ⟨writable, rfl, (List.append_nil _).symm⟩, space, fun _ => rfl⟩

theorem Wrote.trans {first second : List UInt8} {before middle after : Connection} (front : Wrote first before middle)
    (back : Wrote second middle after) : Wrote (first ++ second) before after :=
  ⟨back.writable, back.osize.trans front.osize, by rw [back.bytes, front.bytes, List.append_assoc _ first]⟩

/-- With a buffer whose size is an `int`, `write` returns and all bytes are written. The induction is on their
number. -/
theorem write_small (writable : Writable connection.socket) (small : connection.socket.osize < 2 ^ 31)
    (data : List UInt8) : ∃ next, write system connection data = some next ∧ Wrote data connection next := by
  induction size : data.length using Nat.strongRecOn generalizing connection data with
  | ind size inductionHypothesis =>
    rw [write]
    by_cases remains : 0 < data.length
    · obtain ⟨room, made, space, same⟩ := @makes_room system connection writable small
      obtain ⟨next, copied, wrote, -⟩ := @writeSome_room system room made.writable space data
      generalize bsize_ : min data.length (room.socket.osize - room.socket.oend) = bsize at copied wrote
      have positive : 0 < bsize := by omega
      have sofar := made.trans wrote
      obtain ⟨last, ran, rest⟩ := @inductionHypothesis (data.drop bsize).length (by
        rw [List.length_drop]
        omega) next wrote.writable (sofar.osize ▸ small) (data.drop bsize) rfl
      refine ⟨last, ?_, ?_⟩
      · rw [if_pos remains, same, copied]
        simp only [if_pos positive]
        exact ran
      · have whole := sofar.trans rest
        rwa [List.nil_append, List.take_append_drop] at whole
    · obtain rfl : data = [] := List.length_eq_zero_iff.mp (Nat.eq_zero_of_not_pos remains)
      exact ⟨connection, if_neg remains, writable, rfl, (List.append_nil _).symm⟩

theorem write_fits (writable : Writable connection.socket) {data : List UInt8}
    (fits : connection.socket.oend + data.length ≤ connection.socket.osize) :
    ∃ next, write system connection data = some next ∧ Wrote data connection next ∧
      next.socket.oend = connection.socket.oend + data.length := by
  rw [write]
  by_cases remains : 0 < data.length
  · obtain ⟨next, copied, wrote, filled⟩ := @writeSome_room system connection writable (by omega) data
    have all : min data.length (connection.socket.osize - connection.socket.oend) = data.length := by omega
    rw [all] at copied wrote filled
    rw [List.take_length] at wrote
    refine ⟨next, ?_, wrote, filled⟩
    rw [if_pos remains, copied]
    simp only [if_pos remains, List.drop_length]
    rw [write]
    exact if_neg (Nat.lt_irrefl 0)
  · obtain rfl : data = [] := List.length_eq_zero_iff.mp (Nat.eq_zero_of_not_pos remains)
    exact ⟨connection, if_neg remains, ⟨writable, rfl, (List.append_nil _).symm⟩, rfl⟩

theorem write_full (writable : Writable connection.socket) (large : 2 ^ 31 ≤ connection.socket.osize)
    (full : connection.socket.oend = connection.socket.osize) {data : List UInt8} (remains : 0 < data.length) :
    write system connection data = none := by
  have flushed := @flush_large system connection writable (full.symm ▸ large)
  rw [write, if_pos remains, writeSome, if_pos full, flushed]
  rfl

theorem write_exceeds (writable : Writable connection.socket) (large : 2 ^ 31 ≤ connection.socket.osize)
    {data : List UInt8} (exceeds : connection.socket.osize < connection.socket.oend + data.length) :
    write system connection data = none := by
  have inside := writable.inside
  by_cases full : connection.socket.oend = connection.socket.osize
  · exact write_full writable large full (by omega)
  · obtain ⟨next, copied, wrote, filled⟩ := @writeSome_room system connection writable (by omega) data
    have part : min data.length (connection.socket.osize - connection.socket.oend) =
        connection.socket.osize - connection.socket.oend := by omega
    rw [part] at copied wrote filled
    have same := wrote.osize
    rw [write, if_pos (by omega), copied]
    simp only [if_pos (Nat.sub_pos_of_lt (Nat.lt_of_le_of_ne inside full))]
    apply write_full wrote.writable
    · rwa [same]
    · omega
    · rw [List.length_drop]
      omega

/-- What a writer does: it writes its bytes if the size of the buffer is an `int` or if the bytes fit, and otherwise
it has no result. -/
structure Appends (writer : Connection → Option Connection) (bytes : List UInt8) : Prop where
  small : ∀ connection : Connection, Writable connection.socket → connection.socket.osize < 2 ^ 31 →
    ∃ next, writer connection = some next ∧ Wrote bytes connection next
  fits : ∀ connection : Connection, Writable connection.socket →
    connection.socket.oend + bytes.length ≤ connection.socket.osize →
    ∃ next, writer connection = some next ∧ Wrote bytes connection next ∧
      next.socket.oend = connection.socket.oend + bytes.length
  exceeds : ∀ connection : Connection, Writable connection.socket → 2 ^ 31 ≤ connection.socket.osize →
    connection.socket.osize < connection.socket.oend + bytes.length → writer connection = none

theorem write_appends (data : List UInt8) : Appends (fun connection => write system connection data) data :=
  ⟨fun _ writable small => write_small writable small data, fun _ writable => write_fits writable,
    fun _ writable large => write_exceeds writable large⟩

/-- Two writers, one after the other, do so. -/
theorem Appends.bind {first second : Connection → Option Connection} {front back : List UInt8}
    (left : Appends first front) (right : Appends second back) :
    Appends (fun connection => first connection >>= second) (front ++ back) := by
  constructor
  · intro connection writable small
    obtain ⟨middle, ran, wrote⟩ := left.small connection writable small
    obtain ⟨last, onwards, rest⟩ := right.small middle wrote.writable (wrote.osize ▸ small)
    exact ⟨last, by rw [ran]; exact onwards, wrote.trans rest⟩
  · intro connection writable fits
    rw [List.length_append] at fits
    obtain ⟨middle, ran, wrote, filled⟩ := left.fits connection writable (by omega)
    obtain ⟨last, onwards, rest, full⟩ := right.fits middle wrote.writable (by
      rw [wrote.osize, filled]
      omega)
    refine ⟨last, by rw [ran]; exact onwards, wrote.trans rest, ?_⟩
    rw [full, filled, List.length_append, Nat.add_assoc]
  · intro connection writable large exceeds
    rw [List.length_append] at exceeds
    by_cases fits : connection.socket.oend + front.length ≤ connection.socket.osize
    · obtain ⟨middle, ran, wrote, filled⟩ := left.fits connection writable fits
      rw [ran]
      apply right.exceeds middle wrote.writable
      · rwa [wrote.osize]
      · rw [wrote.osize, filled]
        omega
    · rw [left.exceeds connection writable large (Nat.lt_of_not_le fits)]
      rfl

/-! ## What reading does -/

/-- The input buffer of a socket between two calls. -/
structure Readable (socket : BufferedSocket) : Prop where
  length : socket.ibuf.length = socket.isize
  positive : 0 < socket.isize
  order : socket.istart ≤ socket.iend
  inside : socket.iend ≤ socket.isize

/-- The bytes that a connection has not read yet: those in the input buffer and those on their way. -/
def Connection.unread (connection : Connection) : List UInt8 :=
  Buffers.read connection.socket.ibuf connection.socket.istart (connection.socket.iend - connection.socket.istart) ++
    connection.stream

theorem readable_new (ibuf obuf : Memory) : Readable (BufferedSocket.new ibuf obuf) :=
  ⟨rfl, ibuf.positive, Nat.le_refl _, Nat.zero_le _⟩

theorem unread_new (ibuf obuf : Memory) (stream : List UInt8) (calls : Nat) :
    Connection.unread ⟨BufferedSocket.new ibuf obuf, stream, calls⟩ = stream :=
  List.nil_append stream

/-- `recv` moves some of the bytes on their way to an empty buffer. -/
theorem recv_spec (readable : Readable connection.socket)
    (empty : connection.socket.istart = connection.socket.iend) (coming : 0 < connection.stream.length) :
    ∃ next, recv system connection = some next ∧ Readable next.socket ∧ next.socket.istart < next.socket.iend ∧
      next.unread = connection.unread := by
  have most : 0 < min connection.socket.isize connection.stream.length :=
    Nat.lt_min.mpr ⟨readable.positive, coming⟩
  have positive := system.recv_pos connection.calls _ most
  have part := system.recv_le connection.calls (min connection.socket.isize connection.stream.length)
  generalize chosen : system.recv connection.calls (min connection.socket.isize connection.stream.length) = n
    at positive part
  have length : (connection.stream.take n).length = n := by
    rw [List.length_take]
    omega
  have inside : 0 + (connection.stream.take n).length ≤ connection.socket.ibuf.length := by
    rw [length, readable.length]
    omega
  obtain ⟨ibuf, written⟩ := Option.isSome_iff_exists.mp (Buffers.write_isSome.mpr inside)
  refine ⟨{ connection with
    socket.ibuf := ibuf, socket.istart := 0, socket.iend := n
    stream := connection.stream.drop n, calls := connection.calls + 1 }, ?_, ⟨?_, readable.positive, ?_, ?_⟩,
    positive, ?_⟩
  · simp only [recv, if_pos most, chosen, written, Option.bind_eq_bind, Option.bind_some]
    rfl
  · exact (Buffers.length_write written).trans readable.length
  · exact Nat.zero_le n
  · exact Nat.le_trans part (Nat.min_le_left _ _)
  · have received := Buffers.read_write_self written
    rw [length] at received
    rw [Connection.unread, Connection.unread, empty, Nat.sub_self, Nat.sub_zero, received, List.take_append_drop,
      Buffers.read, List.take_zero, List.nil_append]

/-- `read_some` returns some of the bytes that have not been read. -/
theorem readSome_spec (readable : Readable connection.socket) {bytes : Nat} (wanted : 0 < bytes)
    (coming : 0 < connection.unread.length) :
    ∃ data next, readSome system connection bytes = some (data, next) ∧ 0 < data.length ∧ data.length ≤ bytes ∧
      Readable next.socket ∧ connection.unread = data ++ next.unread := by
  obtain ⟨filled, ready, readable, nonempty, same⟩ : ∃ filled,
      (if connection.socket.istart = connection.socket.iend then recv system connection else some connection) =
        some filled ∧ Readable filled.socket ∧ filled.socket.istart < filled.socket.iend ∧
        filled.unread = connection.unread := by
    by_cases empty : connection.socket.istart = connection.socket.iend
    · rw [if_pos empty]
      apply recv_spec readable empty
      rwa [Connection.unread, empty, Nat.sub_self, Buffers.read, List.take_zero, List.nil_append] at coming
    · exact ⟨connection, if_neg empty, readable, Nat.lt_of_le_of_ne readable.order empty, rfl⟩
  obtain ⟨length, positive, order, inside⟩ := readable
  generalize size : min bytes (filled.socket.iend - filled.socket.istart) = bsize
  have covered : filled.socket.istart + bsize ≤ filled.socket.ibuf.length := by omega
  refine ⟨Buffers.read filled.socket.ibuf filled.socket.istart bsize,
    { filled with socket.istart := filled.socket.istart + bsize }, ?_, ?_, ?_, ⟨length, positive, ?_, inside⟩, ?_⟩
  · simp only [readSome, ready, Option.bind_eq_bind, Option.bind_some, size, if_pos covered]
    rfl
  · rw [Buffers.length_read covered]
    omega
  · rw [Buffers.length_read covered]
    omega
  · simp only
    omega
  · have split : filled.socket.iend - filled.socket.istart =
        bsize + (filled.socket.iend - (filled.socket.istart + bsize)) := by omega
    rw [← same, Connection.unread, Connection.unread, split, Buffers.read_add, List.append_assoc]

/-- A computation that reads from a connection. -/
abbrev Reader (α : Type) := StateT Connection Option α

/-- What a reader does: from a connection whose unread bytes begin with the given ones it returns the value, and leaves
the others. -/
def Delivers {α : Type} (reader : Reader α) (bytes : List UInt8) (value : α) : Prop :=
  ∀ (connection : Connection) (rest : List UInt8), Readable connection.socket → connection.unread = bytes ++ rest →
    ∃ next, reader connection = some (value, next) ∧ Readable next.socket ∧ next.unread = rest

/-- `read` returns as many bytes as it is asked for. The induction is on their number. -/
theorem read_spec (readable : Readable connection.socket) {data rest : List UInt8}
    (holds : connection.unread = data ++ rest) :
    ∃ next, read system connection data.length = some (data, next) ∧ Readable next.socket ∧ next.unread = rest := by
  induction size : data.length using Nat.strongRecOn generalizing connection data with
  | ind size inductionHypothesis =>
    subst size
    rw [read]
    by_cases wanted : 0 < data.length
    · have coming : 0 < connection.unread.length := by
        rw [holds, List.length_append]
        omega
      obtain ⟨part, next, ran, positive, few, readable, split⟩ :=
        @readSome_spec system connection readable _ wanted coming
      have front : (data ++ rest).take part.length = data.take part.length := List.take_append_of_le_length few
      have left : (data ++ rest).drop part.length = data.drop part.length ++ rest :=
        List.drop_append_of_le_length few
      rw [← holds, split, List.take_left] at front
      rw [← holds, split, List.drop_left] at left
      obtain ⟨last, onwards, readable, remaining⟩ := @inductionHypothesis (data.drop part.length).length (by
        rw [List.length_drop]
        omega) next readable (data.drop part.length) left rfl
      refine ⟨last, ?_, readable, remaining⟩
      rw [List.length_drop] at onwards
      rw [if_pos wanted, ran]
      simp only [if_pos positive, onwards, Option.map_some]
      have whole : part ++ data.drop part.length = data := by
        conv_rhs => rw [← List.take_append_drop part.length data, ← front]
      rw [whole]
    · obtain rfl : data = [] := List.length_eq_zero_iff.mp (Nat.eq_zero_of_not_pos wanted)
      exact ⟨connection, if_neg wanted, readable, holds⟩

theorem read_delivers (data : List UInt8) :
    Delivers (fun connection => read system connection data.length) data data :=
  fun _ _ readable holds => read_spec readable holds

theorem Delivers.map {α β : Type} {reader : Reader α} {bytes : List UInt8} {value : α} (change : α → β)
    (delivers : Delivers reader bytes value) : Delivers (change <$> reader) bytes (change value) := by
  intro connection rest readable holds
  obtain ⟨next, ran, readable, remaining⟩ := delivers connection rest readable holds
  refine ⟨next, ?_, readable, remaining⟩
  have mapped : (change <$> reader) connection =
      (reader connection).bind fun pair => some (change pair.1, pair.2) := rfl
  rw [mapped, ran]
  rfl

end Ospray.Sockets

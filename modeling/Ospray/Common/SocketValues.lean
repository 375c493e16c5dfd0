import Mathlib.Data.List.TakeWhile
import Ospray.Common.Sockets
import Ospray.Library.Bytes

/-!
# Values over a socket

Numbers are sent as the bytes of their memory, and a string as its length and its bytes. The reader makes a string of
what it receives up to the first zero, and keeps its length in an `int`, one more than which it allocates. So a sequence
of values is read as it was written if no string has a zero byte or the largest length, and if no flush is too long.

The reader may run while the writer does. Where it finds less on its way than it does here, after all writes, a call of
`recv` returns a part of what it could return here, or waits first.
-/

namespace Ospray.Sockets

open Library.Bytes

/-- The values that are written and read. A `float` is given by its bits, and a string by its bytes. -/
inductive Value where
  | bool (value : Bool)
  | char (value : UInt8)
  | int (value : Int32)
  | float (bits : UInt32)
  | string (bytes : List UInt8)
  deriving DecidableEq

/-- The types of these values. -/
inductive Kind where
  | bool
  | char
  | int
  | float
  | string

/-- Which function reads a value. -/
def Value.kind : Value → Kind
  | .bool _ => .bool
  | .char _ => .char
  | .int _ => .int
  | .float _ => .float
  | .string _ => .string

variable (system : System)

/-- `write`, for the memory of a number. -/
def writeRaw {α : Type} [Raw α] (value : α) (connection : Connection) : Option Connection :=
  write system connection (Raw.toBytes value)

/-- `write(socket_t, const std::string&)` -/
def writeString (str : List UInt8) (connection : Connection) : Option Connection :=
  writeRaw system (Int32.ofNat str.length) connection >>= fun next => write system next str

/-- The `write` of each type. -/
def writeValue : Value → Connection → Option Connection
  | .bool value => writeRaw system value
  | .char value => writeRaw system value
  | .int value => writeRaw system value
  | .float bits => writeRaw system bits
  | .string bytes => writeString system bytes

/-- `read`, into the memory of a number. -/
def readRaw (α : Type) [Raw α] : Reader α :=
  Raw.ofBytes <$> fun connection => read system connection (Raw.size α)

/-- `std::string s(str)`: the bytes before the first zero. -/
def cString (str : List UInt8) : List UInt8 := str.takeWhile (· ≠ 0)

/-- `new char[bytes+1]`, and the size of what `read` is to fill there. There is none if `bytes` is negative, or if
`bytes+1` is no `int`. -/
def allocate (bytes : Int32) : Option Nat :=
  if 0 ≤ bytes.toInt ∧ bytes.toInt + 1 < 2 ^ 31 then some bytes.toInt.toNat else none

/-- `read_string` -/
def readString : Reader (List UInt8) := do
  let bytes ← readRaw system Int32
  let size ← StateT.lift (allocate bytes)
  let str ← fun connection => read system connection size
  return cString (str ++ [0])

/-- `read_bool`, `read_char`, `read_int`, `read_float` and `read_string`. -/
def readValue : Kind → Reader Value
  | .bool => Value.bool <$> readRaw system Bool
  | .char => Value.char <$> readRaw system UInt8
  | .int => Value.int <$> readRaw system Int32
  | .float => Value.float <$> readRaw system UInt32
  | .string => Value.string <$> readString system

/-- A value whose length is an `int`, if it is a string. -/
structure Item where
  value : Value
  short : ∀ bytes, value = .string bytes → bytes.length < 2 ^ 31

/-- What the writer does. -/
inductive Op where
  | item (item : Item)
  | flush

/-- One call of the writer. -/
def perform (connection : Connection) : Op → Option Connection
  | .item item => writeValue system item.value connection
  | .flush => flush system connection

/-- The values that are written. -/
def items (ops : List Op) : List Item :=
  ops.filterMap fun
    | .item item => some item
    | .flush => none

/-- The values are read one after another. -/
def readAll : List Kind → Reader (List Value)
  | [] => pure []
  | kind :: rest => do
    let value ← readValue system kind
    let values ← readAll rest
    return value :: values

/-- What is written, with a flush at the end, is read through another socket, whatever the system does and whatever
comes later. -/
def RoundTrips (writerIn writerOut readerIn readerOut : Memory) (ops : List Op) : Prop :=
  ∀ (system : System) (later : List UInt8), ∃ sent last,
    (ops ++ [Op.flush]).foldlM (perform system) ⟨.new writerIn writerOut, [], 0⟩ = some sent ∧
      readAll system ((items ops).map fun item => item.value.kind)
          ⟨.new readerIn readerOut, sent.stream ++ later, sent.calls⟩ =
        some ((items ops).map Item.value, last) ∧
      last.unread = later

/-! ## The condition -/

/-- A string without a zero byte whose length can be allocated with one byte more. -/
def Item.Plain (item : Item) : Prop :=
  ∀ bytes, item.value = .string bytes → 0 ∉ bytes ∧ bytes.length + 1 < 2 ^ 31

/-- The bytes of a value. -/
def Value.bytes : Value → List UInt8
  | .bool value => Raw.toBytes value
  | .char value => Raw.toBytes value
  | .int value => Raw.toBytes value
  | .float bits => Raw.toBytes bits
  | .string bytes => Raw.toBytes (Int32.ofNat bytes.length) ++ bytes

/-- The length of each flush is an `int`, when some bytes wait already. -/
def Short (waiting : Nat) : List Op → Prop
  | [] => waiting < 2 ^ 31
  | .item item :: rest => Short (waiting + item.value.bytes.length) rest
  | .flush :: rest => waiting < 2 ^ 31 ∧ Short 0 rest

/-! ## Writing values -/

variable {system}

theorem writeValue_appends (value : Value) : Appends (writeValue system value) value.bytes := by
  cases value with
  | string bytes => exact (write_appends _).bind (write_appends bytes)
  | bool value => exact write_appends _
  | char value => exact write_appends _
  | int value => exact write_appends _
  | float bits => exact write_appends _

/-- The bytes of all values. -/
def bytesOf (items : List Item) : List UInt8 := items.flatMap fun item => item.value.bytes

variable {connection : Connection} {ops : List Op}

theorem Short.lt {waiting : Nat} (short : Short waiting ops) : waiting < 2 ^ 31 := by
  induction ops generalizing waiting with
  | nil => exact short
  | cons op ops inductionHypothesis =>
    cases op with
    | item item => exact Nat.lt_of_le_of_lt (Nat.le_add_right _ _) (inductionHypothesis short)
    | flush => exact short.1

theorem next_short (writable : Writable connection.socket)
    (short : connection.socket.osize < 2 ^ 31 ∨ Short connection.socket.oend ops) : connection.socket.oend < 2 ^ 31 := by
  obtain small | short := short
  · exact Nat.lt_of_le_of_lt writable.inside small
  · exact short.lt

theorem writeValue_short {item : Item} (writable : Writable connection.socket)
    (short : connection.socket.osize < 2 ^ 31 ∨ Short connection.socket.oend (.item item :: ops)) :
    ∃ next, writeValue system item.value connection = some next ∧ Wrote item.value.bytes connection next ∧
      (next.socket.osize < 2 ^ 31 ∨ Short next.socket.oend ops) := by
  by_cases small : connection.socket.osize < 2 ^ 31
  · obtain ⟨next, ran, wrote⟩ := (writeValue_appends item.value).small connection writable small
    exact ⟨next, ran, wrote, .inl (wrote.osize ▸ small)⟩
  · have later : Short (connection.socket.oend + item.value.bytes.length) ops := short.resolve_left small
    have fits := Nat.le_trans (Nat.le_of_lt later.lt) (Nat.le_of_not_lt small)
    obtain ⟨next, ran, wrote, filled⟩ := (writeValue_appends item.value).fits connection writable fits
    exact ⟨next, ran, wrote, .inr (filled ▸ later)⟩

/-- With a buffer or with flushes that are short, all values are on their way after the last flush. The induction is on
the calls. -/
theorem writeAll_short (writable : Writable connection.socket)
    (short : connection.socket.osize < 2 ^ 31 ∨ Short connection.socket.oend ops) :
    ∃ last, (ops ++ [Op.flush]).foldlM (perform system) connection = some last ∧
      last.stream = connection.stream ++ connection.socket.waiting ++ bytesOf (items ops) := by
  induction ops generalizing connection with
  | nil =>
    obtain ⟨last, ran, -, -, sent⟩ := @flush_small system connection writable (next_short writable short)
    refine ⟨last, ?_, sent.trans (List.append_nil _).symm⟩
    rw [List.nil_append, List.foldlM_cons, perform, ran]
    rfl
  | cons op ops inductionHypothesis =>
    cases op with
    | item item =>
      obtain ⟨next, ran, wrote, later⟩ := @writeValue_short system connection ops item writable short
      obtain ⟨last, onwards, sent⟩ := inductionHypothesis wrote.writable later
      refine ⟨last, ?_, ?_⟩
      · rw [List.cons_append, List.foldlM_cons, perform, ran]
        exact onwards
      · rw [sent, wrote.bytes, List.append_assoc _ item.value.bytes]
        rfl
    | flush =>
      obtain ⟨next, ran, wrote, empty, -⟩ := @flush_small system connection writable (next_short writable short)
      have later : next.socket.osize < 2 ^ 31 ∨ Short next.socket.oend ops := by
        rw [wrote.osize, empty]
        exact short.imp_right And.right
      obtain ⟨last, onwards, sent⟩ := inductionHypothesis wrote.writable later
      refine ⟨last, ?_, ?_⟩
      · rw [List.cons_append, List.foldlM_cons, perform, ran]
        exact onwards
      · rw [sent, wrote.bytes, List.append_nil]
        rfl

/-- With a larger buffer, a flush that is not short has no result, nor has a write before it that fills the buffer. -/
theorem writeAll_long (writable : Writable connection.socket) (large : 2 ^ 31 ≤ connection.socket.osize)
    (long : ¬Short connection.socket.oend ops) :
    (ops ++ [Op.flush]).foldlM (perform system) connection = none := by
  induction ops generalizing connection with
  | nil =>
    rw [List.nil_append, List.foldlM_cons, perform, flush_large writable (Nat.le_of_not_lt long)]
    rfl
  | cons op ops inductionHypothesis =>
    rw [List.cons_append, List.foldlM_cons]
    cases op with
    | item item =>
      by_cases fits : connection.socket.oend + item.value.bytes.length ≤ connection.socket.osize
      · obtain ⟨next, ran, wrote, filled⟩ := (writeValue_appends item.value).fits connection writable fits
        rw [perform, ran]
        exact inductionHypothesis wrote.writable (wrote.osize ▸ large) (filled ▸ long)
      · rw [perform, (writeValue_appends item.value).exceeds connection writable large (Nat.lt_of_not_le fits)]
        rfl
    | flush =>
      by_cases short : connection.socket.oend < 2 ^ 31
      · obtain ⟨next, ran, wrote, empty, -⟩ := @flush_small system connection writable short
        rw [perform, ran]
        exact inductionHypothesis wrote.writable (wrote.osize ▸ large) fun rest => long ⟨short, empty ▸ rest⟩
      · rw [perform, flush_large writable (Nat.le_of_not_lt short)]
        rfl

/-! ## Reading values -/

/-- What the reader makes of a value. -/
def Value.received : Value → Value
  | .string bytes => .string (cString (bytes ++ [0]))
  | value => value

theorem readRaw_delivers {α : Type} [Raw α] (value : α) :
    Delivers (readRaw system α) (Raw.toBytes value) value := by
  have delivered := (@read_delivers system (Raw.toBytes value)).map (Raw.ofBytes : List UInt8 → α)
  rwa [Raw.length_toBytes, Raw.ofBytes_toBytes] at delivered

theorem allocate_length {length : Nat} (small : length + 1 < 2 ^ 31) : allocate (Int32.ofNat length) = some length := by
  have same : (Int32.ofNat length).toInt = length := by
    rw [Int32.toInt_ofNat_of_lt]
    omega
  rw [allocate, same, Int.toNat_natCast, if_pos (by omega)]

theorem allocate_largest : allocate (Int32.ofNat (2 ^ 31 - 1)) = none := rfl

theorem readString_eq : readString system connection = (readRaw system Int32 connection).bind fun length =>
    (allocate length.1).bind fun size => (read system length.2 size).bind fun str =>
      some (cString (str.1 ++ [0]), str.2) := by
  have front : readString system connection = (readRaw system Int32 connection).bind fun length =>
      (StateT.lift (allocate length.1) >>= fun size => do
        let str ← fun connection => read system connection size
        return cString (str ++ [0]) : Reader (List UInt8)) length.2 := rfl
  rw [front]
  congr 1
  funext length
  cases allocate length.1 with
  | none => rfl
  | some size => rfl

theorem readString_delivers {bytes : List UInt8} (small : bytes.length + 1 < 2 ^ 31) :
    Delivers (readString system) (Raw.toBytes (Int32.ofNat bytes.length) ++ bytes) (cString (bytes ++ [0])) := by
  intro connection rest readable holds
  rw [List.append_assoc] at holds
  obtain ⟨middle, length, readable, left⟩ :=
    @readRaw_delivers system Int32 _ (Int32.ofNat bytes.length) connection _ readable holds
  obtain ⟨last, ran, readable, remaining⟩ := @read_spec system middle readable bytes rest left
  refine ⟨last, ?_, readable, remaining⟩
  rw [readString_eq, length, Option.bind_some, allocate_length small, Option.bind_some, ran, Option.bind_some]

theorem readString_largest {bytes rest : List UInt8} (largest : bytes.length = 2 ^ 31 - 1)
    (readable : Readable connection.socket)
    (holds : connection.unread = (Raw.toBytes (Int32.ofNat bytes.length) ++ bytes) ++ rest) :
    readString system connection = none := by
  rw [List.append_assoc] at holds
  obtain ⟨next, length, -, -⟩ :=
    @readRaw_delivers system Int32 _ (Int32.ofNat bytes.length) connection _ readable holds
  rw [readString_eq, length, Option.bind_some, largest, allocate_largest, Option.bind_none]

/-- An item whose length can be allocated. -/
def Item.Allocates (item : Item) : Prop := ∀ bytes, item.value = .string bytes → bytes.length + 1 < 2 ^ 31

theorem readValue_delivers {item : Item} (allocates : item.Allocates) :
    Delivers (readValue system item.value.kind) item.value.bytes item.value.received := by
  cases same : item.value with
  | bool value => exact (readRaw_delivers value).map Value.bool
  | char value => exact (readRaw_delivers value).map Value.char
  | int value => exact (readRaw_delivers value).map Value.int
  | float bits => exact (readRaw_delivers bits).map Value.float
  | string bytes => exact (readString_delivers (allocates bytes same)).map Value.string

theorem allocates_of_readValue {item : Item} {rest : List UInt8} (readable : Readable connection.socket)
    (holds : connection.unread = item.value.bytes ++ rest) {value : Value} {next : Connection}
    (ran : readValue system item.value.kind connection = some (value, next)) : item.Allocates := by
  intro bytes same
  by_contra long
  have short := item.short bytes same
  have largest : bytes.length = 2 ^ 31 - 1 := by omega
  rw [same] at holds ran
  have nothing := @readString_largest system connection bytes rest largest readable holds
  have mapped : readValue system (Value.string bytes).kind connection =
      (readString system connection).bind fun pair => some (Value.string pair.1, pair.2) := rfl
  rw [mapped, nothing, Option.bind_none] at ran
  cases ran

/-- The bytes before the first zero are all bytes exactly if none is zero. -/
theorem cString_eq_iff {bytes : List UInt8} : cString (bytes ++ [0]) = bytes ↔ 0 ∉ bytes := by
  have stops : cString (bytes ++ [0]) = bytes.takeWhile (· ≠ 0) := by
    induction bytes with
    | nil => rfl
    | cons byte bytes inductionHypothesis =>
      rw [cString] at inductionHypothesis ⊢
      rw [List.cons_append, List.takeWhile_cons, List.takeWhile_cons, inductionHypothesis]
  rw [stops, List.takeWhile_eq_self_iff]
  constructor
  · intro all member
    have nonzero := all 0 member
    simp at nonzero
  · intro absent byte member
    simp only [ne_eq, decide_not, Bool.not_eq_eq_eq_not, Bool.not_true, decide_eq_false_iff_not]
    rintro rfl
    exact absent member

theorem received_number {value : Value} (number : ∀ bytes, value ≠ .string bytes) : value.received = value := by
  cases value with
  | string bytes => exact absurd rfl (number bytes)
  | bool value => rfl
  | char value => rfl
  | int value => rfl
  | float bits => rfl

theorem plain_iff {item : Item} : item.Plain ↔ item.Allocates ∧ item.value.received = item.value := by
  by_cases string : ∃ bytes, item.value = .string bytes
  · obtain ⟨bytes, same⟩ := string
    simp only [Item.Plain, Item.Allocates, forall_eq', same, Value.received, Value.string.injEq, cString_eq_iff]
    exact and_comm
  · have number := not_exists.mp string
    constructor
    · intro plain
      exact ⟨fun bytes same => absurd same (number bytes), received_number number⟩
    · intro _ bytes same
      exact absurd same (number bytes)

theorem readAll_cons (kind : Kind) (rest : List Kind) : readAll system (kind :: rest) connection =
    (readValue system kind connection).bind fun first =>
      (readAll system rest first.2).bind fun others => some (first.1 :: others.1, others.2) := rfl

/-- Plain items are read as they were written. The induction is on the items. -/
theorem readAll_delivers {items : List Item} (plain : ∀ item ∈ items, item.Plain) :
    Delivers (readAll system (items.map fun item => item.value.kind)) (bytesOf items) (items.map Item.value) := by
  induction items with
  | nil =>
    intro connection rest readable holds
    exact ⟨connection, rfl, readable, holds⟩
  | cons item items inductionHypothesis =>
    intro connection rest readable holds
    obtain ⟨allocates, same⟩ := plain_iff.mp (plain item List.mem_cons_self)
    rw [bytesOf, List.flatMap_cons, List.append_assoc] at holds
    obtain ⟨middle, ran, readable, left⟩ := readValue_delivers allocates connection _ readable holds
    obtain ⟨last, onwards, readable, remaining⟩ :=
      inductionHypothesis (fun other member => plain other (List.mem_cons_of_mem _ member)) middle rest readable left
    refine ⟨last, ?_, readable, remaining⟩
    rw [List.map_cons, readAll_cons, ran, Option.bind_some, onwards, Option.bind_some, same, List.map_cons]

/-- Items that are read as they were written are plain. -/
theorem plain_of_readAll {items : List Item} {rest : List UInt8} (readable : Readable connection.socket)
    (holds : connection.unread = bytesOf items ++ rest) {last : Connection}
    (ran : readAll system (items.map fun item => item.value.kind) connection = some (items.map Item.value, last)) :
    ∀ item ∈ items, item.Plain := by
  induction items generalizing connection with
  | nil =>
    intro item member
    cases member
  | cons item items inductionHypothesis =>
    rw [bytesOf, List.flatMap_cons, List.append_assoc] at holds
    rw [List.map_cons, readAll_cons] at ran
    obtain ⟨⟨value, middle⟩, first, ran⟩ := Option.bind_eq_some_iff.mp ran
    obtain ⟨⟨values, next⟩, onwards, ran⟩ := Option.bind_eq_some_iff.mp ran
    obtain ⟨same, rfl⟩ := Prod.mk.inj (Option.some.inj ran)
    obtain ⟨rfl, rfl⟩ := List.cons.inj same
    have allocates := allocates_of_readValue readable holds first
    obtain ⟨after, again, readable, left⟩ := readValue_delivers allocates connection _ readable holds
    obtain ⟨received, rfl⟩ := Prod.mk.inj (Option.some.inj (again.symm.trans first))
    intro other member
    obtain rfl | later := List.mem_cons.mp member
    · exact plain_iff.mpr ⟨allocates, received⟩
    · exact inductionHypothesis readable left onwards other later

/-! ## The theorem -/

/-- A system that transfers all that it is offered. -/
def System.eager : System where
  send _ length := length
  recv _ length := length
  send_le _ length := Nat.le_refl length
  send_pos _ _ positive := positive
  recv_le _ length := Nat.le_refl length
  recv_pos _ _ positive := positive

theorem writeAll_sends (writerIn : Memory) {writerOut : Memory}
    (short : writerOut.bytes.length < 2 ^ 31 ∨ Short 0 ops) :
    ∃ sent, (ops ++ [Op.flush]).foldlM (perform system) ⟨.new writerIn writerOut, [], 0⟩ = some sent ∧
      sent.stream = bytesOf (items ops) :=
  @writeAll_short system ⟨.new writerIn writerOut, [], 0⟩ ops (writable_new writerIn writerOut) short

/-- The items of a script that round trips are plain, and its flushes are short if the buffer is large. -/
theorem plain_of_roundTrips {writerIn writerOut readerIn readerOut : Memory}
    (trips : RoundTrips writerIn writerOut readerIn readerOut ops) :
    (∀ item ∈ items ops, item.Plain) ∧ (writerOut.bytes.length < 2 ^ 31 ∨ Short 0 ops) := by
  obtain ⟨sent, last, wrote, ran, -⟩ := trips System.eager []
  have short : writerOut.bytes.length < 2 ^ 31 ∨ Short 0 ops := by
    by_contra long
    obtain ⟨large, long⟩ := not_or.mp long
    rw [writeAll_long (writable_new writerIn writerOut) (Nat.le_of_not_lt large) long] at wrote
    cases wrote
  obtain ⟨again, performed, stream⟩ := @writeAll_sends System.eager ops writerIn writerOut short
  obtain rfl : again = sent := Option.some.inj (performed.symm.trans wrote)
  refine ⟨?_, short⟩
  apply plain_of_readAll (readable_new readerIn readerOut) _ ran
  · exact []
  · rw [unread_new, stream]

/-- The values of a script are read as they were written, through any buffers and whatever the system does, exactly if
no string has a zero byte or a length that cannot be allocated with one byte more, and if the buffer or the flushes are
so short that the length of a flush is an `int`. -/
theorem roundTrips_iff (writerIn writerOut readerIn readerOut : Memory) (ops : List Op) :
    RoundTrips writerIn writerOut readerIn readerOut ops ↔
      (∀ item ∈ items ops, item.Plain) ∧ (writerOut.bytes.length < 2 ^ 31 ∨ Short 0 ops) := by
  constructor
  · exact plain_of_roundTrips
  · rintro ⟨plain, short⟩ system later
    obtain ⟨sent, wrote, stream⟩ := @writeAll_sends system ops writerIn writerOut short
    have holds := unread_new readerIn readerOut (sent.stream ++ later) sent.calls
    rw [stream] at holds
    obtain ⟨last, ran, -, remaining⟩ := readAll_delivers plain _ _ (readable_new readerIn readerOut) holds
    exact ⟨sent, last, wrote, by rw [stream]; exact ran, remaining⟩

/-- One byte of memory. -/
def oneByte : Memory := ⟨[0], by decide, by decide⟩

/-- A string with a zero byte between two others. -/
def zeroInside : Item := ⟨.string [97, 0, 98], by rintro bytes ⟨⟩; decide⟩

/-- Only the first of its bytes is received. -/
theorem zero_cuts : ¬ ∀ (writerIn writerOut readerIn readerOut : Memory) (ops : List Op),
    RoundTrips writerIn writerOut readerIn readerOut ops := by
  intro always
  obtain ⟨plain, -⟩ := plain_of_roundTrips (always oneByte oneByte oneByte oneByte [.item zeroInside])
  have absent := (plain zeroInside List.mem_cons_self [97, 0, 98] rfl).1
  exact absent (by decide)

end Ospray.Sockets

import Mathlib.Algebra.Order.Group.Nat
import Ospray.Library.Literals

/-!
# Values as bytes, and readers that consume them

A plain value occupies a fixed number of bytes from which it can be recovered.
Integers are stored least significant byte first; a product is stored field by
field.

A reader takes bytes from the front of some state and may fail. `Reads` says
that a reader takes exactly the given bytes, whatever follows them, and returns
the given value. It is closed under sequencing, so the reader of a record
inherits it from the readers of the fields.
-/

namespace Library.Bytes

universe u

/-- The lowest `count` base-256 digits of a number, least significant first. -/
def littleEndian : Nat → Nat → List UInt8
  | 0, _ => []
  | count + 1, value => UInt8.ofNat (value % 256) :: littleEndian count (value / 256)

/-- The number with the given base-256 digits. -/
def ofLittleEndian : List UInt8 → Nat
  | [] => 0
  | byte :: rest => byte.toNat + 256 * ofLittleEndian rest

@[simp] theorem littleEndian_length (count value : Nat) :
    (littleEndian count value).length = count := by
  induction count generalizing value with
  | zero => rfl
  | succ count inductionHypothesis => simp only [littleEndian, List.length_cons, inductionHypothesis]

/-- A number with at most `count` digits is recovered from them. The induction
peels the least significant digit off both sides. -/
theorem ofLittleEndian_littleEndian (count value : Nat) (fits : value < 256 ^ count) :
    ofLittleEndian (littleEndian count value) = value := by
  induction count generalizing value with
  | zero =>
    have zero : value = 0 := by simpa using fits
    rw [zero]
    rfl
  | succ count inductionHypothesis =>
    have higher : value / 256 < 256 ^ count := by
      apply Nat.div_lt_of_lt_mul
      rw [Nat.mul_comm, ← Nat.pow_succ]
      exact fits
    have digit : (UInt8.ofNat (value % 256)).toNat = value % 256 :=
      UInt8.toNat_ofNat_of_lt' (Nat.mod_lt _ (by decide))
    simp only [littleEndian, ofLittleEndian, inductionHypothesis _ higher, digit]
    exact Nat.mod_add_div value 256

/-- A type whose values are kept as a fixed number of bytes. -/
class Raw (α : Type u) where
  /-- How many bytes a value occupies. -/
  size : Nat
  /-- The bytes of a value. -/
  toBytes : α → List UInt8
  /-- The value that bytes stand for. -/
  ofBytes : List UInt8 → α
  /-- Every value occupies the declared number of bytes. -/
  length_toBytes : ∀ value, (toBytes value).length = size
  /-- A value is recovered from its bytes. -/
  ofBytes_toBytes : ∀ value, ofBytes (toBytes value) = value

attribute [simp] Raw.length_toBytes Raw.ofBytes_toBytes

/-- Values that are numbers of at most `count` digits. -/
@[reducible] def Raw.ofNumber {α : Type u} (count : Nat) (number : α → Nat) (value : Nat → α)
    (bounded : ∀ x, number x < 256 ^ count) (recovered : ∀ x, value (number x) = x) : Raw α where
  size := count
  toBytes x := littleEndian count (number x)
  ofBytes bytes := value (ofLittleEndian bytes)
  length_toBytes x := littleEndian_length count (number x)
  ofBytes_toBytes x := by
    rw [ofLittleEndian_littleEndian count (number x) (bounded x), recovered x]

instance : Raw UInt8 :=
  Raw.ofNumber 1 UInt8.toNat UInt8.ofNat (fun x => x.toNat_lt) fun _ => UInt8.ofNat_toNat

instance : Raw UInt32 :=
  Raw.ofNumber 4 UInt32.toNat UInt32.ofNat (fun x => x.toNat_lt) fun _ => UInt32.ofNat_toNat

instance : Raw UInt64 :=
  Raw.ofNumber 8 UInt64.toNat UInt64.ofNat (fun x => x.toNat_lt) fun _ => UInt64.ofNat_toNat

instance : Raw Int32 :=
  Raw.ofNumber 4 (fun x => x.toUInt32.toNat) (fun n => (UInt32.ofNat n).toInt32)
    (fun x => x.toUInt32.toNat_lt) fun x => by rw [UInt32.ofNat_toNat, Int32.toInt32_toUInt32]

instance : Raw Int64 :=
  Raw.ofNumber 8 (fun x => x.toUInt64.toNat) (fun n => (UInt64.ofNat n).toInt64)
    (fun x => x.toUInt64.toNat_lt) fun x => by rw [UInt64.ofNat_toNat, Int64.toInt64_toUInt64]

instance : Raw Bool :=
  Raw.ofNumber 1 Bool.toNat (fun n => n != 0) (fun x => by cases x <;> decide)
    fun x => by cases x <;> rfl

/-- Two values side by side. -/
instance instRawProd {α β : Type} [Raw α] [Raw β] : Raw (α × β) where
  size := Raw.size α + Raw.size β
  toBytes pair := Raw.toBytes pair.1 ++ Raw.toBytes pair.2
  ofBytes bytes := (Raw.ofBytes (bytes.take (Raw.size α)), Raw.ofBytes (bytes.drop (Raw.size α)))
  length_toBytes pair := by simp
  ofBytes_toBytes pair := by
    have first := Raw.length_toBytes pair.1
    rw [List.take_left' first, List.drop_left' first, Raw.ofBytes_toBytes, Raw.ofBytes_toBytes]

/-- A record kept as the tuple of its fields. -/
@[reducible] def Raw.ofFields {α β : Type} [Raw β] (fields : α → β) (build : β → α)
    (recovered : ∀ x, build (fields x) = x) : Raw α where
  size := Raw.size β
  toBytes x := Raw.toBytes (fields x)
  ofBytes bytes := build (Raw.ofBytes bytes)
  length_toBytes x := Raw.length_toBytes (fields x)
  ofBytes_toBytes x := by rw [Raw.ofBytes_toBytes, recovered]

section Readers

variable {σ ε α β : Type}

/-- A computation that takes bytes from a state, or stops. -/
abbrev Reader (σ ε α : Type) := StateT σ (Except ε) α

/-- The reader takes exactly `bytes` from any state that holds them in front,
and returns `value`. From a state that holds only a part of them it stops. -/
structure Reads (unread : σ → List UInt8) (stop : ε) (reader : Reader σ ε α) (bytes : List UInt8)
    (value : α) : Prop where
  serves : ∀ state rest, unread state = bytes ++ rest →
    ∃ next, reader.run state = .ok (value, next) ∧ unread next = rest
  starves : ∀ state missing, missing ≠ [] → unread state ++ missing = bytes →
    reader.run state = .error stop

variable {unread : σ → List UInt8} {stop : ε}

theorem Reads.pure (value : α) : Reads unread stop (pure value) [] value := by
  constructor
  · intro state rest holds
    exact ⟨state, rfl, holds⟩
  · intro state missing some_ short
    exact absurd (List.append_eq_nil_iff.mp short).2 some_

/-- Readers in sequence take their bytes one after the other. -/
theorem Reads.bind {reader : Reader σ ε α} {continuation : α → Reader σ ε β} {first second : List UInt8}
    {value : α} {result : β} (front : Reads unread stop reader first value)
    (back : Reads unread stop (continuation value) second result) :
    Reads unread stop (reader >>= continuation) (first ++ second) result := by
  constructor
  · intro state rest holds
    rw [List.append_assoc] at holds
    obtain ⟨middle, read, left⟩ := front.serves state (second ++ rest) holds
    obtain ⟨last, returned, remaining⟩ := back.serves middle rest left
    refine ⟨last, ?_, remaining⟩
    rw [StateT.run_bind, read]
    exact returned
  · intro state missing some_ short
    rw [StateT.run_bind]
    -- The bytes run out inside the first reader's part or after it.
    by_cases reached : first.length ≤ (unread state).length
    · obtain ⟨held, split⟩ : ∃ held, unread state = first ++ held := by
        refine ⟨(unread state).drop first.length, ?_⟩
        have cut := congrArg (List.take first.length) short
        rw [List.take_append_of_le_length reached, List.take_left] at cut
        conv_lhs => rw [← List.take_append_drop first.length (unread state), cut]
      obtain ⟨middle, read, left⟩ := front.serves state held split
      rw [read]
      apply back.starves middle missing some_
      rw [split, List.append_assoc, List.append_cancel_left_eq] at short
      rw [left, short]
    · have part : unread state ++ first.drop (unread state).length = first := by
        have cut := congrArg (List.take (unread state).length) short
        rw [List.take_left, List.take_append_of_le_length (by omega)] at cut
        calc unread state ++ first.drop (unread state).length
          _ = first.take (unread state).length ++ first.drop (unread state).length :=
            congrArg (· ++ first.drop (unread state).length) cut
          _ = first := List.take_append_drop _ _
      have some_left : first.drop (unread state).length ≠ [] := by
        intro none_left
        have shorter := List.drop_eq_nil_iff.mp none_left
        omega
      rw [front.starves state _ some_left part]
      rfl

theorem Reads.map {reader : Reader σ ε α} {bytes : List UInt8} {value : α} (build : α → β)
    (reads : Reads unread stop reader bytes value) :
    Reads unread stop (reader >>= fun x => Pure.pure (build x)) bytes (build value) := by
  have sequenced : Reads unread stop (reader >>= fun x => Pure.pure (build x)) (bytes ++ [])
      (build value) := reads.bind (Reads.pure (build value))
  rwa [List.append_nil] at sequenced

end Readers

end Library.Bytes

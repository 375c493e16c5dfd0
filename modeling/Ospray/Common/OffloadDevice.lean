import Ospray.Common.StreamBuffers
import Ospray.Library.SinglePrecision

/-!
# The write stream of the offload device

`MPIOffloadDevice::commit` replaces the stream by one whose buffer size is computed from
a scale of the environment or of a parameter. The loop of `write` moves on by what is
free in the buffer, so that a buffer without bytes is never filled and never passed.
-/

namespace Ospray.Networking

open Library Library.SinglePrecision

/-- What `commit` reads: `OSPRAY_MPI_OFFLOAD_WRITE_BUFFER_SCALE` and the parameter
`writeBufferScale`. -/
structure OffloadSettings where
  environment : Option Single
  writeBufferScale : Option Single

/-- The scale: the environment goes before the parameter. -/
def OffloadSettings.writeBufferSize (settings : OffloadSettings) : Single :=
  settings.environment.getD (settings.writeBufferScale.getD (.ofNat 1 one_small))

/-- `1024 * size_t(writeBufferSize * 1024)`, if the conversion is defined. -/
def OffloadSettings.bufferSize (settings : OffloadSettings) : Option UInt64 :=
  (settings.writeBufferSize.mul (.ofNat 1024 (by decide))).toUInt64.map fun size => 1024 * size

/-- A call that returns, after however many iterations. -/
def WriteBuffer.Returns (stream : WriteBuffer) : WriteCall → WriteBuffer → Prop
  | .write mem, next => ∃ fuel, stream.write fuel mem = .ok next
  | .flush, next => stream.flush = .ok next

/-- Calls in sequence that all return. -/
inductive WriteBuffer.ReturnsAll : WriteBuffer → List WriteCall → WriteBuffer → Prop
  | nil (stream : WriteBuffer) : ReturnsAll stream [] stream
  | cons {stream middle next : WriteBuffer} {call : WriteCall} {rest : List WriteCall}
      (first : stream.Returns call middle) (later : ReturnsAll middle rest next) :
      ReturnsAll stream (call :: rest) next

/-- Every sequence of calls returns, and a flush behind it has sent all that was written. -/
def WriteBuffer.Serves (stream : WriteBuffer) : Prop :=
  ∀ calls : List WriteCall, ∃ writer, stream.ReturnsAll (calls ++ [.flush]) writer ∧
    writer.sent.flatten = calls.flatMap WriteCall.bytes

/-- Calls that return within their iterations return. -/
theorem returnsAll_of_callAll {stream next : WriteBuffer} {calls : List WriteCall}
    (returned : stream.callAll calls = .ok next) : stream.ReturnsAll calls next := by
  induction calls generalizing stream with
  | nil =>
    obtain rfl : stream = next := Except.ok.inj returned
    exact .nil stream
  | cons call rest inductionHypothesis =>
    rw [WriteBuffer.callAll, List.foldlM_cons] at returned
    cases first : stream.call call with
    | error stop =>
      rw [first] at returned
      cases returned
    | ok middle =>
      rw [first] at returned
      refine .cons ?_ (inductionHypothesis returned)
      cases call with
      | write mem => exact ⟨mem.bytes.length, first⟩
      | flush => exact first

/-- An iteration on a buffer without bytes changes nothing. -/
theorem writeLoop_without_buffer (mem : List UInt8) (fuel : Nat) (readPtr stillToWrite : UInt64)
    (sent : List (List UInt8)) (open_ : stillToWrite ≠ 0) (inside : readPtr.toNat ≤ mem.length) :
    WriteBuffer.writeLoop mem fuel ⟨[], 0, 0, sent⟩ readPtr stillToWrite = .error .unfinished := by
  induction fuel with
  | zero => rw [WriteBuffer.writeLoop, if_neg open_]
  | succ fuel inductionHypothesis =>
    have nothing : min stillToWrite 0 = 0 := by
      apply UInt64.toNat_inj.mp
      rw [toNat_min]
      exact Nat.min_zero _
    have copy : memcpy [] 0 mem readPtr 0 = .ok [] := by
      rw [memcpy, if_pos (by simpa using inside)]
      rfl
    have same : (0 : UInt64) + 0 = 0 := rfl
    have unchanged : WriteBuffer.flush ⟨[], 0, 0, sent⟩ = .ok ⟨[], 0, 0, sent⟩ := rfl
    rw [WriteBuffer.writeLoop, if_neg open_]
    simp only [UInt64.sub_zero, nothing, copy, bind, Except.bind, same, if_true, unchanged,
      UInt64.add_zero]
    exact inductionHypothesis

/-- A stream with at least one byte of buffer serves its callers; one without serves
nobody who writes. -/
theorem serves_iff (bufferSize : UInt64) :
    (∀ memory : List UInt8, memory.length = bufferSize.toNat →
      (WriteBuffer.new memory bufferSize).Serves) ↔ bufferSize ≠ 0 := by
  constructor
  · rintro serves rfl
    obtain ⟨writer, returns, -⟩ := serves [] rfl [.write ⟨[0], by decide⟩]
    cases returns with
    | cons first _ =>
      obtain ⟨fuel, returned⟩ := first
      have stuck := writeLoop_without_buffer [0] fuel 0 1 [] (by decide) (Nat.zero_le _)
      cases returned.symm.trans stuck
  · intro nonzero memory allocated calls
    have positive : 1 ≤ bufferSize := by
      have natural := Nat.pos_of_ne_zero (toNat_ne_zero nonzero)
      exact UInt64.le_iff_toNat_le.mpr natural
    obtain ⟨writer, returned, sent⟩ := callAll_flushed memory bufferSize calls allocated positive
    exact ⟨writer, returnsAll_of_callAll returned, sent⟩

/-- The scale is finite, and its product with 1024 fits into a `size_t`, is at least
one, and is not in the first part of a multiple of `2 ^ 54`. -/
def OffloadSettings.Admissible (settings : OffloadSettings) : Prop :=
  ∃ value single, settings.writeBufferSize = .finite value single ∧ value * 1024 < 2 ^ 64 ∧
    ⌊value * 1024⌋ % 2 ^ 54 ≠ 0

/-- The scale is not negative. -/
def OffloadSettings.Nonnegative (settings : OffloadSettings) : Prop :=
  match settings.writeBufferSize with
  | .finite value _ => 0 ≤ value
  | .infinite negative => negative = false
  | .nan => False

/-- The size of the buffer for a scale whose product fits. -/
theorem bufferSize_finite {settings : OffloadSettings} {value : ℚ} {single : IsSingle value}
    (scale : settings.writeBufferSize = .finite value single) (nonnegative : 0 ≤ value) :
    settings.bufferSize =
      if value * 1024 < 2 ^ 64 then some (1024 * UInt64.ofNat ⌊value * 1024⌋.toNat) else none := by
  have scaled : HasBits (value * (1024 : ℕ)) := by
    have moved := hasBits_mul_two_pow single.1 10
    norm_num at moved ⊢
    exact moved
  have product : settings.writeBufferSize.mul (.ofNat 1024 (by decide)) =
      Single.ofExact (value * (1024 : ℕ)) := by
    rw [scale]
    rfl
  rw [OffloadSettings.bufferSize, product]
  have above : (-1 : ℚ) < value * 1024 := by linarith
  obtain ⟨small, exact_⟩ | ⟨large, infinite⟩ := Single.ofExact_of_bits scaled
  · rw [exact_]
    simp only [Single.toUInt64]
    push_cast
    by_cases fits : value * 1024 < 2 ^ 64
    · rw [if_pos ⟨above, fits⟩, if_pos fits]
      rfl
    · rw [if_neg (fun both => fits both.2), if_neg fits]
      rfl
  · rw [infinite, Single.toUInt64, if_neg]
    · rfl
    · rw [abs_of_nonneg (by positivity)] at large
      push_cast at large
      linarith

/-- For every scale that is not negative: every call on the stream of the device returns
and is sent exactly when the product of the scale with 1024 is below `2 ^ 64` and its
integer part is no multiple of `2 ^ 54`. -/
theorem offload_stream_serves_iff (settings : OffloadSettings) (nonnegative : settings.Nonnegative) :
    (∃ bufferSize, settings.bufferSize = some bufferSize ∧
      ∀ memory : List UInt8, memory.length = bufferSize.toNat →
        (WriteBuffer.new memory bufferSize).Serves) ↔ settings.Admissible := by
  cases scale : settings.writeBufferSize with
  | nan =>
    rw [OffloadSettings.Nonnegative, scale] at nonnegative
    exact nonnegative.elim
  | infinite negative =>
    have undefined : settings.bufferSize = none := by
      have product : settings.writeBufferSize.mul (.ofNat 1024 (by decide)) =
          .infinite (negative ^^ false) := by
        rw [scale]
        change (if ((1024 : ℕ) : ℚ) = 0 then Single.nan else
          Single.infinite (negative ^^ decide (((1024 : ℕ) : ℚ) < 0))) = _
        rw [if_neg (by norm_num)]
        exact congrArg (fun sign => Single.infinite (negative ^^ sign)) (decide_eq_false (by norm_num))
      rw [OffloadSettings.bufferSize, product]
      rfl
    constructor
    · rintro ⟨bufferSize, defined, -⟩
      rw [undefined] at defined
      cases defined
    · rintro ⟨value, single, finite, -⟩
      rw [scale] at finite
      cases finite
  | finite value single =>
    rw [OffloadSettings.Nonnegative, scale] at nonnegative
    obtain ⟨whole, natural⟩ := Int.eq_ofNat_of_zero_le
      (Int.floor_nonneg.mpr (by positivity : 0 ≤ value * 1024))
    have admissible : settings.Admissible ↔ value * 1024 < 2 ^ 64 ∧ whole % 2 ^ 54 ≠ 0 := by
      have integer : ⌊value * 1024⌋ % 2 ^ 54 ≠ 0 ↔ whole % 2 ^ 54 ≠ 0 := by omega
      rw [← integer]
      constructor
      · rintro ⟨other, _, same, fits, odd⟩
        obtain rfl : value = other := by
          rw [scale] at same
          exact (Single.finite.inj same).symm ▸ rfl
        exact ⟨fits, odd⟩
      · rintro ⟨fits, odd⟩
        exact ⟨value, single, scale, fits, odd⟩
    rw [bufferSize_finite scale nonnegative, admissible, natural]
    by_cases fits : value * 1024 < 2 ^ 64
    · have bounded : whole < 2 ^ 64 := by
        have below : ⌊value * 1024⌋ < 2 ^ 64 := by
          rw [Int.floor_lt]
          exact_mod_cast fits
        omega
      have zero : 1024 * UInt64.ofNat whole = 0 ↔ whole % 2 ^ 54 = 0 := by
        rw [← UInt64.toNat_inj, UInt64.toNat_mul, UInt64.toNat_ofNat_of_lt' bounded]
        change 1024 * whole % 2 ^ 64 = 0 ↔ _
        omega
      rw [if_pos fits]
      constructor
      · rintro ⟨bufferSize, defined, serves⟩
        obtain rfl := Option.some.inj defined
        exact ⟨fits, fun multiple => (serves_iff _).mp serves (zero.mpr multiple)⟩
      · rintro ⟨-, odd⟩
        exact ⟨_, rfl, (serves_iff _).mpr fun empty => odd (zero.mp empty)⟩
    · rw [if_neg fits]
      constructor
      · rintro ⟨bufferSize, defined, -⟩
        cases defined
      · rintro ⟨fits', -⟩
        exact absurd fits' fits

/-- The parameter `writeBufferScale` alone. -/
def OffloadSettings.ofScale (value : ℚ) (single : IsSingle value) : OffloadSettings where
  environment := none
  writeBufferScale := some (.finite value single)

/-- Without the variable and the parameter the scale is one. -/
theorem offload_stream_serves_default :
    ∃ bufferSize, (OffloadSettings.mk none none).bufferSize = some bufferSize ∧
      ∀ memory : List UInt8, memory.length = bufferSize.toNat →
        (WriteBuffer.new memory bufferSize).Serves := by
  have scale : (OffloadSettings.mk none none).writeBufferSize =
      .finite (1 : ℕ) (isSingle_natCast (by decide)) := rfl
  refine (offload_stream_serves_iff ⟨none, none⟩ ?_).mpr ⟨_, _, scale, ?_, ?_⟩
  · rw [OffloadSettings.Nonnegative, scale]
    norm_num
  · norm_num
  · norm_num

/-- A scale of 1/2048 asks for half a kilobyte and gets a buffer without bytes. -/
theorem offload_stream_stuck : ∃ single : IsSingle (1 / 2048),
    (OffloadSettings.ofScale (1 / 2048) single).Nonnegative ∧
      ¬ ∃ bufferSize, (OffloadSettings.ofScale (1 / 2048) single).bufferSize = some bufferSize ∧
        ∀ memory : List UInt8, memory.length = bufferSize.toNat →
          (WriteBuffer.new memory bufferSize).Serves := by
  have single : IsSingle (1 / 2048) := by
    refine ⟨⟨1, -11, by norm_num, by norm_num, ?_⟩, ?_⟩
    · norm_num
    · rw [abs_of_pos (by norm_num)]
      norm_num
  have nonnegative : (0 : ℚ) ≤ 1 / 2048 := by norm_num
  refine ⟨single, nonnegative, ?_⟩
  have size := @bufferSize_finite (OffloadSettings.ofScale (1 / 2048) single) _ _ rfl nonnegative
  have empty : (OffloadSettings.ofScale (1 / 2048) single).bufferSize = some 0 := by
    rw [size, if_pos (by norm_num)]
    norm_num
    rfl
  rintro ⟨bufferSize, defined, serves⟩
  rw [empty] at defined
  obtain rfl := Option.some.inj defined
  exact (serves_iff 0).mp serves rfl

end Ospray.Networking

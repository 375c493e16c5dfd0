import Ospray.Library.SinglePrecision

/-!
# Binary formats

Numbers are kept in a sign, an exponent and a fraction of fixed widths. The greatest exponent
is left to infinities and what is no number, the least one to numbers without a leading one.
-/

namespace Library.BinaryFormats

open Library.SinglePrecision

/-- The widths of the exponent and of the fraction. -/
structure Format where
  exponentBits : Nat
  fractionBits : Nat

/-- The format of 32 bits. -/
def Format.single : Format := ⟨8, 23⟩

/-- The format of 64 bits. -/
def Format.double : Format := ⟨11, 52⟩

/-- What some bits stand for. The sign of zero is left out. -/
inductive Datum
  | finite (value : ℚ)
  | infinite (negative : Bool)
  | nan

namespace Format

variable (format : Format) (bits : Nat)

/-- The exponent that stands for one. -/
def bias : Nat := 2 ^ (format.exponentBits - 1) - 1

/-- The exponent's bits. -/
def exponent : Nat := bits / 2 ^ format.fractionBits % 2 ^ format.exponentBits

/-- The fraction's bits. -/
def fraction : Nat := bits % 2 ^ format.fractionBits

/-- The significand, with its leading one. -/
def significand : Nat :=
  if format.exponent bits = 0 then format.fraction bits else 2 ^ format.fractionBits + format.fraction bits

/-- The place of its last digit. -/
def place : ℤ := (max (format.exponent bits) 1 : Nat) - format.bias - format.fractionBits

/-- What the bits stand for. -/
def decode : Datum :=
  let negative := (bits / 2 ^ (format.fractionBits + format.exponentBits)).testBit 0
  if format.exponent bits = 2 ^ format.exponentBits - 1 then
    if format.fraction bits = 0 then .infinite negative else .nan
  else .finite ((if negative then -1 else 1) * format.significand bits * 2 ^ format.place bits)

end Format

/-- The conversion to single precision. -/
def Datum.toSingle : Datum → Single
  | .finite value => .ofExact value
  | .infinite negative => .infinite negative
  | .nan => .nan

theorem Format.significand_lt (format : Format) (bits : Nat) :
    format.significand bits < 2 ^ (format.fractionBits + 1) := by
  have fraction : format.fraction bits < 2 ^ format.fractionBits := Nat.mod_lt _ (Nat.two_pow_pos _)
  rw [Format.significand, pow_succ]
  split <;> omega

/-- What 32 bits stand for is exact in single precision. -/
theorem hasBits_single {bits : Nat} {value : ℚ} (decoded : Format.single.decode bits = .finite value) :
    HasBits value := by
  have digits := Format.single.significand_lt bits
  rw [Format.decode] at decoded
  split at decoded
  · split at decoded <;> cases decoded
  · cases decoded
    refine ⟨(if (bits / 2 ^ (23 + 8)).testBit 0 then -1 else 1) * Format.single.significand bits,
      Format.single.place bits, ?_, ?_, ?_⟩
    · have bound : (Format.single.significand bits : ℤ) < 2 ^ 24 := by exact_mod_cast digits
      rw [abs_le]
      split <;> omega
    · have least : 1 ≤ max (Format.single.exponent bits) 1 := le_max_right _ _
      rw [Format.place]
      change _ ≤ ((max (Format.single.exponent bits) 1 : Nat) : ℤ) - 127 - 23
      omega
    · push_cast
      rfl

end Library.BinaryFormats

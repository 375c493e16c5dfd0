import Mathlib.Algebra.Order.Ring.Int
import Mathlib.Tactic.Ring
import Ospray.Library.ForeachUnique

/-!
# Gathering from large arrays

The lanes read elements of an array by a scaled index. Addresses have 64 bits, offsets of lanes
have 32. For huge arrays the upper bits of the index, which are alike in most lanes, go to the base
of the array instead.
-/

namespace Ospray.SafeGather

open Library.ForeachUnique

variable {ι : Type}

/-- `BITS` -/
def BITS : Nat := 20

/-- The addresses that `gather_stride` and `gather_byte_stride_vec` read in the lanes. -/
def gatherStride (lanes : List ι) (huge : Bool) (base : BitVec 64) (stride : BitVec 32) (index : ι → BitVec 32) :
    ι → BitVec 64 :=
  if huge then
    let index_lo := fun lane => index lane &&& ((1#32 <<< BITS) - 1#32)
    let index_hi := fun lane => index lane - index_lo lane
    let scaledIndexLo := fun lane => index_lo lane * stride
    foreachUnique lanes index_hi
      (fun hi lane =>
        let scaledIndexHi := hi.signExtend 64 * stride.signExtend 64
        let base_hi := base + scaledIndexHi
        base_hi + (scaledIndexLo lane).signExtend 64)
      fun _ => 0
  else fun lane => base + (stride * index lane).signExtend 64

variable {lanes : List ι} {lane : ι} {base : BitVec 64} {stride index : BitVec 32}

/-! ## Offsets -/

theorem toNat_lo (index : BitVec 32) : (index &&& ((1#32 <<< BITS) - 1#32)).toNat = index.toNat % 2 ^ 20 := by
  rw [BitVec.toNat_and, ← Nat.and_two_pow_sub_one_eq_mod]
  rfl

theorem toInt_hi (index : BitVec 32) :
    (index - (index &&& ((1#32 <<< BITS) - 1#32))).toInt = index.toInt - index.toNat % 2 ^ 20 := by
  have lo := toNat_lo index
  have bound := index.isLt
  have below : index &&& ((1#32 <<< BITS) - 1#32) ≤ index := by
    rw [BitVec.le_def, lo]
    exact Nat.mod_le _ _
  rw [BitVec.toInt_eq_toNat_cond, BitVec.toInt_eq_toNat_cond, BitVec.toNat_sub_of_le below, lo]
  split <;> split <;> omega

theorem toInt_scaledLo (small : stride.toNat ≤ 16) :
    ((index &&& ((1#32 <<< BITS) - 1#32)) * stride).toInt = (index.toNat % 2 ^ 20 : Nat) * (stride.toNat : Int) := by
  have bound : index.toNat % 2 ^ 20 * stride.toNat ≤ 2 ^ 20 * 16 :=
    Nat.mul_le_mul (Nat.mod_lt _ (by decide)).le small
  rw [BitVec.toInt_eq_toNat_cond, BitVec.toNat_mul, toNat_lo, Nat.mod_eq_of_lt (by omega), if_pos (by omega)]
  push_cast
  rfl

theorem gatherStride_huge_apply (active : lane ∈ lanes) (index : ι → BitVec 32) :
    gatherStride lanes true base stride index lane = base + BitVec.ofInt 64
      (((index lane).toInt - (index lane).toNat % 2 ^ 20) * stride.toInt +
        ((index lane &&& ((1#32 <<< BITS) - 1#32)) * stride).toInt) := by
  rw [gatherStride, if_pos rfl]
  refine (foreachUnique_apply active _).trans ?_
  dsimp only
  rw [BitVec.signExtend, BitVec.signExtend, BitVec.signExtend, toInt_hi, BitVec.add_assoc, ← BitVec.ofInt_mul,
    ← BitVec.ofInt_add]

theorem gatherStride_huge (active : lane ∈ lanes) (small : stride.toNat ≤ 16) (index : ι → BitVec 32) :
    gatherStride lanes true base stride index lane =
      base + BitVec.ofInt 64 ((index lane).toInt * stride.toNat) := by
  have signed : stride.toInt = stride.toNat := BitVec.toInt_eq_toNat_of_lt (by omega)
  have split : (index lane).toInt * (stride.toNat : Int) =
      ((index lane).toInt - (index lane).toNat % 2 ^ 20) * stride.toNat +
        ((index lane).toNat % 2 ^ 20 : Nat) * stride.toNat := by
    push_cast
    ring
  rw [gatherStride_huge_apply active, toInt_scaledLo small, signed, ← split]

theorem gatherStride_small (index : ι → BitVec 32) :
    gatherStride lanes false base stride index lane = base + BitVec.ofInt 64 (stride * index lane).toInt := rfl

/-! ## Exact addresses -/

theorem toInt_ofNat (n : Nat) :
    ∃ m : Nat, (n : Int) = (BitVec.ofNat 32 n).toInt + 2 ^ 32 * m ∧ (m = 0 ↔ n < 2 ^ 31) ∧
      -2 ^ 31 ≤ (BitVec.ofNat 32 n).toInt ∧ (BitVec.ofNat 32 n).toInt < 2 ^ 31 := by
  rw [BitVec.toInt_eq_toNat_cond, BitVec.toNat_ofNat]
  split
  · exact ⟨n / 2 ^ 32, by omega, by omega, by omega, by omega⟩
  · exact ⟨n / 2 ^ 32 + 1, by omega, by omega, by omega, by omega⟩

theorem toNat_address (base : Nat) (offset : Int) :
    ((BitVec.ofNat 64 base + BitVec.ofInt 64 offset).toNat : Int) = (base + offset) % 2 ^ 64 := by
  rw [BitVec.toNat_add, BitVec.toNat_ofNat, BitVec.toNat_ofInt]
  omega

theorem emod_eq_iff {address : Int} {q : Nat} (low : -2 ^ 36 ≤ address) (nonneg : 0 ≤ address + 2 ^ 32 * q)
    (high : address + 2 ^ 32 * q < 2 ^ 63 + 2 ^ 37) :
    address % 2 ^ 64 = address + 2 ^ 32 * q ↔ q = 0 := by
  obtain negative | positive := Int.lt_or_le address 0
  · have wrapped : address % 2 ^ 64 = address + 2 ^ 64 := by omega
    omega
  · have kept : address % 2 ^ 64 = address := by omega
    omega

/-- The address is the mathematical one if the index, and without upper bits the offset, have no sign in 32 bits. -/
theorem exact_iff (huge : Bool) (base n : Nat) {stride : Nat} (index : ι → BitVec 32) (active : lane ∈ lanes)
    (positive : 0 < stride) (small : stride ≤ 16) (inside : base + stride * n < 2 ^ 63 + 2 ^ 37)
    (here : index lane = BitVec.ofNat 32 n) :
    (gatherStride lanes huge (BitVec.ofNat 64 base) (BitVec.ofNat 32 stride) index lane).toNat = base + stride * n ↔
      n < 2 ^ 31 ∧ (huge = true ∨ stride * n < 2 ^ 31) := by
  cases huge with
  | true =>
    have stride_toNat : (BitVec.ofNat 32 stride).toNat = stride := by
      rw [BitVec.toNat_ofNat]
      omega
    obtain ⟨m, split, sign, low, high⟩ := toInt_ofNat n
    have place : ((base + stride * n : Nat) : Int) =
        base + (BitVec.ofNat 32 n).toInt * stride + 2 ^ 32 * (m * stride : Nat) := by
      push_cast
      rw [split]
      ring
    have lower : -2 ^ 31 * stride ≤ (BitVec.ofNat 32 n).toInt * stride :=
      Int.mul_le_mul_of_nonneg_right low (Int.natCast_nonneg _)
    rw [gatherStride_huge active (stride_toNat.trans_le small), stride_toNat, here, ← Int.natCast_inj, toNat_address,
      place, emod_eq_iff (by omega) (by omega) (by omega), Nat.mul_eq_zero, or_iff_left positive.ne', sign]
    exact (and_iff_left (Or.inl rfl)).symm
  | false =>
    obtain ⟨m, split, sign, low, high⟩ := toInt_ofNat (stride * n)
    have product : BitVec.ofNat 32 stride * BitVec.ofNat 32 n = BitVec.ofNat 32 (stride * n) :=
      (BitVec.ofNat_mul stride n).symm
    have place : ((base + stride * n : Nat) : Int) = base + (BitVec.ofNat 32 (stride * n)).toInt + 2 ^ 32 * m := by
      omega
    have above : n ≤ stride * n := Nat.le_mul_of_pos_left n positive
    rw [gatherStride_small, here, product, ← Int.natCast_inj, toNat_address, place,
      emod_eq_iff (by omega) (by omega) (by omega), sign]
    exact ⟨fun less => ⟨above.trans_lt less, Or.inr less⟩, fun less => less.2.resolve_left Bool.false_ne_true⟩

end Ospray.SafeGather

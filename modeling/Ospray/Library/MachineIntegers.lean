import Mathlib.Tactic.Common
import Ospray.Library.Literals

/-!
# Machine integers

A signed integer that is not negative has the same value without its sign, and keeps it when it is
extended and cut again.
-/

namespace Library.MachineIntegers

variable {width wide : Nat} {value : BitVec width}

theorem toNat_of_nonneg (nonnegative : 0 ≤ value.toInt) : (value.toNat : Int) = value.toInt := by
  rw [BitVec.toInt_eq_toNat_cond] at nonnegative ⊢
  have bound := value.isLt
  split at nonnegative <;> split <;> omega

theorem toNat_signExtend (wider : width ≤ wide) (nonnegative : 0 ≤ value.toInt) :
    (value.signExtend wide).toNat = value.toNat := by
  have same : (value.signExtend wide).toInt = value.toInt := BitVec.toInt_signExtend_of_le wider
  have extended := toNat_of_nonneg (by rwa [same] : 0 ≤ (value.signExtend wide).toInt)
  have narrow := toNat_of_nonneg nonnegative
  omega

theorem setWidth_signExtend (wider : width ≤ wide) (value : BitVec width) :
    (value.signExtend wide).setWidth width = value := by
  apply BitVec.eq_of_getLsbD_eq
  intro i inside
  rw [BitVec.getLsbD_setWidth, BitVec.getLsbD_signExtend]
  simp [inside, Nat.lt_of_lt_of_le inside wider]

end Library.MachineIntegers

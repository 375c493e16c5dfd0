import Mathlib.Data.Finset.Card
import Mathlib.Data.Finset.Prod
import Mathlib.Data.Nat.Bitwise
import Ospray.Library.Literals

/-!
# Numbers split into even and odd bits

The bits at even places of a number and those at odd places are two numbers of half its length.
A number is determined by the two, and as there are as many numbers as pairs, every pair arises.
-/

namespace Library.SplitBits

/-- The bits at even and at odd places of a number. -/
structure Splits (number even odd : Nat) : Prop where
  even : ∀ place, even.testBit place = number.testBit (2 * place)
  odd : ∀ place, odd.testBit place = number.testBit (2 * place + 1)

variable {number other even odd length : Nat}

theorem Splits.lt (splits : Splits number even odd) (short : number < 2 ^ (2 * length)) :
    even < 2 ^ length ∧ odd < 2 ^ length := by
  refine ⟨Nat.lt_pow_two_of_testBit _ fun place behind => ?_, Nat.lt_pow_two_of_testBit _ fun place behind => ?_⟩
  · rw [splits.even]
    exact Nat.testBit_lt_two_pow (short.trans_le (Nat.pow_le_pow_right Nat.two_pos (by omega)))
  · rw [splits.odd]
    exact Nat.testBit_lt_two_pow (short.trans_le (Nat.pow_le_pow_right Nat.two_pos (by omega)))

theorem Splits.unique (splits : Splits number even odd) (same : Splits other even odd) : number = other := by
  refine Nat.eq_of_testBit_eq fun place => ?_
  obtain ⟨half, rfl | rfl⟩ := Nat.even_or_odd' place
  · rw [← splits.even, same.even]
  · rw [← splits.odd, same.odd]

variable {evenOf oddOf : Nat → Nat}

theorem exists_of_splits (splits : ∀ number < 2 ^ (2 * length), Splits number (evenOf number) (oddOf number))
    (even_lt : even < 2 ^ length) (odd_lt : odd < 2 ^ length) :
    ∃ number < 2 ^ (2 * length), evenOf number = even ∧ oddOf number = odd := by
  have many : (Finset.range (2 ^ length) ×ˢ Finset.range (2 ^ length)).card ≤ (Finset.range (2 ^ (2 * length))).card := by
    rw [Finset.card_product, Finset.card_range, Finset.card_range, Nat.two_mul, Nat.pow_add]
  obtain ⟨number, short, pair⟩ := Finset.surjOn_of_injOn_of_card_le (fun number => (evenOf number, oddOf number))
    (s := Finset.range (2 ^ (2 * length))) (t := Finset.range (2 ^ length) ×ˢ Finset.range (2 ^ length))
    (by
      intro number short
      obtain ⟨even_lt, odd_lt⟩ := (splits number (Finset.mem_range.mp short)).lt (Finset.mem_range.mp short)
      exact Finset.mem_product.mpr ⟨Finset.mem_range.mpr even_lt, Finset.mem_range.mpr odd_lt⟩)
    (by
      intro number short other short' same
      obtain ⟨sameEven, sameOdd⟩ := Prod.mk.inj same
      have split := splits number (Finset.mem_range.mp short)
      rw [sameEven, sameOdd] at split
      exact split.unique (splits other (Finset.mem_range.mp short')))
    many (show (even, odd) ∈ _ from Finset.mem_product.mpr ⟨Finset.mem_range.mpr even_lt, Finset.mem_range.mpr odd_lt⟩)
  exact ⟨number, Finset.mem_range.mp short, (Prod.mk.inj pair).1, (Prod.mk.inj pair).2⟩

end Library.SplitBits

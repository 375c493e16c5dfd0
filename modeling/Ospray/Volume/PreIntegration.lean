import Ospray.Library.PiecewiseLinear
import Ospray.Volume.IntDiv
import Ospray.Volume.TransferFunction

/-!
# Pre-integrated lookups

For the interval between two values, a transfer function can be asked for one opacity and
one color. The opacity is the sum of the opacities at both ends and of the entries between
them, the last from a table of sums, divided by their number; but within one cell it is the
sum of two values divided by 1. The color is the mean of the colors at both ends, weighted
by their opacities, and divided once more: by half of the number of cells. The arithmetic is
exact.
-/

namespace Ospray

open Library.Loops Library.PiecewiseLinear Library.Runs

/-- `LinearTransferFunction` with its colors and with the tables for intervals. -/
structure PreIntegratedTransferFunction extends LinearTransferFunction where
  colorValues : Int → Fin 3 → ℚ
  colorValueCount : Nat
  opacityPITable : Int → ℚ
  colorPITable : Int → Fin 3 → ℚ
  preIntegration : Bool
  preIntegrationComputed : Bool

namespace PreIntegratedTransferFunction

/-! ## Lookups -/

/-- A value mapped into the range of the indices of `count` entries. -/
def remapped (valueRange : ℚ × ℚ) (count : Nat) (value : ℚ) : ℚ :=
  (value - valueRange.1) / (valueRange.2 - valueRange.1) * (count - 1)

/-- The interpolated value behind the entry at `index`. -/
def interpval (entries : Int → ℚ) (count : Nat) (index : Int) (remainder : ℚ) : ℚ :=
  (1 - remainder) * entries index + remainder * entries (min (index + 1) (count - 1))

section

variable (self : PreIntegratedTransferFunction)

/-- One channel of the colors, as a transfer function. -/
def channel (axis : Fin 3) : LinearTransferFunction :=
  { self.toLinearTransferFunction with
    opacityValues := fun index => self.colorValues index axis
    opacityValueCount := self.colorValueCount }

/-- `LinearTransferFunction_getColorForValue`; a value that is `none` is NaN. -/
def getColorForValue : Option ℚ → Fin 3 → ℚ
  | none => fun _ => 0
  | some value =>
    if self.colorValueCount = 0 then fun _ => 1
    else if value ≤ self.valueRange.1 then self.colorValues 0
    else if value ≥ self.valueRange.2 then self.colorValues (self.colorValueCount - 1)
    else
      let value := (value - self.valueRange.1) / (self.valueRange.2 - self.valueRange.1) *
        (self.colorValueCount - 1)
      let index := ⌊value⌋
      let remainder := value - index
      fun axis => (1 - remainder) * self.colorValues index axis +
        remainder * self.colorValues (min (index + 1) (self.colorValueCount - 1)) axis

/-- `LinearTransferFunction_getIntegratedOpacityForValue` behind the tests, with the values in order. -/
def integratedOpacity (value1 value2 : ℚ) : ℚ :=
  let clamped := fun value =>
    let value := if value ≤ self.valueRange.1 then self.valueRange.1 else value
    if value ≥ self.valueRange.2 then self.valueRange.2 else value
  let remapped1 := remapped self.valueRange self.opacityValueCount (clamped value1)
  let remapped2 := remapped self.valueRange self.opacityValueCount (clamped value2)
  let index1 := ⌊remapped1⌋
  let interpval1 := interpval self.opacityValues self.opacityValueCount index1 (remapped1 - index1)
  let index2 := ⌊remapped2⌋
  let interpval2 := interpval self.opacityValues self.opacityValueCount index2 (remapped2 - index2)
  let ret :=
    if index2 - index1 > 1 then self.opacityPITable ((index1 + 1) + (index2 - 1) * self.opacityValueCount)
    else 0
  (ret + interpval1 + interpval2) / ((index2 - index1 + 1 : Int) : ℚ)

/-- `LinearTransferFunction_getIntegratedOpacityForValue` -/
def getIntegratedOpacityForValue (value1 value2 : Option ℚ) : ℚ :=
  if !self.preIntegration || !self.preIntegrationComputed then self.getOpacityForValue value2
  else match value1, value2 with
    | some value1, some value2 =>
      if self.opacityValueCount = 0 then 1
      else if value1 > value2 then self.integratedOpacity value2 value1
      else self.integratedOpacity value1 value2
    | _, _ => 0

/-- The local variables of `LinearTransferFunction_getIntegratedColorForValue`. -/
structure ColorEnds where
  opacity1 : ℚ
  opacity2 : ℚ
  interpColor1 : Fin 3 → ℚ
  interpColor2 : Fin 3 → ℚ
  dev : ℚ

/-- The index of the opacity for a place between the colors. -/
def oindex (value : ℚ) : Int :=
  Structured.truncate
    (min (value / (self.colorValueCount - 1) * (self.opacityValueCount - 1)) (self.opacityValueCount - 1))

/-- What is computed at the ends of an interval, with the values in order. `opacity2` is interpolated with
the remainder of the first value. -/
def colorEnds (value1 value2 : ℚ) : ColorEnds :=
  let clamped := fun value =>
    let value := if value > self.valueRange.2 then self.valueRange.2 else value
    if value < self.valueRange.1 then self.valueRange.1 else value
  let value1 := remapped self.valueRange self.colorValueCount (clamped value1)
  let index1 := ⌊value1⌋
  let remainder1 := value1 - index1
  let value2 := remapped self.valueRange self.colorValueCount (clamped value2)
  let index2 := ⌊value2⌋
  let remainder2 := value2 - index2
  { opacity1 := interpval self.opacityValues self.opacityValueCount (self.oindex value1) remainder1
    opacity2 := interpval self.opacityValues self.opacityValueCount (self.oindex value2) remainder1
    interpColor1 := fun axis => interpval (self.colorValues · axis) self.colorValueCount index1 remainder1
    interpColor2 := fun axis => interpval (self.colorValues · axis) self.colorValueCount index2 remainder2
    dev := max ((index2 - index1 + 1 : Int) : ℚ) 2 }

/-- The color between two ends; none where the opacities and 1e-5 cancel out. -/
def ColorEnds.mix (ends : ColorEnds) : Option (Fin 3 → ℚ) :=
  if ends.opacity1 + ends.opacity2 + 1 / 100000 = 0 then none
  else some fun axis => (0 + (ends.interpColor1 axis * ends.opacity1 + ends.interpColor2 axis * ends.opacity2) * 2 /
    (ends.opacity1 + ends.opacity2 + 1 / 100000)) / ends.dev

/-- `LinearTransferFunction_getIntegratedColorForValue` -/
def getIntegratedColorForValue (value1 value2 : Option ℚ) : Option (Fin 3 → ℚ) :=
  if !self.preIntegration || !self.preIntegrationComputed then some (self.getColorForValue value2)
  else match value1, value2 with
    | some value1, some value2 =>
      if self.colorValueCount = 0 then some fun _ => 1
      else if value1 > value2 then (self.colorEnds value2 value1).mix
      else (self.colorEnds value1 value2).mix
    | _, _ => some fun _ => 0

/-! ## Tables -/

/-- `opacityValues[i]` to `opacityValues[j]` -/
def entries (i j : Nat) : List ℚ := (List.range (j + 1 - i)).map fun step => self.opacityValues (i + step : Nat)

/-- `LinearTransferFunction_precomputePreIntegratedOpacityValues`; `memory` is what the new table holds. -/
def precomputePreIntegratedOpacityValues (memory : Int → ℚ) : PreIntegratedTransferFunction :=
  { self with
    opacityPITable := (chunkLanes self.opacityValueCount self.opacityValueCount).foldl (fun table step =>
      if step.2 < step.1 then table
      else Function.update table (step.2 * self.opacityValueCount + step.1 : Nat)
        ((self.entries step.1 step.2).foldl (fun val opacity => val + opacity) 0)) memory }

/-- The color that `LinearTransferFunction_precomputePreIntegratedColorValues` stores for two indices. -/
def preIntegratedColor (i j : Nat) : Fin 3 → ℚ :=
  let result := (List.range (j + 1 - i)).foldl (fun (state : (Fin 3 → ℚ) × ℚ) step =>
    let k := i + step
    let interp := (k : ℚ) / self.colorValueCount
    let opacity :=
      if self.opacityValueCount > 0 then
        self.opacityValues (Structured.truncate (interp * self.opacityValueCount))
      else 1
    (fun axis => state.1 axis + self.colorValues k axis * opacity, state.2 + opacity)) (fun _ => 0, 0)
  if result.2 > 0 then fun axis => result.1 axis / result.2 else result.1

/-- `LinearTransferFunction_precomputePreIntegratedColorValues` -/
def precomputePreIntegratedColorValues (memory : Int → Fin 3 → ℚ) : PreIntegratedTransferFunction :=
  { self with
    colorPITable := (chunkLanes self.colorValueCount self.colorValueCount).foldl (fun table step =>
      if step.2 < step.1 then table
      else Function.update table (step.2 * self.colorValueCount + step.1 : Nat)
        (self.preIntegratedColor step.1 step.2)) memory }

/-- `LinearTransferFunction_precomputePreIntegratedValues` -/
def precomputePreIntegratedValues (opacities : Int → ℚ) (colors : Int → Fin 3 → ℚ) :
    PreIntegratedTransferFunction :=
  { (self.precomputePreIntegratedColorValues colors).precomputePreIntegratedOpacityValues opacities with
    preIntegrationComputed := true }

/-- `LinearTransferFunction_setColorValues` -/
def setColorValues (count : Nat) (source : Int → Fin 3 → ℚ) : PreIntegratedTransferFunction :=
  { self with colorValues := source, colorValueCount := count, preIntegrationComputed := false }

/-- `LinearTransferFunction_setOpacityValues` -/
def setOpacityValues (count : Nat) (source : Int → ℚ) : PreIntegratedTransferFunction :=
  { self with
    toLinearTransferFunction := self.toLinearTransferFunction.setOpacityValues count source
    preIntegrationComputed := false }

/-- `LinearTransferFunction_setPreIntegration` -/
def setPreIntegration (value : Bool) : PreIntegratedTransferFunction := { self with preIntegration := value }

/-- `TransferFunction_setValueRange` -/
def setValueRange (value : ℚ × ℚ) : PreIntegratedTransferFunction :=
  { self with toLinearTransferFunction := self.toLinearTransferFunction.setValueRange value }

end

/-! ## The function that is interpolated -/

section Interpolated

variable {self : LinearTransferFunction} (proper : self.valueRange.1 < self.valueRange.2)

include proper

theorem remapped_bounds {count : Nat} (some_ : 0 < count) {value : ℚ} (low : self.valueRange.1 ≤ value)
    (high : value ≤ self.valueRange.2) :
    0 ≤ remapped self.valueRange count value ∧ remapped self.valueRange count value ≤ count - 1 := by
  have positive : 0 < self.valueRange.2 - self.valueRange.1 := sub_pos.mpr proper
  have last : (0 : ℚ) ≤ count - 1 := sub_nonneg.mpr (Nat.one_le_cast.mpr some_)
  have quotient : (value - self.valueRange.1) / (self.valueRange.2 - self.valueRange.1) ≤ 1 :=
    (div_le_one positive).mpr (sub_le_sub_right high _)
  exact ⟨mul_nonneg (div_nonneg (sub_nonneg.mpr low) positive.le) last, mul_le_of_le_one_left last quotient⟩

theorem remapped_mono {count : Nat} (some_ : 0 < count) {first second : ℚ} (ordered : first ≤ second) :
    remapped self.valueRange count first ≤ remapped self.valueRange count second := by
  have positive : 0 < self.valueRange.2 - self.valueRange.1 := sub_pos.mpr proper
  have last : (0 : ℚ) ≤ count - 1 := sub_nonneg.mpr (Nat.one_le_cast.mpr some_)
  exact mul_le_mul_of_nonneg_right (div_le_div_of_nonneg_right (sub_le_sub_right ordered _) positive.le) last

theorem remapped_inverse {count : Nat} (more : 1 < count) (place : ℚ) :
    remapped self.valueRange count
      (self.valueRange.1 + place / (count - 1) * (self.valueRange.2 - self.valueRange.1)) = place := by
  have positive : self.valueRange.2 - self.valueRange.1 ≠ 0 := (sub_pos.mpr proper).ne'
  have last : (count : ℚ) - 1 ≠ 0 := (sub_pos.mpr (Nat.one_lt_cast.mpr more)).ne'
  rw [remapped, add_sub_cancel_left, mul_div_cancel_right₀ _ positive, div_mul_cancel₀ _ last]

/-- In the range, the opacity is interpolated at the index of the value. -/
theorem getOpacityForValue_inside (some_ : 0 < self.opacityValueCount) {value : ℚ}
    (low : self.valueRange.1 ≤ value) (high : value ≤ self.valueRange.2) :
    self.getOpacityForValue (some value) =
      interpolate self.opacityValues (remapped self.valueRange self.opacityValueCount value) := by
  have positive : 0 < self.valueRange.2 - self.valueRange.1 := sub_pos.mpr proper
  have quotient : (value - self.valueRange.1) / (self.valueRange.2 - self.valueRange.1) ≤ 1 :=
    (div_le_one positive).mpr (sub_le_sub_right high _)
  have place : self.place value = remapped self.valueRange self.opacityValueCount value := by
    rw [LinearTransferFunction.place, LinearTransferFunction.position, LinearTransferFunction.clamp,
      min_eq_left quotient, max_eq_right (div_nonneg (sub_nonneg.mpr low) positive.le), remapped, mul_comm]
    push_cast
    ring
  rw [LinearTransferFunction.getOpacityForValue_eq some_ proper, place, interpolate]
  by_cases whole : Int.fract (remapped self.valueRange self.opacityValueCount value) = 0
  · rw [whole, zero_mul, zero_mul]
  · have next : ⌈remapped self.valueRange self.opacityValueCount value⌉ =
        ⌊remapped self.valueRange self.opacityValueCount value⌋ + 1 := by
      rw [Int.ceil_eq_floor_add_one_iff_notMem]
      rintro ⟨number, same⟩
      rw [← same, Int.fract_intCast] at whole
      exact whole rfl
    rw [next]

/-- The values of an interval are those of its indices. -/
theorem image_getOpacityForValue (more : 1 < self.opacityValueCount) {first second : ℚ}
    (low : self.valueRange.1 ≤ first) (high : second ≤ self.valueRange.2) :
    (fun value => self.getOpacityForValue (some value)) '' Set.Icc first second =
      interpolate self.opacityValues '' Set.Icc (remapped self.valueRange self.opacityValueCount first)
        (remapped self.valueRange self.opacityValueCount second) := by
  have some_ : 0 < self.opacityValueCount := by omega
  have positive : 0 < self.valueRange.2 - self.valueRange.1 := sub_pos.mpr proper
  have last : (0 : ℚ) < self.opacityValueCount - 1 := sub_pos.mpr (Nat.one_lt_cast.mpr more)
  ext result
  constructor
  · rintro ⟨value, ⟨after, before⟩, rfl⟩
    exact ⟨_, ⟨remapped_mono proper some_ after, remapped_mono proper some_ before⟩,
      (getOpacityForValue_inside proper some_ (low.trans after) (before.trans high)).symm⟩
  · rintro ⟨place, ⟨after, before⟩, rfl⟩
    -- the value with this index
    let value := self.valueRange.1 + place / (self.opacityValueCount - 1) * (self.valueRange.2 - self.valueRange.1)
    have index : remapped self.valueRange self.opacityValueCount value = place := remapped_inverse proper more place
    have ordered : ∀ {one other : ℚ}, remapped self.valueRange self.opacityValueCount one ≤
        remapped self.valueRange self.opacityValueCount other → one ≤ other := by
      intro one other less
      have quotients := le_of_mul_le_mul_right less last
      exact (sub_le_sub_iff_right _).mp ((div_le_div_iff_of_pos_right positive).mp quotients)
    rw [← index] at after before ⊢
    exact ⟨value, ⟨ordered after, ordered before⟩, getOpacityForValue_inside proper some_
      (low.trans (ordered after)) ((ordered before).trans high)⟩

end Interpolated

theorem interpval_eq (entries : Int → ℚ) {count : Nat} {place : ℚ} (before : place ≤ count - 1) :
    interpval entries count ⌊place⌋ (place - ⌊place⌋) = interpolate entries place := by
  rw [interpolate, interpval]
  change (1 - Int.fract place) * _ + Int.fract place * _ = _
  by_cases whole : Int.fract place = 0
  · rw [whole, zero_mul, zero_mul]
  · have less : (⌊place⌋ : ℚ) < ((count - 1 : Int) : ℚ) := by
      push_cast
      refine lt_of_le_of_ne ((Int.floor_le place).trans before) fun same => whole ?_
      have reached : place = ⌊place⌋ := le_antisymm (before.trans_eq same.symm) (Int.floor_le place)
      rw [Int.fract, ← reached, sub_self]
    rw [min_eq_left (Int.add_one_le_iff.mpr (Int.cast_lt.mp less))]

/-! ## Between the extremes -/

/-- A result is between the least and the greatest value in an interval, with its ends in either order. -/
def BetweenExtremes (f : ℚ → ℚ) (first second result : ℚ) : Prop :=
  ∃ lowest highest, IsLeast (f '' Set.uIcc first second) lowest ∧ IsGreatest (f '' Set.uIcc first second) highest ∧
    lowest ≤ result ∧ result ≤ highest

theorem betweenExtremes_iff {f : ℚ → ℚ} {first second result lowest highest : ℚ}
    (least : IsLeast (f '' Set.uIcc first second) lowest)
    (greatest : IsGreatest (f '' Set.uIcc first second) highest) :
    BetweenExtremes f first second result ↔ lowest ≤ result ∧ result ≤ highest := by
  constructor
  · rintro ⟨low, high, isLeast, isGreatest, bounds⟩
    rw [least.unique isLeast, greatest.unique isGreatest]
    exact bounds
  · exact fun bounds => ⟨lowest, highest, least, greatest, bounds⟩

theorem exists_extremes {self : LinearTransferFunction} (proper : self.valueRange.1 < self.valueRange.2)
    (more : 1 < self.opacityValueCount) {first second : ℚ} (low : self.valueRange.1 ≤ first) (ordered : first ≤ second)
    (high : second ≤ self.valueRange.2) :
    (∃ lowest, IsLeast ((fun value => self.getOpacityForValue (some value)) '' Set.uIcc first second) lowest) ∧
      ∃ highest, IsGreatest ((fun value => self.getOpacityForValue (some value)) '' Set.uIcc first second) highest := by
  have places := @remapped_mono self proper self.opacityValueCount (by omega) _ _ ordered
  rw [Set.uIcc_of_le ordered, image_getOpacityForValue proper more low high]
  exact ⟨exists_isLeast _ places, exists_isGreatest _ places⟩

/-! ## Opacities -/

section Opacities

/-- The table of sums is that of the current opacities. -/
def SumsStored (self : PreIntegratedTransferFunction) : Prop :=
  ∀ i j : Nat, i ≤ j → j < self.opacityValueCount →
    self.opacityPITable (j * self.opacityValueCount + i : Nat) = (self.entries i j).sum

theorem entries_length (self : PreIntegratedTransferFunction) (i j : Nat) : (self.entries i j).length = j + 1 - i := by
  rw [entries, List.length_map, List.length_range]

theorem sums_stored (self : PreIntegratedTransferFunction) (memory : Int → ℚ) :
    (self.precomputePreIntegratedOpacityValues memory).SumsStored := by
  intro i j ordered small
  change (chunkLanes self.opacityValueCount self.opacityValueCount).foldl _ memory
    (j * self.opacityValueCount + i : Nat) = (self.entries i j).sum
  have iSmall : i < self.opacityValueCount := ordered.trans_lt small
  refine foldl_once _ (fun table : Int → ℚ => table (j * self.opacityValueCount + i : Nat)) (fun _ => True)
    (fun _ => (self.entries i j).sum) (i, j) (chunkLanes_nodup _ _) ((mem_chunkLanes _ _ _).mpr ⟨iSmall, small⟩)
    (fun _ _ _ _ => trivial) ?_ ?_ trivial
  · intro table step listed other _
    have inside := (mem_chunkLanes _ _ _).mp listed
    split_ifs
    · rfl
    · refine Function.update_of_ne (fun same => other ?_) _ _
      obtain ⟨columns, rows⟩ := stride_injective iSmall inside.1 (Int.ofNat.inj same)
      exact Prod.ext rows.symm columns.symm
  · intro table _
    rw [if_neg (not_lt.mpr ordered), Function.update_self, List.sum_eq_foldl]

/-- What is looked up for two cells is the sum of the entries between them. -/
theorem SumsStored.between {self : PreIntegratedTransferFunction} (stored : self.SumsStored) {i j : Nat} (less : i < j)
    (below : j < self.opacityValueCount) :
    (if (j : Int) - i > 1 then self.opacityPITable ((i + 1) + (j - 1) * self.opacityValueCount) else 0) =
      (self.entries (i + 1) (j - 1)).sum := by
  by_cases more : (j : Int) - i > 1
  · have index : ((i : Int) + 1) + ((j : Int) - 1) * self.opacityValueCount =
        ((j - 1) * self.opacityValueCount + (i + 1) : Nat) := by
      push_cast [Nat.cast_sub (by omega : 1 ≤ j)]
      ring
    rw [if_pos more, index, stored _ _ (by omega) (by omega)]
  · have none_ : self.entries (i + 1) (j - 1) = [] := by
      simp only [entries, List.map_eq_nil_iff, List.range_eq_nil]
      omega
    rw [if_neg more, none_, List.sum_nil]

theorem entries_between {self : PreIntegratedTransferFunction} {i j : Nat} {place1 place2 value : ℚ}
    (first : ⌊place1⌋ = i) (second : ⌊place2⌋ = j) (member : value ∈ self.entries (i + 1) (j - 1)) :
    value ∈ interpolate self.opacityValues '' Set.Icc place1 place2 := by
  obtain ⟨step, listed, rfl⟩ := List.mem_map.mp member
  have inside := List.mem_range.mp listed
  refine ⟨((i + 1 + step : Nat) : Int), ⟨?_, ?_⟩, interpolate_intCast _ _⟩
  · have next := (Int.lt_floor_add_one place1).le
    rw [first] at next
    refine next.trans ?_
    exact_mod_cast (by omega : i + 1 ≤ i + 1 + step)
  · have floor := Int.floor_le place2
    rw [second] at floor
    refine le_trans ?_ floor
    exact_mod_cast (by omega : i + 1 + step ≤ j)

variable {self : PreIntegratedTransferFunction} (proper : self.valueRange.1 < self.valueRange.2)
  (more : 1 < self.opacityValueCount) {first second : ℚ} (low : self.valueRange.1 ≤ first)
  (ordered : first ≤ second) (high : second ≤ self.valueRange.2)

theorem clamped_eq {valueRange : ℚ × ℚ} {value : ℚ} (after : valueRange.1 ≤ value) (before : value ≤ valueRange.2) :
    (if (if value ≤ valueRange.1 then valueRange.1 else value) ≥ valueRange.2 then valueRange.2
      else if value ≤ valueRange.1 then valueRange.1 else value) = value := by
  split_ifs <;> linarith

include proper more low ordered high

theorem integratedOpacity_eq :
    let index1 := ⌊remapped self.valueRange self.opacityValueCount first⌋
    let index2 := ⌊remapped self.valueRange self.opacityValueCount second⌋
    self.integratedOpacity first second =
      ((if index2 - index1 > 1 then self.opacityPITable ((index1 + 1) + (index2 - 1) * self.opacityValueCount) else 0) +
        self.getOpacityForValue (some first) + self.getOpacityForValue (some second)) /
        ((index2 - index1 + 1 : Int) : ℚ) := by
  have some_ : 0 < self.opacityValueCount := by omega
  have firstBound := (remapped_bounds proper some_ low (ordered.trans high)).2
  have secondBound := (remapped_bounds proper some_ (low.trans ordered) high).2
  rw [getOpacityForValue_inside proper some_ low (ordered.trans high),
    getOpacityForValue_inside proper some_ (low.trans ordered) high,
    ← interpval_eq _ firstBound, ← interpval_eq _ secondBound]
  simp only [integratedOpacity, clamped_eq low (ordered.trans high), clamped_eq (low.trans ordered) high]

/-- Between two cells, the opacity is the mean of those at the ends and of the entries between. -/
theorem integratedOpacity_mean (stored : self.SumsStored)
    (apart : ⌊remapped self.valueRange self.opacityValueCount first⌋ ≠
      ⌊remapped self.valueRange self.opacityValueCount second⌋) :
    ∃ values, values ≠ [] ∧ self.integratedOpacity first second = values.sum / values.length ∧
      ∀ value ∈ values, value ∈ (fun value => self.getOpacityForValue (some value)) '' Set.Icc first second := by
  have some_ : 0 < self.opacityValueCount := by omega
  have secondBounds := remapped_bounds proper some_ (low.trans ordered) high
  have whole := integratedOpacity_eq proper more low ordered high
  obtain ⟨i, isFirst⟩ := Int.eq_ofNat_of_zero_le
    (Int.floor_nonneg.mpr (remapped_bounds proper some_ low (ordered.trans high)).1)
  obtain ⟨j, isSecond⟩ := Int.eq_ofNat_of_zero_le (Int.floor_nonneg.mpr secondBounds.1)
  have order : i ≤ j := by
    have floors := Int.floor_mono (@remapped_mono self.toLinearTransferFunction proper _ some_ _ _ ordered)
    omega
  have below : j < self.opacityValueCount := by
    have last : ⌊remapped self.valueRange self.opacityValueCount second⌋ ≤ (self.opacityValueCount - 1 : Int) := by
      refine Int.cast_le.mp ((Int.floor_le _).trans ?_)
      push_cast
      exact secondBounds.2
    omega
  rw [isFirst, isSecond] at whole apart
  have less : i < j := lt_of_le_of_ne order fun same => apart (congrArg _ same)
  let inner := self.entries (i + 1) (j - 1)
  refine ⟨self.getOpacityForValue (some first) :: self.getOpacityForValue (some second) :: inner,
    List.cons_ne_nil _ _, ?_, ?_⟩
  · have count : ((j - i + 1 : Int) : ℚ) = ((self.getOpacityForValue (some first) ::
        self.getOpacityForValue (some second) :: inner).length : ℚ) := by
      have length : inner.length = j - 1 + 1 - (i + 1) := entries_length self _ _
      rw [List.length_cons, List.length_cons, length]
      exact_mod_cast (by omega : (j - i + 1 : Int) = ((j - 1 + 1 - (i + 1) + 1 + 1 : Nat) : Int))
    simp only at whole
    rw [whole, stored.between less below, ← count, List.sum_cons, List.sum_cons]
    ring
  · intro value listed
    obtain rfl | rfl | entry := List.mem_cons.mp listed |>.imp_right List.mem_cons.mp
    · exact ⟨first, ⟨le_rfl, ordered⟩, rfl⟩
    · exact ⟨second, ⟨ordered, le_rfl⟩, rfl⟩
    · rw [image_getOpacityForValue proper more low high]
      exact entries_between isFirst isSecond entry

/-- The opacity of an interval is between the extremes, if the ends are in different cells, or on both sides
of 0. -/
theorem integratedOpacity_iff (stored : self.SumsStored) :
    BetweenExtremes (fun value => self.getOpacityForValue (some value)) first second
        (self.integratedOpacity first second) ↔
      (⌊remapped self.valueRange self.opacityValueCount first⌋ ≠
          ⌊remapped self.valueRange self.opacityValueCount second⌋ ∨
        min (self.getOpacityForValue (some first)) (self.getOpacityForValue (some second)) ≤ 0 ∧
          0 ≤ max (self.getOpacityForValue (some first)) (self.getOpacityForValue (some second))) := by
  have some_ : 0 < self.opacityValueCount := by omega
  by_cases apart : ⌊remapped self.valueRange self.opacityValueCount first⌋ ≠
      ⌊remapped self.valueRange self.opacityValueCount second⌋
  · refine iff_of_true ?_ (.inl apart)
    obtain ⟨⟨lowest, least⟩, highest, greatest⟩ := exists_extremes proper more low ordered high
    obtain ⟨values, nonempty, mean, members⟩ := integratedOpacity_mean proper more low ordered high stored apart
    rw [betweenExtremes_iff least greatest, mean]
    rw [Set.uIcc_of_le ordered] at least greatest
    exact ⟨le_mean nonempty fun value listed => least.2 (members value listed),
      mean_le nonempty fun value listed => greatest.2 (members value listed)⟩
  · have same := not_not.mp apart
    have places := @remapped_mono self.toLinearTransferFunction proper _ some_ _ _ ordered
    have image := image_getOpacityForValue proper more low high
    have least := isLeast_cell self.opacityValues places same
    have greatest := isGreatest_cell self.opacityValues places same
    rw [← image, ← Set.uIcc_of_le ordered, ← getOpacityForValue_inside proper some_ low (ordered.trans high),
      ← getOpacityForValue_inside proper some_ (low.trans ordered) high] at least greatest
    rw [betweenExtremes_iff least greatest, or_iff_right apart]
    have whole := integratedOpacity_eq proper more low ordered high
    have zero : ¬ (0 : Int) > 1 := by decide
    simp only [same, sub_self, if_neg zero, zero_add, Int.cast_one, div_one] at whole
    rw [whole]
    obtain less | less := le_total (self.getOpacityForValue (some first)) (self.getOpacityForValue (some second))
    · rw [min_eq_left less, max_eq_right less]
      constructor <;> rintro ⟨one, two⟩ <;> constructor <;> linarith
    · rw [min_eq_right less, max_eq_left less]
      constructor <;> rintro ⟨one, two⟩ <;> constructor <;> linarith

end Opacities

/-! ## Colors -/

section Colors

/-- What the missing half of the weights, and the missing part of the entries between, take away from two colors
is made up for by these colors, and does not reach beyond the other extreme. -/
def Balanced (opacity1 opacity2 color1 color2 dev lowest highest : ℚ) : Prop :=
  let opacities := opacity1 + opacity2
  let missing := (dev - 2) * opacities + dev / 100000
  0 ≤ (opacities + 1 / 100000) *
      (2 * (opacity1 * (color1 - lowest) + opacity2 * (color2 - lowest)) - lowest * missing) ∧
    0 ≤ (opacities + 1 / 100000) *
      (2 * (opacity1 * (highest - color1) + opacity2 * (highest - color2)) + highest * missing)

theorem quotient_sub {divisor dev : ℚ} (total bound : ℚ) (nonzero : divisor ≠ 0) (positive : 0 < dev) :
    (0 + total * 2 / divisor) / dev - bound =
      divisor * (2 * total - bound * (divisor * dev)) / (divisor ^ 2 * dev) := by
  have apart := positive.ne'
  field_simp
  ring

/-- A mixed color is within two bounds if it is balanced. -/
theorem mix_bounds_iff {opacity1 opacity2 color1 color2 dev : ℚ} (lowest highest : ℚ) (positive : 0 < dev)
    (sum : opacity1 + opacity2 + 1 / 100000 ≠ 0) :
    let result := (0 + (color1 * opacity1 + color2 * opacity2) * 2 / (opacity1 + opacity2 + 1 / 100000)) / dev
    lowest ≤ result ∧ result ≤ highest ↔ Balanced opacity1 opacity2 color1 color2 dev lowest highest := by
  intro result
  have scale : 0 < (opacity1 + opacity2 + 1 / 100000) ^ 2 * dev := mul_pos (sq_pos_of_ne_zero sum) positive
  have above := quotient_sub (color1 * opacity1 + color2 * opacity2) lowest sum positive
  have below := quotient_sub (color1 * opacity1 + color2 * opacity2) highest sum positive
  have product : (opacity1 + opacity2 + 1 / 100000) * dev =
      2 * (opacity1 + opacity2) + ((dev - 2) * (opacity1 + opacity2) + dev / 100000) := by ring
  rw [← sub_nonneg, ← @sub_nonpos _ _ _ _ result, above, below, le_div_iff₀ scale, div_le_iff₀ scale, zero_mul,
    product, ← neg_nonneg, ← mul_neg]
  refine and_congr (Eq.to_iff ?_) (Eq.to_iff ?_)
  · congr 2
    ring
  · congr 2
    ring

/-- With opacities that are not negative, colors are balanced where their channel is 0 or on both sides of 0. -/
theorem balanced_of_zero {opacity1 opacity2 color1 color2 dev lowest highest : ℚ} (wide : 2 ≤ dev)
    (firstOpacity : 0 ≤ opacity1) (secondOpacity : 0 ≤ opacity2) (low : lowest ≤ 0) (high : 0 ≤ highest)
    (firstColor : lowest ≤ color1 ∧ color1 ≤ highest) (secondColor : lowest ≤ color2 ∧ color2 ≤ highest) :
    Balanced opacity1 opacity2 color1 color2 dev lowest highest := by
  have opacities : 0 ≤ opacity1 + opacity2 := add_nonneg firstOpacity secondOpacity
  have missing : 0 ≤ (dev - 2) * (opacity1 + opacity2) + dev / 100000 :=
    add_nonneg (mul_nonneg (by linarith) opacities) (by linarith)
  have lower := mul_nonneg (neg_nonneg.mpr low) missing
  have upper := mul_nonneg high missing
  have firstLow := mul_nonneg firstOpacity (sub_nonneg.mpr firstColor.1)
  have firstHigh := mul_nonneg firstOpacity (sub_nonneg.mpr firstColor.2)
  have secondLow := mul_nonneg secondOpacity (sub_nonneg.mpr secondColor.1)
  have secondHigh := mul_nonneg secondOpacity (sub_nonneg.mpr secondColor.2)
  exact ⟨mul_nonneg (by linarith) (by linarith), mul_nonneg (by linarith) (by linarith)⟩

variable {self : PreIntegratedTransferFunction} (proper : self.valueRange.1 < self.valueRange.2)
  (some_ : 0 < self.colorValueCount) {first second : ℚ} (low : self.valueRange.1 ≤ first)
  (ordered : first ≤ second) (high : second ≤ self.valueRange.2)

theorem getColorForValue_channel (self : PreIntegratedTransferFunction) (value : ℚ) (axis : Fin 3) :
    self.getColorForValue (some value) axis = (self.channel axis).getOpacityForValue (some value) := by
  by_cases none_ : self.colorValueCount = 0
  · exact (congrFun (if_pos none_) axis).trans (if_pos none_).symm
  refine (congrFun (if_neg none_) axis).trans (Eq.trans ?_ (if_neg none_).symm)
  by_cases low : value ≤ self.valueRange.1
  · exact (congrFun (if_pos low) axis).trans (if_pos low).symm
  refine (congrFun (if_neg low) axis).trans (Eq.trans ?_ (if_neg low).symm)
  by_cases high : value ≥ self.valueRange.2
  · exact (congrFun (if_pos high) axis).trans (if_pos high).symm
  · exact (congrFun (if_neg high) axis).trans (if_neg high).symm

theorem clamped_color_eq {valueRange : ℚ × ℚ} {value : ℚ} (after : valueRange.1 ≤ value)
    (before : value ≤ valueRange.2) :
    (if (if value > valueRange.2 then valueRange.2 else value) < valueRange.1 then valueRange.1
      else if value > valueRange.2 then valueRange.2 else value) = value := by
  split_ifs <;> linarith

include proper some_ low ordered high in
/-- In the range, the colors at the ends are those of the values. -/
theorem colorEnds_eq :
    let place1 := remapped self.valueRange self.colorValueCount first
    let place2 := remapped self.valueRange self.colorValueCount second
    self.colorEnds first second =
      { opacity1 := interpval self.opacityValues self.opacityValueCount (self.oindex place1) (Int.fract place1)
        opacity2 := interpval self.opacityValues self.opacityValueCount (self.oindex place2) (Int.fract place1)
        interpColor1 := self.getColorForValue (some first)
        interpColor2 := self.getColorForValue (some second)
        dev := max ((⌊place2⌋ - ⌊place1⌋ + 1 : Int) : ℚ) 2 } := by
  intro place1 place2
  have firstBound := (remapped_bounds proper some_ low (ordered.trans high)).2
  have secondBound := (remapped_bounds proper some_ (low.trans ordered) high).2
  have firstColor : self.getColorForValue (some first) = fun axis =>
      interpval (self.colorValues · axis) self.colorValueCount ⌊place1⌋ (place1 - ⌊place1⌋) := by
    funext axis
    rw [getColorForValue_channel,
      @getOpacityForValue_inside (self.channel axis) proper some_ first low (ordered.trans high)]
    exact (interpval_eq _ firstBound).symm
  have secondColor : self.getColorForValue (some second) = fun axis =>
      interpval (self.colorValues · axis) self.colorValueCount ⌊place2⌋ (place2 - ⌊place2⌋) := by
    funext axis
    rw [getColorForValue_channel,
      @getOpacityForValue_inside (self.channel axis) proper some_ second (low.trans ordered) high]
    exact (interpval_eq _ secondBound).symm
  rw [firstColor, secondColor]
  simp only [colorEnds, clamped_color_eq low (ordered.trans high), clamped_color_eq (low.trans ordered) high]
  rfl

/-- A mixed color is between the extremes of an interval in each channel that is balanced. -/
theorem mix_iff (self : PreIntegratedTransferFunction) {ends : ColorEnds} (wide : 2 ≤ ends.dev) (value1 value2 : ℚ) :
    (∃ color, ends.mix = some color ∧ ∀ axis,
      BetweenExtremes (fun value => self.getColorForValue (some value) axis) value1 value2 (color axis)) ↔
    ends.opacity1 + ends.opacity2 + 1 / 100000 ≠ 0 ∧
      ∀ axis, ∃ lowest highest,
        IsLeast ((fun value => self.getColorForValue (some value) axis) '' Set.uIcc value1 value2) lowest ∧
        IsGreatest ((fun value => self.getColorForValue (some value) axis) '' Set.uIcc value1 value2) highest ∧
        Balanced ends.opacity1 ends.opacity2 (ends.interpColor1 axis) (ends.interpColor2 axis) ends.dev
          lowest highest := by
  have positive : 0 < ends.dev := zero_lt_two.trans_le wide
  by_cases sum : ends.opacity1 + ends.opacity2 + 1 / 100000 = 0
  · refine iff_of_false ?_ fun both => both.1 sum
    rintro ⟨color, mixed, -⟩
    rw [ColorEnds.mix, if_pos sum] at mixed
    cases mixed
  · rw [ColorEnds.mix, if_neg sum]
    constructor
    · rintro ⟨color, mixed, between⟩
      obtain rfl := Option.some.inj mixed
      refine ⟨sum, fun axis => ?_⟩
      obtain ⟨lowest, highest, least, greatest, bounds⟩ := between axis
      exact ⟨lowest, highest, least, greatest, (mix_bounds_iff lowest highest positive sum).mp bounds⟩
    · rintro ⟨-, balanced⟩
      refine ⟨_, rfl, fun axis => ?_⟩
      obtain ⟨lowest, highest, least, greatest, even⟩ := balanced axis
      exact ⟨lowest, highest, least, greatest, (mix_bounds_iff lowest highest positive sum).mpr even⟩

end Colors

/-! ## Every transfer function -/

/-- `LinearTransferFunction_createInstance`; the tables and the flags are not initialized. -/
def Created (self : PreIntegratedTransferFunction) : Prop :=
  (∃ memory, self.toLinearTransferFunction = LinearTransferFunction.createInstance memory) ∧ self.colorValueCount = 0

/-- A call that sets values or options, or computes the tables. -/
inductive Changes (self : PreIntegratedTransferFunction) : PreIntegratedTransferFunction → Prop
  | setPreIntegration (value : Bool) : Changes self (self.setPreIntegration value)
  | setColorValues (count : Nat) (source : Int → Fin 3 → ℚ) : Changes self (self.setColorValues count source)
  | setOpacityValues (count : Nat) (source : Int → ℚ) : Changes self (self.setOpacityValues count source)
  | precompute (opacities : Int → ℚ) (colors : Int → Fin 3 → ℚ) :
    Changes self (self.precomputePreIntegratedValues opacities colors)
  | setValueRange (value : ℚ × ℚ) : Changes self (self.setValueRange value)

variable {self : PreIntegratedTransferFunction}

/-- Once there are opacities, a table that is computed is that of the current ones. -/
theorem reachable_stored (reached : Reachable Created Changes self) (some_ : 0 < self.opacityValueCount)
    (computed : self.preIntegrationComputed = true) : self.SumsStored := by
  revert some_ computed
  refine @reachable_invariant _ Created Changes
    (fun state => 0 < state.opacityValueCount → state.preIntegrationComputed = true → state.SumsStored) ?_ ?_ self reached
  · rintro state ⟨⟨memory, created⟩, -⟩ some_ -
    rw [created] at some_
    exact absurd some_ (lt_irrefl 0)
  · intro state next stored change some_ computed
    cases change with
    | setPreIntegration value => exact stored some_ computed
    | setColorValues count source => exact absurd computed Bool.false_ne_true
    | setOpacityValues count source => exact absurd computed Bool.false_ne_true
    | precompute opacities colors => exact sums_stored (state.precomputePreIntegratedColorValues colors) opacities
    | setValueRange value => exact stored some_ computed

/-- The opacity and the channels of the color for an interval are between the extremes. -/
def LookupsBetween (self : PreIntegratedTransferFunction) (value1 value2 : ℚ) : Prop :=
  BetweenExtremes (fun value => self.getOpacityForValue (some value)) value1 value2
      (self.getIntegratedOpacityForValue (some value1) (some value2)) ∧
    ∃ color, self.getIntegratedColorForValue (some value1) (some value2) = some color ∧ ∀ axis,
      BetweenExtremes (fun value => self.getColorForValue (some value) axis) value1 value2 (color axis)

/-- The ends are in different cells of the opacities, or their opacities on both sides of 0, and each channel is
balanced. -/
def EvenLookups (self : PreIntegratedTransferFunction) (value1 value2 : ℚ) : Prop :=
  let first := min value1 value2
  let second := max value1 value2
  let place1 := remapped self.valueRange self.colorValueCount first
  let place2 := remapped self.valueRange self.colorValueCount second
  let opacity1 := interpval self.opacityValues self.opacityValueCount (self.oindex place1) (Int.fract place1)
  let opacity2 := interpval self.opacityValues self.opacityValueCount (self.oindex place2) (Int.fract place1)
  (⌊remapped self.valueRange self.opacityValueCount first⌋ ≠
      ⌊remapped self.valueRange self.opacityValueCount second⌋ ∨
    min (self.getOpacityForValue (some first)) (self.getOpacityForValue (some second)) ≤ 0 ∧
      0 ≤ max (self.getOpacityForValue (some first)) (self.getOpacityForValue (some second))) ∧
  opacity1 + opacity2 + 1 / 100000 ≠ 0 ∧
  ∀ axis, ∃ lowest highest,
    IsLeast ((fun value => self.getColorForValue (some value) axis) '' Set.uIcc value1 value2) lowest ∧
    IsGreatest ((fun value => self.getColorForValue (some value) axis) '' Set.uIcc value1 value2) highest ∧
    Balanced opacity1 opacity2 (self.getColorForValue (some first) axis) (self.getColorForValue (some second) axis)
      (max ((⌊place2⌋ - ⌊place1⌋ + 1 : Int) : ℚ) 2) lowest highest

/-- With pre-integration, the lookups do not depend on the order of the values. -/
theorem integrated_ordered (used : self.preIntegration = true ∧ self.preIntegrationComputed = true)
    (opacities : self.opacityValueCount ≠ 0) (colors : self.colorValueCount ≠ 0) (value1 value2 : ℚ) :
    self.getIntegratedOpacityForValue (some value1) (some value2) =
      self.integratedOpacity (min value1 value2) (max value1 value2) ∧
    self.getIntegratedColorForValue (some value1) (some value2) =
      (self.colorEnds (min value1 value2) (max value1 value2)).mix := by
  simp only [getIntegratedOpacityForValue, getIntegratedColorForValue, used.1, used.2, Bool.not_true, Bool.or_self,
    Bool.false_eq_true, if_false, if_neg opacities, if_neg colors]
  by_cases swapped : value1 > value2
  · rw [if_pos swapped, if_pos swapped, min_eq_right swapped.le, max_eq_left swapped.le]
    exact ⟨rfl, rfl⟩
  · rw [if_neg swapped, if_neg swapped, min_eq_left (not_lt.mp swapped), max_eq_right (not_lt.mp swapped)]
    exact ⟨rfl, rfl⟩

/-- **Pre-integrated lookups.** The opacity and the color for an interval are between the least and the greatest
value in it if and only if the lookups are even, or pre-integration is not used. -/
theorem lookups_between_iff (reached : Reachable Created Changes self) (opacities : 1 < self.opacityValueCount)
    (colors : 1 < self.colorValueCount) (proper : self.valueRange.1 < self.valueRange.2) {value1 value2 : ℚ}
    (inside1 : self.valueRange.1 ≤ value1 ∧ value1 ≤ self.valueRange.2)
    (inside2 : self.valueRange.1 ≤ value2 ∧ value2 ≤ self.valueRange.2) :
    self.LookupsBetween value1 value2 ↔
      (self.preIntegration = true → self.preIntegrationComputed = true → self.EvenLookups value1 value2) := by
  have low : self.valueRange.1 ≤ min value1 value2 := le_min inside1.1 inside2.1
  have high : max value1 value2 ≤ self.valueRange.2 := max_le inside1.2 inside2.2
  have interval : Set.uIcc (min value1 value2) (max value1 value2) = Set.uIcc value1 value2 :=
    Set.uIcc_of_le min_le_max
  by_cases used : self.preIntegration = true ∧ self.preIntegrationComputed = true
  · obtain ⟨opacity, color⟩ := integrated_ordered used (by omega) (by omega) value1 value2
    have stored := reachable_stored reached (by omega) used.2
    have first := integratedOpacity_iff proper opacities low min_le_max high stored
    have wide : 2 ≤ (self.colorEnds (min value1 value2) (max value1 value2)).dev := le_max_right _ _
    have second := mix_iff self wide value1 value2
    rw [BetweenExtremes, interval] at first
    rw [LookupsBetween, opacity, color, BetweenExtremes, first, second,
      colorEnds_eq proper (by omega) low min_le_max high]
    exact ⟨fun even _ _ => even, fun even => even used.1 used.2⟩
  · refine iff_of_true ?_ fun on computed => absurd ⟨on, computed⟩ used
    have off : (!self.preIntegration || !self.preIntegrationComputed) = true := by
      cases on : self.preIntegration <;> cases computed : self.preIntegrationComputed <;> simp_all
    have last : value2 ∈ Set.uIcc value1 value2 := Set.right_mem_uIcc
    rw [LookupsBetween, getIntegratedOpacityForValue, getIntegratedColorForValue, if_pos off, if_pos off]
    have extremes : ∀ {table : LinearTransferFunction}, table.valueRange = self.valueRange →
        1 < table.opacityValueCount →
        BetweenExtremes (fun value => table.getOpacityForValue (some value)) value1 value2
          (table.getOpacityForValue (some value2)) := by
      intro table range more
      rw [← range] at proper low high
      obtain ⟨⟨lowest, least⟩, highest, greatest⟩ := exists_extremes proper more low min_le_max high
      rw [interval] at least greatest
      exact ⟨lowest, highest, least, greatest, least.2 ⟨value2, last, rfl⟩, greatest.2 ⟨value2, last, rfl⟩⟩
    refine ⟨extremes rfl opacities, _, rfl, fun axis => ?_⟩
    simp only [getColorForValue_channel]
    exact @extremes (self.channel axis) rfl colors

/-- Two opacities and two colors, with the tables for intervals. -/
def sampled (opacities : Int → ℚ) (colors : Int → Fin 3 → ℚ) : PreIntegratedTransferFunction :=
  let created : PreIntegratedTransferFunction :=
    { toLinearTransferFunction := LinearTransferFunction.createInstance fun _ => (0, 0)
      colorValues := fun _ _ => 0
      colorValueCount := 0
      opacityPITable := fun _ => 0
      colorPITable := fun _ _ => 0
      preIntegration := false
      preIntegrationComputed := false }
  (((created.setPreIntegration true).setColorValues 2 colors).setOpacityValues 2 opacities)
    |>.precomputePreIntegratedValues (fun _ => 0) fun _ _ => 0

theorem sampled_reachable (opacities : Int → ℚ) (colors : Int → Fin 3 → ℚ) :
    Reachable Created Changes (sampled opacities colors) := by
  refine reachable_step (reachable_step (reachable_step (reachable_step (reachable_start ⟨⟨_, rfl⟩, rfl⟩)
    (.setPreIntegration true)) (.setColorValues 2 colors)) (.setOpacityValues 2 opacities)) (.precompute _ _)

/-- Opacities and colors that rise from 0 to 1. -/
def ramp : PreIntegratedTransferFunction := sampled (fun index => index) fun index _ => index

theorem getColorForValue_ramp {value : ℚ} (low : 0 ≤ value) (high : value ≤ 1) (axis : Fin 3) :
    ramp.getColorForValue (some value) axis = value := by
  have proper : (ramp.channel axis).valueRange.1 < (ramp.channel axis).valueRange.2 := zero_lt_one
  rw [getColorForValue_channel, getOpacityForValue_inside proper two_pos low high]
  have place : remapped (0, 1) 2 value = value := by
    norm_num [remapped]
  change interpolate (fun index => (index : ℚ)) (remapped (0, 1) 2 value) = value
  rw [place, interpolate, Int.fract]
  push_cast
  ring

theorem lookups_between_ramp : ramp.LookupsBetween 0 1 := by
  have least : ∀ axis, IsLeast ((fun value => ramp.getColorForValue (some value) axis) '' Set.uIcc 0 1) 0 := by
    intro axis
    rw [Set.uIcc_of_le zero_le_one]
    refine ⟨⟨0, ⟨le_rfl, zero_le_one⟩, getColorForValue_ramp le_rfl zero_le_one axis⟩, ?_⟩
    rintro color ⟨value, ⟨low, high⟩, rfl⟩
    exact low.trans_eq (getColorForValue_ramp low high axis).symm
  have greatest : ∀ axis, IsGreatest ((fun value => ramp.getColorForValue (some value) axis) '' Set.uIcc 0 1) 1 := by
    intro axis
    rw [Set.uIcc_of_le zero_le_one]
    refine ⟨⟨1, ⟨zero_le_one, le_rfl⟩, getColorForValue_ramp zero_le_one le_rfl axis⟩, ?_⟩
    rintro color ⟨value, ⟨low, high⟩, rfl⟩
    exact (getColorForValue_ramp low high axis).trans_le high
  refine (@lookups_between_iff ramp (sampled_reachable _ _) (by decide) (by decide) zero_lt_one 0 1
    ⟨le_rfl, zero_le_one⟩ ⟨zero_le_one, le_rfl⟩).mpr fun _ _ =>
      ⟨.inl (by decide +kernel), by decide +kernel, fun axis => ?_⟩
  refine ⟨0, 1, least axis, greatest axis, ?_⟩
  rw [min_eq_left zero_le_one, max_eq_right zero_le_one, getColorForValue_ramp le_rfl zero_le_one,
    getColorForValue_ramp zero_le_one le_rfl]
  exact balanced_of_zero (le_max_right _ _) (by decide +kernel) (by decide +kernel) le_rfl zero_le_one
    ⟨le_rfl, zero_le_one⟩ ⟨zero_le_one, le_rfl⟩

/-- Half of the opacity everywhere is integrated to all of it, and the color darkens. -/
theorem opacity_not_between :
    Reachable Created Changes (sampled (fun _ => 1 / 2) fun _ _ => 1) ∧
      (sampled (fun _ => 1 / 2) fun _ _ => 1).getIntegratedOpacityForValue (some (1 / 4)) (some (1 / 4)) = 1 ∧
      (sampled (fun _ => 1 / 2) fun _ _ => 1).getOpacityForValue (some (1 / 4)) = 1 / 2 ∧
      ((sampled (fun _ => 1 / 2) fun _ _ => 1).getIntegratedColorForValue (some (1 / 4)) (some (1 / 4))).map (· 0) =
        some (100000 / 100001) ∧
      (sampled (fun _ => 1 / 2) fun _ _ => 1).getColorForValue (some (1 / 4)) 0 = 1 ∧
      ¬ (sampled (fun _ => 1 / 2) fun _ _ => 1).LookupsBetween (1 / 4) (1 / 4) := by
  have integrated : (sampled (fun _ => 1 / 2) fun _ _ => 1).getIntegratedOpacityForValue (some (1 / 4))
      (some (1 / 4)) = 1 := by decide +kernel
  have single : (sampled (fun _ => 1 / 2) fun _ _ => 1).getOpacityForValue (some (1 / 4)) = 1 / 2 := by decide +kernel
  refine ⟨sampled_reachable _ _, integrated, single, by decide +kernel, by decide +kernel, ?_⟩
  rintro ⟨⟨lowest, highest, -, ⟨⟨value, inside, rfl⟩, -⟩, -, reached⟩, -⟩
  rw [Set.uIcc_self, Set.mem_singleton_iff] at inside
  rw [integrated, inside] at reached
  exact absurd (reached.trans_eq single) (by norm_num)

end PreIntegratedTransferFunction

end Ospray

import Mathlib.Data.Rat.Floor
import Mathlib.Tactic.Linarith
import Mathlib.Tactic.Positivity
import Ospray.Library.Envelopes
import Ospray.Library.Loops
import Ospray.Library.Runs

/-!
# The opacity of a linear transfer function

Opacities are interpolated between the entries of an array, which is spread evenly over a
range of values. For 32 positions in that range, and each pair of them, the least and the
greatest entry that may be used between them are computed beforehand, and looked up with
the ends of a query moved outwards to the next position. The arithmetic is exact.
-/

namespace Ospray

open Library.Envelopes Library.Runs

/-- `LinearTransferFunction` with what it needs for opacities. `opacityValues` is a pointer, and
nothing is known about what stands outside of the array. -/
structure LinearTransferFunction where
  valueRange : ℚ × ℚ
  opacityValues : Int → ℚ
  opacityValueCount : Nat
  minMaxOpacityInRange : Nat × Nat → ℚ × ℚ

namespace LinearTransferFunction

/-- `clamp` of one argument -/
def clamp (value : ℚ) : ℚ := max 0 (min value 1)

/-- `LinearTransferFunction_getOpacityForValue`; a value that is `none` is NaN. -/
def getOpacityForValue (self : LinearTransferFunction) : Option ℚ → ℚ
  | none => 0
  | some value =>
    if self.opacityValueCount = 0 then 1
    else if value ≤ self.valueRange.1 then self.opacityValues 0
    else if value ≥ self.valueRange.2 then self.opacityValues (self.opacityValueCount - 1)
    else
      let remapped := (value - self.valueRange.1) / (self.valueRange.2 - self.valueRange.1) *
        (self.opacityValueCount - 1)
      let index := ⌊remapped⌋
      let remainder := remapped - index
      (1 - remainder) * self.opacityValues index +
        remainder * self.opacityValues (min (index + 1) (self.opacityValueCount - 1))

/-- The table entry that `LinearTransferFunction_getMinMaxOpacityInRange` and
`LinearTransferFunction_getMaxOpacityInRange` read. -/
def lookup (self : LinearTransferFunction) (range : ℚ × ℚ) : ℚ × ℚ :=
  let maxDim := 31
  let denom := self.valueRange.2 - self.valueRange.1
  let i := ⌊clamp ((range.1 - self.valueRange.1) / denom) * maxDim⌋
  let j := ⌈clamp ((range.2 - self.valueRange.1) / denom) * maxDim⌉
  self.minMaxOpacityInRange ((min i 31).toNat, (min j 31).toNat)

/-- `LinearTransferFunction_getMinMaxOpacityInRange` -/
def getMinMaxOpacityInRange (self : LinearTransferFunction) (range : ℚ × ℚ) : ℚ × ℚ := self.lookup range

/-- `LinearTransferFunction_getMaxOpacityInRange` -/
def getMaxOpacityInRange (self : LinearTransferFunction) (range : ℚ × ℚ) : ℚ := (self.lookup range).2

/-! ## The table -/

section Table

variable (self : LinearTransferFunction)

/-- `checkRangeLow` -/
def checkRangeLow (i : Nat) : Int := ⌊((self.opacityValueCount - 1 : Int) * i / 31 : ℚ)⌋

/-- `checkRangeHigh` -/
def checkRangeHigh (j : Nat) : Int := ⌈((self.opacityValueCount - 1 : Int) * j / 31 : ℚ)⌉

/-- `opacityValues[low]` to `opacityValues[high]` -/
def between (low high : Int) : List ℚ :=
  (List.range (high + 1 - low).toNat).map fun (step : Nat) => self.opacityValues (low + step)

/-- The loop over `opacityIDX`. -/
def widen (range : ℚ × ℚ) (low high : Int) : ℚ × ℚ :=
  (self.between low high).foldl (fun range opacity => (min range.1 opacity, max range.2 opacity)) range

/-- The entries of the diagonal. -/
def diagonal (i : Nat) : ℚ × ℚ :=
  self.widen (self.opacityValues (self.checkRangeLow i), self.opacityValues (self.checkRangeLow i))
    (self.checkRangeLow i) (self.checkRangeHigh i)

/-- The entries above the diagonal, by the one of the diagonal. -/
def upper (table : Nat × Nat → ℚ × ℚ) (i j : Nat) : ℚ × ℚ :=
  self.widen (table (i, i)) (self.checkRangeLow i) (self.checkRangeHigh j)

/-- The iterations of the loops that fill the table above the diagonal. -/
def aboveDiagonal : List (Nat × Nat) :=
  (List.range 32).flatMap fun i => (List.range (32 - (i + 1))).map fun step => (i, i + 1 + step)

theorem aboveDiagonal_nodup : aboveDiagonal.Nodup := by
  refine List.nodup_flatMap.mpr ⟨fun i _ => List.nodup_range.map fun step other same => ?_,
    List.nodup_range.imp fun {i other} different => ?_⟩
  · have columns := congrArg Prod.snd same
    simp only at columns
    omega
  · intro entry member member'
    obtain ⟨step, -, rfl⟩ := List.mem_map.mp member
    obtain ⟨step', -, same⟩ := List.mem_map.mp member'
    exact different (congrArg Prod.fst same).symm

theorem mem_aboveDiagonal (entry : Nat × Nat) :
    entry ∈ aboveDiagonal ↔ entry.1 < entry.2 ∧ entry.2 < 32 := by
  obtain ⟨i, j⟩ := entry
  simp only [aboveDiagonal, List.mem_flatMap, List.mem_map, List.mem_range, Prod.mk.injEq]
  constructor
  · rintro ⟨row, small, step, few, rfl, rfl⟩
    omega
  · rintro ⟨above, small⟩
    exact ⟨i, by omega, j - (i + 1), by omega, rfl, by omega⟩

/-- `LinearTransferFunction_precomputeMinMaxOpacityRanges` -/
def precomputeMinMaxOpacityRanges : LinearTransferFunction :=
  let table := (List.range 32).foldl (fun table i => Function.update table (i, i) (self.diagonal i))
    self.minMaxOpacityInRange
  { self with
    minMaxOpacityInRange := aboveDiagonal.foldl (fun table entry =>
      Function.update table entry (self.upper table entry.1 entry.2)) table }

end Table

/-- `LinearTransferFunction_setOpacityValues` -/
def setOpacityValues (self : LinearTransferFunction) (count : Nat) (source : Int → ℚ) :
    LinearTransferFunction :=
  precomputeMinMaxOpacityRanges { self with opacityValues := source, opacityValueCount := count }

/-- `TransferFunction_setValueRange` -/
def setValueRange (self : LinearTransferFunction) (value : ℚ × ℚ) : LinearTransferFunction :=
  { self with valueRange := value }

/-! ## What the table holds -/

variable {self : LinearTransferFunction}

theorem widen_eq (range : ℚ × ℚ) (low high : Int) : self.widen range low high =
    (least range.1 (self.between low high), greatest range.2 (self.between low high)) := by
  unfold widen
  generalize self.between low high = opacities
  induction opacities generalizing range with
  | nil => rfl
  | cons opacity rest inductionHypothesis => exact inductionHypothesis _

theorem widen_bounds (range : ℚ × ℚ) {low high index : Int} (after : low ≤ index) (before : index ≤ high) :
    (self.widen range low high).1 ≤ self.opacityValues index ∧
      self.opacityValues index ≤ (self.widen range low high).2 := by
  have place : low + ((index - low).toNat : Int) = index := by omega
  have visited : self.opacityValues index ∈ self.between low high := by
    refine List.mem_map.mpr ⟨(index - low).toNat, List.mem_range.mpr ?_, by rw [place]⟩
    omega
  rw [widen_eq]
  exact ⟨least_le visited, le_greatest visited⟩

/-- The entries of the table are computed. -/
def Computed (self : LinearTransferFunction) : Prop :=
  ∀ i j, i ≤ j → j < 32 → ∃ range, self.minMaxOpacityInRange (i, j) =
    self.widen range (self.checkRangeLow i) (self.checkRangeHigh j)

theorem computed_iff (table : Nat × Nat → ℚ × ℚ) :
    ({ self with minMaxOpacityInRange := table } : LinearTransferFunction).Computed ↔
      ∀ i j, i ≤ j → j < 32 → ∃ range, table (i, j) =
        self.widen range (self.checkRangeLow i) (self.checkRangeHigh j) :=
  Iff.rfl

/-- The diagonal is filled first, -/
theorem fill_diagonal (table : Nat × Nat → ℚ × ℚ) {i : Nat} (small : i < 32) :
    (List.range 32).foldl (fun table i => Function.update table (i, i) (self.diagonal i)) table (i, i) =
      self.diagonal i := by
  refine Library.Loops.foldl_once _ (fun table : Nat × Nat → ℚ × ℚ => table (i, i)) (fun _ => True)
    (fun _ => self.diagonal i) i List.nodup_range (List.mem_range.mpr small)
    (fun _ _ _ _ => trivial) ?_ (fun table _ => Function.update_self _ _ _) trivial
  intro table row _ other _
  exact Function.update_of_ne (fun same => other (congrArg Prod.fst same).symm) _ _

/-- and kept by the loops above it. -/
theorem keep_diagonal (table : Nat × Nat → ℚ × ℚ) {entries : List (Nat × Nat)}
    (above : ∀ entry ∈ entries, entry.1 < entry.2) (i : Nat) :
    entries.foldl (fun table entry => Function.update table entry (self.upper table entry.1 entry.2))
      table (i, i) = table (i, i) := by
  refine Library.Loops.foldl_never _ (fun table : Nat × Nat → ℚ × ℚ => table (i, i)) (fun _ => True)
    entries (fun _ _ _ _ => trivial) ?_ trivial
  intro table entry member _
  have off := above entry member
  exact Function.update_of_ne (fun same => by simp [← same] at off) _ _

theorem fill_above (table : Nat × Nat → ℚ × ℚ) {i j : Nat} (above : i < j) (small : j < 32) :
    aboveDiagonal.foldl (fun table entry => Function.update table entry (self.upper table entry.1 entry.2))
      table (i, j) = self.upper table i j := by
  refine Library.Loops.foldl_once _ (fun table : Nat × Nat → ℚ × ℚ => table (i, j))
    (fun later => later (i, i) = table (i, i)) (fun _ => self.upper table i j) (i, j)
    aboveDiagonal_nodup ((mem_aboveDiagonal _).mpr ⟨above, small⟩) ?_ ?_ ?_ rfl
  · intro later entry member same
    have off := ((mem_aboveDiagonal entry).mp member).1
    exact (Function.update_of_ne (fun diagonal => by simp [← diagonal] at off) _ _).trans same
  · intro later entry member other _
    exact Function.update_of_ne (Ne.symm other) _ _
  · intro later same
    rw [Function.update_self, upper, upper, same]

theorem precompute_computed (self : LinearTransferFunction) :
    self.precomputeMinMaxOpacityRanges.Computed := by
  rw [precomputeMinMaxOpacityRanges, computed_iff]
  intro i j ordered small
  rcases Nat.eq_or_lt_of_le ordered with rfl | above
  · have filled := @fill_diagonal self self.minMaxOpacityInRange _ small
    generalize (List.range 32).foldl (fun table i => Function.update table (i, i) (self.diagonal i))
      self.minMaxOpacityInRange = table at filled ⊢
    rw [keep_diagonal _ fun entry member => ((mem_aboveDiagonal entry).mp member).1, filled]
    exact ⟨_, rfl⟩
  · generalize (List.range 32).foldl (fun table i => Function.update table (i, i) (self.diagonal i))
      self.minMaxOpacityInRange = table
    rw [fill_above _ above small]
    exact ⟨table (i, i), rfl⟩

/-! ## Opacities -/

/-- The position of a value in the value range, from 0 to 1. -/
def position (self : LinearTransferFunction) (value : ℚ) : ℚ :=
  clamp ((value - self.valueRange.1) / (self.valueRange.2 - self.valueRange.1))

/-- The position of a value among the entries of the array. -/
def place (self : LinearTransferFunction) (value : ℚ) : ℚ :=
  (self.opacityValueCount - 1 : Int) * self.position value

theorem position_nonneg (self : LinearTransferFunction) (value : ℚ) : 0 ≤ self.position value := le_max_left _ _

theorem position_le_one (self : LinearTransferFunction) (value : ℚ) : self.position value ≤ 1 := max_le zero_le_one (min_le_right _ _)

section Proper

variable (some_ : 0 < self.opacityValueCount) (proper : self.valueRange.1 < self.valueRange.2)

include proper in
theorem position_mono {first second : ℚ} (ordered : first ≤ second) :
    self.position first ≤ self.position second := by
  have positive : 0 ≤ self.valueRange.2 - self.valueRange.1 := by linarith
  exact max_le_max le_rfl (min_le_min (div_le_div_of_nonneg_right (by linarith) positive) le_rfl)

include some_ proper in
/-- An opacity is interpolated between the entries at and behind the place of the value. -/
theorem getOpacityForValue_eq (value : ℚ) : self.getOpacityForValue (some value) =
    (1 - Int.fract (self.place value)) * self.opacityValues ⌊self.place value⌋ +
      Int.fract (self.place value) * self.opacityValues ⌈self.place value⌉ := by
  have positive : 0 < self.valueRange.2 - self.valueRange.1 := by linarith
  simp only [getOpacityForValue]
  rw [if_neg some_.ne']
  by_cases low : value ≤ self.valueRange.1
  · have first : self.position value = 0 := by
      have quotient := div_nonpos_of_nonpos_of_nonneg (sub_nonpos.mpr low) positive.le
      exact max_eq_left ((min_le_left _ _).trans quotient)
    rw [if_pos low, place, first, mul_zero]
    simp
  rw [if_neg low]
  by_cases high : value ≥ self.valueRange.2
  · have last : self.position value = 1 := by
      have quotient : 1 ≤ (value - self.valueRange.1) / (self.valueRange.2 - self.valueRange.1) :=
        (one_le_div positive).mpr (by linarith)
      rw [position, clamp, min_eq_right quotient, max_eq_right zero_le_one]
    rw [if_pos high, place, last, mul_one]
    simp
  rw [if_neg high]
  have inside : self.position value =
      (value - self.valueRange.1) / (self.valueRange.2 - self.valueRange.1) := by
    have quotient : (value - self.valueRange.1) / (self.valueRange.2 - self.valueRange.1) ≤ 1 :=
      (div_le_one positive).mpr (by linarith)
    rw [position, clamp, min_eq_left quotient, max_eq_right (div_nonneg (by linarith) positive.le)]
  have remapped : (value - self.valueRange.1) / (self.valueRange.2 - self.valueRange.1) *
      (self.opacityValueCount - 1) = self.place value := by
    rw [place, inside]
    push_cast
    ring
  rw [remapped]
  by_cases whole : Int.fract (self.place value) = 0
  · have same : self.place value - ⌊self.place value⌋ = 0 := whole
    rw [whole, same]
    ring
  · have next : ⌈self.place value⌉ = ⌊self.place value⌋ + 1 := by
      rw [Int.ceil_eq_floor_add_one_iff_notMem]
      rintro ⟨number, same⟩
      rw [← same, Int.fract_intCast] at whole
      exact whole rfl
    have last : ⌈self.place value⌉ ≤ self.opacityValueCount - 1 := by
      rw [Int.ceil_le, place]
      have entries : (0 : ℚ) ≤ ((self.opacityValueCount - 1 : Int) : ℚ) := by
        exact_mod_cast (by omega : (0 : Int) ≤ self.opacityValueCount - 1)
      exact mul_le_of_le_one_right entries (self.position_le_one value)
    rw [min_eq_left (next ▸ last), ← next]
    rfl

/-- A mean is not below a bound of both values, -/
theorem le_mean {bound first second weight : ℚ} (nonnegative : 0 ≤ weight) (small : weight ≤ 1)
    (le_first : bound ≤ first) (le_second : bound ≤ second) :
    bound ≤ (1 - weight) * first + weight * second :=
  calc bound = (1 - weight) * bound + weight * bound := by ring
    _ ≤ (1 - weight) * first + weight * second :=
      add_le_add (mul_le_mul_of_nonneg_left le_first (by linarith))
        (mul_le_mul_of_nonneg_left le_second nonnegative)

/-- and not above one. -/
theorem mean_le {bound first second weight : ℚ} (nonnegative : 0 ≤ weight) (small : weight ≤ 1)
    (first_le : first ≤ bound) (second_le : second ≤ bound) :
    (1 - weight) * first + weight * second ≤ bound :=
  calc (1 - weight) * first + weight * second ≤ (1 - weight) * bound + weight * bound :=
      add_le_add (mul_le_mul_of_nonneg_left first_le (by linarith))
        (mul_le_mul_of_nonneg_left second_le nonnegative)
    _ = bound := by ring

include some_ proper in
theorem opacity_bounds {value : ℚ} (range : ℚ × ℚ) {low high : Int}
    (after : low ≤ ⌊self.place value⌋) (before : ⌈self.place value⌉ ≤ high) :
    (self.widen range low high).1 ≤ self.getOpacityForValue (some value) ∧
      self.getOpacityForValue (some value) ≤ (self.widen range low high).2 := by
  have order := Int.floor_le_ceil (self.place value)
  have first := self.widen_bounds range after (order.trans before)
  have second := self.widen_bounds range (after.trans order) before
  have nonnegative := Int.fract_nonneg (self.place value)
  have small := (Int.fract_lt_one (self.place value)).le
  rw [getOpacityForValue_eq some_ proper]
  exact ⟨le_mean nonnegative small first.1 second.1, mean_le nonnegative small first.2 second.2⟩

include some_ proper in
/-- The entry that is looked up for a range bounds the opacities of the values in it. -/
theorem lookup_bounds (computed : self.Computed) {range : ℚ × ℚ} {value : ℚ} (after : range.1 ≤ value)
    (before : value ≤ range.2) :
    (self.lookup range).1 ≤ self.getOpacityForValue (some value) ∧
      self.getOpacityForValue (some value) ≤ (self.lookup range).2 := by
  have entries : (0 : ℚ) ≤ ((self.opacityValueCount - 1 : Int) : ℚ) := by
    exact_mod_cast (by omega : (0 : Int) ≤ self.opacityValueCount - 1)
  have lower := position_mono proper after
  have upper := position_mono proper before
  -- the positions of the ends are moved outwards to multiples of 1/31
  obtain ⟨i, isLow⟩ := Int.eq_ofNat_of_zero_le
    (Int.floor_nonneg.mpr (mul_nonneg (self.position_nonneg range.1) (by norm_num : (0 : ℚ) ≤ 31)))
  obtain ⟨j, isHigh⟩ := Int.eq_ofNat_of_zero_le
    (Int.ceil_nonneg (mul_nonneg (self.position_nonneg range.2) (by norm_num : (0 : ℚ) ≤ 31)))
  have below : (i : ℚ) ≤ self.position range.1 * 31 := by
    have floor := Int.floor_le (self.position range.1 * 31)
    rw [isLow] at floor
    exact_mod_cast floor
  have above : self.position range.2 * 31 ≤ j := by
    have ceil := Int.le_ceil (self.position range.2 * 31)
    rw [isHigh] at ceil
    exact_mod_cast ceil
  have last : j ≤ 31 := by
    have bound : ⌈self.position range.2 * 31⌉ ≤ 31 := by
      rw [Int.ceil_le]
      have one := self.position_le_one range.2
      push_cast
      linarith
    omega
  have ordered : i ≤ j := by exact_mod_cast (by linarith : (i : ℚ) ≤ j)
  obtain ⟨start, entry⟩ := computed i j ordered (by omega)
  have looked : self.lookup range = self.widen start (self.checkRangeLow i) (self.checkRangeHigh j) := by
    rw [← entry]
    change self.minMaxOpacityInRange
      ((min ⌊self.position range.1 * 31⌋ 31).toNat, (min ⌈self.position range.2 * 31⌉ 31).toNat) = _
    rw [isLow, isHigh]
    congr 2 <;> omega
  rw [looked]
  refine opacity_bounds some_ proper start (Int.floor_mono ?_) (Int.ceil_mono ?_)
  · rw [place, mul_div_assoc]
    exact mul_le_mul_of_nonneg_left (by linarith) entries
  · rw [place, mul_div_assoc]
    exact mul_le_mul_of_nonneg_left (by linarith) entries

end Proper

/-! ## Every transfer function -/

/-- `LinearTransferFunction_createInstance`; the table is not initialized. -/
def createInstance (memory : Nat × Nat → ℚ × ℚ) : LinearTransferFunction where
  valueRange := (0, 1)
  opacityValues := fun _ => 0
  opacityValueCount := 0
  minMaxOpacityInRange := memory

/-- A new transfer function. -/
def Created (self : LinearTransferFunction) : Prop := ∃ memory, self = createInstance memory

/-- A call that sets the opacities or the value range. -/
def Changes (self next : LinearTransferFunction) : Prop :=
  (∃ count source, next = self.setOpacityValues count source) ∨ ∃ value, next = self.setValueRange value

theorem reachable_computed (reached : Reachable Created Changes self) (some_ : 0 < self.opacityValueCount) :
    self.Computed := by
  revert some_
  refine @reachable_invariant _ Created Changes
    (fun state => 0 < state.opacityValueCount → state.Computed) ?_ ?_ self reached
  · rintro state ⟨memory, rfl⟩ some_
    exact absurd some_ (lt_irrefl 0)
  · rintro state next computed (⟨count, source, rfl⟩ | ⟨value, rfl⟩) some_
    · exact precompute_computed _
    · exact computed some_

/-- In whatever way a transfer function was set up, the tables bound the opacity of every value in
the queried range. -/
theorem opacity_in_range (reached : Reachable Created Changes self) (some_ : 0 < self.opacityValueCount)
    (proper : self.valueRange.1 < self.valueRange.2) {range : ℚ × ℚ} {value : ℚ} (after : range.1 ≤ value)
    (before : value ≤ range.2) :
    (self.getMinMaxOpacityInRange range).1 ≤ self.getOpacityForValue (some value) ∧
      self.getOpacityForValue (some value) ≤ self.getMaxOpacityInRange range :=
  lookup_bounds some_ proper (reachable_computed reached some_) after before

/-- Opacities from 0 to 1. -/
def ramp : LinearTransferFunction :=
  (createInstance fun _ => (0, 0)).setOpacityValues 2 fun index => index

theorem opacity_in_range_ramp :
    (ramp.getMinMaxOpacityInRange (1 / 4, 1 / 2)).1 ≤ ramp.getOpacityForValue (some (1 / 3)) ∧
      ramp.getOpacityForValue (some (1 / 3)) ≤ ramp.getMaxOpacityInRange (1 / 4, 1 / 2) :=
  opacity_in_range (reachable_step (reachable_start ⟨_, rfl⟩) (.inl ⟨2, _, rfl⟩)) (by decide)
    (by norm_num [ramp, setOpacityValues, precomputeMinMaxOpacityRanges, createInstance]) (by norm_num)
    (by norm_num)

end LinearTransferFunction

end Ospray

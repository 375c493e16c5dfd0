import Mathlib.Data.Rat.Floor
import Ospray.Math.Distribution1D

/-!
# Sampling by importance in two dimensions

Every row of the image is overwritten with its table, the sums of the rows make up a table of
their own. A sample selects a row first, then a place inside of the row. The density at a place
of the image is looked up in the same tables, at the indices that the place falls on.
-/

namespace Ospray

/-- The tables, with `size` in both directions. -/
structure Distribution2D (K : Type) where
  size : Nat × Nat
  rcpSize : K × K
  cdf_x : Nat → K
  cdf_y : Nat → K

namespace Distribution2D

open Library.InverseSampling Distribution1D

variable {K : Type} [Field K] [LinearOrder K]

/-- An iteration of the loop over the rows, on the image and the importance of the rows. -/
def createRow (rcpZero : K) (size_x : Nat) (state : (Nat → K) × (Nat → K)) (y : Nat) : (Nat → K) × (Nat → K) :=
  let row := Distribution1D.create rcpZero size_x (y * size_x) state.1
  (row.1, Function.update state.2 y row.2)

/-- `Distribution2D_create` for tables of the rows. -/
def createOf (rcpZero : K) (size : Nat × Nat) (cdf_x f_y : Nat → K) : Distribution2D K :=
  { size := size
    rcpSize := (rcp rcpZero size.1, rcp rcpZero size.2)
    cdf_x := cdf_x
    cdf_y := (Distribution1D.create rcpZero size.2 0 f_y).1 }

/-- `Distribution2D_create` for an image. The array for the importance of the rows is allocated with any content. -/
def create (rcpZero : K) (allocated : Nat → K) (size : Nat × Nat) (f : Nat → K) : Distribution2D K :=
  let rows := (List.range size.2).foldl (createRow rcpZero size.1) (f, allocated)
  createOf rcpZero size rows.1 rows.2

/-- A place in the image and the density there. -/
structure Sample2D (K : Type) where
  uv : K × K
  pdf : K

/-- `Distribution2D_sample`, for at most `fuel` rounds of each search. -/
def sample (fuel : Nat) (rcpZero : K) (distribution : Distribution2D K) (s : K × K) : Option (Sample2D K) := do
  let sy ← Distribution1D.sample fuel rcpZero distribution.size.2 distribution.cdf_y 0 s.2
  let x0 := sy.idx * distribution.size.1
  let sx ← Distribution1D.sample fuel rcpZero distribution.size.1 distribution.cdf_x x0 s.1
  return {
    uv := ((sx.idx + sx.frac) * distribution.rcpSize.1, (sy.idx + sy.frac) * distribution.rcpSize.2)
    pdf := sx.pdf * sy.pdf }

/-- The function returns the sample, for every sufficient number of rounds. -/
def Samples (rcpZero : K) (distribution : Distribution2D K) (s : K × K) (result : Sample2D K) : Prop :=
  ∃ enough, ∀ fuel, enough ≤ fuel → sample fuel rcpZero distribution s = some result

/-- `Distribution2D_pdf`, at a place that is not negative. -/
def pdf [FloorSemiring K] (distribution : Distribution2D K) (uv : K × K) : K :=
  let idy := ⌊uv.2 * distribution.size.2⌋₊
  let befy := if idy = 0 then 0 else distribution.cdf_y (idy - 1)
  let pdf_y := (distribution.cdf_y idy - befy) * distribution.size.2
  let idx := ⌊uv.1 * distribution.size.1⌋₊
  let x0 := idy * distribution.size.1
  let befx := if idx = 0 then 0 else distribution.cdf_x (x0 + idx - 1)
  let pdf_x := (distribution.cdf_x (x0 + idx) - befx) * distribution.size.1
  pdf_x * pdf_y

variable {rcpZero : K} {allocated f : Nat → K} {size : Nat × Nat} {size_x : Nat}

/-- What the first rows leave behind: their tables and sums, and the other rows as they were. -/
structure Created (rcpZero : K) (size_x : Nat) (f : Nat → K) (rows : Nat) (state : (Nat → K) × (Nat → K)) :
    Prop where
  table : ∀ y < rows, ∀ x < size_x, state.1 (y * size_x + x) = entry rcpZero f (y * size_x) size_x x
  importance : ∀ y < rows, state.2 y = partialSum f (y * size_x) size_x
  remaining : ∀ address, rows * size_x ≤ address → state.1 address = f address

omit [LinearOrder K] in
theorem partialSum_congr {first second : Nat → K} {start count : Nat}
    (same : ∀ i < count, first (start + i) = second (start + i)) :
    partialSum first start count = partialSum second start count :=
  Finset.sum_congr rfl fun i inside => same i (Finset.mem_range.mp inside)

theorem Created.next (positive : 1 ≤ size_x) {rows : Nat} {state : (Nat → K) × (Nat → K)}
    (created : Created rcpZero size_x f rows state) :
    Created rcpZero size_x f (rows + 1) (createRow rcpZero size_x state rows) := by
  have same : ∀ count ≤ size_x, partialSum state.1 (rows * size_x) count = partialSum f (rows * size_x) count :=
    fun count _ => partialSum_congr fun i _ => created.remaining _ (Nat.le_add_right _ _)
  refine ⟨fun y upTo x inside => ?_, fun y upTo => ?_, fun address outside => ?_⟩
  · obtain rfl | before := (Nat.le_of_lt_succ upTo).eq_or_lt
    · refine (create_entry inside).trans ?_
      rw [entry, entry, same size_x le_rfl, same (x + 1) inside]
    · refine (create_elsewhere positive (Or.inl ?_)).trans (created.table y before x inside)
      exact Library.Loops.stride_lt inside before
  · obtain rfl | before := (Nat.le_of_lt_succ upTo).eq_or_lt
    · refine (Function.update_self ..).trans ((create_sum positive).trans ?_)
      exact same size_x le_rfl
    · exact (Function.update_of_ne before.ne ..).trans (created.importance y before)
  · rw [Nat.succ_mul] at outside
    refine (create_elsewhere positive (Or.inr outside)).trans (created.remaining address ?_)
    exact (Nat.le_add_right _ _).trans outside

theorem created (rcpZero : K) (allocated f : Nat → K) (positive : 1 ≤ size_x) (rows : Nat) :
    Created rcpZero size_x f rows ((List.range rows).foldl (createRow rcpZero size_x) (f, allocated)) := by
  induction rows with
  | zero =>
    exact ⟨fun _ none_ => absurd none_ (Nat.not_lt_zero _), fun _ none_ => absurd none_ (Nat.not_lt_zero _),
      fun _ _ => rfl⟩
  | succ rows inductionHypothesis =>
    rw [List.range_succ, List.foldl_append]
    exact inductionHypothesis.next positive

section Ordered

variable [IsStrictOrderedRing K]

theorem floor_of_sample [FloorSemiring K] (rcpZero : K) {table : Nat → K} {count idx : Nat} {s : K} (positive : 1 ≤ count)
    (selects : Selects table count s idx) :
    ⌊(idx + fraction table idx s) * rcp rcpZero count * count⌋₊ = idx := by
  have nonzero : (count : K) ≠ 0 := Nat.cast_ne_zero.mpr (Nat.pos_iff_ne_zero.mp positive)
  rw [rcp, if_neg nonzero, mul_assoc, one_div_mul_cancel nonzero, mul_one]
  exact selects.floor_eq

theorem importance_nonneg {f_y : Nat → K} (nonneg : ∀ i < size.1 * size.2, 0 ≤ f i)
    (importance : ∀ y < size.2, f_y y = partialSum f (y * size.1) size.1) : NonNegative f_y 0 size.2 := by
  intro y inside
  rw [Nat.zero_add, importance y inside]
  have row : NonNegative f (y * size.1) size.1 := fun x within => nonneg _ (by
    rw [Nat.mul_comm size.1]
    exact Library.Loops.stride_lt within inside)
  exact partialSum_nonneg row le_rfl

/-- Sampling tables of rows returns a place with the density that is looked up there. -/
theorem pdf_of_tables [FloorSemiring K] {cdf_x f_y : Nat → K} {s : K × K} (positive_x : 1 ≤ size.1)
    (positive_y : 1 ≤ size.2) (nonneg : ∀ i < size.1 * size.2, 0 ≤ f i)
    (table : ∀ y < size.2, ∀ x < size.1, cdf_x (y * size.1 + x) = entry rcpZero f (y * size.1) size.1 x)
    (importance : ∀ y < size.2, f_y y = partialSum f (y * size.1) size.1)
    (inside_x : 0 ≤ s.1 ∧ s.1 < 1) (inside_y : 0 ≤ s.2 ∧ s.2 < 1) :
    ∃ result, Samples rcpZero (createOf rcpZero size cdf_x f_y) s result ∧
      pdf (createOf rcpZero size cdf_x f_y) result.uv = result.pdf := by
  have rows := importance_nonneg nonneg importance
  have table_y : ∀ y < size.2, (Distribution1D.create rcpZero size.2 0 f_y).1 (0 + y) =
      entry rcpZero f_y 0 size.2 y := fun y inside => create_entry inside
  obtain ⟨sy, sampled_y, selects_y, frac_y⟩ := inverts_of_table positive_y rows inside_y.1 inside_y.2 table_y
  have row : NonNegative f (sy.idx * size.1) size.1 := fun x within => nonneg _ (by
    rw [Nat.mul_comm size.1]
    exact Library.Loops.stride_lt within sampled_y.inside)
  obtain ⟨sx, sampled_x, selects_x, frac_x⟩ := inverts_of_table positive_x row inside_x.1
    inside_x.2 (table sy.idx sampled_y.inside)
  obtain ⟨enough_y, runs_y⟩ := sampled_y.samples
  obtain ⟨enough_x, runs_x⟩ := sampled_x.samples
  refine ⟨{ uv := ((sx.idx + sx.frac) * rcp rcpZero size.1, (sy.idx + sy.frac) * rcp rcpZero size.2)
            pdf := sx.pdf * sy.pdf }, ⟨max enough_y enough_x, fun fuel more => ?_⟩, ?_⟩
  · have run_y := runs_y fuel (le_of_max_le_left more)
    have run_x := runs_x fuel (le_of_max_le_right more)
    simp only [sample, createOf, run_y, run_x, Option.bind_eq_bind, Option.bind_some, Option.pure_def]
  · have idy := floor_of_sample rcpZero positive_y selects_y
    have idx := floor_of_sample rcpZero positive_x selects_x
    rw [← frac_y] at idy
    rw [← frac_x] at idx
    have step_y := sampled_y.step
    have step_x := sampled_x.step
    simp only [Nat.zero_add] at step_y
    simp only [pdf, createOf, idy, idx, step_y, step_x]

theorem pdf_of_sample [FloorSemiring K] (rcpZero : K) (allocated f : Nat → K) {s : K × K}
    (positive_x : 1 ≤ size.1) (positive_y : 1 ≤ size.2) (nonneg : ∀ i < size.1 * size.2, 0 ≤ f i)
    (inside_x : 0 ≤ s.1 ∧ s.1 < 1) (inside_y : 0 ≤ s.2 ∧ s.2 < 1) :
    ∃ result, Samples rcpZero (create rcpZero allocated size f) s result ∧
      pdf (create rcpZero allocated size f) result.uv = result.pdf := by
  obtain ⟨table, importance, -⟩ := created rcpZero allocated f positive_x size.2
  exact pdf_of_tables positive_x positive_y nonneg table importance inside_x inside_y

/-- Sampling inverts the tables, in one and in two dimensions. -/
theorem sampling_inverts_tables [FloorSemiring K] (rcpZero : K) :
    (∀ (size start : Nat) (f : Nat → K) (s : K), 1 ≤ size → NonNegative f start size → 0 ≤ s → s < 1 →
      let cdf := (Distribution1D.create rcpZero size start f).1
      Sorted size start cdf ∧ ∃ result, Inverts rcpZero size start f s cdf result) ∧
    ∀ (size : Nat × Nat) (allocated f : Nat → K) (s : K × K), 1 ≤ size.1 → 1 ≤ size.2 →
      (∀ i < size.1 * size.2, 0 ≤ f i) → 0 ≤ s.1 ∧ s.1 < 1 → 0 ≤ s.2 ∧ s.2 < 1 →
      ∃ result, Samples rcpZero (create rcpZero allocated size f) s result ∧
        pdf (create rcpZero allocated size f) result.uv = result.pdf := by
  refine ⟨fun size start f s positive nonNegative nonneg below => ?_,
    fun size allocated f s positive_x positive_y nonneg => pdf_of_sample rcpZero allocated f positive_x positive_y nonneg⟩
  have table : ∀ i < size, (Distribution1D.create rcpZero size start f).1 (start + i) =
      entry rcpZero f start size i := fun i inside => create_entry inside
  obtain ⟨result, inverts, -⟩ := inverts_of_table positive nonNegative nonneg below table
  exact ⟨sorted_of_table positive nonNegative table, result, inverts⟩

/-- An array whose first and last values are zero. -/
theorem sampling_inverts_three : ∃ result, Inverts (0 : ℚ) 3 0 (fun i => if i = 1 then 2 else 0) (1 / 2)
    (Distribution1D.create (0 : ℚ) 3 0 fun i => if i = 1 then 2 else 0).1 result := by
  refine ((sampling_inverts_tables (0 : ℚ)).1 3 0 _ (1 / 2) (by decide) ?_ (by norm_num) (by norm_num)).2
  intro i _
  dsimp only
  split_ifs
  · norm_num
  · exact le_rfl

end Ordered

end Distribution2D

end Ospray

import Mathlib.Algebra.BigOperators.Group.Finset.Basic
import Mathlib.Algebra.Order.BigOperators.Group.Finset
import Mathlib.Tactic.Linarith
import Mathlib.Tactic.FieldSimp
import Mathlib.Tactic.Positivity
import Ospray.Library.Bisection
import Ospray.Library.InverseSampling
import Ospray.Library.Loops

/-!
# Sampling by importance in one dimension

The array of importance values is overwritten with the table of their running sums, divided by
the total. Entries that reach the total are set to the number behind one, so that the search for
a random number ends inside the table. The search selects the first entry above the number.
Floats are elements of an ordered field.
-/

namespace Ospray.Distribution1D

open Library.Whiles Library.InverseSampling

variable {K : Type} [Field K] [LinearOrder K]

/-- The reciprocal, with some value for that of zero. -/
def rcp (rcpZero value : K) : K :=
  if value = 0 then rcpZero else 1 / value

/-- The next float greater than one. -/
def nextAfter1 : K := 1 + 1 / 2 ^ 23

/-- An iteration of the loop that accumulates the function, on the memory and the sum. -/
def accumulate (start : Nat) (state : (Nat → K) × K) (i : Nat) : (Nat → K) × K :=
  let sum := state.2 + state.1 (start + i)
  (Function.update state.1 (start + i) sum, sum)

/-- The normalized entry. -/
def quotient (rcpZero sum c : K) : K :=
  if c ≥ sum then nextAfter1 else c * rcp rcpZero sum

/-- An iteration of the loop that normalizes. -/
def normalize (rcpZero sum : K) (start : Nat) (cdf : Nat → K) (i : Nat) : Nat → K :=
  Function.update cdf (start + i) (quotient rcpZero sum (cdf (start + i)))

/-- `Distribution1D_create` for the array that starts at an address. -/
def create (rcpZero : K) (size start : Nat) (cdf : Nat → K) : (Nat → K) × K :=
  let accumulated := (List.range' 1 (size - 1)).foldl (accumulate start) (cdf, cdf start)
  ((List.range size).foldl (normalize rcpZero accumulated.2 start) accumulated.1, accumulated.2)

/-- A sample, with an index relative to the start of the array. -/
structure Sample1D (K : Type) where
  idx : Nat
  frac : K
  pdf : K

/-- A round of the search, in the range given by its first index and its length. -/
def search (cdf : Nat → K) (s : K) : Nat × Nat → Pass (Nat × Nat)
  | (first, len) =>
    if 0 < len then
      let half := len / 2
      let mid := first + half
      if s < cdf mid then .again (first, half) else .again (mid + 1, len - (half + 1))
    else .leave (first, len)

/-- What is returned after the search. -/
def sampleAt (rcpZero : K) (size : Nat) (cdf : Nat → K) (start : Nat) (s : K) (first : Nat) : Sample1D K :=
  let bef := if first = start then 0 else cdf (first - 1)
  let dcdf := cdf first - bef
  { idx := first - start
    frac := (s - bef) * rcp rcpZero dcdf
    pdf := dcdf * size }

/-- `Distribution1D_sample`, for at most `fuel` rounds of the search. -/
def sample (fuel : Nat) (rcpZero : K) (size : Nat) (cdf : Nat → K) (start : Nat) (s : K) : Option (Sample1D K) :=
  (loop (search cdf s) fuel (start, size)).map fun range => sampleAt rcpZero size cdf start s range.1

/-- The function returns the sample, for every sufficient number of rounds. -/
def Samples (rcpZero : K) (size : Nat) (cdf : Nat → K) (start : Nat) (s : K) (result : Sample1D K) : Prop :=
  ∃ enough, ∀ fuel, enough ≤ fuel → sample fuel rcpZero size cdf start s = some result

/-- The sum of the first values behind an address. -/
def partialSum (f : Nat → K) (start count : Nat) : K :=
  ∑ i ∈ Finset.range count, f (start + i)

variable {rcpZero : K} {size start : Nat} {f cdf : Nat → K} {s : K}

/-- What accumulating leaves behind: the running sums up to an index, and everything else as it was. -/
structure Accumulated (f : Nat → K) (start last : Nat) (state : (Nat → K) × K) : Prop where
  sum : state.2 = partialSum f start (last + 1)
  running : ∀ i ≤ last, state.1 (start + i) = partialSum f start (i + 1)
  elsewhere : ∀ address, address < start ∨ start + last < address → state.1 address = f address

omit [LinearOrder K] in
theorem Accumulated.next {last : Nat} {state : (Nat → K) × K} (accumulated : Accumulated f start last state) :
    Accumulated f start (last + 1) (accumulate start state (last + 1)) := by
  have fresh : state.1 (start + (last + 1)) = f (start + (last + 1)) :=
    accumulated.elsewhere _ (Or.inr (by omega))
  have grown : (accumulate start state (last + 1)).2 = partialSum f start (last + 1 + 1) := by
    rw [partialSum, Finset.sum_range_succ, ← partialSum, ← accumulated.sum, ← fresh]
    rfl
  refine ⟨grown, fun i upTo => ?_, fun address outside => ?_⟩
  · obtain rfl | before := upTo.eq_or_lt
    · exact (Function.update_self ..).trans grown
    · have apart : start + i ≠ start + (last + 1) := by omega
      exact (Function.update_of_ne apart ..).trans (accumulated.running i (Nat.le_of_lt_succ before))
  · have apart : address ≠ start + (last + 1) := by omega
    exact (Function.update_of_ne apart ..).trans (accumulated.elsewhere address (by omega))

omit [LinearOrder K] in
theorem accumulated (f : Nat → K) (start last : Nat) :
    Accumulated f start last ((List.range' 1 last).foldl (accumulate start) (f, f start)) := by
  induction last with
  | zero =>
    refine ⟨by simp [partialSum], fun i upTo => ?_, fun _ _ => rfl⟩
    obtain rfl := Nat.le_zero.mp upTo
    simp [partialSum]
  | succ last inductionHypothesis =>
    rw [List.range'_concat, List.foldl_append, Nat.one_mul, Nat.add_comm 1 last]
    exact inductionHypothesis.next

theorem foldl_normalize (sum : K) {i : Nat} (inside : i < size) :
    (List.range size).foldl (normalize rcpZero sum start) cdf (start + i) =
      quotient rcpZero sum (cdf (start + i)) := by
  refine Library.Loops.foldl_once (normalize rcpZero sum start) (fun cdf => cdf (start + i)) (fun _ => True)
    (quotient rcpZero sum) i List.nodup_range (List.mem_range.mpr inside) (fun _ _ _ _ => trivial) ?_ ?_ trivial
  · intro cdf index _ other _
    have apart : start + i ≠ start + index := by omega
    exact Function.update_of_ne apart ..
  · intro cdf _
    exact Function.update_self ..

theorem foldl_normalize_elsewhere (sum : K) {address : Nat} (outside : address < start ∨ start + size ≤ address) :
    (List.range size).foldl (normalize rcpZero sum start) cdf address = cdf address := by
  refine Library.Loops.foldl_never (normalize rcpZero sum start) (fun cdf => cdf address) (fun _ => True)
    (List.range size) (fun _ _ _ _ => trivial) ?_ trivial
  intro cdf index inside _
  have apart : address ≠ start + index := by have := List.mem_range.mp inside; omega
  exact Function.update_of_ne apart ..

/-- The entry of the table at an index: the quotient of the running sum. -/
def entry (rcpZero : K) (f : Nat → K) (start size i : Nat) : K :=
  quotient rcpZero (partialSum f start size) (partialSum f start (i + 1))

theorem create_sum (positive : 1 ≤ size) : (create rcpZero size start f).2 = partialSum f start size := by
  have sum := (accumulated f start (size - 1)).sum
  rwa [Nat.sub_add_cancel positive] at sum

theorem create_entry {i : Nat} (inside : i < size) :
    (create rcpZero size start f).1 (start + i) = entry rcpZero f start size i := by
  have running := (accumulated f start (size - 1)).running i (by omega)
  have sum : (create rcpZero size start f).2 = partialSum f start size :=
    create_sum (Nat.lt_of_le_of_lt i.zero_le inside)
  refine (foldl_normalize _ inside).trans ?_
  rw [running]
  exact congrArg (quotient rcpZero · _) sum

theorem create_elsewhere {address : Nat} (positive : 1 ≤ size) (outside : address < start ∨ start + size ≤ address) :
    (create rcpZero size start f).1 address = f address := by
  refine (foldl_normalize_elsewhere _ outside).trans ?_
  exact (accumulated f start (size - 1)).elsewhere address (by omega)

section Ordered

variable [IsStrictOrderedRing K]

/-- The values of the array are not negative. -/
def NonNegative (f : Nat → K) (start size : Nat) : Prop :=
  ∀ i < size, 0 ≤ f (start + i)

theorem partialSum_mono (nonNegative : NonNegative f start size) {first second : Nat} (ordered : first ≤ second)
    (inside : second ≤ size) : partialSum f start first ≤ partialSum f start second := by
  refine Finset.sum_le_sum_of_subset_of_nonneg (Finset.range_subset_range.mpr ordered) fun i upTo _ => ?_
  exact nonNegative i ((Finset.mem_range.mp upTo).trans_le inside)

theorem partialSum_nonneg (nonNegative : NonNegative f start size) {count : Nat} (inside : count ≤ size) :
    0 ≤ partialSum f start count :=
  Finset.sum_nonneg fun i upTo => nonNegative i ((Finset.mem_range.mp upTo).trans_le inside)

theorem one_lt_nextAfter1 : (1 : K) < nextAfter1 :=
  lt_add_of_pos_right 1 (by positivity)

theorem quotient_below {sum c : K} (nonneg : 0 ≤ c) (less : c < sum) :
    quotient rcpZero sum c = c / sum ∧ c / sum < 1 := by
  have positive : 0 < sum := nonneg.trans_lt less
  refine ⟨?_, (div_lt_one positive).mpr less⟩
  rw [quotient, if_neg less.not_ge, rcp, if_neg positive.ne', mul_one_div]

theorem quotient_mono {sum first second : K} (nonneg : 0 ≤ first) (ordered : first ≤ second) :
    quotient rcpZero sum first ≤ quotient rcpZero sum second := by
  obtain reached | less := le_or_gt sum first
  · rw [quotient, if_pos reached, quotient, if_pos (reached.trans ordered)]
  · obtain ⟨true_, small⟩ : quotient rcpZero sum first = first / sum ∧ first / sum < 1 := quotient_below nonneg less
    obtain above | below := le_or_gt sum second
    · rw [true_, quotient, if_pos above]
      exact (small.trans one_lt_nextAfter1).le
    · rw [true_, (quotient_below (nonneg.trans ordered) below).1]
      exact div_le_div_of_nonneg_right ordered (nonneg.trans less.le)

theorem entry_mono (nonNegative : NonNegative f start size) {first second : Nat} (ordered : first ≤ second)
    (inside : second < size) : entry rcpZero f start size first ≤ entry rcpZero f start size second :=
  quotient_mono (partialSum_nonneg nonNegative (by omega))
    (partialSum_mono nonNegative (Nat.succ_le_succ ordered) inside)

omit [IsStrictOrderedRing K] in
theorem entry_last (positive : 1 ≤ size) : entry rcpZero f start size (size - 1) = nextAfter1 := by
  rw [entry, Nat.sub_add_cancel positive, quotient, if_pos le_rfl]

/-- An index without importance has no step of its own, unless it is the first one and nothing has importance. -/
theorem before_eq_entry (nonNegative : NonNegative f start size) {i : Nat} (inside : i < size)
    (unimportant : f (start + i) = 0) (important : ∃ j < size, f (start + j) ≠ 0) :
    before (entry rcpZero f start size) i = entry rcpZero f start size i := by
  have same : partialSum f start (i + 1) = partialSum f start i := by
    rw [partialSum, Finset.sum_range_succ, unimportant, add_zero, partialSum]
  cases i with
  | succ i => exact congrArg (quotient rcpZero _) same.symm
  | zero =>
    obtain ⟨j, within, other⟩ := important
    have positive : 0 < partialSum f start size := by
      refine Finset.sum_pos' (fun i upTo => nonNegative i (Finset.mem_range.mp upTo)) ⟨j, Finset.mem_range.mpr within, ?_⟩
      exact (nonNegative j within).lt_of_ne' other
    have nothing : partialSum f start 1 = 0 := same.trans (Finset.sum_range_zero _)
    rw [entry, nothing, quotient, if_neg positive.not_ge, zero_mul]
    rfl

/-- A table is non-decreasing and ends above one. -/
structure Sorted (size start : Nat) (cdf : Nat → K) : Prop where
  ordered : ∀ first second, first ≤ second → second < size → cdf (start + first) ≤ cdf (start + second)
  last : 1 < cdf (start + (size - 1))

theorem sampleAt_selects {idx : Nat} (selects : Selects (fun i => cdf (start + i)) size s idx) :
    sampleAt rcpZero size cdf start s (start + idx) =
      { idx := idx
        frac := fraction (fun i => cdf (start + i)) idx s
        pdf := (cdf (start + idx) - before (fun i => cdf (start + i)) idx) * size } := by
  have bef : (if start + idx = start then 0 else cdf (start + idx - 1)) = before (fun i => cdf (start + i)) idx := by
    cases idx with
    | zero => exact if_pos rfl
    | succ idx => exact if_neg (by omega)
  have step := selects.step_pos.ne'
  rw [sampleAt, bef, Nat.add_sub_cancel_left, rcp, if_neg step, mul_one_div]
  rfl

/-- In a table that grows past the number the search returns the index at which it does. -/
theorem samples_of_table (sorted : Sorted size start cdf) (positive : 1 ≤ size) (last : s < cdf (start + (size - 1))) (nonneg : 0 ≤ s) :
    ∃ idx, Selects (fun i => cdf (start + i)) size s idx ∧ Samples rcpZero size cdf start s
      { idx := idx
        frac := fraction (fun i => cdf (start + i)) idx s
        pdf := (cdf (start + idx) - before (fun i => cdf (start + i)) idx) * size } := by
  have upward : ∀ first second, start ≤ first → first ≤ second → second < start + size →
      s < cdf first → s < cdf second := by
    intro first second reached upTo within passed
    obtain ⟨from_, rfl⟩ := Nat.exists_eq_add_of_le reached
    obtain ⟨to_, rfl⟩ := Nat.exists_eq_add_of_le (reached.trans upTo)
    exact passed.trans_le (sorted.ordered from_ to_ (Nat.le_of_add_le_add_left upTo) (Nat.lt_of_add_lt_add_left within))
  obtain ⟨found, ⟨enough, runs⟩, reached, _, left, right⟩ :=
    @Library.Bisection.search_returns (fun address => s < cdf address) _ start size upward
  obtain ⟨idx, rfl⟩ := Nat.exists_eq_add_of_le reached
  have inside : idx < size := by
    by_contra outside
    exact left (start + (size - 1)) (Nat.le_add_right _ _) (by omega) last
  have selects : Selects (fun i => cdf (start + i)) size s idx := by
    refine ⟨inside, ?_, right (start + idx) le_rfl (Nat.add_lt_add_left inside start)⟩
    cases idx with
    | zero => exact nonneg
    | succ idx => exact not_lt.mp (left (start + idx) (Nat.le_add_right _ _) (Nat.lt_succ_self _))
  refine ⟨idx, selects, enough, fun fuel more => ?_⟩
  have run : loop (search cdf s) fuel (start, size) = some (start + idx, 0) := runs fuel more
  rw [sample, run, Option.map_some, sampleAt_selects selects]

/-- A sample inverts the table that is created from the values: the entry before its index is at most the random
number, the entry at its index is above. -/
structure Inverts (rcpZero : K) (size start : Nat) (f : Nat → K) (s : K) (cdf : Nat → K) (result : Sample1D K) :
    Prop where
  samples : Samples rcpZero size cdf start s result
  inside : result.idx < size
  reached : result.idx = 0 ∨ cdf (start + result.idx - 1) ≤ s
  below : s < cdf (start + result.idx)
  step : result.pdf =
    (cdf (start + result.idx) - if result.idx = 0 then 0 else cdf (start + result.idx - 1)) * size
  positive : 0 < result.pdf
  fraction : 0 ≤ result.frac ∧ result.frac < 1
  important : f (start + result.idx) = 0 → ∀ i < size, f (start + i) = 0

omit [LinearOrder K] [IsStrictOrderedRing K] in
theorem before_eq (cdf : Nat → K) (start idx : Nat) :
    before (fun i => cdf (start + i)) idx = if idx = 0 then 0 else cdf (start + idx - 1) := by
  cases idx with
  | zero => rfl
  | succ idx => rfl

theorem sorted_of_table (positive : 1 ≤ size) (nonNegative : NonNegative f start size)
    (table : ∀ i < size, cdf (start + i) = entry rcpZero f start size i) : Sorted size start cdf := by
  refine ⟨fun first second upTo inside => ?_, ?_⟩
  · rw [table first (upTo.trans_lt inside), table second inside]
    exact entry_mono nonNegative upTo inside
  · rw [table (size - 1) (by omega), entry_last positive]
    exact one_lt_nextAfter1

/-- Any memory that holds the table of the values is inverted by sampling. -/
theorem inverts_of_table (positive : 1 ≤ size) (nonNegative : NonNegative f start size) (nonneg : 0 ≤ s) (below : s < 1)
    (table : ∀ i < size, cdf (start + i) = entry rcpZero f start size i) :
    ∃ result, Inverts rcpZero size start f s cdf result ∧
      Selects (fun i => cdf (start + i)) size s result.idx ∧
      result.frac = Library.InverseSampling.fraction (fun i => cdf (start + i)) result.idx s := by
  have sorted := sorted_of_table positive nonNegative table
  obtain ⟨idx, selects, samples⟩ := samples_of_table sorted positive (below.trans sorted.last) nonneg
  have step := selects.step_pos
  refine ⟨_, ⟨samples, selects.inside, ?_, selects.below, ?_, ?_, ⟨selects.fraction_nonneg, selects.fraction_lt_one⟩,
    ?_⟩, selects, rfl⟩
  · cases idx with
    | zero => exact Or.inl rfl
    | succ idx => exact Or.inr selects.reached
  · exact congrArg (fun bef => (cdf (start + idx) - bef) * size) (before_eq cdf start idx)
  · exact mul_pos step (Nat.cast_pos.mpr positive)
  · intro unimportant i within
    by_contra other
    have same : before (entry rcpZero f start size) idx = entry rcpZero f start size idx :=
      before_eq_entry nonNegative selects.inside unimportant ⟨i, within, other⟩
    have stays : before (fun i => cdf (start + i)) idx = cdf (start + idx) := by
      rw [table idx selects.inside, ← same]
      cases idx with
      | zero => rfl
      | succ idx => exact table idx ((Nat.lt_succ_self idx).trans selects.inside)
    exact step.ne' (sub_eq_zero.mpr stays.symm)

end Ordered

end Ospray.Distribution1D

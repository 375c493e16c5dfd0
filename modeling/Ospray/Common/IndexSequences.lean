import Mathlib.Algebra.BigOperators.Fin
import Mathlib.Data.Fin.VecNotation
import Ospray.Library.MachineIntegers
import Ospray.Library.MixedRadix

/-!
# Index sequences

The cells of a grid with two or three dimensions have coordinates, which are signed integers of 32
bits, and an index of 64 bits. An iterator goes through the indices and makes coordinates of them.
-/

namespace Ospray.IndexSequences

open Library.MachineIntegers
open Library.MixedRadix

/-- `vec_t`, of `int` or of `size_t`. -/
abbrev Vec (width N : Nat) : Type := Fin N → BitVec width

variable {N : Nat}

/-- The conversion of a `vec_t` of `int` to one of `size_t`. -/
def toSizeT (v : Vec 32 N) : Vec 64 N := fun d => (v d).signExtend 64

/-- The conversion of a `vec_t` of `size_t` to one of `int`. -/
def toInts (v : Vec 64 N) : Vec 32 N := fun d => (v d).setWidth 32

/-- What `multidim_index_sequence` has its own code for in each number of dimensions. -/
class Specialized (N : Nat) where
  flatten (dims : Vec 64 N) (coords : Vec 32 N) : BitVec 64
  reshape (dims : Vec 64 N) (i : BitVec 64) : Vec 32 N
  product (dims : Vec 64 N) : BitVec 64

/-- `index_sequence_2D` -/
instance : Specialized 2 where
  flatten dims coords := (coords 0).signExtend 64 + dims 0 * (coords 1).signExtend 64
  reshape dims i :=
    let y := i / dims 0
    let x := i % dims 0
    ![x.setWidth 32, y.setWidth 32]
  product dims := dims 0 * dims 1

/-- `index_sequence_3D` -/
instance : Specialized 3 where
  flatten dims coords :=
    (coords 0).signExtend 64 + dims 0 * ((coords 1).signExtend 64 + dims 1 * (coords 2).signExtend 64)
  reshape dims i :=
    let z := i / (dims 0 * dims 1)
    let i := i - z * dims 0 * dims 1
    let y := i / dims 0
    let x := i % dims 0
    ![x.setWidth 32, y.setWidth 32, z.setWidth 32]
  product dims := dims 0 * dims 1 * dims 2

/-- `multidim_index_sequence` -/
structure Sequence (N : Nat) where
  dims : Vec 64 N
  deriving DecidableEq

/-- `multidim_index_iterator` -/
structure Iterator (N : Nat) where
  dims : Sequence N
  current_index : BitVec 64
  deriving DecidableEq

namespace Sequence

/-- `multidim_index_sequence(dims)` -/
def new (dims : Vec 32 N) : Sequence N := ⟨toSizeT dims⟩

/-- `dimensions` -/
def dimensions (self : Sequence N) : Vec 32 N := toInts self.dims

end Sequence

/-- `multidim_index_iterator(dims, start)` -/
def Iterator.new (dims : Vec 32 N) (start : BitVec 64) : Iterator N := ⟨Sequence.new dims, start⟩

variable [Specialized N]

namespace Sequence

/-- `flatten` -/
def flatten (self : Sequence N) (coords : Vec 32 N) : BitVec 64 := Specialized.flatten self.dims coords

/-- `reshape` -/
def reshape (self : Sequence N) (i : BitVec 64) : Vec 32 N := Specialized.reshape self.dims i

/-- `total_indices` -/
def total_indices (self : Sequence N) : BitVec 64 := Specialized.product self.dims

/-- `begin` -/
def first (self : Sequence N) : Iterator N := Iterator.new (toInts self.dims) 0

/-- `end` -/
def last (self : Sequence N) : Iterator N := Iterator.new (toInts self.dims) self.total_indices

end Sequence

namespace Iterator

/-- `operator*` -/
def value (self : Iterator N) : Vec 32 N := self.dims.reshape self.current_index

omit [Specialized N] in
/-- The prefix `operator++`: the iterator, and the copy that is returned. -/
def increment (self : Iterator N) : Iterator N × Iterator N :=
  ({ self with current_index := self.current_index + 1 }, Iterator.new self.dims.dimensions (self.current_index + 1))

omit [Specialized N] in
/-- The prefix `operator--` -/
def decrement (self : Iterator N) : Iterator N × Iterator N :=
  ({ self with current_index := self.current_index - 1 }, Iterator.new self.dims.dimensions (self.current_index - 1))

omit [Specialized N] in
/-- `operator==` -/
def equals (self other : Iterator N) : Bool :=
  decide (self.dims.dimensions = other.dims.dimensions) && decide (self.current_index = other.current_index)

/-- The coordinates that a loop from one iterator to another one visits, if it ends. -/
def visit (last : Iterator N) : Nat → Iterator N → Option (List (Vec 32 N))
  | 0, _ => none
  | fuel + 1, self =>
    if self.equals last then some []
    else (visit last fuel self.increment.1).map (self.value :: ·)

end Iterator

/-! ## What is expected -/

omit [Specialized N] in
/-- The coordinates are within the dimensions. -/
def InRange (dims coords : Vec 32 N) : Prop := ∀ d, 0 ≤ (coords d).toInt ∧ (coords d).toInt < (dims d).toInt

/-- The indices and the coordinates within the dimensions belong together one by one, and a loop goes
through them in order. -/
structure Bijection (dims : Vec 32 N) : Prop where
  total : ((Sequence.new dims).total_indices.toNat : Int) = ∏ d, (dims d).toInt
  flatten_lt : ∀ coords, InRange dims coords →
    ((Sequence.new dims).flatten coords).toNat < (Sequence.new dims).total_indices.toNat
  reshape_flatten : ∀ coords, InRange dims coords →
    (Sequence.new dims).reshape ((Sequence.new dims).flatten coords) = coords
  inRange_reshape : ∀ i : BitVec 64, i.toNat < (Sequence.new dims).total_indices.toNat →
    InRange dims ((Sequence.new dims).reshape i)
  flatten_reshape : ∀ i : BitVec 64, i.toNat < (Sequence.new dims).total_indices.toNat →
    (Sequence.new dims).flatten ((Sequence.new dims).reshape i) = i
  copies : ∀ i, (Iterator.new dims i).increment.2 = (Iterator.new dims i).increment.1
  visits : ∀ fuel, (Sequence.new dims).total_indices.toNat < fuel → ∃ visited,
    Iterator.visit (Sequence.new dims).last fuel (Sequence.new dims).first = some visited ∧
      visited.Nodup ∧ (∀ coords, coords ∈ visited ↔ InRange dims coords) ∧
      (visited.map fun coords => ((Sequence.new dims).flatten coords).toNat) =
        List.range (Sequence.new dims).total_indices.toNat

/-! ## Numbers -/

/-- The components without their signs. -/
def numbers {width : Nat} (v : Vec width N) : List Nat := List.ofFn fun d => (v d).toNat

variable {dims coords : Vec 32 N} {i : BitVec 64}

section Conversions

omit [Specialized N]

theorem numbers_injective {width : Nat} {v w : Vec width N} (same : numbers v = numbers w) : v = w := by
  have components := List.ofFn_injective same
  funext d
  exact BitVec.eq_of_toNat_eq (congrFun components d)

theorem toInts_toSizeT (dims : Vec 32 N) : toInts (toSizeT dims) = dims := by
  funext d
  exact setWidth_signExtend (by decide) (dims d)

theorem inRange_iff (positive : ∀ d, 1 ≤ (dims d).toInt) :
    InRange dims coords ↔ Within (numbers coords) (numbers dims) := by
  rw [Within, numbers, numbers, forall₂_ofFn]
  apply forall_congr'
  intro d
  have least := positive d
  have dim := toNat_of_nonneg (Int.le_trans Int.one_nonneg least)
  constructor
  · rintro ⟨nonnegative, less⟩
    have coord := toNat_of_nonneg nonnegative
    omega
  · intro less
    have range : (dims d).toInt < 2 ^ 31 := BitVec.toInt_lt
    have coord : (coords d).toInt = (coords d).toNat := by
      rw [BitVec.toInt_eq_toNat_cond]
      exact if_pos (by omega)
    omega

end Conversions

/-- What the code for a number of dimensions computes, in numbers. -/
structure Lawful (dims : Vec 32 N) : Prop where
  total : (Sequence.new dims).total_indices.toNat = (numbers dims).prod
  flatten : ∀ coords, InRange dims coords →
    ((Sequence.new dims).flatten coords).toNat = Library.MixedRadix.flatten (numbers dims) (numbers coords)
  reshape : ∀ i : BitVec 64, i.toNat < (numbers dims).prod →
    numbers ((Sequence.new dims).reshape i) = Library.MixedRadix.reshape (numbers dims) i.toNat

/-! ## Loops -/

theorem last_eq (dims : Vec 32 N) :
    (Sequence.new dims).last = ⟨Sequence.new dims, (Sequence.new dims).total_indices⟩ := by
  simp only [Sequence.last, Iterator.new, Sequence.new, toInts_toSizeT]

omit [Specialized N] in
theorem first_eq (dims : Vec 32 N) : (Sequence.new dims).first = ⟨Sequence.new dims, 0⟩ := by
  simp only [Sequence.first, Iterator.new, Sequence.new, toInts_toSizeT]

/-- An iterator that has not reached the end visits the indices from its own on. The induction is on
their number. -/
theorem visit_eq {count fuel : Nat} (rest : i.toNat + count = (Sequence.new dims).total_indices.toNat)
    (enough : count < fuel) :
    Iterator.visit (Sequence.new dims).last fuel ⟨Sequence.new dims, i⟩ =
      some ((List.range' i.toNat count).map fun j => (Sequence.new dims).reshape (BitVec.ofNat 64 j)) := by
  induction count generalizing i fuel with
  | zero =>
    obtain ⟨fuel, rfl⟩ := Nat.exists_eq_add_one.mpr enough
    have reached : i = (Sequence.new dims).total_indices := BitVec.eq_of_toNat_eq rest
    rw [Iterator.visit, last_eq, Iterator.equals, reached, decide_eq_true rfl, decide_eq_true rfl]
    rfl
  | succ count inductionHypothesis =>
    obtain ⟨fuel, rfl⟩ := Nat.exists_eq_add_one.mpr (Nat.zero_lt_of_lt enough)
    have bound := (Sequence.new dims).total_indices.isLt
    have next : (i + 1).toNat = i.toNat + 1 := by
      rw [BitVec.toNat_add]
      exact Nat.mod_eq_of_lt (by change i.toNat + 1 < 2 ^ 64; omega)
    have ahead : i ≠ (Sequence.new dims).total_indices := by
      rintro rfl
      omega
    have onwards := @inductionHypothesis (i + 1) fuel (by omega) (by omega)
    rw [Iterator.visit, if_neg, Iterator.increment]
    · dsimp only
      rw [onwards, List.range'_succ, List.map_cons, next, Iterator.value, BitVec.ofNat_toNat, BitVec.setWidth_eq]
      rfl
    · simp [Iterator.equals, last_eq, ahead]

/-- The laws make a bijection. -/
theorem bijection_of_lawful (positive : ∀ d, 1 ≤ (dims d).toInt) (lawful : Lawful dims) : Bijection dims := by
  have total := lawful.total
  have inRange_reshape (i : BitVec 64) (below : i.toNat < (Sequence.new dims).total_indices.toNat) :
      InRange dims ((Sequence.new dims).reshape i) := by
    rw [total] at below
    rw [inRange_iff positive, lawful.reshape i below]
    exact within_reshape below
  have flatten_reshape (i : BitVec 64) (below : i.toNat < (Sequence.new dims).total_indices.toNat) :
      (Sequence.new dims).flatten ((Sequence.new dims).reshape i) = i := by
    have inside := inRange_reshape i below
    rw [total] at below
    apply BitVec.eq_of_toNat_eq
    rw [lawful.flatten _ inside, lawful.reshape i below, Library.MixedRadix.flatten_reshape below]
  have flatten_lt (coords : Vec 32 N) (inside : InRange dims coords) :
      ((Sequence.new dims).flatten coords).toNat < (Sequence.new dims).total_indices.toNat := by
    rw [total, lawful.flatten coords inside]
    exact Library.MixedRadix.flatten_lt ((inRange_iff positive).mp inside)
  have reshape_flatten (coords : Vec 32 N) (inside : InRange dims coords) :
      (Sequence.new dims).reshape ((Sequence.new dims).flatten coords) = coords := by
    have below := flatten_lt coords inside
    rw [total] at below
    apply numbers_injective
    rw [lawful.reshape _ below, lawful.flatten coords inside,
      Library.MixedRadix.reshape_flatten ((inRange_iff positive).mp inside)]
  refine ⟨?_, flatten_lt, reshape_flatten, inRange_reshape, flatten_reshape, ?_, ?_⟩
  · rw [total, numbers, List.prod_ofFn, Nat.cast_prod]
    exact Finset.prod_congr rfl fun d _ => toNat_of_nonneg (Int.le_trans Int.one_nonneg (positive d))
  · intro i
    simp only [Iterator.increment, Iterator.new, Sequence.dimensions, Sequence.new, toInts_toSizeT]
  · intro fuel enough
    let visited := (List.range (Sequence.new dims).total_indices.toNat).map fun j =>
      (Sequence.new dims).reshape (BitVec.ofNat 64 j)
    have small (j : Nat) (below : j < (Sequence.new dims).total_indices.toNat) : (BitVec.ofNat 64 j).toNat = j := by
      rw [BitVec.toNat_ofNat]
      exact Nat.mod_eq_of_lt (below.trans (Sequence.new dims).total_indices.isLt)
    have order : (visited.map fun coords => ((Sequence.new dims).flatten coords).toNat) =
        List.range (Sequence.new dims).total_indices.toNat := by
      rw [List.map_map]
      apply (List.map_congr_left _).trans (List.map_id _)
      intro j member
      have below := small j (List.mem_range.mp member)
      rw [Function.comp_apply, flatten_reshape _ (by rw [below]; exact List.mem_range.mp member), below]
      rfl
    refine ⟨visited, ?_, ?_, ?_, order⟩
    · have run := @visit_eq N _ dims 0 (Sequence.new dims).total_indices.toNat fuel (Nat.zero_add _) enough
      have zero : (0 : BitVec 64).toNat = 0 := rfl
      rw [first_eq, run, zero, ← List.range_eq_range']
    · apply List.Nodup.of_map fun coords => ((Sequence.new dims).flatten coords).toNat
      rw [order]
      exact List.nodup_range
    · intro coords
      rw [List.mem_map]
      constructor
      · rintro ⟨j, member, rfl⟩
        have below := List.mem_range.mp member
        exact inRange_reshape _ (by rwa [small j below])
      · intro inside
        refine ⟨((Sequence.new dims).flatten coords).toNat, List.mem_range.mpr (flatten_lt coords inside), ?_⟩
        rw [BitVec.ofNat_toNat, BitVec.setWidth_eq, reshape_flatten coords inside]

/-! ## Two and three dimensions -/

section Dimensions

omit [Specialized N]

variable (positive : ∀ d, 1 ≤ (dims d).toInt) (d : Fin N)

include positive

theorem toNat_dim : ((dims d).toNat : Int) = (dims d).toInt :=
  toNat_of_nonneg (Int.le_trans Int.one_nonneg (positive d))

theorem toNat_dim_pos : 0 < (dims d).toNat := by
  have whole := toNat_dim positive d
  have least := positive d
  omega

theorem toNat_dim_le : (dims d).toNat ≤ 2 ^ 31 := by
  have whole := toNat_dim positive d
  have upper : (dims d).toInt < 2 ^ 31 := BitVec.toInt_lt
  omega

theorem toNat_toSizeT : (toSizeT dims d).toNat = (dims d).toNat :=
  toNat_signExtend (by decide) (Int.le_trans Int.one_nonneg (positive d))

theorem dims_mul_lt (e : Fin N) : (dims d).toNat * (dims e).toNat < 2 ^ 64 := by
  calc (dims d).toNat * (dims e).toNat ≤ 2 ^ 31 * 2 ^ 31 :=
        Nat.mul_le_mul (toNat_dim_le positive d) (toNat_dim_le positive e)
    _ < 2 ^ 64 := by decide

end Dimensions

omit [Specialized N] in
theorem toNat_setWidth_of_lt {number : BitVec 64} {digit : Nat} {dim : BitVec 32} (value : number.toNat = digit)
    (below : digit < dim.toNat) : (number.setWidth 32).toNat = digit := by
  rw [BitVec.toNat_setWidth, value]
  exact Nat.mod_eq_of_lt (below.trans dim.isLt)

/-- The code for two dimensions. -/
theorem lawful_two {dims : Vec 32 2} (positive : ∀ d, 1 ≤ (dims d).toInt) : Lawful dims := by
  have dim := toNat_toSizeT positive
  have small := dims_mul_lt positive 0 1
  have product : (numbers dims).prod = (dims 0).toNat * (dims 1).toNat := by
    simp [numbers, List.ofFn_succ]
  constructor
  · change (toSizeT dims 0 * toSizeT dims 1).toNat = _
    rw [product, BitVec.toNat_mul, dim, dim, Nat.mod_eq_of_lt small]
  · intro coords inside
    have below := Library.MixedRadix.flatten_lt ((inRange_iff positive).mp inside)
    have place : Library.MixedRadix.flatten (numbers dims) (numbers coords) =
        (coords 0).toNat + (dims 0).toNat * (coords 1).toNat := by
      simp [numbers, List.ofFn_succ, Library.MixedRadix.flatten]
    rw [product, place] at below
    change ((coords 0).signExtend 64 + toSizeT dims 0 * (coords 1).signExtend 64).toNat = _
    rw [place, BitVec.toNat_add, BitVec.toNat_mul, dim, toNat_signExtend (by decide) (inside 0).1,
      toNat_signExtend (by decide) (inside 1).1, Nat.add_mod_mod, Nat.mod_eq_of_lt (below.trans small)]
  · intro i below
    rw [product] at below
    have quotient : (i / toSizeT dims 0).toNat = i.toNat / (dims 0).toNat := by rw [BitVec.toNat_udiv, dim]
    have remainder : (i % toSizeT dims 0).toNat = i.toNat % (dims 0).toNat := by rw [BitVec.toNat_umod, dim]
    have column : i.toNat % (dims 0).toNat < (dims 0).toNat := Nat.mod_lt _ (toNat_dim_pos positive 0)
    have row : i.toNat / (dims 0).toNat < (dims 1).toNat := Nat.div_lt_of_lt_mul below
    have digits : numbers ((Sequence.new dims).reshape i) =
        [((i % toSizeT dims 0).setWidth 32).toNat, ((i / toSizeT dims 0).setWidth 32).toNat] := rfl
    rw [digits, toNat_setWidth_of_lt remainder column, toNat_setWidth_of_lt quotient row]
    simp [numbers, List.ofFn_succ, Library.MixedRadix.reshape, Nat.mod_eq_of_lt row]

/-- The code for three dimensions, where their product has 64 bits. -/
theorem lawful_three {dims : Vec 32 3} (positive : ∀ d, 1 ≤ (dims d).toInt)
    (small : (dims 0).toNat * (dims 1).toNat * (dims 2).toNat < 2 ^ 64) : Lawful dims := by
  have dim := toNat_toSizeT positive
  have slice : (toSizeT dims 0 * toSizeT dims 1).toNat = (dims 0).toNat * (dims 1).toNat := by
    rw [BitVec.toNat_mul, dim, dim, Nat.mod_eq_of_lt (dims_mul_lt positive 0 1)]
  have product : (numbers dims).prod = (dims 0).toNat * (dims 1).toNat * (dims 2).toNat := by
    simp [numbers, List.ofFn_succ, Nat.mul_assoc]
  constructor
  · change (toSizeT dims 0 * toSizeT dims 1 * toSizeT dims 2).toNat = _
    rw [product, BitVec.toNat_mul, slice, dim, Nat.mod_eq_of_lt small]
  · intro coords inside
    have below := Library.MixedRadix.flatten_lt ((inRange_iff positive).mp inside)
    have place : Library.MixedRadix.flatten (numbers dims) (numbers coords) =
        (coords 0).toNat + (dims 0).toNat * ((coords 1).toNat + (dims 1).toNat * (coords 2).toNat) := by
      simp [numbers, List.ofFn_succ, Library.MixedRadix.flatten]
    rw [product, place] at below
    have rows : ((coords 1).signExtend 64 + toSizeT dims 1 * (coords 2).signExtend 64).toNat =
        (coords 1).toNat + (dims 1).toNat * (coords 2).toNat := by
      have part : (coords 1).toNat + (dims 1).toNat * (coords 2).toNat ≤
          (dims 0).toNat * ((coords 1).toNat + (dims 1).toNat * (coords 2).toNat) :=
        Nat.le_mul_of_pos_left _ (toNat_dim_pos positive 0)
      rw [BitVec.toNat_add, BitVec.toNat_mul, dim, toNat_signExtend (by decide) (inside 1).1,
        toNat_signExtend (by decide) (inside 2).1, Nat.add_mod_mod, Nat.mod_eq_of_lt (by omega)]
    change ((coords 0).signExtend 64 + toSizeT dims 0 *
      ((coords 1).signExtend 64 + toSizeT dims 1 * (coords 2).signExtend 64)).toNat = _
    rw [place, BitVec.toNat_add, BitVec.toNat_mul, dim, rows, toNat_signExtend (by decide) (inside 0).1,
      Nat.add_mod_mod, Nat.mod_eq_of_lt (below.trans small)]
  · intro i below
    rw [product] at below
    let z := i / (toSizeT dims 0 * toSizeT dims 1)
    let rest := i - z * toSizeT dims 0 * toSizeT dims 1
    have layer : z.toNat = i.toNat / ((dims 0).toNat * (dims 1).toNat) := by rw [BitVec.toNat_udiv, slice]
    have before : (z * toSizeT dims 0 * toSizeT dims 1).toNat =
        (dims 0).toNat * (dims 1).toNat * (i.toNat / ((dims 0).toNat * (dims 1).toNat)) := by
      have whole := Nat.mul_div_le i.toNat ((dims 0).toNat * (dims 1).toNat)
      rw [BitVec.mul_assoc, BitVec.toNat_mul, slice, layer, Nat.mul_comm, Nat.mod_eq_of_lt (whole.trans_lt i.isLt)]
    have remaining : rest.toNat = i.toNat % ((dims 0).toNat * (dims 1).toNat) := by
      have whole := Nat.mul_div_le i.toNat ((dims 0).toNat * (dims 1).toNat)
      rw [BitVec.toNat_sub_of_le (by rw [BitVec.le_def, before]; exact whole), before, Nat.mod_eq_sub]
    have quotient : (rest / toSizeT dims 0).toNat = i.toNat / (dims 0).toNat % (dims 1).toNat := by
      rw [BitVec.toNat_udiv, remaining, dim, Nat.mod_mul_right_div_self]
    have remainder : (rest % toSizeT dims 0).toNat = i.toNat % (dims 0).toNat := by
      rw [BitVec.toNat_umod, remaining, dim, Nat.mod_mul_right_mod]
    have column : i.toNat % (dims 0).toNat < (dims 0).toNat := Nat.mod_lt _ (toNat_dim_pos positive 0)
    have row : i.toNat / (dims 0).toNat % (dims 1).toNat < (dims 1).toNat := Nat.mod_lt _ (toNat_dim_pos positive 1)
    have level : i.toNat / ((dims 0).toNat * (dims 1).toNat) < (dims 2).toNat := Nat.div_lt_of_lt_mul below
    have digits : numbers ((Sequence.new dims).reshape i) =
        [((rest % toSizeT dims 0).setWidth 32).toNat, ((rest / toSizeT dims 0).setWidth 32).toNat,
          (z.setWidth 32).toNat] := rfl
    rw [digits, toNat_setWidth_of_lt remainder column, toNat_setWidth_of_lt quotient row,
      toNat_setWidth_of_lt layer level]
    simp [numbers, List.ofFn_succ, Library.MixedRadix.reshape, Nat.div_div_eq_div_mul, Nat.mod_eq_of_lt level]

/-- Index sequences of two and of three dimensions are bijections, and loops over them end. -/
theorem bijections :
    (∀ dims : Vec 32 2, (∀ d, 1 ≤ (dims d).toInt) → ∏ d, (dims d).toInt < 2 ^ 64 → Bijection dims) ∧
      ∀ dims : Vec 32 3, (∀ d, 1 ≤ (dims d).toInt) → ∏ d, (dims d).toInt < 2 ^ 64 → Bijection dims := by
  constructor
  · intro dims positive _
    exact bijection_of_lawful positive (lawful_two positive)
  · intro dims positive product
    apply bijection_of_lawful positive
    apply lawful_three positive
    rw [Fin.prod_univ_three, ← toNat_dim positive, ← toNat_dim positive, ← toNat_dim positive] at product
    exact_mod_cast product

/-- A grid of three by two, and one of three by two by four. -/
theorem bijections_small : Bijection (![3, 2] : Vec 32 2) ∧ Bijection (![3, 2, 4] : Vec 32 3) := by
  constructor
  · exact bijections.1 ![3, 2] (by decide) (by rw [Fin.prod_univ_two]; decide)
  · exact bijections.2 ![3, 2, 4] (by decide) (by rw [Fin.prod_univ_three]; decide)

end Ospray.IndexSequences

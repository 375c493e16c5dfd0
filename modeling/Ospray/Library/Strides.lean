import Mathlib.Data.List.Nodup
import Mathlib.Data.Nat.ModEq
import Mathlib.Tactic.Common
import Ospray.Library.Literals

/-!
# Loops with strides

A loop counter that goes on by a stride takes every value of a residue. A range is covered by
lanes in two ways: each lane has a counter of its own, or a common counter goes through chunks of
as many values as there are lanes.
-/

namespace Library.Strides

/-- The values of a loop counter that starts at `first` and goes on by `stride` below `stop`. -/
def steps (first stop stride : Nat) : List Nat :=
  List.range' first ((stop - first + stride - 1) / stride) stride

/-- The values of the counters, lane by lane. -/
def interleaved (first stop lanes : Nat) : List Nat :=
  (List.range lanes).flatMap fun lane => steps (first + lane) stop lanes

/-- The values that the lanes add up from a common counter. -/
def chunked (first stop lanes : Nat) : List Nat :=
  (steps first stop lanes).flatMap fun counter => (List.range lanes).map fun lane => counter + lane

variable {first stop stride lanes value : Nat}

theorem mem_steps (positive : 0 < stride) :
    value ∈ steps first stop stride ↔ value < stop ∧ ∃ count, value = first + stride * count := by
  have within : ∀ count, count < (stop - first + stride - 1) / stride ↔ first + stride * count < stop := by
    intro count
    rw [Nat.lt_iff_add_one_le, Nat.le_div_iff_mul_le positive, Nat.add_one_mul, Nat.mul_comm count]
    omega
  rw [steps, List.mem_range']
  constructor
  · rintro ⟨count, less, rfl⟩
    exact ⟨(within count).mp less, count, rfl⟩
  · rintro ⟨inside, count, rfl⟩
    exact ⟨count, (within count).mpr inside, rfl⟩

theorem steps_nodup (positive : 0 < stride) : (steps first stop stride).Nodup :=
  List.nodup_range' _ positive

theorem mem_interleaved (positive : 0 < lanes) :
    value ∈ interleaved first stop lanes ↔ first ≤ value ∧ value < stop := by
  simp only [interleaved, List.mem_flatMap, List.mem_range, mem_steps positive]
  constructor
  · rintro ⟨lane, _, inside, count, rfl⟩
    exact ⟨by omega, inside⟩
  · rintro ⟨reached, inside⟩
    refine ⟨(value - first) % lanes, Nat.mod_lt _ positive, inside, (value - first) / lanes, ?_⟩
    have split := Nat.mod_add_div (value - first) lanes
    omega

theorem interleaved_nodup (positive : 0 < lanes) : (interleaved first stop lanes).Nodup := by
  refine List.nodup_flatMap.mpr ⟨fun lane _ => steps_nodup positive, ?_⟩
  refine List.nodup_range.imp_of_mem fun {lane other} inside inside' apart => ?_
  intro value here there
  obtain ⟨-, count, rfl⟩ := (mem_steps positive).mp here
  obtain ⟨-, count', same⟩ := (mem_steps positive).mp there
  have residues : (lane + lanes * count) % lanes = (other + lanes * count') % lanes := by
    congr 1
    omega
  rw [Nat.add_mul_mod_self_left, Nat.add_mul_mod_self_left, Nat.mod_eq_of_lt (List.mem_range.mp inside),
    Nat.mod_eq_of_lt (List.mem_range.mp inside')] at residues
  exact apart residues

theorem mem_chunked (positive : 0 < lanes) (whole : lanes ∣ stop - first) :
    value ∈ chunked first stop lanes ↔ first ≤ value ∧ value < stop := by
  simp only [chunked, List.mem_flatMap, List.mem_map, List.mem_range, mem_steps positive]
  constructor
  · rintro ⟨counter, ⟨inside, count, rfl⟩, lane, low, rfl⟩
    obtain ⟨chunks, range⟩ := whole
    have before : count < chunks := by
      refine Nat.lt_of_mul_lt_mul_left (a := lanes) ?_
      omega
    have fits : lanes * (count + 1) ≤ lanes * chunks := Nat.mul_le_mul_left lanes before
    rw [Nat.mul_succ] at fits
    omega
  · rintro ⟨reached, inside⟩
    have split := Nat.mod_add_div (value - first) lanes
    have low := Nat.mod_lt (value - first) positive
    exact ⟨first + lanes * ((value - first) / lanes), ⟨by omega, _, rfl⟩, (value - first) % lanes, low, by omega⟩

theorem chunked_nodup (positive : 0 < lanes) : (chunked first stop lanes).Nodup := by
  refine List.nodup_flatMap.mpr ⟨fun counter _ => ?_, ?_⟩
  · exact List.nodup_range.map (fun _ _ same => Nat.add_left_cancel same)
  refine (steps_nodup positive).imp_of_mem fun {counter other} inside inside' apart => ?_
  intro value here there
  obtain ⟨-, count, rfl⟩ := (mem_steps positive).mp inside
  obtain ⟨-, count', rfl⟩ := (mem_steps positive).mp inside'
  obtain ⟨lane, low, rfl⟩ := List.mem_map.mp here
  obtain ⟨lane', low', same⟩ := List.mem_map.mp there
  have quotients : (lane + lanes * count) / lanes = (lane' + lanes * count') / lanes := by
    congr 1
    omega
  rw [Nat.add_mul_div_left _ _ positive, Nat.add_mul_div_left _ _ positive, Nat.div_eq_of_lt (List.mem_range.mp low),
    Nat.div_eq_of_lt (List.mem_range.mp low')] at quotients
  exact apart (by rw [show count = count' by omega])

/-- Blocks of one length, taken in any order, cover the range up to the last of them. -/
theorem flatMap_blocks {blocks length : Nat} {order : List Nat} {values : Nat → List Nat}
    (any : order.Perm (List.range blocks)) (positive : 0 < length) (distinct : ∀ block, (values block).Nodup)
    (block_ : ∀ block < blocks, ∀ value, value ∈ values block ↔ block * length ≤ value ∧ value < block * length + length) :
    (order.flatMap values).Nodup ∧ ∀ value, value ∈ order.flatMap values ↔ value < blocks * length := by
  have inside : ∀ block ∈ order, block < blocks := fun block member => List.mem_range.mp (any.mem_iff.mp member)
  refine ⟨List.nodup_flatMap.mpr ⟨fun block _ => distinct block, ?_⟩, fun value => ?_⟩
  · refine (any.nodup_iff.mpr List.nodup_range).imp_of_mem fun {block other} member member' apart => ?_
    intro value here there
    obtain ⟨low, high⟩ := (block_ block (inside block member) value).mp here
    obtain ⟨low', high'⟩ := (block_ other (inside other member') value).mp there
    have same : value / length = block := (Nat.div_eq_iff positive).mpr ⟨low, by omega⟩
    have same' : value / length = other := (Nat.div_eq_iff positive).mpr ⟨low', by omega⟩
    exact apart (same.symm.trans same')
  · rw [List.mem_flatMap]
    constructor
    · rintro ⟨block, member, contains⟩
      obtain ⟨-, high⟩ := (block_ block (inside block member) value).mp contains
      exact high.trans_le ((Nat.succ_mul block length).symm.trans_le (Nat.mul_le_mul_right length (inside block member)))
    · intro less
      have quotient : value / length < blocks := (Nat.div_lt_iff_lt_mul positive).mpr less
      have split := Nat.div_add_mod' value length
      have rest := Nat.mod_lt value positive
      exact ⟨value / length, any.mem_iff.mpr (List.mem_range.mpr quotient),
        (block_ _ quotient value).mpr ⟨by omega, by omega⟩⟩

end Library.Strides

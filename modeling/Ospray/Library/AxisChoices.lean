import Mathlib.Data.Fintype.Pi
import Mathlib.Data.Fintype.Sum
import Mathlib.Data.Fintype.BigOperators
import Mathlib.Order.Interval.Finset.Nat
import Ospray.Library.Literals

/-!
# Choices of a side along each axis

For each axis there are two sides, and flags say which of them are open. A selection takes
an open side along each axis; there is one exactly when no axis has lost both sides. When
the sides of one axis are divided, the selections are. The weight of the flags, one more
than the number of axes with both sides open, goes down with each side that is lost.
-/

namespace Library.AxisChoices

universe u
variable {ι : Type u}

/-- Which sides are open along the axes. -/
abbrev Flags (ι : Type u) := ι → Bool → Bool

/-- An axis with an open side. -/
def Flags.open_ (flags : Flags ι) (axis : ι) : Bool := flags axis false || flags axis true

/-- An axis with both sides open. -/
def Flags.both (flags : Flags ι) (axis : ι) : Bool := flags axis false && flags axis true

/-- Both sides are open everywhere. -/
def Flags.all : Flags ι := fun _ _ => true

/-- Along one axis, only some of the sides are left open. -/
def Flags.narrow [DecidableEq ι] (flags : Flags ι) (axis : ι) (keep : Bool → Bool) : Flags ι :=
  Function.update flags axis fun side => flags axis side && keep side

variable {flags : Flags ι} {axis : ι} {keep other : Bool → Bool} {side : ι → Bool}

section Axes

variable [DecidableEq ι]

/-- The flags of an axis that is narrowed, -/
theorem Flags.narrow_self (side : Bool) : flags.narrow axis keep axis side = (flags axis side && keep side) := by
  rw [narrow, Function.update_self]

/-- and those of the others. -/
theorem Flags.narrow_of_ne {along : ι} (differs : along ≠ axis) : flags.narrow axis keep along = flags along := by
  rw [narrow, Function.update_of_ne differs]

theorem Flags.of_narrow {along : ι} {side : Bool} (opened : flags.narrow axis keep along side = true) :
    flags along side = true := by
  by_cases same : along = axis
  · subst same
    rw [narrow_self, Bool.and_eq_true] at opened
    exact opened.1
  · rwa [narrow_of_ne same] at opened

theorem Flags.both_of_narrow {along : ι} (opened : (flags.narrow axis keep).both along = true) :
    flags.both along = true := by
  rw [both, Bool.and_eq_true] at opened ⊢
  exact ⟨of_narrow opened.1, of_narrow opened.2⟩

end Axes

variable [Fintype ι]

/-- Every axis has an open side. -/
def Flags.live (flags : Flags ι) : Bool := decide (∀ axis, flags.open_ axis = true)

/-- The selections of open sides. -/
def Flags.selections [DecidableEq ι] (flags : Flags ι) : Finset (ι → Bool) :=
  Finset.univ.filter fun side => ∀ axis, flags axis (side axis) = true

/-- One more than the number of axes with both sides open, or nothing if an axis has none. -/
def Flags.weight (flags : Flags ι) : Nat :=
  if flags.live then (Finset.univ.filter fun axis => flags.both axis = true).card + 1 else 0

theorem Flags.live_iff : flags.live = true ↔ ∀ axis, ∃ side, flags axis side = true := by
  rw [Flags.live, decide_eq_true_eq]
  apply forall_congr'
  intro axis
  rw [Flags.open_, Bool.or_eq_true, Bool.exists_bool]

@[simp] theorem Flags.live_all : (Flags.all : Flags ι).live = true :=
  live_iff.mpr fun _ => ⟨true, rfl⟩

theorem Flags.weight_le (flags : Flags ι) : flags.weight ≤ Fintype.card ι + 1 := by
  rw [weight]
  split
  · exact Nat.succ_le_succ (Finset.card_le_univ _)
  · exact Nat.zero_le _

theorem Flags.weight_pos : 0 < flags.weight ↔ flags.live = true := by
  rw [weight]
  split <;> simp [*]

variable [DecidableEq ι]

theorem Flags.mem_selections : side ∈ flags.selections ↔ ∀ axis, flags axis (side axis) = true := by
  rw [selections, Finset.mem_filter]
  exact and_iff_right (Finset.mem_univ _)

theorem Flags.selections_nonempty : flags.selections.Nonempty ↔ flags.live = true := by
  rw [live_iff]
  constructor
  · rintro ⟨side, member⟩ axis
    exact ⟨side axis, mem_selections.mp member axis⟩
  · intro live
    choose side opened using live
    exact ⟨side, mem_selections.mpr opened⟩

theorem Flags.card_selections_le (flags : Flags ι) : flags.selections.card ≤ 2 ^ Fintype.card ι := by
  apply (Finset.card_le_univ _).trans_eq
  rw [Fintype.card_fun, Fintype.card_bool]

theorem Flags.mem_selections_narrow :
    side ∈ (flags.narrow axis keep).selections ↔ side ∈ flags.selections ∧ keep (side axis) = true := by
  rw [mem_selections, mem_selections]
  constructor
  · intro opened
    have own := opened axis
    rw [narrow_self, Bool.and_eq_true] at own
    exact ⟨fun along => of_narrow (opened along), own.2⟩
  · rintro ⟨opened, kept⟩ along
    by_cases same : along = axis
    · subst same
      rw [narrow_self, opened, kept]
      rfl
    · rw [narrow_of_ne same]
      exact opened along

theorem Flags.card_narrow_add (exclusive : ∀ side, ¬(keep side = true ∧ other side = true)) :
    (flags.narrow axis keep).selections.card + (flags.narrow axis other).selections.card ≤
      flags.selections.card := by
  rw [← Finset.card_union_of_disjoint]
  · apply Finset.card_le_card
    intro side member
    obtain first | second := Finset.mem_union.mp member
    · exact (mem_selections_narrow.mp first).1
    · exact (mem_selections_narrow.mp second).1
  · rw [Finset.disjoint_left]
    intro side first second
    exact exclusive _ ⟨(mem_selections_narrow.mp first).2, (mem_selections_narrow.mp second).2⟩

/-- Every axis keeps an open side if the one that is narrowed does. -/
theorem Flags.live_narrow : (flags.narrow axis keep).live = true ↔
    flags.live = true ∧ ∃ side, flags axis side = true ∧ keep side = true := by
  rw [live_iff, live_iff]
  constructor
  · intro live
    refine ⟨fun along => (live along).imp fun side opened => of_narrow opened, ?_⟩
    obtain ⟨side, opened⟩ := live axis
    rw [narrow_self, Bool.and_eq_true] at opened
    exact ⟨side, opened⟩
  · rintro ⟨live, side, opened, kept⟩ along
    by_cases same : along = axis
    · subst same
      refine ⟨side, ?_⟩
      rw [narrow_self, opened, kept]
      rfl
    · rw [narrow_of_ne same]
      exact live along

/-- The weight does not go up, -/
theorem Flags.weight_narrow_le : (flags.narrow axis keep).weight ≤ flags.weight := by
  rw [weight, weight]
  split
  · next live =>
    rw [if_pos (live_narrow.mp live).1]
    apply Nat.succ_le_succ
    apply Finset.card_le_card
    intro along member
    rw [Finset.mem_filter] at member ⊢
    exact ⟨member.1, both_of_narrow member.2⟩
  · exact Nat.zero_le _

/-- and goes down if an open side is lost. -/
theorem Flags.weight_narrow_lt (live : flags.live = true) {lost : Bool} (opened : flags axis lost = true)
    (dropped : keep lost = false) : (flags.narrow axis keep).weight < flags.weight := by
  rw [weight, weight, if_pos live]
  split
  · next still =>
    obtain ⟨-, side, kept, stays⟩ := live_narrow.mp still
    have differs : side ≠ lost := by
      rintro rfl
      rw [dropped] at stays
      cases stays
    apply Nat.succ_lt_succ
    apply Finset.card_lt_card
    rw [Finset.ssubset_iff_of_subset]
    · refine ⟨axis, Finset.mem_filter.mpr ⟨Finset.mem_univ _, ?_⟩, ?_⟩
      · cases side <;> cases lost <;> simp_all [both]
      · rw [Finset.mem_filter, both, narrow_self, narrow_self]
        cases lost <;> simp [dropped]
    · intro along member
      rw [Finset.mem_filter] at member ⊢
      exact ⟨member.1, both_of_narrow member.2⟩
  · exact Nat.succ_pos _

end Library.AxisChoices

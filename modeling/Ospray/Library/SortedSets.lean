import Mathlib.Data.List.Destutter
import Mathlib.Data.List.Sort
import Mathlib.Order.Lattice
import Ospray.Library.Literals

/-!
# Sorted sets and round-robin choice

A set kept as a strictly increasing list. The position of a member is its index
in the list, as an iterator would measure it from the beginning; positions tell
the members apart. Dealing out turns by position hence gives every turn to
exactly one member of a non-empty set.

Sorting a list and keeping one of each run of equal neighbours gives such a set.
An integer may serve as its own position only in the sets `0, 1, …, n - 1`.

A fold may also choose a member by comparing each with the best so far.
-/

namespace Library.SortedSets

universe u
variable {α : Type u} [LinearOrder α]

/-- A strictly increasing list. -/
structure SortedSet (α : Type u) [LinearOrder α] where
  elements : List α
  increasing : elements.Pairwise (· < ·)

/-- Membership is membership in the list. -/
instance : Membership α (SortedSet α) := ⟨fun set element => element ∈ set.elements⟩

theorem mem_elements (set : SortedSet α) (element : α) :
    element ∈ set.elements ↔ element ∈ set := Iff.rfl

instance (set : SortedSet α) (element : α) : Decidable (element ∈ set) :=
  inferInstanceAs (Decidable (element ∈ set.elements))

theorem sortedSet_ext {first second : SortedSet α}
    (same : ∀ element, element ∈ first ↔ element ∈ second) : first = second := by
  obtain ⟨elements, increasing⟩ := first
  obtain ⟨others, othersIncreasing⟩ := second
  have equal : elements = others := increasing.eq_of_mem_iff othersIncreasing same
  subst equal
  rfl

/-- The set without members. -/
def SortedSet.empty : SortedSet α := ⟨[], .nil⟩

@[simp] theorem not_mem_empty (element : α) : element ∉ (SortedSet.empty : SortedSet α) := by
  intro member
  cases member

/-- Inserting a new element where it belongs in the order keeps the list strictly
increasing: it is sorted by the weak order, and no two entries are equal. -/
theorem orderedInsert_increasing (set : SortedSet α) (element : α)
    (absent : element ∉ set.elements) :
    (set.elements.orderedInsert (· ≤ ·) element).Pairwise (· < ·) := by
  have sorted : (set.elements.orderedInsert (· ≤ ·) element).Pairwise (· ≤ ·) :=
    (set.increasing.imp le_of_lt).orderedInsert element _
  have distinct : (set.elements.orderedInsert (· ≤ ·) element).Nodup := by
    rw [(List.perm_orderedInsert (· ≤ ·) element set.elements).nodup_iff, List.nodup_cons]
    exact ⟨absent, set.increasing.imp ne_of_lt⟩
  exact sorted.imp₂ (fun _ _ below apart => lt_of_le_of_ne below apart) distinct

/-- Insert an element that may be a member already. -/
def SortedSet.insert (set : SortedSet α) (element : α) : SortedSet α :=
  if absent : element ∈ set.elements then set
  else ⟨set.elements.orderedInsert (· ≤ ·) element, orderedInsert_increasing set element absent⟩

@[simp] theorem mem_insert (set : SortedSet α) (element other : α) :
    other ∈ set.insert element ↔ other = element ∨ other ∈ set := by
  unfold SortedSet.insert
  split
  · rename_i member
    constructor
    · exact Or.inr
    · rintro (rfl | old)
      · exact member
      · exact old
  · exact List.mem_orderedInsert _

/-- Number of members. -/
def SortedSet.size (set : SortedSet α) : Nat := set.elements.length

/-- Index of a member, counted from the smallest; the size for anything else. -/
def SortedSet.position (set : SortedSet α) (element : α) : Nat := set.elements.idxOf element

theorem size_positive {set : SortedSet α} {element : α} (member : element ∈ set) :
    0 < set.size := List.length_pos_of_mem member

theorem position_injective {set : SortedSet α} {first second : α} (member : first ∈ set)
    (equal : set.position first = set.position second) : first = second :=
  (List.idxOf_inj member).mp equal

theorem turn_member {set : SortedSet α} (inhabited : 0 < set.size) (turn : Nat) :
    ∃ element ∈ set, turn % set.size = set.position element := by
  have bound : turn % set.size < set.elements.length := Nat.mod_lt _ inhabited
  refine ⟨set.elements[turn % set.size], List.getElem_mem bound, ?_⟩
  have distinct : set.elements.Nodup := set.increasing.imp ne_of_lt
  exact (distinct.idxOf_getElem _ bound).symm

theorem turn_unique {set : SortedSet α} (inhabited : 0 < set.size) (turn : Nat) :
    ∃! element, element ∈ set ∧ turn % set.size = set.position element := by
  obtain ⟨element, member, chosen⟩ := turn_member inhabited turn
  refine ⟨element, ⟨member, chosen⟩, ?_⟩
  rintro other ⟨otherMember, otherChosen⟩
  exact position_injective otherMember (otherChosen.symm.trans chosen)

/-! ## Sorting and keeping one of each -/

theorem destutter_increasing {list : List α} (sorted : list.Pairwise (· ≤ ·)) :
    (list.destutter (· ≠ ·)).Pairwise (· < ·) := by
  have below : (list.destutter (· ≠ ·)).IsChain (· ≤ ·) :=
    (sorted.sublist (List.destutter_sublist _ list)).isChain
  have apart : (list.destutter (· ≠ ·)).IsChain (· ≠ ·) := List.isChain_destutter _ list
  have strict : (list.destutter (· ≠ ·)).IsChain (· < ·) := by
    rw [List.isChain_iff_getElem] at *
    intro index inside
    exact lt_of_le_of_ne (below index inside) (apart index inside)
  exact List.isChain_iff_pairwise.mp strict

theorem mem_destutter'_ne (first element : α) (list : List α) :
    element ∈ list.destutter' (· ≠ ·) first ↔ element = first ∨ element ∈ list := by
  induction list generalizing first with
  | nil => simp
  | cons head rest inductionHypothesis =>
    by_cases apart : first ≠ head
    · rw [List.destutter'_cons_pos _ apart, List.mem_cons, inductionHypothesis, List.mem_cons]
    · rw [List.destutter'_cons_neg _ apart, inductionHypothesis, List.mem_cons,
        not_not.mp apart, or_self_left]

theorem mem_destutter_ne (element : α) (list : List α) :
    element ∈ list.destutter (· ≠ ·) ↔ element ∈ list := by
  cases list with
  | nil => rfl
  | cons first rest => rw [List.destutter_cons', mem_destutter'_ne, List.mem_cons]

/-- In a strictly increasing list of integers every entry is its own position
exactly when the entries are the integers from zero up to some count. -/
theorem entries_are_positions_iff {entries : List Int} (increasing : entries.Pairwise (· < ·)) :
    (∀ entry ∈ entries, 0 ≤ entry ∧ entries[entry.toNat]? = some entry) ↔
      ∃ count : Nat, ∀ entry, entry ∈ entries ↔ 0 ≤ entry ∧ entry < count := by
  constructor
  · intro own
    refine ⟨entries.length, ?_⟩
    intro entry
    constructor
    · intro member
      obtain ⟨natural, found⟩ := own entry member
      obtain ⟨inside, _⟩ := List.getElem?_eq_some_iff.mp found
      exact ⟨natural, by omega⟩
    · rintro ⟨natural, bounded⟩
      have inside : entry.toNat < entries.length := by omega
      obtain ⟨otherNatural, found⟩ := own entries[entry.toNat] (List.getElem_mem inside)
      obtain ⟨otherInside, same⟩ := List.getElem?_eq_some_iff.mp found
      have distinct : entries.Nodup := increasing.imp ne_of_lt
      have position := (distinct.getElem_inj_iff).mp same
      have equal : entries[entry.toNat] = entry := by omega
      exact equal ▸ List.getElem_mem inside
  · rintro ⟨count, members⟩ entry member
    have counted : ((List.range count).map Int.ofNat).Pairwise (· < ·) := by
      rw [List.pairwise_map]
      exact List.pairwise_lt_range.imp Int.ofNat_lt.mpr
    have equal : entries = (List.range count).map Int.ofNat := by
      apply increasing.eq_of_mem_iff counted
      intro other
      rw [members, List.mem_map]
      constructor
      · rintro ⟨natural, bounded⟩
        exact ⟨other.toNat, List.mem_range.mpr (by omega), Int.toNat_of_nonneg natural⟩
      · rintro ⟨position, inside, rfl⟩
        have bounded := List.mem_range.mp inside
        exact ⟨Int.natCast_nonneg position, Int.ofNat_lt.mpr bounded⟩
    obtain ⟨natural, bounded⟩ := (members entry).mp member
    refine ⟨natural, ?_⟩
    rw [equal, List.getElem?_map, List.getElem?_range (by omega), Option.map_some]
    exact congrArg some (Int.toNat_of_nonneg natural)

/-! ## Choosing one of a list -/

section Choices

variable {β : Type u} {eligible : β → Prop} {step : Option β → β → Option β}

/-- A step of a fold that keeps its choice at an item that is not eligible, and chooses one of the two
at an item that is. -/
structure Chooses (eligible : β → Prop) (step : Option β → β → Option β) : Prop where
  skips : ∀ best item, ¬ eligible item → step best item = best
  takes : ∀ best item, eligible item →
    ∃ next, step best item = some next ∧ (best = some next ∨ next = item)

/-- What the fold chooses is eligible, and it chooses nothing only if nothing is. -/
theorem Chooses.foldl (chooses : Chooses eligible step) (items : List β) (best : Option β) :
    (items.foldl step best = none → best = none ∧ ∀ item ∈ items, ¬ eligible item) ∧
      ∀ chosen, items.foldl step best = some chosen →
        best = some chosen ∨ chosen ∈ items ∧ eligible chosen := by
  induction items generalizing best with
  | nil => exact ⟨fun none_ => ⟨none_, fun _ absent => absurd absent List.not_mem_nil⟩, fun _ => Or.inl⟩
  | cons first rest inductionHypothesis =>
    obtain ⟨none_, some_⟩ := inductionHypothesis (step best first)
    rw [List.foldl_cons]
    by_cases able : eligible first
    · obtain ⟨next, moved, origin⟩ := chooses.takes best first able
      constructor
      · intro result
        have nothing := (none_ result).1
        rw [moved] at nothing
        cases nothing
      · intro chosen result
        obtain same | ⟨member, split⟩ := some_ chosen result
        · obtain rfl := Option.some.inj (moved.symm.trans same)
          obtain before | rfl := origin
          · exact Or.inl before
          · exact Or.inr ⟨List.mem_cons_self, able⟩
        · exact Or.inr ⟨List.mem_cons_of_mem _ member, split⟩
    · rw [chooses.skips best first able] at none_ some_ ⊢
      constructor
      · intro result
        refine ⟨(none_ result).1, fun item member => ?_⟩
        obtain rfl | member := List.mem_cons.mp member
        · exact able
        · exact (none_ result).2 item member
      · intro chosen result
        exact (some_ chosen result).imp_right fun among => ⟨List.mem_cons_of_mem _ among.1, among.2⟩

end Choices

end Library.SortedSets

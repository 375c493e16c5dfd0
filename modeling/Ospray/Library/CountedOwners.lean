import Mathlib.Data.List.Perm.Basic
import Ospray.Library.Slots

/-!
# Counted owners

Objects in slots count the references to them. The counters have a fixed width and wrap around. An
object that counts down to zero is destroyed, and what it gives back is counted down then. As long
as the destroyed objects give back what they own, the counters are exact.
-/

namespace Library.CountedOwners

open Library.Slots

universe u
variable {width : Nat} {α : Type u}

/-- An object and its counter. -/
structure Cell (width : Nat) (α : Type u) where
  counter : BitVec width
  content : α

/-- The slots of all objects that have been created. -/
abbrev Heap (width : Nat) (α : Type u) : Type u := List (Option (Cell width α))

/-- An object that has been destroyed, with the references that it gave back. -/
structure Death (α : Type u) where
  pointer : Nat
  content : α
  given : List Nat

/-- The objects that live. -/
def liveCount (heap : Heap width α) : Nat := total (fun _ => 1) heap

theorem liveCount_set {heap : Heap width α} {pointer : Nat} {cell : Cell width α}
    (live : occupant heap pointer = some cell) (slot : Option (Cell width α)) :
    liveCount (heap.set pointer slot) + 1 = liveCount heap + slot.elim 0 (fun _ => 1) :=
  total_set (fun _ => 1) live slot

/-- Objects are counted up, one after another. -/
def countUp (heap : Heap width α) : List Nat → Option (Heap width α)
  | [] => some heap
  | pointer :: rest =>
    match occupant heap pointer with
    | none => none
    | some cell => countUp (heap.set pointer (some { cell with counter := cell.counter + 1 })) rest

/-- Objects are counted down, one after another. What a destroyed object gives back comes next. -/
def countDown (walked : α → List Nat) (heap : Heap width α) (deaths : List (Death α)) (pending : List Nat) :
    Option (Heap width α × List (Death α)) :=
  match pending with
  | [] => some (heap, deaths)
  | pointer :: rest =>
    match _live : occupant heap pointer with
    | none => none
    | some cell =>
      if cell.counter - 1 = 0 then
        countDown walked (heap.set pointer none) (deaths ++ [⟨pointer, cell.content, walked cell.content⟩])
          (walked cell.content ++ rest)
      else countDown walked (heap.set pointer (some { cell with counter := cell.counter - 1 })) deaths rest
termination_by (liveCount heap, pending.length)
decreasing_by
  · have vacated := liveCount_set _live none
    rw [Option.elim_none] at vacated
    exact Prod.Lex.left _ _ (by omega)
  · have changed := liveCount_set _live (some { cell with counter := cell.counter - 1 })
    rw [Option.elim_some] at changed
    have same : liveCount (heap.set pointer (some { cell with counter := cell.counter - 1 })) = liveCount heap := by
      omega
    rw [same]
    exact Prod.Lex.right _ (Nat.lt_succ_self _)

theorem countDown_cons (walked : α → List Nat) {heap : Heap width α} {deaths : List (Death α)} {pointer : Nat}
    {cell : Cell width α} (live : occupant heap pointer = some cell) (rest : List Nat) :
    countDown walked heap deaths (pointer :: rest) =
      if cell.counter - 1 = 0 then
        countDown walked (heap.set pointer none) (deaths ++ [⟨pointer, cell.content, walked cell.content⟩])
          (walked cell.content ++ rest)
      else countDown walked (heap.set pointer (some { cell with counter := cell.counter - 1 })) deaths rest := by
  rw [countDown]
  split
  · next dead =>
    rw [live] at dead
    cases dead
  · next found same =>
    obtain rfl : cell = found := Option.some.inj (live.symm.trans same)
    rfl

theorem countDown_dead (walked : α → List Nat) {heap : Heap width α} {deaths : List (Death α)} {pointer : Nat}
    (dead : occupant heap pointer = none) (rest : List Nat) :
    countDown walked heap deaths (pointer :: rest) = none := by
  rw [countDown]
  split
  · rfl
  · next found same =>
    rw [dead] at same
    cases same

/-! ## Exact counters -/

section Balanced

variable (owned : α → List Nat)

/-- How many live objects own an object. -/
def owners (heap : Heap width α) (pointer : Nat) : Nat := total (fun cell => (owned cell.content).count pointer) heap

/-- The references to an object: those owed from outside, those of its owners, and those that are still to be
given back. -/
def references (heap : Heap width α) (owed : Nat → Nat) (pending : List Nat) (pointer : Nat) : Nat :=
  owed pointer + owners owned heap pointer + pending.count pointer

/-- The counters are the references, as far as they have the width; what is referenced lives, and what lives is
referenced. -/
structure Balanced (heap : Heap width α) (owed : Nat → Nat) (pending : List Nat) : Prop where
  counts : ∀ pointer cell, occupant heap pointer = some cell →
    cell.counter = BitVec.ofNat width (references owned heap owed pending pointer)
  alive : ∀ pointer, 0 < references owned heap owed pending pointer → ∃ cell, occupant heap pointer = some cell
  needed : ∀ pointer cell, occupant heap pointer = some cell → 0 < references owned heap owed pending pointer
  bounded : ∀ pointer cell, occupant heap pointer = some cell →
    references owned heap owed pending pointer ≤ 2 ^ width

end Balanced

variable {owned walked : α → List Nat} {heap next : Heap width α} {owed others : Nat → Nat} {pending rest : List Nat}
  {deaths : List (Death α)} {pointer : Nat} {cell : Cell width α}

/-- Counting down to zero means that there was one reference. -/
theorem sub_one_eq_zero {number : Nat} (positive : 0 < number) (bounded : number ≤ 2 ^ width) :
    BitVec.ofNat width number - 1 = 0 ↔ number = 1 := by
  obtain ⟨before, rfl⟩ := Nat.exists_eq_add_one.mpr positive
  have counted : BitVec.ofNat width (before + 1) - 1 = BitVec.ofNat width before := by
    rw [BitVec.ofNat_add]
    exact BitVec.add_sub_cancel _ _
  rw [counted]
  constructor
  · intro zero
    have value := congrArg BitVec.toNat zero
    rw [BitVec.toNat_ofNat, Nat.mod_eq_of_lt bounded] at value
    have none_ : before = 0 := value
    rw [none_]
  · intro one
    obtain rfl : before = 0 := Nat.succ.inj one
    rfl

theorem Balanced.regroup (balanced : Balanced owned heap owed pending)
    (same : ∀ pointer, others pointer + rest.count pointer = owed pointer + pending.count pointer) :
    Balanced owned heap others rest := by
  have total : references owned heap others rest = references owned heap owed pending := by
    funext pointer
    have own := same pointer
    unfold references
    omega
  obtain ⟨counts, alive, needed, bounded⟩ := balanced
  rw [← total] at counts alive needed bounded
  exact ⟨counts, alive, needed, bounded⟩

theorem mem_owners (live : occupant heap pointer = some cell) {other : Nat} (mine : other ∈ owned cell.content) :
    0 < owners owned heap other :=
  Nat.lt_of_lt_of_le (List.count_pos_iff.mpr mine)
    (weight_le_total (fun cell => (owned cell.content).count other) live)

theorem owners_set (live : occupant heap pointer = some cell) (slot : Option (Cell width α)) (other : Nat) :
    owners owned (heap.set pointer slot) other + (owned cell.content).count other =
      owners owned heap other + slot.elim 0 fun cell => (owned cell.content).count other :=
  total_set (fun cell : Cell width α => (owned cell.content).count other) live slot

theorem owners_count (live : occupant heap pointer = some cell) (counter : BitVec width) :
    owners owned (heap.set pointer (some { cell with counter })) = owners owned heap := by
  funext other
  have traded := @owners_set width α owned heap pointer cell live (some { cell with counter }) other
  rw [Option.elim_some] at traded
  exact Nat.add_right_cancel traded

/-- A counter changes with the references to its object. -/
theorem Balanced.recount (balanced : Balanced owned heap owed pending) (live : occupant heap pointer = some cell)
    (counter : BitVec width) (others_ : ∀ other, other ≠ pointer → rest.count other = pending.count other)
    (counted : counter = BitVec.ofNat width (references owned heap owed rest pointer))
    (needed : 0 < references owned heap owed rest pointer)
    (bounded : references owned heap owed rest pointer ≤ 2 ^ width) :
    Balanced owned (heap.set pointer (some { cell with counter })) owed rest := by
  have total : references owned (heap.set pointer (some { cell with counter })) owed rest =
      references owned heap owed rest := by
    funext other
    rw [references, owners_count live, references]
  have same : ∀ other, other ≠ pointer →
      references owned heap owed rest other = references owned heap owed pending other := by
    intro other apart
    rw [references, references, others_ other apart]
  constructor
  · intro other found occupied
    rw [total]
    obtain ⟨rfl, changed⟩ | ⟨apart, before⟩ := occupied_set live occupied
    · rw [← Option.some.inj changed]
      exact counted
    · rw [same other apart]
      exact balanced.counts other found before
  · intro other positive
    rw [total] at positive
    rw [occupant_set live]
    by_cases apart : other = pointer
    · exact ⟨_, if_pos apart⟩
    · rw [if_neg apart]
      rw [same other apart] at positive
      exact balanced.alive other positive
  · intro other found occupied
    rw [total]
    obtain ⟨rfl, -⟩ | ⟨apart, before⟩ := occupied_set live occupied
    · exact needed
    · rw [same other apart]
      exact balanced.needed other found before
  · intro other found occupied
    rw [total]
    obtain ⟨rfl, -⟩ | ⟨apart, before⟩ := occupied_set live occupied
    · exact bounded
    · rw [same other apart]
      exact balanced.bounded other found before

/-- Counting down an object that has other references. -/
theorem Balanced.decrement (balanced : Balanced owned heap owed (pointer :: rest))
    (live : occupant heap pointer = some cell) (shared : cell.counter - 1 ≠ 0) :
    Balanced owned (heap.set pointer (some { cell with counter := cell.counter - 1 })) owed rest := by
  have counted := balanced.counts pointer cell live
  have positive := balanced.needed pointer cell live
  have bounded := balanced.bounded pointer cell live
  have several : references owned heap owed (pointer :: rest) pointer ≠ 1 := by
    intro one
    exact shared (by rw [counted]; exact (sub_one_eq_zero positive bounded).mpr one)
  have fewer : references owned heap owed (pointer :: rest) pointer = references owned heap owed rest pointer + 1 := by
    rw [references, references, List.count_cons_self]
    omega
  rw [fewer] at counted several bounded
  apply balanced.recount live
  · exact fun other apart => (List.count_cons_of_ne (Ne.symm apart)).symm
  · rw [counted, BitVec.ofNat_add]
    exact BitVec.add_sub_cancel _ _
  · omega
  · omega

theorem Balanced.increment (balanced : Balanced owned heap owed pending)
    (live : occupant heap pointer = some cell) (small : references owned heap owed pending pointer < 2 ^ width) :
    Balanced owned (heap.set pointer (some { cell with counter := cell.counter + 1 })) owed (pointer :: pending) := by
  have more : references owned heap owed (pointer :: pending) pointer =
      references owned heap owed pending pointer + 1 := by
    rw [references, references, List.count_cons_self]
    omega
  apply balanced.recount live
  · exact fun other apart => List.count_cons_of_ne (Ne.symm apart)
  · rw [more, BitVec.ofNat_add, balanced.counts pointer cell live]
    rfl
  · omega
  · omega

/-- Destroying an object that has no other reference: what it owns is to be given back. -/
theorem Balanced.destroy (balanced : Balanced owned heap owed (pointer :: rest))
    (live : occupant heap pointer = some cell)
    (last : references owned heap owed (pointer :: rest) pointer = 1) :
    Balanced owned (heap.set pointer none) owed (owned cell.content ++ rest) := by
  have traded (other : Nat) : owners owned (heap.set pointer none) other + (owned cell.content).count other =
      owners owned heap other := owners_set live none other
  have same (other : Nat) (apart : other ≠ pointer) :
      references owned (heap.set pointer none) owed (owned cell.content ++ rest) other =
        references owned heap owed (pointer :: rest) other := by
    have trade := traded other
    rw [references, references, List.count_append, List.count_cons_of_ne (Ne.symm apart)]
    omega
  have gone : references owned (heap.set pointer none) owed (owned cell.content ++ rest) pointer = 0 := by
    have trade := traded pointer
    rw [references, List.count_cons_self] at last
    rw [references, List.count_append]
    omega
  constructor
  · intro other found occupied
    obtain ⟨-, impossible⟩ | ⟨apart, before⟩ := occupied_set live occupied
    · cases impossible
    · rw [same other apart]
      exact balanced.counts other found before
  · intro other positive
    by_cases apart : other = pointer
    · rw [apart, gone] at positive
      exact absurd positive (Nat.lt_irrefl 0)
    · rw [occupant_set live, if_neg apart]
      rw [same other apart] at positive
      exact balanced.alive other positive
  · intro other found occupied
    obtain ⟨-, impossible⟩ | ⟨apart, before⟩ := occupied_set live occupied
    · cases impossible
    · rw [same other apart]
      exact balanced.needed other found before
  · intro other found occupied
    obtain ⟨-, impossible⟩ | ⟨apart, before⟩ := occupied_set live occupied
    · cases impossible
    · rw [same other apart]
      exact balanced.bounded other found before

/-! ## New objects -/

/-- What a slot holds without its counter. -/
def content (heap : Heap width α) (pointer : Nat) : Option α := (occupant heap pointer).map Cell.content

theorem content_count (live : occupant heap pointer = some cell) (counter : BitVec width) :
    content (heap.set pointer (some { cell with counter })) = content heap := by
  funext other
  rw [content, content, occupant_set live]
  by_cases same : other = pointer
  · rw [if_pos same, same, live]
    rfl
  · rw [if_neg same]

theorem content_isSome : (content heap pointer).isSome ↔ ∃ cell, occupant heap pointer = some cell := by
  rw [content, Option.isSome_map, Option.isSome_iff_exists]

theorem content_eq_none : content heap pointer = none ↔ occupant heap pointer = none := Option.map_eq_none_iff

theorem occupant_of_content (contents : content next pointer = content heap pointer)
    (live : occupant next pointer = some cell) :
    ∃ before, occupant heap pointer = some before ∧ before.content = cell.content := by
  rw [content, content, live, Option.map_some, eq_comm, Option.map_eq_some_iff] at contents
  exact contents

/-- Counting up live objects whose counters have room keeps the counters exact. -/
theorem countUp_spec {list : List Nat} (balanced : Balanced owned heap owed pending)
    (alive : ∀ pointer ∈ list, ∃ cell, occupant heap pointer = some cell)
    (room : ∀ pointer, references owned heap owed pending pointer + list.count pointer ≤ 2 ^ width) :
    ∃ next, countUp heap list = some next ∧ Balanced owned next owed (list ++ pending) ∧
      content next = content heap ∧ next.length = heap.length := by
  induction list generalizing heap pending with
  | nil => exact ⟨heap, rfl, balanced, rfl, rfl⟩
  | cons pointer list inductionHypothesis =>
    obtain ⟨cell, live⟩ := alive pointer List.mem_cons_self
    have small : references owned heap owed pending pointer < 2 ^ width := by
      have bound := room pointer
      rw [List.count_cons_self] at bound
      omega
    have counted := balanced.increment live small
    obtain ⟨next, ran, exact_, contents, length⟩ := inductionHypothesis counted (by
      intro other member
      have before := alive other (List.mem_cons_of_mem _ member)
      rwa [← content_isSome, content_count live, content_isSome]) (by
      intro other
      have bound := room other
      rw [references, owners_count live]
      rw [references] at bound
      simp only [List.count_cons] at bound ⊢
      omega)
    refine ⟨next, ?_, ?_, ?_, ?_⟩
    · rw [countUp, live]
      exact ran
    · apply exact_.regroup
      intro other
      simp only [List.cons_append, List.count_cons, List.count_append]
      omega
    · rw [contents, content_count live]
    · rw [length, List.length_set]

/-- A new object has one reference from outside, and owns what has been counted for it. -/
theorem Balanced.append {new : α} (balanced : Balanced owned heap owed (owned new)) :
    Balanced owned (heap ++ [some ⟨1, new⟩]) (Function.update owed heap.length 1) [] := by
  have added (other : Nat) : owners owned (heap ++ [some ⟨1, new⟩]) other =
      owners owned heap other + (owned new).count other := by
    exact total_append (fun cell : Cell width α => (owned cell.content).count other) heap (some ⟨1, new⟩)
  have outside : references owned heap owed (owned new) heap.length = 0 := by
    by_contra positive
    obtain ⟨cell, live⟩ := balanced.alive heap.length (Nat.pos_of_ne_zero positive)
    exact absurd (occupant_lt live) (Nat.lt_irrefl _)
  have own : references owned (heap ++ [some ⟨1, new⟩]) (Function.update owed heap.length 1) [] heap.length = 1 := by
    rw [references] at outside ⊢
    rw [added, Function.update_self, List.count_nil]
    omega
  have same (other : Nat) (apart : other ≠ heap.length) :
      references owned (heap ++ [some ⟨1, new⟩]) (Function.update owed heap.length 1) [] other =
        references owned heap owed (owned new) other := by
    rw [references, references, added, Function.update_of_ne apart, List.count_nil]
    omega
  have cases_ {other : Nat} {found : Cell width α}
      (occupied : occupant (heap ++ [some ⟨1, new⟩]) other = some found) :
      other = heap.length ∧ found = ⟨1, new⟩ ∨ other ≠ heap.length ∧ occupant heap other = some found := by
    rw [occupant_append] at occupied
    by_cases last : other = heap.length
    · rw [if_pos last] at occupied
      exact .inl ⟨last, (Option.some.inj occupied).symm⟩
    · rw [if_neg last] at occupied
      exact .inr ⟨last, occupied⟩
  constructor
  · intro other found occupied
    obtain ⟨rfl, rfl⟩ | ⟨apart, before⟩ := cases_ occupied
    · rw [own]
      rfl
    · rw [same other apart]
      exact balanced.counts other found before
  · intro other positive
    rw [occupant_append]
    by_cases last : other = heap.length
    · exact ⟨_, if_pos last⟩
    · rw [if_neg last]
      rw [same other last] at positive
      exact balanced.alive other positive
  · intro other found occupied
    obtain ⟨rfl, -⟩ | ⟨apart, before⟩ := cases_ occupied
    · rw [own]
      exact Nat.one_pos
    · rw [same other apart]
      exact balanced.needed other found before
  · intro other found occupied
    obtain ⟨rfl, -⟩ | ⟨apart, before⟩ := cases_ occupied
    · rw [own]
      exact Nat.one_le_two_pow
    · rw [same other apart]
      exact balanced.bounded other found before

/-! ## Objects that are kept -/

/-- Everything that is kept is owed from outside, or owned by something that lives and is kept. -/
def Supported (owned : α → List Nat) (kept : Nat → Prop) (heap : Heap width α) (owed : Nat → Nat) : Prop :=
  ∀ pointer, kept pointer → 0 < owed pointer ∨
    ∃ owner cell, occupant heap owner = some cell ∧ kept owner ∧ pointer ∈ owned cell.content

variable {kept : Nat → Prop}

theorem Supported.positive (supported : Supported owned kept heap owed) (keeps : kept pointer) :
    0 < owed pointer + owners owned heap pointer := by
  obtain outside | ⟨owner, cell, live, -, mine⟩ := supported pointer keeps
  · omega
  · have part := mem_owners live mine
    omega

theorem Supported.alive (supported : Supported owned kept heap owed) (balanced : Balanced owned heap owed pending)
    (keeps : kept pointer) : ∃ cell, occupant heap pointer = some cell := by
  apply balanced.alive pointer
  have positive := supported.positive keeps
  rw [references]
  omega

theorem Supported.congr (supported : Supported owned kept heap owed)
    (contents : ∀ pointer, kept pointer → content next pointer = content heap pointer) :
    Supported owned kept next owed := by
  intro pointer keeps
  obtain outside | ⟨owner, cell, live, keepsOwner, mine⟩ := supported pointer keeps
  · exact .inl outside
  · right
    obtain ⟨after, found, content_⟩ := occupant_of_content (contents owner keepsOwner).symm live
    exact ⟨owner, after, found, keepsOwner, content_ ▸ mine⟩

/-- What counting down does: the counters stay exact, what is kept lives on, other objects may be destroyed, and
those give back what they own. -/
structure Released (walked owned : α → List Nat) (kept : Nat → Prop) (owed : Nat → Nat) (heap next : Heap width α)
    (new : List (Death α)) : Prop where
  balanced : Balanced owned next owed []
  supported : Supported owned kept next owed
  contents : ∀ pointer cell, occupant next pointer = some cell → content heap pointer = some cell.content
  deaths : ∀ death ∈ new, death.given = walked death.content ∧ death.given.Perm (owned death.content)
  length : next.length = heap.length

/-- Counting down is defined if all objects that are not kept give back what they own. The induction is on the
cascade: an object that is destroyed has no reference but the pending one, so it is not kept. -/
theorem countDown_spec (balanced : Balanced owned heap owed pending) (supported : Supported owned kept heap owed)
    (agree : ∀ pointer cell, occupant heap pointer = some cell → ¬kept pointer →
      (walked cell.content).Perm (owned cell.content)) :
    ∃ next new, countDown walked heap deaths pending = some (next, deaths ++ new) ∧
      Released walked owned kept owed heap next new := by
  induction heap, deaths, pending using countDown.induct walked with
  | case1 heap deaths =>
    have unchanged : ∀ pointer cell, occupant heap pointer = some cell →
        content heap pointer = some cell.content := by
      intro pointer cell live
      rw [content, live, Option.map_some]
    refine ⟨heap, [], ?_, ⟨balanced, supported, unchanged, ?_, rfl⟩⟩
    · rw [countDown, List.append_nil]
    · intro death member
      cases member
  | case2 heap deaths pointer rest dead =>
    have waiting : 0 < references owned heap owed (pointer :: rest) pointer := by
      rw [references, List.count_cons_self]
      omega
    obtain ⟨cell, live⟩ := balanced.alive pointer waiting
    rw [live] at dead
    cases dead
  | case3 heap deaths pointer rest cell live last inductionHypothesis =>
    have positive := balanced.needed pointer cell live
    have bounded := balanced.bounded pointer cell live
    have single : references owned heap owed (pointer :: rest) pointer = 1 := by
      rw [balanced.counts pointer cell live] at last
      exact (sub_one_eq_zero positive bounded).mp last
    have dropped : ¬kept pointer := by
      intro keeps
      have other := supported.positive keeps
      rw [references, List.count_cons_self] at single
      omega
    have given := agree pointer cell live dropped
    have destroyed : Balanced owned (heap.set pointer none) owed (walked cell.content ++ rest) := by
      apply (balanced.destroy live single).regroup
      intro other
      rw [List.count_append, List.count_append, given.count_eq]
    have supports : Supported owned kept (heap.set pointer none) owed := by
      apply supported.congr
      intro other keeps
      have apart : other ≠ pointer := by
        rintro rfl
        exact dropped keeps
      rw [content, content, occupant_set live, if_neg apart]
    obtain ⟨next, new, ran, released⟩ := inductionHypothesis destroyed supports (by
      intro other found occupied drops
      obtain ⟨-, impossible⟩ | ⟨-, before⟩ := occupied_set live occupied
      · cases impossible
      · exact agree other found before drops)
    refine ⟨next, ⟨pointer, cell.content, walked cell.content⟩ :: new, ?_,
      ⟨released.balanced, released.supported, ?_, ?_, ?_⟩⟩
    · rw [countDown_cons walked live, if_pos last, ran, List.append_assoc, List.singleton_append]
    · intro other found occupied
      have before := released.contents other found occupied
      rw [content, occupant_set live] at before
      by_cases same : other = pointer
      · rw [if_pos same] at before
        cases before
      · rwa [if_neg same] at before
    · intro death member
      obtain rfl | later := List.mem_cons.mp member
      · exact ⟨rfl, given⟩
      · exact released.deaths death later
    · rw [released.length, List.length_set]
  | case4 heap deaths pointer rest cell live shared inductionHypothesis =>
    have same := content_count live (cell.counter - 1)
    obtain ⟨next, new, ran, released⟩ := inductionHypothesis (balanced.decrement live shared)
      (supported.congr fun other _ => congrFun same other) (by
      intro other found occupied drops
      obtain ⟨rfl, changed⟩ | ⟨-, before⟩ := occupied_set live occupied
      · rw [← Option.some.inj changed]
        exact agree other cell live drops
      · exact agree other found before drops)
    refine ⟨next, new, ?_, ⟨released.balanced, released.supported, ?_, released.deaths, ?_⟩⟩
    · rw [countDown_cons walked live, if_neg shared, ran]
    · intro other found occupied
      rw [← released.contents other found occupied, same]
    · rw [released.length, List.length_set]

/-- Where objects own older ones only, everything that lives is kept. The induction is on the number of younger
objects. -/
theorem kept_of_alive (balanced : Balanced owned heap owed [])
    (older : ∀ owner cell, occupant heap owner = some cell → ∀ pointer ∈ owned cell.content, pointer < owner)
    (outside : ∀ pointer, 0 < owed pointer → kept pointer)
    (closed : ∀ owner cell, occupant heap owner = some cell → kept owner →
      ∀ pointer ∈ owned cell.content, kept pointer)
    (live : occupant heap pointer = some cell) : kept pointer := by
  induction younger : heap.length - pointer using Nat.strongRecOn generalizing pointer cell with
  | ind size inductionHypothesis =>
    have positive := balanced.needed pointer cell live
    rw [references, List.count_nil] at positive
    by_cases held : 0 < owed pointer
    · exact outside pointer held
    · obtain ⟨owner, found, occupied, mine⟩ : ∃ owner found, occupant heap owner = some found ∧
          pointer ∈ owned found.content := by
        have owned_ : 0 < owners owned heap pointer := by omega
        obtain ⟨owner, found, occupied, positive⟩ := exists_of_total_pos owned_
        exact ⟨owner, found, occupied, List.count_pos_iff.mp positive⟩
      have after := older owner found occupied pointer mine
      have inside := occupant_lt occupied
      exact closed owner found occupied (inductionHypothesis _ (by omega) occupied rfl) pointer mine

/-! ## Deaths -/

/-- Each vacated slot has one death. -/
def Recorded (heap : Heap width α) (deaths : List (Death α)) : Prop :=
  (deaths.map Death.pointer).Nodup ∧
    ∀ pointer, pointer ∈ deaths.map Death.pointer ↔ pointer < heap.length ∧ occupant heap pointer = none

theorem Recorded.congr (recorded : Recorded heap deaths) (contents : content next = content heap)
    (length : next.length = heap.length) : Recorded next deaths := by
  refine ⟨recorded.1, ?_⟩
  intro pointer
  rw [recorded.2 pointer, length, ← content_eq_none, ← contents, content_eq_none]

theorem Recorded.count (recorded : Recorded heap deaths) (live : occupant heap pointer = some cell)
    (counter : BitVec width) : Recorded (heap.set pointer (some { cell with counter })) deaths := by
  refine ⟨recorded.1, ?_⟩
  intro other
  rw [recorded.2 other, List.length_set, occupant_set live]
  by_cases same : other = pointer
  · rw [if_pos same, same, live]
    simp only [reduceCtorEq]
  · rw [if_neg same]

/-- A destroyed object vacates its slot. -/
theorem Recorded.vacate (recorded : Recorded heap deaths) (live : occupant heap pointer = some cell)
    {given : List Nat} : Recorded (heap.set pointer none) (deaths ++ [⟨pointer, cell.content, given⟩]) := by
  have unrecorded : pointer ∉ deaths.map Death.pointer := by
    intro member
    have vacant := ((recorded.2 pointer).mp member).2
    rw [live] at vacant
    cases vacant
  constructor
  · rw [List.map_append, List.map_singleton, List.nodup_append]
    refine ⟨recorded.1, List.nodup_cons.mpr ⟨List.not_mem_nil, List.nodup_nil⟩, ?_⟩
    intro first member second same
    rw [List.mem_singleton.mp same]
    rintro rfl
    exact unrecorded member
  · intro other
    rw [List.map_append, List.map_singleton, List.mem_append, List.mem_singleton, recorded.2 other, List.length_set,
      occupant_set live]
    by_cases same : other = pointer
    · rw [if_pos same, same]
      exact ⟨fun _ => ⟨occupant_lt live, rfl⟩, fun _ => .inr rfl⟩
    · rw [if_neg same]
      exact ⟨fun either => either.resolve_right same, .inl⟩

theorem Recorded.append (recorded : Recorded heap deaths) (cell : Cell width α) :
    Recorded (heap ++ [some cell]) deaths := by
  refine ⟨recorded.1, ?_⟩
  intro other
  rw [recorded.2 other, List.length_append, List.length_singleton, occupant_append]
  by_cases last : other = heap.length
  · rw [if_pos last, last]
    simp only [Nat.lt_irrefl, false_and, reduceCtorEq, and_false]
  · rw [if_neg last]
    exact and_congr_left fun _ => ⟨fun inside => by omega, fun inside => by omega⟩

theorem countDown_recorded (recorded : Recorded heap deaths) {after : List (Death α)}
    (ran : countDown walked heap deaths pending = some (next, after)) : Recorded next after := by
  induction heap, deaths, pending using countDown.induct walked with
  | case1 heap deaths =>
    rw [countDown] at ran
    obtain ⟨rfl, rfl⟩ := Prod.mk.inj (Option.some.inj ran)
    exact recorded
  | case2 heap deaths pointer rest dead =>
    rw [countDown_dead walked dead] at ran
    cases ran
  | case3 heap deaths pointer rest cell live last inductionHypothesis =>
    rw [countDown_cons walked live, if_pos last] at ran
    exact inductionHypothesis (recorded.vacate live) ran
  | case4 heap deaths pointer rest cell live shared inductionHypothesis =>
    rw [countDown_cons walked live, if_neg shared] at ran
    exact inductionHypothesis (recorded.count live _) ran

end Library.CountedOwners

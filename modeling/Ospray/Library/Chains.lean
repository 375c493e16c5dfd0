import Mathlib.Data.Finset.Card
import Mathlib.Logic.Function.Basic
import Ospray.Library.Literals

/-!
# Chains of pointers

A singly linked list in memory is a first pointer and a successor for each cell.
What is on the list is what following the successors meets, whatever the state of
the memory. A property that holds of the first cell and passes from a cell to its
successor holds of the whole list.

Marking the cells one after another, up to a marked one, ends even if the chain is
cyclic, and marks the whole chain if only its beginning can be unmarked.
-/

namespace Library.Chains

universe u
variable {α : Type u}

/-- Following `next` from the first pointer meets a cell. -/
inductive Linked (next : α → Option α) : Option α → α → Prop where
  | first (cell : α) : Linked next (some cell) cell
  | onwards (first cell : α) (rest : Linked next (next first) cell) : Linked next (some first) cell

variable {next changed : α → Option α} {first : Option α} {cell : α}

theorem linked_invariant {holds : α → Prop} (linked : Linked next first cell)
    (start : ∀ head, first = some head → holds head)
    (passes : ∀ here there, holds here → next here = some there → holds there) : holds cell := by
  induction linked with
  | first cell => exact start cell rfl
  | onwards head cell rest inductionHypothesis =>
    apply inductionHypothesis
    intro there successor
    exact passes head there (start head rfl) successor

theorem linked_next {here there : α} (linked : Linked next first here)
    (successor : next here = some there) : Linked next first there := by
  induction linked with
  | first cell => exact .onwards cell there (successor ▸ .first there)
  | onwards head cell rest inductionHypothesis =>
    exact .onwards head there (inductionHypothesis successor)

theorem not_linked_none : ¬ Linked next none cell := by
  intro linked
  cases linked

theorem linked_of_agree (agree : ∀ here, Linked next first here → changed here = next here)
    (linked : Linked changed first cell) : Linked next first cell := by
  apply linked_invariant linked
  · rintro head rfl
    exact .first head
  · intro here there before successor
    rw [agree here before] at successor
    exact linked_next before successor

/-! ## Marking a chain -/

section Marking

variable {marks : α → Nat} {t : Nat} {here : α}

/-- Where the marked cells are closed under successors, apart from the cell that is
next, and that one is marked, the whole chain is. -/
theorem chain_marked {cells : Finset α} (inside : here ∈ cells)
    (within : ∀ one other, one ∈ cells → next one = some other → other ∈ cells)
    (closed : ∀ one other, one ∈ cells → t ≤ marks one → next one = some other →
      t ≤ marks other ∨ other = here)
    (marked : t ≤ marks here) (linked : Linked next (some here) cell) :
    cell ∈ cells ∧ t ≤ marks cell := by
  refine @linked_invariant α next (some here) cell (fun cell => cell ∈ cells ∧ t ≤ marks cell)
    linked ?_ ?_
  · rintro head ⟨⟩
    exact ⟨inside, marked⟩
  · rintro one other ⟨member, before⟩ successor
    refine ⟨within one other member successor, ?_⟩
    obtain already | rfl := closed one other member before successor
    · exact already
    · exact marked

variable [DecidableEq α]

/-- Gives the cells of a chain the mark `t`, up to the first one that has it. -/
def markChain (next : α → Option α) (t : Nat) : Nat → (α → Nat) → α → Option (α → Nat)
  | 0, _, _ => none
  | bound + 1, marks, cell =>
    if marks cell < t then
      match next cell with
      | some there => markChain next t bound (Function.update marks cell t) there
      | none => some (Function.update marks cell t)
    else some marks

theorem unmarked_lt {cells : Finset α} (inside : here ∈ cells) (unmarked : marks here < t) :
    (cells.filter fun cell => Function.update marks here t cell < t).card <
      (cells.filter fun cell => marks cell < t).card := by
  refine Finset.card_lt_card ((Finset.ssubset_iff_of_subset ?_).mpr ⟨here, ?_, ?_⟩)
  · intro cell
    simp only [Finset.mem_filter]
    rintro ⟨member, below⟩
    by_cases same : cell = here
    · rw [same, Function.update_self] at below
      exact absurd below (Nat.lt_irrefl t)
    · rw [Function.update_of_ne same] at below
      exact ⟨member, below⟩
  · exact Finset.mem_filter.mpr ⟨inside, unmarked⟩
  · rw [Finset.mem_filter, Function.update_self]
    exact fun again => absurd again.2 (Nat.lt_irrefl t)

theorem markChain_isSome {cells : Finset α} (bound : Nat) (inside : here ∈ cells)
    (within : ∀ one other, one ∈ cells → next one = some other → other ∈ cells)
    (enough : (cells.filter fun cell => marks cell < t).card < bound) :
    (markChain next t bound marks here).isSome := by
  induction bound generalizing marks here with
  | zero => exact absurd enough (Nat.not_lt_zero _)
  | succ bound inductionHypothesis =>
    rw [markChain]
    by_cases unmarked : marks here < t
    · rw [if_pos unmarked]
      cases successor : next here with
      | none => rfl
      | some there =>
        have fewer := unmarked_lt inside unmarked
        exact inductionHypothesis (within here there inside successor) (by omega)
    · rw [if_neg unmarked]
      rfl

/-- Marking ends after at most one step more than there are cells without the mark,
also on a cyclic chain, and exactly the chain has it. The induction is on the
bound; the marked cells stay closed under successors, apart from the next one. -/
theorem markChain_spec {cells : Finset α} (bound : Nat) (inside : here ∈ cells)
    (within : ∀ one other, one ∈ cells → next one = some other → other ∈ cells)
    (past : ∀ one ∈ cells, marks one ≤ t)
    (closed : ∀ one other, one ∈ cells → t ≤ marks one → next one = some other →
      t ≤ marks other ∨ other = here)
    (enough : (cells.filter fun cell => marks cell < t).card < bound) :
    ∃ marked, markChain next t bound marks here = some marked ∧
      (∀ cell, Linked next (some here) cell → marked cell = t) ∧
      ∀ cell, ¬ Linked next (some here) cell → marked cell = marks cell := by
  induction bound generalizing marks here with
  | zero => exact absurd enough (Nat.not_lt_zero _)
  | succ bound inductionHypothesis =>
    rw [markChain]
    by_cases unmarked : marks here < t
    · rw [if_pos unmarked]
      cases successor : next here with
      | none =>
        refine ⟨_, rfl, ?_, ?_⟩
        · intro cell linked
          cases linked with
          | first => exact Function.update_self _ _ _
          | onwards _ _ rest =>
            rw [successor] at rest
            exact absurd rest not_linked_none
        · intro cell apart
          refine Function.update_of_ne ?_ _ _
          rintro rfl
          exact apart (.first cell)
      | some there =>
        have pastHere : ∀ one ∈ cells, Function.update marks here t one ≤ t := by
          intro one member
          by_cases same : one = here
          · rw [same, Function.update_self]
          · rw [Function.update_of_ne same]
            exact past one member
        have closedHere : ∀ one other, one ∈ cells → t ≤ Function.update marks here t one →
            next one = some other → t ≤ Function.update marks here t other ∨ other = there := by
          intro one other member before pointer
          by_cases same : one = here
          · rw [same, successor] at pointer
            exact .inr (Option.some.inj pointer).symm
          · rw [Function.update_of_ne same] at before
            by_cases back : other = here
            · rw [back, Function.update_self]
              exact .inl (Nat.le_refl t)
            · rw [Function.update_of_ne back]
              exact .inl ((closed one other member before pointer).resolve_right back)
        have fewer := unmarked_lt inside unmarked
        obtain ⟨marked, ran, pushed, kept⟩ := inductionHypothesis
          (within here there inside successor) pastHere closedHere (by omega)
        refine ⟨marked, ran, ?_, ?_⟩
        · intro cell linked
          by_cases further : Linked next (some there) cell
          · exact pushed cell further
          · rw [kept cell further]
            cases linked with
            | first => exact Function.update_self _ _ _
            | onwards _ _ rest =>
              rw [successor] at rest
              exact absurd rest further
        · intro cell apart
          have further : ¬ Linked next (some there) cell := by
            intro rest
            exact apart (.onwards here cell (successor ▸ rest))
          rw [kept cell further]
          refine Function.update_of_ne ?_ _ _
          rintro rfl
          exact apart (.first cell)
    · rw [if_neg unmarked]
      refine ⟨marks, rfl, ?_, fun _ _ => rfl⟩
      intro cell linked
      obtain ⟨member, marked⟩ :=
        chain_marked inside within closed (Nat.not_lt.mp unmarked) linked
      exact Nat.le_antisymm (past cell member) marked

end Marking

end Library.Chains

import Mathlib.Algebra.BigOperators.Group.List.Basic
import Mathlib.Data.List.Nodup
import Mathlib.Logic.Function.Basic
import Ospray.Library.Literals

/-!
# Loops that visit memory cells once

A loop over a list of indices reads one cell of each of two arrays, rewrites
both, and adds to a running total. When no two indices name the same cell, the
order of the visits does not matter: every visited cell holds the body's result
on its initial content, every other cell is unchanged, and the total is the sum
of the contributions.

The nested loops of a vectorised kernel, over chunks and over the lanes of one
chunk, visit a range of consecutive indices.
-/

namespace Library.Loops

universe u
variable {ι κ₁ κ₂ α β S : Type u}

/-- Two arrays and a running total. -/
structure Memory (κ₁ κ₂ α β S : Type u) where
  first : κ₁ → α
  second : κ₂ → β
  total : S

section Sweep

variable [DecidableEq κ₁] [DecidableEq κ₂] [AddMonoid S]
variable (key₁ : ι → κ₁) (key₂ : ι → κ₂) (body : ι → α → β → α × β × S)

/-- One iteration reads the two cells its index names and writes both back. -/
def visit (memory : Memory κ₁ κ₂ α β S) (index : ι) : Memory κ₁ κ₂ α β S :=
  let result := body index (memory.first (key₁ index)) (memory.second (key₂ index))
  { first := Function.update memory.first (key₁ index) result.1
    second := Function.update memory.second (key₂ index) result.2.1
    total := memory.total + result.2.2 }

/-- The whole loop, in list order. -/
def sweep (indices : List ι) (memory : Memory κ₁ κ₂ α β S) : Memory κ₁ κ₂ α β S :=
  indices.foldl (visit key₁ key₂ body) memory

theorem sweep_first_other (indices : List ι) (memory : Memory κ₁ κ₂ α β S) (cell : κ₁)
    (unnamed : cell ∉ indices.map key₁) :
    (sweep key₁ key₂ body indices memory).first cell = memory.first cell := by
  induction indices generalizing memory with
  | nil => rfl
  | cons index rest inductionHypothesis =>
    simp only [List.map_cons, List.mem_cons, not_or] at unnamed
    have later := inductionHypothesis (visit key₁ key₂ body memory index) unnamed.2
    have now : (visit key₁ key₂ body memory index).first cell = memory.first cell :=
      Function.update_of_ne unnamed.1 _ _
    exact later.trans now

theorem sweep_second_other (indices : List ι) (memory : Memory κ₁ κ₂ α β S) (cell : κ₂)
    (unnamed : cell ∉ indices.map key₂) :
    (sweep key₁ key₂ body indices memory).second cell = memory.second cell := by
  induction indices generalizing memory with
  | nil => rfl
  | cons index rest inductionHypothesis =>
    simp only [List.map_cons, List.mem_cons, not_or] at unnamed
    have later := inductionHypothesis (visit key₁ key₂ body memory index) unnamed.2
    have now : (visit key₁ key₂ body memory index).second cell = memory.second cell :=
      Function.update_of_ne unnamed.1 _ _
    exact later.trans now

/-- A visited cell is rewritten from its initial content and from the initial
content of its partner. The visit itself does so; the later visits name other
cells, and the earlier ones have not touched these two. -/
theorem sweep_visited (indices : List ι) (memory : Memory κ₁ κ₂ α β S)
    (distinct₁ : (indices.map key₁).Nodup) (distinct₂ : (indices.map key₂).Nodup)
    (index : ι) (visited : index ∈ indices) :
    let result := body index (memory.first (key₁ index)) (memory.second (key₂ index))
    (sweep key₁ key₂ body indices memory).first (key₁ index) = result.1 ∧
      (sweep key₁ key₂ body indices memory).second (key₂ index) = result.2.1 := by
  induction indices generalizing memory with
  | nil => simp at visited
  | cons head rest inductionHypothesis =>
    simp only [List.map_cons, List.nodup_cons] at distinct₁ distinct₂
    have unfolded : sweep key₁ key₂ body (head :: rest) memory =
        sweep key₁ key₂ body rest (visit key₁ key₂ body memory head) := rfl
    rw [unfolded]
    rcases List.mem_cons.mp visited with rfl | later
    · rw [sweep_first_other key₁ key₂ body rest _ _ distinct₁.1,
        sweep_second_other key₁ key₂ body rest _ _ distinct₂.1]
      exact ⟨Function.update_self _ _ _, Function.update_self _ _ _⟩
    · have apart₁ : key₁ index ≠ key₁ head := by
        intro same
        exact distinct₁.1 (same ▸ List.mem_map.mpr ⟨index, later, rfl⟩)
      have apart₂ : key₂ index ≠ key₂ head := by
        intro same
        exact distinct₂.1 (same ▸ List.mem_map.mpr ⟨index, later, rfl⟩)
      have fromHere := inductionHypothesis (visit key₁ key₂ body memory head)
        distinct₁.2 distinct₂.2 later
      simpa only [visit, Function.update_of_ne apart₁, Function.update_of_ne apart₂]
        using fromHere

/-- The total grows by the contribution of every visit, each computed from the
initial memory. -/
theorem sweep_total (indices : List ι) (memory : Memory κ₁ κ₂ α β S)
    (distinct₁ : (indices.map key₁).Nodup) (distinct₂ : (indices.map key₂).Nodup) :
    (sweep key₁ key₂ body indices memory).total = memory.total +
      (indices.map (fun index =>
        (body index (memory.first (key₁ index)) (memory.second (key₂ index))).2.2)).sum := by
  induction indices generalizing memory with
  | nil => simp [sweep]
  | cons head rest inductionHypothesis =>
    simp only [List.map_cons, List.nodup_cons] at distinct₁ distinct₂
    have unfolded : sweep key₁ key₂ body (head :: rest) memory =
        sweep key₁ key₂ body rest (visit key₁ key₂ body memory head) := rfl
    have untouched : ∀ index ∈ rest,
        (body index ((visit key₁ key₂ body memory head).first (key₁ index))
          ((visit key₁ key₂ body memory head).second (key₂ index))).2.2 =
        (body index (memory.first (key₁ index)) (memory.second (key₂ index))).2.2 := by
      intro index later
      have apart₁ : key₁ index ≠ key₁ head := by
        intro same
        exact distinct₁.1 (same ▸ List.mem_map.mpr ⟨index, later, rfl⟩)
      have apart₂ : key₂ index ≠ key₂ head := by
        intro same
        exact distinct₂.1 (same ▸ List.mem_map.mpr ⟨index, later, rfl⟩)
      simp only [visit, Function.update_of_ne apart₁, Function.update_of_ne apart₂]
    rw [unfolded, inductionHypothesis _ distinct₁.2 distinct₂.2,
      List.map_congr_left untouched, List.map_cons, List.sum_cons, ← add_assoc]
    rfl

end Sweep

section Once

variable {σ : Type u} (step : σ → ι → σ) (observe : σ → α) (invariant : σ → Prop)

theorem foldl_never (indices : List ι)
    (kept : ∀ state, ∀ index ∈ indices, invariant state → invariant (step state index))
    (untouched : ∀ state, ∀ index ∈ indices, invariant state →
      observe (step state index) = observe state) {state : σ} (holds : invariant state) :
    observe (indices.foldl step state) = observe state := by
  induction indices generalizing state with
  | nil => rfl
  | cons head rest inductionHypothesis =>
    have now := untouched state head List.mem_cons_self holds
    have later := inductionHypothesis
      (fun state index member => kept state index (List.mem_cons_of_mem head member))
      (fun state index member => untouched state index (List.mem_cons_of_mem head member))
      (kept state head List.mem_cons_self holds)
    exact later.trans now

/-- What one iteration alone touches is updated once, whatever the order of the
iterations is. -/
theorem foldl_once (update : α → α) (own : ι) {indices : List ι} (distinct : indices.Nodup)
    (member : own ∈ indices)
    (kept : ∀ state, ∀ index ∈ indices, invariant state → invariant (step state index))
    (untouched : ∀ state, ∀ index ∈ indices, index ≠ own → invariant state →
      observe (step state index) = observe state)
    (updated : ∀ state, invariant state → observe (step state own) = update (observe state))
    {state : σ} (holds : invariant state) :
    observe (indices.foldl step state) = update (observe state) := by
  induction indices generalizing state with
  | nil => simp at member
  | cons head rest inductionHypothesis =>
    obtain ⟨apart, distinctRest⟩ := List.nodup_cons.mp distinct
    have keptRest := fun state index member => kept state index (List.mem_cons_of_mem head member)
    have holdsNext := kept state head List.mem_cons_self holds
    rcases List.mem_cons.mp member with rfl | later
    · have afterwards := foldl_never step observe invariant rest keptRest
        (fun state index member => untouched state index (List.mem_cons_of_mem own member)
          (fun same => apart (same ▸ member))) holdsNext
      exact afterwards.trans (updated state holds)
    · have before := untouched state head List.mem_cons_self
        (fun same => apart (same ▸ later)) holds
      have afterwards := inductionHypothesis distinctRest later keptRest
        (fun state index member => untouched state index (List.mem_cons_of_mem head member))
        holdsNext
      exact afterwards.trans (congrArg update before)

end Once

/-- The iterations of a chunked loop: all lanes of chunk 0, then all lanes of
chunk 1, and so on. -/
def chunkLanes (chunks lanes : Nat) : List (Nat × Nat) :=
  (List.range chunks).flatMap (fun chunk => (List.range lanes).map (fun lane => (chunk, lane)))

theorem chunkLanes_succ (chunks lanes : Nat) :
    chunkLanes (chunks + 1) lanes =
      chunkLanes chunks lanes ++ (List.range lanes).map (fun lane => (chunks, lane)) := by
  simp only [chunkLanes, List.range_succ, List.flatMap_append, List.flatMap_singleton]

theorem chunkLanes_index (chunks lanes : Nat) :
    (chunkLanes chunks lanes).map (fun step => step.1 * lanes + step.2) =
      List.range (chunks * lanes) := by
  induction chunks with
  | zero => simp [chunkLanes]
  | succ chunks inductionHypothesis =>
    rw [chunkLanes_succ, List.map_append, inductionHypothesis, Nat.succ_mul, List.range_add, List.map_map]
    rfl

theorem mem_chunkLanes (chunks lanes : Nat) (step : Nat × Nat) :
    step ∈ chunkLanes chunks lanes ↔ step.1 < chunks ∧ step.2 < lanes := by
  obtain ⟨chunk, lane⟩ := step
  simp [chunkLanes]

theorem stride_lt {stride rows row col : Nat} (inside : col < stride) (below : row < rows) :
    row * stride + col < rows * stride :=
  calc
    _ < (row + 1) * stride := by
      rw [Nat.add_mul, Nat.one_mul]
      exact Nat.add_lt_add_left inside _
    _ ≤ _ := Nat.mul_le_mul_right _ below

theorem stride_injective {stride row col row' col' : Nat} (inside : col < stride)
    (inside' : col' < stride) (same : row * stride + col = row' * stride + col') :
    row = row' ∧ col = col' := by
  have rows := congrArg (· / stride) same
  have cols := congrArg (· % stride) same
  have positive : 0 < stride := by omega
  simp only [Nat.mul_comm _ stride, Nat.mul_add_div positive, Nat.mul_add_mod,
    Nat.div_eq_of_lt inside, Nat.div_eq_of_lt inside', Nat.mod_eq_of_lt inside,
    Nat.mod_eq_of_lt inside', Nat.add_zero] at rows cols
  exact ⟨rows, cols⟩

theorem chunkLanes_nodup (chunks lanes : Nat) : (chunkLanes chunks lanes).Nodup := by
  have numbered : ((chunkLanes chunks lanes).map (fun step => step.1 * lanes + step.2)).Nodup := by
    rw [chunkLanes_index]
    exact List.nodup_range
  exact List.Nodup.of_map _ numbered

theorem chunkLanes_cells_nodup {chunks lanes stride start offset : Nat}
    (fits : ∀ lane < lanes, offset + lane < stride) :
    ((chunkLanes chunks lanes).map
      (fun step => (start + step.1) * stride + (offset + step.2))).Nodup := by
  refine List.Nodup.map_on ?_ (chunkLanes_nodup chunks lanes)
  rintro ⟨row, col⟩ member ⟨row', col'⟩ member' same
  have inside := fits col ((mem_chunkLanes _ _ _).mp member).2
  have inside' := fits col' ((mem_chunkLanes _ _ _).mp member').2
  obtain ⟨rows, cols⟩ := stride_injective inside inside' same
  exact Prod.ext (Nat.add_left_cancel rows) (Nat.add_left_cancel cols)

/-- Masking the end of each row of a linear loop leaves the sum over the pairs
within the bounds. The induction is on the rows; each row is split at the width of
its unmasked part. -/
theorem sum_masked [AddMonoid S] (rows width stride : Nat) (narrow : width ≤ stride)
    (contribution : Nat → S) :
    ((List.range (rows * stride)).map (fun cell =>
        if cell % stride < width then contribution cell else 0)).sum =
      ((chunkLanes rows width).map (fun step => contribution (step.1 * stride + step.2))).sum := by
  obtain ⟨rest, rfl⟩ := Nat.exists_eq_add_of_le narrow
  induction rows with
  | zero => simp [chunkLanes]
  | succ rows inductionHypothesis =>
    have column : ∀ lane < width + rest, (rows * (width + rest) + lane) % (width + rest) = lane := by
      intro lane small
      rw [Nat.mul_add_mod_self_right, Nat.mod_eq_of_lt small]
    have kept : (List.range width).map (fun lane =>
        if (rows * (width + rest) + lane) % (width + rest) < width then
          contribution (rows * (width + rest) + lane) else 0) =
        (List.range width).map (fun lane => contribution (rows * (width + rest) + lane)) := by
      refine List.map_congr_left ?_
      intro lane inside
      have small := List.mem_range.mp inside
      rw [column lane (by omega), if_pos small]
    have masked : (List.range rest).map (fun lane =>
        if (rows * (width + rest) + (width + lane)) % (width + rest) < width then
          contribution (rows * (width + rest) + (width + lane)) else 0) =
        (List.range rest).map (fun _ => (0 : S)) := by
      refine List.map_congr_left ?_
      intro lane inside
      have small := List.mem_range.mp inside
      rw [column (width + lane) (by omega), if_neg (by omega)]
    rw [Nat.succ_mul, List.range_add, List.map_append, List.sum_append, inductionHypothesis,
      chunkLanes_succ, List.map_append, List.sum_append, List.range_add]
    simp only [List.map_append, List.map_map, List.sum_append, Function.comp_def, kept, masked]
    simp

end Library.Loops

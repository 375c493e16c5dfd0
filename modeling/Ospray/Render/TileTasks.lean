import Mathlib
import Ospray.Fb.TileError
import Ospray.Fb.TileGrid
import Ospray.Render.DynamicMaster

/-!
# The tasks of the dynamic load balancer

Before a frame the master creates one task for each tile whose error is above the
threshold, and then goes over these tiles again, the one with the highest error first,
until there are as many tasks as the frame has tiles. `accumID` counts the tasks of a
tile twice: in the number the next sample gets, which goes on from frame to frame, and
in the number of instances, which the owner of the tile is told.

The tasks are the visits of the two loops, so a statement about them is one about the
list of visited tiles: active tiles once, and then in turns.
-/

namespace Ospray

open Library.Loops

variable {K : Type} {n : Nat}

/-- What the master uses of the `DistributedFrameBuffer`. -/
structure TaskSource (K : Type) where
  numTiles : Vec2i
  channels : Channels
  tileErrorRegion : TileError K
  tileAccumID : Nat → Int
  tileInstances : Nat → Int

/-- `getTotalTiles`. -/
def TaskSource.totalTiles (self : TaskSource K) : Nat := self.numTiles.x * self.numTiles.y

/-- The number of a tile. -/
def TaskSource.tileNr (self : TaskSource K) (tileId : Vec2i) : Nat :=
  tileId.y * self.numTiles.x + tileId.x

/-- `DistributedFrameBuffer::accumID`. -/
def TaskSource.accumID (self : TaskSource K) (tile : Vec2i) : Int × TaskSource K :=
  if !self.channels.hasAccumBuffer then (0, self)
  else
    let tileNr := self.tileNr tile
    (self.tileAccumID tileNr,
      { self with
        tileInstances := Function.update self.tileInstances tileNr (self.tileInstances tileNr + 1)
        tileAccumID := Function.update self.tileAccumID tileNr (self.tileAccumID tileNr + 1) })

/-- `workerRankFromGlobalRank`. -/
def workerRankFromGlobalRank (globalRank : Nat) : Nat := globalRank - 1

/-- The worker that owns a tile; the master is none. -/
def owningWorker (workers : 0 < n) (tileNr : Nat) : Fin n :=
  ⟨workerRankFromGlobalRank (ownerIDFromTileID (n + 1) false tileNr), by
    have rest := Nat.mod_lt tileNr workers
    simp only [workerRankFromGlobalRank, ownerIDFromTileID, Bool.false_eq_true, if_false,
      Nat.add_sub_cancel]
    omega⟩

/-- The state `generateTileTasks` works on. -/
structure TaskRun (n : Nat) (K : Type) where
  dfb : TaskSource K
  preferredTiles : Fin n → List TileTask

/-- An `ActiveTile`. -/
structure ActiveTile (K : Type) where
  error : WithTop K
  id : Vec2i

/-- A new task for a tile, in the queue of the worker that owns it. -/
def TaskRun.pushTask (workers : 0 < n) (self : TaskRun n K) (tileId : Vec2i) : TaskRun n K :=
  let accum := self.dfb.accumID tileId
  let nr := owningWorker workers (self.dfb.tileNr tileId)
  { dfb := accum.2
    preferredTiles := Function.update self.preferredTiles nr
      (self.preferredTiles nr ++ [{ tileId := tileId, accumId := accum.1 }]) }

section Generate

variable [LinearOrder K]

/-- The loops over all tiles, of which the active ones are remembered. -/
def TaskRun.firstTasks (workers : 0 < n) (errorThreshold : WithTop K) (self : TaskRun n K) :
    TaskRun n K × List (ActiveTile K) :=
  (chunkLanes self.dfb.numTiles.y self.dfb.numTiles.x).foldl (fun state step =>
    let tileId : Vec2i := ⟨step.2, step.1⟩
    let tileError := state.1.dfb.tileErrorRegion.get tileId
    if tileError ≤ errorThreshold then state
    else (state.1.pushTask workers tileId, state.2 ++ [{ error := tileError, id := tileId }]))
    (self, [])

omit [LinearOrder K] in
/-- The loop over the active tiles from `it` on, which starts again from the beginning,
for so many further tasks. -/
def TaskRun.duplicateTasks (workers : 0 < n) (activeTiles : List (ActiveTile K)) :
    Nat → Nat → TaskRun n K → TaskRun n K
  | _, 0, self => self
  | it, remaining + 1, self =>
    let tileId := (activeTiles.getD it ⟨⊤, ⟨0, 0⟩⟩).id
    TaskRun.duplicateTasks workers activeTiles
      (if it + 1 = activeTiles.length then 0 else it + 1) remaining (self.pushTask workers tileId)

/-- `generateTileTasks`. How `std::sort` orders tiles of equal error is left open, so the
sorted list is a function of the unsorted one. -/
def TaskRun.generateTileTasks (workers : 0 < n)
    (sort : List (ActiveTile K) → List (ActiveTile K)) (errorThreshold : WithTop K)
    (self : TaskRun n K) : TaskRun n K :=
  let first := self.firstTasks workers errorThreshold
  if first.2.isEmpty then first.1
  else
    first.1.duplicateTasks workers (sort first.2) 0 (first.1.dfb.totalTiles - first.2.length)

/-- The tiles of the frame that are above the threshold, in the order of their numbers. -/
def TaskSource.activeIds (errorThreshold : WithTop K) (self : TaskSource K) : List Vec2i :=
  ((chunkLanes self.numTiles.y self.numTiles.x).map fun step => (⟨step.2, step.1⟩ : Vec2i)).filter
    fun tileId => errorThreshold < self.tileErrorRegion.get tileId

end Generate

/-- Entry `i` of a list that is gone over in turns. -/
def inTurns (ids : List Vec2i) (i : Nat) : Vec2i := ids.getD (i % ids.length) ⟨0, 0⟩

/-! ## The visited tiles -/

section Visits

variable (workers : 0 < n)

theorem pushTask_frame (self : TaskRun n K) (tileId : Vec2i) :
    (self.pushTask workers tileId).dfb.numTiles = self.dfb.numTiles ∧
      (self.pushTask workers tileId).dfb.channels = self.dfb.channels ∧
      (self.pushTask workers tileId).dfb.tileErrorRegion = self.dfb.tileErrorRegion := by
  unfold TaskRun.pushTask TaskSource.accumID
  dsimp only
  split <;> exact ⟨rfl, rfl, rfl⟩

theorem pushTasks_frame (self : TaskRun n K) (ids : List Vec2i) :
    (ids.foldl (TaskRun.pushTask workers) self).dfb.numTiles = self.dfb.numTiles ∧
      (ids.foldl (TaskRun.pushTask workers) self).dfb.channels = self.dfb.channels ∧
      (ids.foldl (TaskRun.pushTask workers) self).dfb.tileErrorRegion =
        self.dfb.tileErrorRegion := by
  induction ids generalizing self with
  | nil => exact ⟨rfl, rfl, rfl⟩
  | cons tileId rest inductionHypothesis =>
    obtain ⟨tiles, channels, errors⟩ := inductionHypothesis (self.pushTask workers tileId)
    obtain ⟨tiles', channels', errors'⟩ := pushTask_frame workers self tileId
    exact ⟨tiles.trans tiles', channels.trans channels', errors.trans errors'⟩

/-- The loop over the active tiles visits them in turns. -/
theorem duplicateTasks_eq (activeTiles : List (ActiveTile K)) (remaining it : Nat)
    (self : TaskRun n K) (inside : it < activeTiles.length) :
    self.duplicateTasks workers activeTiles it remaining =
      ((List.range remaining).map fun i => inTurns (activeTiles.map ActiveTile.id) (it + i)).foldl
        (TaskRun.pushTask workers) self := by
  induction remaining generalizing it self with
  | zero => rfl
  | succ remaining inductionHypothesis =>
    have now : inTurns (activeTiles.map ActiveTile.id) (it + 0) =
        (activeTiles.getD it ⟨⊤, ⟨0, 0⟩⟩).id := by
      simp [inTurns, Nat.mod_eq_of_lt inside, List.getD_eq_getElem?_getD,
        List.getElem?_eq_getElem inside]
    have later : ∀ i, inTurns (activeTiles.map ActiveTile.id)
        ((if it + 1 = activeTiles.length then 0 else it + 1) + i) =
          inTurns (activeTiles.map ActiveTile.id) (it + (i + 1)) := by
      intro i
      unfold inTurns
      congr 1
      rw [List.length_map]
      split
      · next last =>
        rw [← Nat.add_assoc, Nat.add_right_comm, last, Nat.zero_add, Nat.add_mod_left]
      · rw [Nat.add_assoc, Nat.add_comm 1 i]
    have next : (if it + 1 = activeTiles.length then 0 else it + 1) < activeTiles.length := by
      split <;> omega
    rw [TaskRun.duplicateTasks, inductionHypothesis _ _ next, List.range_succ_eq_map,
      List.map_cons, List.foldl_cons, List.map_map]
    simp only [now, later]
    rfl

variable [LinearOrder K]

/-- The loops over all tiles visit the active ones. -/
theorem firstTasks_eq (errorThreshold : WithTop K) (self : TaskRun n K) :
    (self.firstTasks workers errorThreshold).1 =
        (self.dfb.activeIds errorThreshold).foldl (TaskRun.pushTask workers) self ∧
      (self.firstTasks workers errorThreshold).2.map ActiveTile.id =
        self.dfb.activeIds errorThreshold := by
  unfold TaskRun.firstTasks TaskSource.activeIds
  generalize chunkLanes self.dfb.numTiles.y self.dfb.numTiles.x = steps
  induction steps using List.reverseRecOn with
  | nil => exact ⟨rfl, rfl⟩
  | append_singleton steps step inductionHypothesis =>
    obtain ⟨run, ids⟩ := inductionHypothesis
    have errors := (pushTasks_frame workers self (List.filter (fun tileId =>
      errorThreshold < self.dfb.tileErrorRegion.get tileId)
        (steps.map fun step => (⟨step.2, step.1⟩ : Vec2i)))).2.2
    simp only [List.foldl_append, List.foldl_cons, List.foldl_nil, List.map_append, List.map_cons,
      List.map_nil, List.filter_append]
    rw [run, errors]
    by_cases skipped : self.dfb.tileErrorRegion.get ⟨step.2, step.1⟩ ≤ errorThreshold
    · have inactive : ¬ errorThreshold < self.dfb.tileErrorRegion.get ⟨step.2, step.1⟩ :=
        not_lt.mpr skipped
      simp only [if_pos skipped]
      rw [List.filter_cons_of_neg (by simpa using skipped), List.filter_nil, List.append_nil]
      exact ⟨run, ids⟩
    · have active : errorThreshold < self.dfb.tileErrorRegion.get ⟨step.2, step.1⟩ :=
        not_le.mp skipped
      simp only [if_neg skipped]
      rw [List.filter_cons_of_pos (by simpa using active), List.filter_nil]
      refine ⟨rfl, ?_⟩
      rw [List.map_append]
      exact congrArg (· ++ [(⟨step.2, step.1⟩ : Vec2i)]) ids

/-- The tasks are the visits of both loops. -/
theorem generateTileTasks_eq {sort : List (ActiveTile K) → List (ActiveTile K)}
    (sorts : ∀ tiles, (sort tiles).Perm tiles) (errorThreshold : WithTop K) (self : TaskRun n K) :
    ∃ order, order.Perm (self.dfb.activeIds errorThreshold) ∧
      self.generateTileTasks workers sort errorThreshold =
        (self.dfb.activeIds errorThreshold ++
          (if order = [] then [] else
            (List.range (self.dfb.totalTiles - order.length)).map (inTurns order))).foldl
          (TaskRun.pushTask workers) self := by
  obtain ⟨run, ids⟩ := firstTasks_eq workers errorThreshold self
  have tiles := (pushTasks_frame workers self (self.dfb.activeIds errorThreshold)).1
  unfold TaskRun.generateTileTasks
  dsimp only
  generalize active : (self.firstTasks workers errorThreshold).2 = activeTiles at ids
  have perm : ((sort activeTiles).map ActiveTile.id).Perm (self.dfb.activeIds errorThreshold) := by
    rw [← ids]
    exact (sorts activeTiles).map _
  refine ⟨(sort activeTiles).map ActiveTile.id, perm, ?_⟩
  rw [run]
  cases activeTiles with
  | nil =>
    have none_ : sort [] = [] := (sorts []).eq_nil
    simp [none_]
  | cons first rest =>
    have lengths := (sorts (first :: rest)).length_eq
    have inside : 0 < (sort (first :: rest)).length := by
      rw [lengths]
      exact Nat.succ_pos _
    have some_ : (sort (first :: rest)).map ActiveTile.id ≠ [] := by
      simpa using List.ne_nil_of_length_pos inside
    rw [duplicateTasks_eq workers _ _ 0 _ inside, if_neg some_, List.foldl_append]
    simp only [List.isEmpty_cons, Bool.false_eq_true, if_false, Nat.zero_add, List.length_map,
      lengths, TaskSource.totalTiles, tiles]

theorem mem_activeIds (errorThreshold : WithTop K) (self : TaskSource K) (tileId : Vec2i) :
    tileId ∈ self.activeIds errorThreshold ↔
      (tileId.x < self.numTiles.x ∧ tileId.y < self.numTiles.y) ∧
        errorThreshold < self.tileErrorRegion.get tileId := by
  obtain ⟨x, y⟩ := tileId
  simp only [TaskSource.activeIds, List.mem_filter, List.mem_map, decide_eq_true_eq]
  constructor
  · rintro ⟨⟨step, member, same⟩, active⟩
    obtain ⟨rows, columns⟩ := (mem_chunkLanes _ _ _).mp member
    obtain ⟨rfl, rfl⟩ := Vec2i.mk.inj same
    exact ⟨⟨columns, rows⟩, active⟩
  · rintro ⟨⟨columns, rows⟩, active⟩
    exact ⟨⟨(y, x), (mem_chunkLanes _ _ _).mpr ⟨rows, columns⟩, rfl⟩, active⟩

/-- No tile is visited twice before the duplicates, so there are no more active tiles
than tiles. -/
theorem activeIds_nodup (errorThreshold : WithTop K) (self : TaskSource K) :
    (self.activeIds errorThreshold).Nodup ∧
      (self.activeIds errorThreshold).length ≤ self.totalTiles := by
  constructor
  · refine List.Nodup.filter _ ((chunkLanes_nodup _ _).map ?_)
    rintro ⟨row, column⟩ ⟨row', column'⟩ same
    obtain ⟨rfl, rfl⟩ := Vec2i.mk.inj same
    rfl
  · have all := congrArg List.length (chunkLanes_index self.numTiles.y self.numTiles.x)
    rw [List.length_map, List.length_range, Nat.mul_comm] at all
    unfold TaskSource.activeIds TaskSource.totalTiles
    refine (List.length_filter_le _ _).trans ?_
    rw [List.length_map, all]

omit [LinearOrder K] in
/-- How often an entry is visited in so many turns. -/
theorem count_inTurns {order : List Vec2i} (distinct : order.Nodup) {k : Nat}
    (inside : k < order.length) (rounds : Nat) :
    ((List.range rounds).map (inTurns order)).count order[k] =
      rounds / order.length + if k < rounds % order.length then 1 else 0 := by
  have positive : 0 < order.length := Nat.zero_lt_of_lt inside
  have visited : ∀ i, inTurns order i = order[k] ↔ i ≡ k [MOD order.length] := by
    intro i
    have here := Nat.mod_lt i positive
    rw [inTurns, List.getD_eq_getElem _ _ here, distinct.getElem_inj_iff, Nat.ModEq,
      Nat.mod_eq_of_lt inside]
  have counted : ((List.range rounds).map (inTurns order)).count order[k] =
      rounds.count (· ≡ k [MOD order.length]) := by
    induction rounds with
    | zero => rfl
    | succ rounds inductionHypothesis =>
      rw [List.range_succ, List.map_append, List.count_append, inductionHypothesis, Nat.count_succ,
        List.map_singleton, List.count_singleton]
      simp only [beq_iff_eq, visited]
  rw [counted, Nat.count_modEq_card _ positive, Nat.mod_eq_of_lt inside]

end Visits

/-! ## What the visits leave -/

section Counts

variable (workers : 0 < n)

theorem tileNr_injective (self : TaskSource K) {tileId other : Vec2i}
    (inside : tileId.x < self.numTiles.x) (inside' : other.x < self.numTiles.x)
    (same : self.tileNr tileId = self.tileNr other) : tileId = other := by
  obtain ⟨rows, columns⟩ := stride_injective inside inside' same
  cases tileId
  cases other
  exact Vec2i.mk.injEq .. ▸ ⟨columns, rows⟩

/-- What a new task does to the counters of each tile and to each queue. -/
theorem pushTask_at (self : TaskRun n K) (accumulates : self.dfb.channels.hasAccumBuffer = true)
    (tileId : Vec2i) :
    (∀ tileNr, (self.pushTask workers tileId).dfb.tileInstances tileNr =
        self.dfb.tileInstances tileNr + if tileNr = self.dfb.tileNr tileId then 1 else 0) ∧
      (∀ tileNr, (self.pushTask workers tileId).dfb.tileAccumID tileNr =
        self.dfb.tileAccumID tileNr + if tileNr = self.dfb.tileNr tileId then 1 else 0) ∧
      ∀ worker, (self.pushTask workers tileId).preferredTiles worker =
        self.preferredTiles worker ++
          if owningWorker workers (self.dfb.tileNr tileId) = worker then
            [{ tileId := tileId, accumId := self.dfb.tileAccumID (self.dfb.tileNr tileId) }]
          else [] := by
  simp only [TaskRun.pushTask, TaskSource.accumID, accumulates, Bool.not_true, Bool.false_eq_true,
    if_false]
  refine ⟨?_, ?_, ?_⟩
  · intro tileNr
    by_cases own : tileNr = self.dfb.tileNr tileId
    · rw [own, Function.update_self, if_pos rfl]
    · rw [Function.update_of_ne own, if_neg own, Int.add_zero]
  · intro tileNr
    by_cases own : tileNr = self.dfb.tileNr tileId
    · rw [own, Function.update_self, if_pos rfl]
    · rw [Function.update_of_ne own, if_neg own, Int.add_zero]
  · intro worker
    by_cases own : owningWorker workers (self.dfb.tileNr tileId) = worker
    · rw [← own, Function.update_self, if_pos rfl]
    · rw [Function.update_of_ne (Ne.symm own), if_neg own, List.append_nil]

/-- What visits of tiles of the frame leave: every task in the queue of the worker that
owns its tile, and a tile's tasks numbered from where its counter stood. The induction is
on the visits, from the last one backwards. -/
theorem pushTasks_counted (self : TaskRun n K) (accumulates : self.dfb.channels.hasAccumBuffer = true)
    (ids : List Vec2i) (inFrame : ∀ tileId ∈ ids, tileId.x < self.dfb.numTiles.x) :
    let after := ids.foldl (TaskRun.pushTask workers) self
    ∃ added : Fin n → List TileTask,
      (∀ worker, after.preferredTiles worker = self.preferredTiles worker ++ added worker) ∧
      (∀ worker, (added worker).map TileTask.tileId =
        ids.filter fun tileId => owningWorker workers (self.dfb.tileNr tileId) = worker) ∧
      ∀ tileId, tileId.x < self.dfb.numTiles.x →
        after.dfb.tileInstances (self.dfb.tileNr tileId) =
            self.dfb.tileInstances (self.dfb.tileNr tileId) + ids.count tileId ∧
          after.dfb.tileAccumID (self.dfb.tileNr tileId) =
            self.dfb.tileAccumID (self.dfb.tileNr tileId) + ids.count tileId ∧
          ((added (owningWorker workers (self.dfb.tileNr tileId))).filter
              fun task => task.tileId = tileId).map TileTask.accumId =
            (List.range (ids.count tileId)).map
              fun i : Nat => self.dfb.tileAccumID (self.dfb.tileNr tileId) + (i : Int) := by
  induction ids using List.reverseRecOn with
  | nil => exact ⟨fun _ => [], by simp⟩
  | append_singleton ids visited inductionHypothesis =>
    obtain ⟨added, queues, owners, counts⟩ := inductionHypothesis
      (fun tileId member => inFrame tileId (List.mem_append_left _ member))
    have visitedInside := inFrame visited (List.mem_append_right _ (List.mem_singleton.mpr rfl))
    obtain ⟨tiles, channels, -⟩ := pushTasks_frame workers self ids
    obtain ⟨instances, accumIDs, pushed⟩ := pushTask_at workers
      (ids.foldl (TaskRun.pushTask workers) self) (by rw [channels]; exact accumulates) visited
    have numbered : (ids.foldl (TaskRun.pushTask workers) self).dfb.tileNr visited =
        self.dfb.tileNr visited := by
      rw [TaskSource.tileNr, tiles]
      rfl
    have current := (counts visited visitedInside).2.1
    rw [numbered] at instances accumIDs pushed
    rw [current] at pushed
    simp only [List.foldl_append, List.foldl_cons, List.foldl_nil]
    refine ⟨fun worker => added worker ++
      if owningWorker workers (self.dfb.tileNr visited) = worker then
        [{ tileId := visited
           accumId := self.dfb.tileAccumID (self.dfb.tileNr visited) + ids.count visited }]
      else [], ?_, ?_, ?_⟩
    · intro worker
      rw [pushed, queues, List.append_assoc]
    · intro worker
      rw [List.map_append, List.filter_append, owners]
      by_cases own : owningWorker workers (self.dfb.tileNr visited) = worker
      · simp [own]
      · simp [own]
    · intro tileId inside
      obtain ⟨instancesBefore, accumBefore, numbers⟩ := counts tileId inside
      rw [instances, accumIDs, instancesBefore, accumBefore, List.count_append,
        List.count_singleton]
      by_cases own : visited = tileId
      · subst own
        simp only [beq_self_eq_true, if_true]
        refine ⟨by push_cast; ring, by push_cast; ring, ?_⟩
        rw [List.filter_append, List.map_append, numbers, List.range_succ, List.map_append]
        simp
      · have apart : ¬ self.dfb.tileNr tileId = self.dfb.tileNr visited := by
          intro same
          exact own (tileNr_injective self.dfb inside visitedInside same).symm
        rw [if_neg apart, if_neg (by simpa using own)]
        refine ⟨by simp, by simp, ?_⟩
        rw [List.filter_append, List.map_append, numbers]
        by_cases queue : owningWorker workers (self.dfb.tileNr visited) =
            owningWorker workers (self.dfb.tileNr tileId)
        · simp [queue, own]
        · simp [queue]

theorem queues_total (ids : List Vec2i) (owner : Vec2i → Fin n) :
    ∑ worker, (ids.filter fun tileId => owner tileId = worker).length = ids.length := by
  induction ids with
  | nil => simp
  | cons tileId rest inductionHypothesis =>
    have one : ∀ worker, ((tileId :: rest).filter fun tileId => owner tileId = worker).length =
        (rest.filter fun tileId => owner tileId = worker).length +
          if owner tileId = worker then 1 else 0 := by
      intro worker
      by_cases own : owner tileId = worker <;> simp [own]
    simp only [one, Finset.sum_add_distrib, inductionHypothesis, List.length_cons,
      Finset.sum_ite_eq, Finset.mem_univ, if_true]

end Counts

section Claims

variable [LinearOrder K]

/-- How many tasks a tile gets: none if it is not active, otherwise the number of tiles
divided by that of active ones, rounded down or up. -/
theorem visits_count {errorThreshold : WithTop K} {self : TaskSource K} {order : List Vec2i}
    (perm : order.Perm (self.activeIds errorThreshold)) (tileId : Vec2i) :
    let visits := self.activeIds errorThreshold ++ (if order = [] then [] else
      (List.range (self.totalTiles - order.length)).map (inTurns order))
    let active := (self.activeIds errorThreshold).length
    (visits.length = if self.activeIds errorThreshold = [] then 0 else self.totalTiles) ∧
      (∀ visited ∈ visits, visited ∈ self.activeIds errorThreshold) ∧
      (tileId ∈ self.activeIds errorThreshold → visits.count tileId = self.totalTiles / active ∨
        visits.count tileId = divRoundUp self.totalTiles active) := by
  obtain ⟨distinct, few⟩ := activeIds_nodup errorThreshold self
  have distinctOrder := perm.nodup_iff.mpr distinct
  have lengths := perm.length_eq
  intro visits active
  by_cases none_ : order = []
  · have inactive : self.activeIds errorThreshold = [] := by
      rw [none_] at perm
      exact perm.nil_eq.symm
    simp [visits, none_, inactive]
  · have positive : 0 < order.length := List.length_pos_iff.mpr none_
    have someActive : self.activeIds errorThreshold ≠ [] := by
      rw [← List.length_pos_iff, ← lengths]
      exact positive
    simp only [visits, active, if_neg none_, if_neg someActive, ← lengths]
    rw [← lengths] at few
    refine ⟨?_, ?_, ?_⟩
    · rw [List.length_append, List.length_map, List.length_range, ← lengths]
      exact Nat.add_sub_of_le few
    · intro visited member
      rcases List.mem_append.mp member with first | duplicate
      · exact first
      · obtain ⟨i, -, rfl⟩ := List.mem_map.mp duplicate
        rw [inTurns, List.getD_eq_getElem _ _ (Nat.mod_lt i positive)]
        exact perm.mem_iff.mp (List.getElem_mem _)
    · intro isActive
      obtain ⟨k, inside, rfl⟩ := List.getElem_of_mem (perm.mem_iff.mpr isActive)
      have once : (self.activeIds errorThreshold).count order[k] = 1 :=
        List.count_eq_one_of_mem distinct isActive
      have split : self.totalTiles = self.totalTiles - order.length + order.length := by omega
      generalize self.totalTiles - order.length = further at split ⊢
      have quotient : self.totalTiles / order.length = further / order.length + 1 := by
        rw [split, Nat.add_div_right _ positive]
      rw [List.count_append, once, count_inTurns distinctOrder inside]
      by_cases extra : k < further % order.length
      · right
        have above : self.totalTiles + order.length - 1 =
            further % order.length - 1 + order.length * (further / order.length + 2) := by
          have parts := Nat.mod_add_div further order.length
          rw [Nat.mul_add]
          omega
        have small : (further % order.length - 1) / order.length = 0 := by
          apply Nat.div_eq_of_lt
          have rest := Nat.mod_lt further positive
          omega
        rw [if_pos extra, divRoundUp, above, Nat.add_mul_div_left _ _ positive, small]
        omega
      · left
        rw [if_neg extra, quotient]
        omega

/-- For every sort that keeps the active tiles: there is no task if no tile is active, and
otherwise one for each tile of the frame, all of them for active tiles, and for each of
these as many as for any other, give or take one. A tile has as many tasks as it has
instances, and they are numbered consecutively from where its counter stood. -/
theorem tileTasks_counted (workers : 0 < n) {sort : List (ActiveTile K) → List (ActiveTile K)}
    (sorts : ∀ tiles, (sort tiles).Perm tiles) (errorThreshold : WithTop K) (self : TaskRun n K)
    (variance : self.dfb.channels.hasVarianceBuffer = true)
    (zeroed : ∀ tileNr < self.dfb.totalTiles, self.dfb.tileInstances tileNr = 0) :
    let after := self.generateTileTasks workers sort errorThreshold
    let active := self.dfb.activeIds errorThreshold
    ∃ added : Fin n → List TileTask,
      (∀ worker, after.preferredTiles worker = self.preferredTiles worker ++ added worker) ∧
      (∑ worker, (added worker).length = if active = [] then 0 else self.dfb.totalTiles) ∧
      (∀ worker, ∀ task ∈ added worker, task.tileId ∈ active) ∧
      ∀ tileId, tileId.x < self.dfb.numTiles.x → tileId.y < self.dfb.numTiles.y →
        let tasks := fun worker => (added worker).filter fun task => task.tileId = tileId
        let count := ∑ worker, (tasks worker).length
        (count : Int) = after.dfb.tileInstances (self.dfb.tileNr tileId) ∧
          (tileId ∉ active → count = 0) ∧
          (tileId ∈ active → count = self.dfb.totalTiles / active.length ∨
            count = divRoundUp self.dfb.totalTiles active.length) ∧
          (tasks (owningWorker workers (self.dfb.tileNr tileId))).map TileTask.accumId =
            (List.range count).map fun i : Nat =>
              self.dfb.tileAccumID (self.dfb.tileNr tileId) + (i : Int) := by
  obtain ⟨order, perm, generated⟩ := generateTileTasks_eq workers sorts errorThreshold self
  obtain ⟨lengths, allActive, -⟩ := visits_count perm ⟨0, 0⟩
  have shares := fun tileId => (visits_count perm tileId).2.2
  have inFrame : ∀ tileId ∈ self.dfb.activeIds errorThreshold,
      tileId.x < self.dfb.numTiles.x := fun tileId member =>
    ((mem_activeIds errorThreshold self.dfb tileId).mp member).1.1
  generalize self.dfb.activeIds errorThreshold ++ (if order = [] then [] else
    (List.range (self.dfb.totalTiles - order.length)).map (inTurns order)) = visits at *
  obtain ⟨added, queues, owners, counts⟩ := pushTasks_counted workers self
    (self.dfb.channels.varianceAccumulates variance) visits
    (fun tileId member => inFrame tileId (allActive tileId member))
  intro after active
  have final : after = visits.foldl (TaskRun.pushTask workers) self := generated
  have ofTask : ∀ worker, ∀ task ∈ added worker, task.tileId ∈ visits ∧
      owningWorker workers (self.dfb.tileNr task.tileId) = worker := by
    intro worker task member
    have visited := List.mem_map_of_mem (f := TileTask.tileId) member
    rw [owners, List.mem_filter, decide_eq_true_eq] at visited
    exact visited
  refine ⟨added, ?_, ?_, fun worker task member => allActive _ (ofTask worker task member).1, ?_⟩
  · intro worker
    rw [final]
    exact queues worker
  · have perWorker : ∀ worker, (added worker).length = (visits.filter fun tileId =>
        owningWorker workers (self.dfb.tileNr tileId) = worker).length := by
      intro worker
      rw [← owners, List.length_map]
    simp only [perWorker]
    rw [queues_total]
    exact lengths
  · intro tileId column row tasks count
    obtain ⟨instances, -, numbers⟩ := counts tileId column
    -- Only the queue of the owner has tasks for the tile.
    have owned : ∀ worker, (tasks worker).length =
        if owningWorker workers (self.dfb.tileNr tileId) = worker then visits.count tileId
        else 0 := by
      intro worker
      by_cases own : owningWorker workers (self.dfb.tileNr tileId) = worker
      · have ids := congrArg List.length numbers
        rw [List.length_map, List.length_map, List.length_range] at ids
        rw [if_pos own, ← ids, ← own]
      · rw [if_neg own, List.length_eq_zero_iff, List.filter_eq_nil_iff]
        intro task member same
        obtain ⟨-, owner⟩ := ofTask worker task member
        rw [of_decide_eq_true same] at owner
        exact own owner
    have counted : count = visits.count tileId := by
      simp only [count, owned, Finset.sum_ite_eq, Finset.mem_univ, if_true]
    have inTotal : self.dfb.tileNr tileId < self.dfb.totalTiles := by
      rw [TaskSource.tileNr, TaskSource.totalTiles, Nat.mul_comm self.dfb.numTiles.x]
      exact stride_lt column row
    rw [counted, final, instances, zeroed _ inTotal]
    refine ⟨by rw [Int.zero_add], ?_, shares tileId, numbers⟩
    intro inactive
    exact List.count_eq_zero.mpr fun member => inactive (allActive tileId member)

/-- Two tiles, of which one is above the threshold: it gets both tasks, and the tile with
the infinite error is not the first in the order of tile numbers. -/
theorem tileTasks_counted_twice :
    let dfb : TaskSource ℚ :=
      { numTiles := ⟨2, 1⟩
        channels := ⟨true, true, true, false, false, fun _ => rfl⟩
        tileErrorRegion :=
          { numTiles := ⟨2, 1⟩
            tileErrorBuffer := fun tile => if tile = 0 then 0 else ⊤
            errorRegion := [⟨⟨0, 0⟩, ⟨2, 1⟩⟩] }
        tileAccumID := fun tile => if tile = 0 then 3 else 5
        tileInstances := fun _ => 0 }
    let self : TaskRun 1 ℚ := { dfb := dfb, preferredTiles := fun _ => [] }
    let after := self.generateTileTasks Nat.zero_lt_one id 1
    after.dfb.tileInstances 1 = 2 ∧
      ∃ added : Fin 1 → List TileTask,
        after.preferredTiles 0 = added 0 ∧ (added 0).length = 2 := by
  intro dfb self after
  obtain ⟨added, queues, total, -, tiles⟩ := @tileTasks_counted ℚ 1 _
    Nat.zero_lt_one id (fun _ => List.Perm.refl _) 1 self rfl (fun _ _ => rfl)
  have active : self.dfb.activeIds 1 = [⟨1, 0⟩] := by decide +kernel
  rw [active] at total
  have one : self.dfb.totalTiles = 2 := rfl
  refine ⟨by decide +kernel, added, queues 0, ?_⟩
  simpa [one] using total

end Claims

end Ospray

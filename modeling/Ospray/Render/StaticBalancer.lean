import Mathlib
import Ospray.Library.Loops
import Ospray.Fb.TileError
import Ospray.Fb.TileGrid
import Ospray.Fb.WriteMultipleTile

/-!
# The static load balancer

Every worker renders the tiles whose number leaves its rank when divided by the
number of workers. It asks its frame buffer for the accumulation number of a tile,
which counts the call, and only then finds out whether the tile's error is low
enough to skip it. A skipped tile is counted as well. The number a tile is rendered
with is therefore the number of frames since the clear, which is the number of
samples as long as the tile has never been skipped.
-/

namespace Ospray

open Library.Loops

/-- `NTASKS` of a worker. -/
def numTasks (allTasks workers rank : Nat) : Nat :=
  if allTasks % workers > rank then allTasks / workers + 1 else allTasks / workers

/-- The tasks of all workers, as rank and task index. -/
def staticTasks (allTasks workers : Nat) : List (Nat × Nat) :=
  (List.range workers).flatMap fun rank =>
    (List.range (numTasks allTasks workers rank)).map fun taskIndex => (rank, taskIndex)

/-- `tileID` of a task. -/
def taskTile (workers : Nat) (task : Nat × Nat) : Nat := task.2 * workers + task.1

section Tasks

variable {allTasks workers : Nat}

theorem lt_numTasks_iff {rank : Nat} (inRange : rank < workers) (taskIndex : Nat) :
    taskIndex < numTasks allTasks workers rank ↔ taskIndex * workers + rank < allTasks := by
  have split := Nat.div_add_mod allTasks workers
  have rest := Nat.mod_lt allTasks (Nat.zero_lt_of_lt inRange)
  rw [Nat.mul_comm] at split
  unfold numTasks
  rcases Nat.lt_trichotomy taskIndex (allTasks / workers) with less | rfl | more
  · have next := Nat.mul_le_mul_right workers (Nat.succ_le_of_lt less)
    rw [Nat.succ_mul] at next
    split_ifs <;> omega
  · split_ifs <;> omega
  · have next := Nat.mul_le_mul_right workers (Nat.succ_le_of_lt more)
    rw [Nat.succ_mul] at next
    split_ifs <;> omega

theorem mem_staticTasks (task : Nat × Nat) :
    task ∈ staticTasks allTasks workers ↔ task.1 < workers ∧ taskTile workers task < allTasks := by
  obtain ⟨rank, taskIndex⟩ := task
  simp only [staticTasks, taskTile, List.mem_flatMap, List.mem_map, List.mem_range, Prod.mk.injEq]
  constructor
  · rintro ⟨_, inRange, _, inTasks, rfl, rfl⟩
    exact ⟨inRange, (lt_numTasks_iff inRange _).mp inTasks⟩
  · rintro ⟨inRange, inTiles⟩
    exact ⟨rank, inRange, taskIndex, (lt_numTasks_iff inRange _).mpr inTiles, rfl, rfl⟩

theorem staticTasks_nodup : (staticTasks allTasks workers).Nodup := by
  refine List.nodup_flatMap.mpr ⟨?_, ?_⟩
  · intro rank _
    exact List.nodup_range.map fun _ _ same => (Prod.mk.inj same).2
  · refine List.nodup_range.imp ?_
    intro rank other apart task first second
    obtain ⟨_, _, rfl⟩ := List.mem_map.mp first
    obtain ⟨_, _, same⟩ := List.mem_map.mp second
    exact apart (Prod.mk.inj same).1.symm

theorem taskTile_own (tileID : Nat) : taskTile workers (tileID % workers, tileID / workers) = tileID := by
  have split := Nat.div_add_mod tileID workers
  rw [Nat.mul_comm] at split
  exact split

theorem taskTile_injective {task : Nat × Nat} (inRange : task.1 < workers) {tileID : Nat}
    (same : taskTile workers task = tileID) : task = (tileID % workers, tileID / workers) := by
  obtain ⟨rank, taskIndex⟩ := task
  have other := Nat.mod_lt tileID (Nat.zero_lt_of_lt inRange)
  have own : taskTile workers (tileID % workers, tileID / workers) = tileID := taskTile_own tileID
  obtain ⟨index, ranks⟩ := stride_injective inRange other (same.trans own.symm)
  exact Prod.ext ranks index

end Tasks

variable {K D : Type} [Field K] [LinearOrder K]

/-- One frame: the threshold, what the renderer makes of each tile, and the order in
which the workers happen to run their tasks. -/
structure StaticFrame (tiles workers : Nat) (K D : Type) where
  errorThreshold : K
  samples : Nat → Nat → Pixel K D
  order : List (Nat × Nat)
  everyTask : order.Perm (staticTasks tiles workers)

/-- The frame buffer over several frames: the counters that each worker keeps for the
tiles it renders, the tiles on their owners, and the errors, which the master hands out
at the start of a frame. The tiles rendered since the clear are remembered. -/
structure StaticRun (K D : Type) where
  tileAccumID : Nat → Nat → Nat
  owned : Nat → WriteMultipleTile K D
  tileErrorRegion : TileError K
  rendered : Nat → List (Tile K D)

section Frames

variable (target : Target) (rsqrtf nextafter : K → K) (channels : Channels) (size : Vec2i)
variable {tiles workers : Nat}

omit [Field K] [LinearOrder K] in
/-- `DFB::accumID` on a worker: the number, and the counter after the call. -/
def StaticRun.accumID (self : StaticRun K D) (rank tileID : Nat) : Nat × StaticRun K D :=
  if !channels.hasAccumBuffer then (0, self)
  else
    let number := self.tileAccumID rank tileID
    (number, { self with
      tileAccumID := Function.update self.tileAccumID rank
        (Function.update (self.tileAccumID rank) tileID (number + 1)) })

omit [Field K] in
/-- The test that skips a tile. -/
def StaticRun.skips (self : StaticRun K D) (errorThreshold : K) (tileID : Nat) : Prop :=
  self.tileErrorRegion.get (tileCoords target.tileSize size tileID) ≤
    ((errorThreshold : K) : WithTop K)

instance (self : StaticRun K D) (errorThreshold : K) (tileID : Nat) :
    Decidable (self.skips target size errorThreshold tileID) :=
  inferInstanceAs (Decidable (_ ≤ _))

/-- `setTile`: the owner processes the tile. -/
def StaticRun.setTile (self : StaticRun K D) (tileID : Nat) (tile : Tile K D) : StaticRun K D :=
  { self with
    owned := Function.update self.owned tileID
      ((self.owned tileID).process target rsqrtf channels tile).1
    rendered := Function.update self.rendered tileID (self.rendered tileID ++ [tile]) }

/-- One task of `staticLoadBalancer::Slave::renderFrame`. -/
def StaticRun.task (frame : StaticFrame tiles workers K D) (self : StaticRun K D)
    (task : Nat × Nat) : StaticRun K D :=
  let tileID := taskTile workers task
  let (number, counted) := self.accumID channels task.1 tileID
  if counted.skips target size frame.errorThreshold tileID then counted
  else
    counted.setTile target rsqrtf channels tileID
      (Tile.make target.tileSize (tileCoords target.tileSize size tileID) size number
        (frame.samples tileID))

/-- The errors of the tiles completed in a frame, as the master records them. -/
def StaticRun.gatherErrors (tiles : Nat) (errorThreshold : K) (before after : StaticRun K D) : TileError K :=
  (List.range tiles).foldl (fun errors tileID =>
    if before.skips target size errorThreshold tileID then errors
    else if channels.hasVarianceBuffer && decide ((after.owned tileID).error < ⊤) then
      errors.update (tileCoords target.tileSize size tileID) (after.owned tileID).error
    else errors) before.tileErrorRegion

/-- A frame on all ranks. No tile is announced as having several instances. -/
def StaticRun.renderFrame (self : StaticRun K D) (frame : StaticFrame tiles workers K D) :
    StaticRun K D :=
  let started := { self with owned := fun tileID => (self.owned tileID).newFrame 0 }
  let finished := frame.order.foldl
    (StaticRun.task target rsqrtf channels size frame) started
  let gathered := StaticRun.gatherErrors target channels size tiles frame.errorThreshold started
    finished
  { finished with tileErrorRegion := (gathered.refine nextafter frame.errorThreshold).2 }

omit [LinearOrder K] in
/-- `clear(OSP_FB_ACCUM)` on all ranks, for a frame buffer with an accumulation buffer. -/
def StaticRun.clearAccum (inf : D) (self : StaticRun K D) : StaticRun K D :=
  { tileAccumID := fun _ _ => 0
    owned := fun tileID => (self.owned tileID).clearAccum channels inf
    tileErrorRegion := self.tileErrorRegion.clear
    rendered := fun _ => [] }

/-- The first frames of a sequence, one after another. -/
def StaticRun.renderFrames (self : StaticRun K D) (frames : Nat → StaticFrame tiles workers K D)
    (count : Nat) : StaticRun K D :=
  (List.range count).foldl (fun self frame =>
    self.renderFrame target rsqrtf nextafter channels size (frames frame)) self

/-- What a run knows of a tile: its counter on the worker that renders it, its owner, and
the tiles rendered. -/
def StaticRun.at (workers : Nat) (self : StaticRun K D) (tileID : Nat) :
    Nat × WriteMultipleTile K D × List (Tile K D) :=
  (self.tileAccumID (tileID % workers) tileID, self.owned tileID, self.rendered tileID)

/-- The tile a task sets, under its number. -/
def StaticFrame.tile (frame : StaticFrame tiles workers K D) (tileID number : Nat) : Tile K D :=
  Tile.make target.tileSize (tileCoords target.tileSize size tileID) size number
    (frame.samples tileID)

theorem task_other (frame : StaticFrame tiles workers K D) (self : StaticRun K D)
    (task : Nat × Nat) {tileID : Nat} (apart : taskTile workers task ≠ tileID) :
    (self.task target rsqrtf channels size frame task).at workers tileID =
      self.at workers tileID := by
  have counter : ∀ number : Nat, Function.update self.tileAccumID task.1
      (Function.update (self.tileAccumID task.1) (taskTile workers task) number)
        (tileID % workers) tileID = self.tileAccumID (tileID % workers) tileID := by
    intro number
    by_cases same : tileID % workers = task.1
    · rw [same, Function.update_self, Function.update_of_ne apart.symm]
    · rw [Function.update_of_ne same]
  cases accumulates : channels.hasAccumBuffer <;>
    simp only [StaticRun.task, StaticRun.accumID, accumulates, Bool.not_true, Bool.not_false,
      Bool.false_eq_true, if_true, if_false, StaticRun.setTile] <;>
    split <;>
    simp only [StaticRun.at, counter, Function.update_of_ne apart.symm]

/-- The task of a tile counts the tile and sets it unless it is skipped. -/
theorem task_own (accumulates : channels.hasAccumBuffer = true)
    (frame : StaticFrame tiles workers K D) (self : StaticRun K D) (tileID : Nat) :
    (self.task target rsqrtf channels size frame (tileID % workers, tileID / workers)).at workers
        tileID =
      let number := self.tileAccumID (tileID % workers) tileID
      if self.skips target size frame.errorThreshold tileID then
        (number + 1, self.owned tileID, self.rendered tileID)
      else
        (number + 1,
          ((self.owned tileID).process target rsqrtf channels (frame.tile target size tileID number)).1,
          self.rendered tileID ++ [frame.tile target size tileID number]) := by
  simp only [StaticRun.task, taskTile_own, StaticRun.accumID, accumulates, Bool.not_true,
    Bool.false_eq_true, if_false]
  have sameTest : ∀ counters, ({ self with tileAccumID := counters } : StaticRun K D).skips target
      size frame.errorThreshold tileID ↔ self.skips target size frame.errorThreshold tileID :=
    fun _ => Iff.rfl
  by_cases skipped : self.skips target size frame.errorThreshold tileID
  · rw [if_pos skipped, if_pos ((sameTest _).mpr skipped)]
    simp only [StaticRun.at, Function.update_self]
  · rw [if_neg skipped, if_neg (fun also => skipped ((sameTest _).mp also))]
    simp only [StaticRun.at, StaticRun.setTile, Function.update_self]
    rfl

theorem task_errors (frame : StaticFrame tiles workers K D) (self : StaticRun K D)
    (task : Nat × Nat) :
    (self.task target rsqrtf channels size frame task).tileErrorRegion = self.tileErrorRegion := by
  cases accumulates : channels.hasAccumBuffer <;>
    simp only [StaticRun.task, StaticRun.accumID, accumulates, Bool.not_true, Bool.not_false,
      Bool.false_eq_true, if_true, if_false, StaticRun.setTile] <;>
    split <;> rfl

/-- One frame, seen at one tile: the tasks of the other tiles do not matter, nor does
the order of the tasks. -/
theorem staticFrame_at (accumulates : channels.hasAccumBuffer = true) (some : 0 < workers)
    (self : StaticRun K D) (frame : StaticFrame tiles workers K D) {tileID : Nat}
    (inTiles : tileID < tiles) :
    (self.renderFrame target rsqrtf nextafter channels size frame).at workers tileID =
      let number := self.tileAccumID (tileID % workers) tileID
      let owner := (self.owned tileID).newFrame 0
      if self.skips target size frame.errorThreshold tileID then
        (number + 1, owner, self.rendered tileID)
      else
        (number + 1,
          (owner.process target rsqrtf channels (frame.tile target size tileID number)).1,
          self.rendered tileID ++ [frame.tile target size tileID number]) := by
  have tasks := frame.everyTask
  have own : (tileID % workers, tileID / workers) ∈ frame.order := by
    rw [tasks.mem_iff, mem_staticTasks, taskTile_own]
    exact ⟨Nat.mod_lt _ some, inTiles⟩
  refine foldl_once (StaticRun.task target rsqrtf channels size frame)
    (fun state => state.at workers tileID)
    (fun state => state.tileErrorRegion = self.tileErrorRegion)
    (fun seen =>
      if self.skips target size frame.errorThreshold tileID then (seen.1 + 1, seen.2.1, seen.2.2)
      else (seen.1 + 1,
        (seen.2.1.process target rsqrtf channels (frame.tile target size tileID seen.1)).1,
        seen.2.2 ++ [frame.tile target size tileID seen.1]))
    (tileID % workers, tileID / workers) (tasks.nodup_iff.mpr staticTasks_nodup) own ?_ ?_ ?_ rfl
  · intro state task _ same
    exact (task_errors target rsqrtf channels size frame state task).trans same
  · intro state task member apart _
    obtain ⟨inRange, _⟩ := (mem_staticTasks task).mp (tasks.mem_iff.mp member)
    exact task_other target rsqrtf channels size frame state task
      fun same => apart (taskTile_injective inRange same)
  · intro state same
    have sameTest : state.skips target size frame.errorThreshold tileID ↔
        self.skips target size frame.errorThreshold tileID := by
      unfold StaticRun.skips
      rw [same]
    rw [task_own target rsqrtf channels size accumulates frame state tileID]
    simp only [sameTest]
    rfl

end Frames

section Runs

variable (target : Target) (rsqrtf nextafter : K → K) (channels : Channels) (size : Vec2i)
variable {tiles workers : Nat} (created : StaticRun K D) (inf : D)
variable (frames : Nat → StaticFrame tiles workers K D)

/-- The frame buffer before a frame of a run that starts with a clear. -/
def StaticRun.before (frame : Nat) : StaticRun K D :=
  (created.clearAccum channels inf).renderFrames target rsqrtf nextafter channels size frames frame

/-- The frame skips the tile. -/
def SkippedIn (tileID frame : Nat) : Prop :=
  (created.before target rsqrtf nextafter channels size inf frames frame).skips target size
    (frames frame).errorThreshold tileID

instance (tileID frame : Nat) : Decidable (SkippedIn target rsqrtf nextafter channels size created
    inf frames tileID frame) :=
  inferInstanceAs (Decidable (StaticRun.skips ..))

theorem before_succ (frame : Nat) :
    created.before target rsqrtf nextafter channels size inf frames (frame + 1) =
      (created.before target rsqrtf nextafter channels size inf frames frame).renderFrame target
        rsqrtf nextafter channels size (frames frame) := by
  simp only [StaticRun.before, StaticRun.renderFrames, List.range_succ, List.foldl_append,
    List.foldl_cons, List.foldl_nil]

theorem before_skipped (accumulates : channels.hasAccumBuffer = true) (some : 0 < workers)
    {tileID frame : Nat} (inTiles : tileID < tiles)
    (skipped : SkippedIn target rsqrtf nextafter channels size created inf frames tileID frame) :
    let before := created.before target rsqrtf nextafter channels size inf frames frame
    let after := created.before target rsqrtf nextafter channels size inf frames (frame + 1)
    after.tileAccumID (tileID % workers) tileID =
        before.tileAccumID (tileID % workers) tileID + 1 ∧
      after.owned tileID = (before.owned tileID).newFrame 0 ∧
      after.rendered tileID = before.rendered tileID := by
  intro before after
  have step := (staticFrame_at target rsqrtf nextafter channels size accumulates some before
    (frames frame) inTiles).trans (if_pos skipped)
  rw [← before_succ] at step
  simpa only [StaticRun.at, Prod.mk.injEq] using step

/-- A frame that does not skip it renders it under the number counted before. -/
theorem before_rendered (accumulates : channels.hasAccumBuffer = true) (some : 0 < workers)
    {tileID frame : Nat} (inTiles : tileID < tiles)
    (active : ¬ SkippedIn target rsqrtf nextafter channels size created inf frames tileID frame) :
    let before := created.before target rsqrtf nextafter channels size inf frames frame
    let after := created.before target rsqrtf nextafter channels size inf frames (frame + 1)
    let number := before.tileAccumID (tileID % workers) tileID
    let tile := (frames frame).tile target size tileID number
    after.tileAccumID (tileID % workers) tileID = number + 1 ∧
      after.owned tileID =
        (((before.owned tileID).newFrame 0).process target rsqrtf channels tile).1 ∧
      after.rendered tileID = before.rendered tileID ++ [tile] := by
  intro before after number tile
  have step := (staticFrame_at target rsqrtf nextafter channels size accumulates some before
    (frames frame) inTiles).trans (if_neg active)
  rw [← before_succ] at step
  simpa only [StaticRun.at, Prod.mk.injEq] using step

/-- The frames that have rendered a tile. -/
def renderedFrames (tileID count : Nat) : List Nat :=
  (List.range count).filter fun frame =>
    !decide (SkippedIn target rsqrtf nextafter channels size created inf frames tileID frame)

theorem renderedFrames_succ (tileID count : Nat) :
    renderedFrames target rsqrtf nextafter channels size created inf frames tileID (count + 1) =
      renderedFrames target rsqrtf nextafter channels size created inf frames tileID count ++
        if SkippedIn target rsqrtf nextafter channels size created inf frames tileID count then []
        else [count] := by
  unfold renderedFrames
  rw [List.range_succ, List.filter_append]
  congr 1
  by_cases skipped : SkippedIn target rsqrtf nextafter channels size created inf frames tileID count <;>
    simp [skipped]

/-- Every frame counts the tile, skipped or not, and a frame that renders it stamps it
with the number of the frame. -/
theorem before_counts (accumulates : channels.hasAccumBuffer = true) (some : 0 < workers)
    {tileID : Nat} (inTiles : tileID < tiles) (count : Nat) :
    (created.before target rsqrtf nextafter channels size inf frames count).tileAccumID
        (tileID % workers) tileID = count ∧
      (created.before target rsqrtf nextafter channels size inf frames count).rendered tileID =
        (renderedFrames target rsqrtf nextafter channels size created inf frames tileID count).map
          fun frame => (frames frame).tile target size tileID frame := by
  induction count with
  | zero => exact ⟨rfl, rfl⟩
  | succ count inductionHypothesis =>
    obtain ⟨counted, rendered⟩ := inductionHypothesis
    rw [renderedFrames_succ, List.map_append]
    by_cases skipped : SkippedIn target rsqrtf nextafter channels size created inf frames tileID count
    · obtain ⟨number, _, kept⟩ := before_skipped target rsqrtf nextafter channels size created inf
        frames accumulates some inTiles skipped
      rw [number, kept, counted, rendered, if_pos skipped, List.map_nil, List.append_nil]
      exact ⟨rfl, rfl⟩
    · obtain ⟨number, _, more⟩ := before_rendered target rsqrtf nextafter channels size created inf
        frames accumulates some inTiles skipped
      rw [number, more, counted, rendered, if_neg skipped, List.map_singleton]
      exact ⟨rfl, rfl⟩

/-- The frames in which a property holds are the first ones exactly if it holds in every
frame before one in which it does. -/
theorem filter_range_iff (holds : Nat → Bool) (count : Nat) :
    (List.range count).filter holds = List.range ((List.range count).filter holds).length ↔
      ∀ first later, first < later → later < count → holds later = true → holds first = true := by
  constructor
  · intro first earlier later before inFrames here
    have member : later ∈ (List.range count).filter holds :=
      List.mem_filter.mpr ⟨List.mem_range.mpr inFrames, here⟩
    rw [first] at member
    have place : earlier ∈ List.range ((List.range count).filter holds).length :=
      List.mem_range.mpr (before.trans (List.mem_range.mp member))
    rw [← first] at place
    exact (List.mem_filter.mp place).2
  · intro closed
    induction count with
    | zero => rfl
    | succ count inductionHypothesis =>
      have earlier := inductionHypothesis
        fun first later before inFrames => closed first later before (Nat.lt_succ_of_lt inFrames)
      rw [List.range_succ, List.filter_append]
      cases here : holds count with
      | false => simpa [here] using earlier
      | true =>
        have all : (List.range count).filter holds = List.range count :=
          List.filter_eq_self.mpr fun first member =>
            closed first count (List.mem_range.mp member) (Nat.lt_succ_self count) here
        simp [all, here, List.range_succ]

/-- The mean of the samples accumulated in a pixel. -/
def meanColor (samples : List (Tile K D)) (j : Nat) : Vec4 K :=
  (samples.length : K)⁻¹ • (samples.map fun tile => (tile.pixel j).color).sum

/-- As long as a tile has not been rendered after it was skipped, its owner holds the sum
and the mean of the samples. -/
theorem before_mean (accumulates : channels.hasAccumBuffer = true) (some : 0 < workers)
    {tileID : Nat} (inTiles : tileID < tiles) (count : Nat)
    (closed : ∀ first later, first < later → later < count →
      SkippedIn target rsqrtf nextafter channels size created inf frames tileID first →
      SkippedIn target rsqrtf nextafter channels size created inf frames tileID later)
    {j : Nat} (covered : j < tileArea target (tileCoords target.tileSize size tileID) size) :
    let before := created.before target rsqrtf nextafter channels size inf frames count
    let pixel := (before.owned tileID).toTileData.at j
    let samples := before.rendered tileID
    pixel.accum.color = (samples.map fun tile => (tile.pixel j).color).sum ∧
      (samples ≠ [] → pixel.final.color = meanColor samples j) := by
  induction count with
  | zero =>
    refine ⟨?_, fun some => absurd rfl some⟩
    simp [StaticRun.before, StaticRun.renderFrames, StaticRun.clearAccum,
      WriteMultipleTile.clearAccum, TileData.clearAccum, TileData.at, accumulates]
  | succ count inductionHypothesis =>
    obtain ⟨sum, mean⟩ := inductionHypothesis
      fun first later before inFrames => closed first later before (Nat.lt_succ_of_lt inFrames)
    by_cases skipped : SkippedIn target rsqrtf nextafter channels size created inf frames tileID count
    · obtain ⟨_, owner, kept⟩ := before_skipped target rsqrtf nextafter channels size created inf
        frames accumulates some inTiles skipped
      intro before pixel samples
      have samePixel : pixel = _ := congrArg (fun owner => owner.toTileData.at j) owner
      have sameSamples : samples = _ := kept
      rw [samePixel, sameSamples]
      exact ⟨sum, mean⟩
    · obtain ⟨_, owner, more⟩ := before_rendered target rsqrtf nextafter channels size created inf
        frames accumulates some inTiles skipped
      obtain ⟨counted, rendered⟩ := before_counts target rsqrtf nextafter channels size created inf
        frames accumulates some inTiles count
      -- Nothing has been skipped so far, so there is a sample for every frame.
      have every : renderedFrames target rsqrtf nextafter channels size created inf frames tileID
          count = List.range count :=
        List.filter_eq_self.mpr fun frame member => by
          simpa using fun skippedBefore => skipped
            (closed frame count (List.mem_range.mp member) (Nat.lt_succ_self count) skippedBefore)
      intro before pixel samples
      have sameSamples : samples = _ := more
      have accumulated := process_once target rsqrtf channels
        (tileCoords target.tileSize size tileID) size (fun _ => (frames count).samples tileID)
        (((created.before target rsqrtf nextafter channels size inf frames count).owned
          tileID).newFrame 0) rfl count j
      rw [if_pos covered] at accumulated
      rw [counted] at owner sameSamples
      have samePixel : pixel = _ :=
        (congrArg (fun owner => owner.toTileData.at j) owner).trans accumulated
      obtain ⟨total, normalized⟩ := accumulate_colors channels accumulates count
        ((frames count).samples tileID j)
        (((created.before target rsqrtf nextafter channels size inf frames count).owned
          tileID).toTileData.at j)
      have begun : (if 0 < count then
          (((created.before target rsqrtf nextafter channels size inf frames count).owned
            tileID).toTileData.at j).accum.color else 0) =
          (((created.before target rsqrtf nextafter channels size inf frames count).rendered
            tileID).map fun tile => (tile.pixel j).color).sum := by
        rcases Nat.eq_zero_or_pos count with rfl | later
        · rfl
        · rw [if_pos later]
          exact sum
      have sums : (samples.map fun tile => (tile.pixel j).color).sum = _ :=
        (congrArg (fun tiles => (tiles.map fun tile => (tile.pixel j).color).sum) sameSamples).trans
          (by rw [List.map_append, List.sum_append, ← begun, List.map_singleton, List.sum_singleton])
      have number : samples.length = count + 1 := by
        rw [sameSamples, rendered, every]
        simp
      refine ⟨(congrArg (fun pixel => pixel.accum.color) samePixel).trans (total.trans sums.symm),
        fun _ => (congrArg (fun pixel => pixel.final.color) samePixel).trans
          (normalized.trans ?_)⟩
      rw [meanColor, number, sums]
      push_cast
      rfl

/-- The numbers stamped on a tile count its samples exactly if the tile is never rendered
again once it has been skipped, and then its color is the mean of the samples. -/
theorem stamps_count_iff (accumulates : channels.hasAccumBuffer = true) (some : 0 < workers)
    (count : Nat) :
    let after := created.before target rsqrtf nextafter channels size inf frames count
    let skipped := SkippedIn target rsqrtf nextafter channels size created inf frames
    ((∀ tileID < tiles, (after.rendered tileID).map Tile.accumID =
        List.range (after.rendered tileID).length) ↔
      ∀ tileID < tiles, ∀ first later, first < later → later < count →
        skipped tileID first → skipped tileID later) ∧
    ((∀ tileID < tiles, ∀ first later, first < later → later < count →
        skipped tileID first → skipped tileID later) →
      ∀ tileID < tiles, after.rendered tileID ≠ [] →
        ∀ j < tileArea target (tileCoords target.tileSize size tileID) size,
          ((after.owned tileID).final.pixel j).color = meanColor (after.rendered tileID) j) := by
  intro after skipped
  refine ⟨?_, ?_⟩
  · refine forall₂_congr ?_
    intro tileID inTiles
    have rendered : after.rendered tileID = _ := (before_counts target rsqrtf nextafter channels size
      created inf frames accumulates some inTiles count).2
    have stamps : (after.rendered tileID).map Tile.accumID =
        renderedFrames target rsqrtf nextafter channels size created inf frames tileID count := by
      rw [rendered, List.map_map]
      exact List.map_id _
    have number := congrArg List.length stamps
    rw [List.length_map] at number
    rw [stamps, number]
    refine (filter_range_iff _ count).trans ?_
    simp only [Bool.not_eq_true', decide_eq_false_iff_not, not_imp_not]
    rfl
  · intro closed tileID inTiles sampled j covered
    exact (before_mean target rsqrtf nextafter channels size created inf frames accumulates some
      inTiles count (closed tileID inTiles) covered).2 sampled

end Runs

/-- A frame buffer of a single pixel, as it is created. -/
def pixelRun : StaticRun ℚ ℚ :=
  { tileAccumID := fun _ _ => 0
    owned := fun _ => createdTile
    tileErrorRegion := TileError.make ⟨1, 1⟩
    rendered := fun _ => [] }

/-- Frames of alternating colors, rendered by one worker with the given thresholds. -/
def pixelFrames (thresholds : Nat → ℚ) (frame : Nat) : StaticFrame 1 1 ℚ ℚ :=
  { errorThreshold := thresholds frame
    samples := fun _ _ => ⟨if frame % 2 = 0 then ![1, 0, 0, 1] else ![0, 1, 0, 1], 0, 0, 0⟩
    order := [(0, 0)]
    everyTask := by decide }

/-- With one threshold for all frames, the tile is rendered in each of them. -/
theorem stamps_count_iff_steady :
    let target : Target := ⟨1, 1, by decide, by decide⟩
    let channels : Channels := ⟨false, true, true, false, false, by decide⟩
    let after := pixelRun.before target id (· + 1 / 16777216) channels ⟨1, 1⟩ 0
      (pixelFrames fun _ => 1 / 2) 3
    ∀ tileID < 1, (after.rendered tileID).map Tile.accumID =
      List.range (after.rendered tileID).length := by
  intro target channels after
  refine (stamps_count_iff target id (· + 1 / 16777216) channels ⟨1, 1⟩ pixelRun 0
    (pixelFrames fun _ => 1 / 2) rfl Nat.one_pos 3).1.mpr ?_
  have never : ∀ tileID < 1, ∀ frame < 3, ¬ SkippedIn target id (· + 1 / 16777216) channels
      ⟨1, 1⟩ pixelRun 0 (pixelFrames fun _ => 1 / 2) tileID frame := by
    decide +kernel
  intro tileID inTiles first later before inFrames skipped
  exact absurd skipped (never tileID inTiles first (before.trans inFrames))

/-- The threshold is raised for one frame, which skips the tile, and lowered again. The
third sample is stamped as if it were the fourth, and the color is not the mean. -/
theorem stamps_overcount :
    let target : Target := ⟨1, 1, by decide, by decide⟩
    let channels : Channels := ⟨false, true, true, false, false, by decide⟩
    let after := pixelRun.before target id (· + 1 / 16777216) channels ⟨1, 1⟩ 0
      (pixelFrames fun frame => if frame = 2 then 2 else 1 / 2) 4
    (after.rendered 0).map Tile.accumID = [0, 1, 3] ∧
      (after.rendered 0).map Tile.accumID ≠ List.range (after.rendered 0).length ∧
      ((after.owned 0).final.pixel 0).color ≠ meanColor (after.rendered 0) 0 := by
  decide +kernel

end Ospray

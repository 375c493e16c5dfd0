import Mathlib.Algebra.Order.BigOperators.Group.List
import Mathlib.Data.List.Nodup
import Mathlib.Data.List.Perm.Subperm
import Ospray.Library.Runs
import Ospray.Fb.MasterMessages

/-!
# Completing the tiles of a frame

At the start of a frame every rank counts the tiles it skips, and the master counts
the others for their owners. Whenever an owner completes a tile, it reserves room in
its gather buffer with an atomic addition, copies the message there and counts the
tile; it closes the frame when it has counted all of its tiles. Threads complete
tiles side by side, so these three steps of different tiles interleave.
-/

namespace Ospray

open Library.Runs Library.Buffers

/-- What all ranks know when a frame starts: the frame buffer, how the tiles are dealt
out, and the errors of the tiles, which the master has broadcast. -/
structure DistributedFrame (E : Type) where
  tileSize : Nat
  size : Vec2i
  channels : Channels
  ranks : Nat
  masterIsAWorker : Bool
  tileError : Vec2i → E
  errorThreshold : E
  tileSizePositive : 0 < tileSize
  sizePositive : 0 < size.x ∧ 0 < size.y
  ranksPositive : 0 < ranks

/-- `TileDesc`. -/
structure TileDesc where
  begin : Vec2i
  tileID : Nat
  ownerID : Nat
deriving DecidableEq, Repr

/-- Where the thread that completes a tile is: rendering goes on; its message has room
at an offset; the message is copied; the tile is counted. -/
inductive TileProgress where
  | rendering
  | appending (message : List UInt8) (n : Nat)
  | appended
  | completed
deriving DecidableEq, Repr

/-- Whether the tile is counted. -/
def TileProgress.isCompleted : TileProgress → Bool
  | .completed => true
  | _ => false

/-- A frame on one rank. -/
structure RankFrame where
  nextTileWrite : Nat
  tileGatherBuffer : List UInt8
  numTilesCompletedThisFrame : Nat
  frameIsDone : Bool
  /-- Whether `startNewFrame` has returned. -/
  started : Bool
  /-- Where the threads are, by the ID of the tile. -/
  progress : Nat → TileProgress

/-- The counters of `startNewFrame`. -/
structure StartCounts where
  numTilesCompletedThisFrame : Nat
  numTilesExpected : Nat → Nat

namespace DistributedFrame

section Counting

variable {E : Type} [LE E] [DecidableLE E] (frame : DistributedFrame E)

/-- `getTotalTiles`. -/
def totalTiles : Nat := Ospray.totalTiles frame.tileSize frame.size

/-- `ownerIDFromTileID`. -/
def ownerID (tileID : Nat) : Nat := ownerIDFromTileID frame.ranks frame.masterIsAWorker tileID

/-- The tiles that `createTiles` makes: `allTiles`. -/
def allTiles : List TileDesc :=
  (Ospray.createTiles frame.tileSize frame.size).mapIdx fun tileID begin =>
    ⟨begin, tileID, frame.ownerID tileID⟩

/-- Rounding up the size of the frame, the loops of `createTiles` and the number of tiles
stay within `int`. -/
def CountsFit : Prop :=
  frame.size.x + frame.tileSize ≤ 2 ^ 31 ∧ frame.size.y + frame.tileSize ≤ 2 ^ 31 ∧
    frame.totalTiles < 2 ^ 31

instance : Decidable frame.CountsFit := inferInstanceAs (Decidable (_ ∧ _ ∧ _))

/-- `createTiles`, which is undefined where an `int` overflows. -/
def createTiles : Option (List TileDesc) := if frame.CountsFit then some frame.allTiles else none

/-- `myTiles` of a rank. -/
def myTiles (rank : Nat) : List TileDesc := frame.allTiles.filter fun tile => tile.ownerID = rank

/-- A tile is not rendered again once its error is small enough. -/
def skipped (tileID : Nat) : Bool :=
  frame.channels.hasAccumBuffer &&
    decide (frame.tileError (tileCoords frame.tileSize frame.size tileID) ≤ frame.errorThreshold)

/-- The tiles that a rank completes. -/
def activeTiles (rank : Nat) : List Nat :=
  (List.range frame.totalTiles).filter fun tileID =>
    decide (frame.ownerID tileID = rank) && !frame.skipped tileID

/-- One iteration of the loop of `startNewFrame` over the tiles. -/
def countTile (rank : Nat) (counts : StartCounts) (tileID : Nat) : StartCounts :=
  if frame.skipped tileID then
    if frame.ownerID tileID = rank then
      { counts with numTilesCompletedThisFrame := counts.numTilesCompletedThisFrame + 1 }
    else counts
  else if rank = 0 then
    { counts with
      numTilesExpected := Function.update counts.numTilesExpected (frame.ownerID tileID)
        (counts.numTilesExpected (frame.ownerID tileID) + 1) }
  else counts

/-- The loop of `startNewFrame` over the tiles. -/
def startCounts (rank : Nat) : StartCounts :=
  (List.range frame.totalTiles).foldl (frame.countTile rank) ⟨0, fun _ => 0⟩

/-- `numTilesExpected`, which the master computes. -/
def numTilesExpected (rank : Nat) : Nat := (frame.startCounts 0).numTilesExpected rank

/-- What `startNewFrame` leaves on a rank when the frame becomes active, for messages of a
size. -/
def startNewFrame (rank finalTileSize : Nat) : RankFrame :=
  { nextTileWrite := 0
    tileGatherBuffer := List.replicate ((frame.myTiles rank).length * finalTileSize) 0
    numTilesCompletedThisFrame := (frame.startCounts rank).numTilesCompletedThisFrame
    frameIsDone := false
    started := false
    progress := fun _ => .rendering }

omit [LE E] [DecidableLE E] in
/-- `isFrameComplete`, and `closeCurrentFrame` if it is. A master that does not render
waits for all tiles, of which it owns none. -/
def isFrameComplete (rank numTiles : Nat) (state : RankFrame) : RankFrame :=
  let numTilesCompletedThisFrame := state.numTilesCompletedThisFrame + numTiles
  let own := if rank ≠ 0 ∨ frame.masterIsAWorker = true then (frame.myTiles rank).length
    else frame.totalTiles
  { state with
    numTilesCompletedThisFrame := numTilesCompletedThisFrame
    frameIsDone := state.frameIsDone || numTilesCompletedThisFrame == own }

/-- Whether bytes are a message with a tile, built in whatever memory it was given. -/
def IsMessage {C : Type} [PixelColor C] (tiles : Nat → FinalTile C) (tileID : Nat)
    (message : List UInt8) : Prop :=
  ∃ memory, memory.length = masterMsgSize C frame.channels frame.tileSize ∧
    buildMessage frame.channels frame.tileSize (tileBegin frame.tileSize frame.size tileID)
      (tiles tileID) memory = some message

/-- The steps of a rank. The threads that complete tiles take theirs in any order, next to
the last call of `startNewFrame`. The load balancer of a master that does not render
closes the frame. -/
inductive RankStep {C : Type} [PixelColor C] (tiles : Nat → FinalTile C) (rank : Nat) :
    RankFrame → RankFrame → Prop where
  | fetchAdd (state : RankFrame) (tileID : Nat) (message : List UInt8)
      (active : tileID ∈ frame.activeTiles rank) (rendering : state.progress tileID = .rendering)
      (built : frame.IsMessage tiles tileID message) :
      RankStep tiles rank state { state with
        nextTileWrite := state.nextTileWrite + message.length
        progress := Function.update state.progress tileID (.appending message state.nextTileWrite) }
  | memcpy (state : RankFrame) (tileID : Nat) (message : List UInt8) (n : Nat)
      (buffer : List UInt8) (reserved : state.progress tileID = .appending message n)
      (written : write state.tileGatherBuffer n message = some buffer) :
      RankStep tiles rank state { state with
        tileGatherBuffer := buffer
        progress := Function.update state.progress tileID .appended }
  | count (state : RankFrame) (tileID : Nat) (appended : state.progress tileID = .appended) :
      RankStep tiles rank state (frame.isFrameComplete rank 1 { state with
        progress := Function.update state.progress tileID .completed })
  | start (state : RankFrame) (starting : state.started = false) :
      RankStep tiles rank state (frame.isFrameComplete rank 0 { state with started := true })
  | closeCurrentFrame (state : RankFrame) (master : rank = 0)
      (idle : frame.masterIsAWorker = false) :
      RankStep tiles rank state { state with frameIsDone := true }

/-- The states of a rank in a frame. -/
def Reached {C : Type} [PixelColor C] (tiles : Nat → FinalTile C) (rank : Nat)
    (state : RankFrame) : Prop :=
  Reachable (· = frame.startNewFrame rank (masterMsgSize C frame.channels frame.tileSize))
    (frame.RankStep tiles rank) state

omit [LE E] [DecidableLE E] in
theorem allTiles_eq :
    frame.allTiles = (List.range frame.totalTiles).map fun tileID =>
      ⟨tileBegin frame.tileSize frame.size tileID, tileID, frame.ownerID tileID⟩ := by
  rw [allTiles, createTiles_eq]
  refine List.ext_getElem (by simp [totalTiles]) ?_
  intro tileID _ _
  simp

omit [LE E] [DecidableLE E] in
theorem length_myTiles (rank : Nat) :
    (frame.myTiles rank).length =
      (List.range frame.totalTiles).countP fun tileID => decide (frame.ownerID tileID = rank) := by
  rw [myTiles, allTiles_eq, List.filter_map, List.length_map, List.countP_eq_length_filter]
  rfl

theorem countTile_completed (rank : Nat) (counts : StartCounts) (tileID : Nat) :
    (frame.countTile rank counts tileID).numTilesCompletedThisFrame =
      counts.numTilesCompletedThisFrame +
        if decide (frame.ownerID tileID = rank) && frame.skipped tileID then 1 else 0 := by
  unfold countTile
  cases skips : frame.skipped tileID with
  | false => by_cases master : rank = 0 <;> simp [master]
  | true => by_cases own : frame.ownerID tileID = rank <;> simp [own]

theorem countTile_expected (counts : StartCounts) (tileID owner : Nat) :
    (frame.countTile 0 counts tileID).numTilesExpected owner =
      counts.numTilesExpected owner +
        if decide (frame.ownerID tileID = owner) && !frame.skipped tileID then 1 else 0 := by
  unfold countTile
  cases skips : frame.skipped tileID with
  | false =>
    by_cases own : frame.ownerID tileID = owner
    · simp [own]
    · simp [own, Function.update_of_ne (Ne.symm own)]
  | true => by_cases own : frame.ownerID tileID = 0 <;> simp [own]

theorem foldl_countTile (rank : Nat) (tiles : List Nat) (counts : StartCounts) :
    let after := tiles.foldl (frame.countTile rank) counts
    after.numTilesCompletedThisFrame = counts.numTilesCompletedThisFrame +
        tiles.countP (fun tileID => decide (frame.ownerID tileID = rank) && frame.skipped tileID) ∧
      (rank = 0 → ∀ owner, after.numTilesExpected owner = counts.numTilesExpected owner +
        tiles.countP fun tileID =>
          decide (frame.ownerID tileID = owner) && !frame.skipped tileID) := by
  induction tiles generalizing counts with
  | nil => exact ⟨rfl, fun _ _ => rfl⟩
  | cons tileID rest inductionHypothesis =>
    obtain ⟨completed, expected⟩ := inductionHypothesis (frame.countTile rank counts tileID)
    simp only [List.foldl_cons, List.countP_cons]
    refine ⟨completed.trans ?_, fun master owner => (expected master owner).trans ?_⟩
    · rw [countTile_completed]
      omega
    · subst master
      rw [countTile_expected]
      omega

theorem numTilesExpected_eq (rank : Nat) :
    frame.numTilesExpected rank = (frame.activeTiles rank).length := by
  have counted := (frame.foldl_countTile 0 (List.range frame.totalTiles) ⟨0, fun _ => 0⟩).2 rfl rank
  rw [Nat.zero_add, List.countP_eq_length_filter] at counted
  exact counted

/-- Each tile of a rank is skipped, and counted at the start, or active. -/
theorem startCounts_add_active (rank : Nat) :
    (frame.startCounts rank).numTilesCompletedThisFrame + (frame.activeTiles rank).length =
      (frame.myTiles rank).length := by
  have counted :=
    (frame.foldl_countTile rank (List.range frame.totalTiles) ⟨0, fun _ => 0⟩).1
  rw [Nat.zero_add] at counted
  rw [startCounts, counted, activeTiles, ← List.countP_eq_length_filter, length_myTiles]
  generalize List.range frame.totalTiles = tiles
  induction tiles with
  | nil => rfl
  | cons tileID rest inductionHypothesis =>
    simp only [List.countP_cons]
    rw [← inductionHypothesis]
    cases frame.skipped tileID <;> by_cases own : frame.ownerID tileID = rank <;>
      simp [own] <;> omega

theorem mem_activeTiles {rank tileID : Nat} :
    tileID ∈ frame.activeTiles rank ↔
      tileID < frame.totalTiles ∧ frame.ownerID tileID = rank ∧ frame.skipped tileID = false := by
  simp [activeTiles]

theorem activeTiles_nodup (rank : Nat) : (frame.activeTiles rank).Nodup :=
  List.nodup_range.filter _

theorem activeTiles_idle (idle : frame.masterIsAWorker = false) : frame.activeTiles 0 = [] := by
  refine List.filter_eq_nil_iff.mpr ?_
  intro tileID _
  simp [ownerID, ownerIDFromTileID, idle]

end Counting

/-! ## What the steps preserve -/

section Runs

variable {E C : Type} [LE E] [DecidableLE E] [PixelColor C] {frame : DistributedFrame E}
  {tiles : Nat → FinalTile C} {rank : Nat} {state : RankFrame}

omit [LE E] [DecidableLE E] in
theorem IsMessage.length_eq {tileID : Nat} {message : List UInt8}
    (built : frame.IsMessage tiles tileID message) :
    message.length = masterMsgSize C frame.channels frame.tileSize := by
  obtain ⟨memory, sized, built⟩ := built
  exact (buildMessage_stands built).1.trans sized

/-- What a rank keeps during a frame. The log lists the messages in the order in which they
got their room; each stands at its place once its thread has copied it. -/
structure Logged (frame : DistributedFrame E) (tiles : Nat → FinalTile C) (rank : Nat)
    (state : RankFrame) (log : List (Nat × List UInt8)) : Prop where
  distinct : (log.map Prod.fst).Nodup
  begun : ∀ tileID, tileID ∈ log.map Prod.fst ↔ state.progress tileID ≠ .rendering
  active : ∀ entry ∈ log, entry.1 ∈ frame.activeTiles rank
  built : ∀ entry ∈ log, frame.IsMessage tiles entry.1 entry.2
  reserved : state.nextTileWrite = log.length * masterMsgSize C frame.channels frame.tileSize
  room : state.tileGatherBuffer.length =
    (frame.myTiles rank).length * masterMsgSize C frame.channels frame.tileSize
  pending : ∀ position tileID message, log[position]? = some (tileID, message) →
    ∀ other n, state.progress tileID = .appending other n →
      other = message ∧ n = position * masterMsgSize C frame.channels frame.tileSize
  appended : ∀ position tileID message, log[position]? = some (tileID, message) →
    (∀ other n, state.progress tileID ≠ .appending other n) →
      read state.tileGatherBuffer (position * masterMsgSize C frame.channels frame.tileSize)
        (masterMsgSize C frame.channels frame.tileSize) = message
  counted : state.numTilesCompletedThisFrame =
    (frame.startCounts rank).numTilesCompletedThisFrame +
      (frame.activeTiles rank).countP fun tileID => (state.progress tileID).isCompleted
  closed : state.frameIsDone = true →
    ∀ tileID ∈ frame.activeTiles rank, (state.progress tileID).isCompleted = true
  finishes : state.started = true → rank ≠ 0 ∨ frame.masterIsAWorker = true →
    (∀ tileID ∈ frame.activeTiles rank, (state.progress tileID).isCompleted = true) →
      state.frameIsDone = true

omit [PixelColor C] in
/-- A frame is complete when the active tiles are counted. -/
theorem isFrameComplete_done (frame : DistributedFrame E) (rank : Nat) (state : RankFrame)
    (numTiles : Nat)
    (counted : state.numTilesCompletedThisFrame + numTiles =
      (frame.startCounts rank).numTilesCompletedThisFrame +
        (frame.activeTiles rank).countP fun tileID => (state.progress tileID).isCompleted) :
    ((frame.isFrameComplete rank numTiles state).frameIsDone = true → state.frameIsDone = true ∨
        ∀ tileID ∈ frame.activeTiles rank, (state.progress tileID).isCompleted = true) ∧
      (rank ≠ 0 ∨ frame.masterIsAWorker = true →
        (∀ tileID ∈ frame.activeTiles rank, (state.progress tileID).isCompleted = true) →
        (frame.isFrameComplete rank numTiles state).frameIsDone = true) := by
  have whole := frame.startCounts_add_active rank
  by_cases renders : rank ≠ 0 ∨ frame.masterIsAWorker = true
  · simp only [isFrameComplete, if_pos renders, Bool.or_eq_true, beq_iff_eq, counted]
    refine ⟨?_, fun _ all => Or.inr ?_⟩
    · rintro (before | complete)
      · exact Or.inl before
      · exact Or.inr (List.countP_eq_length.mp (by omega))
    · rw [List.countP_eq_length.mpr all]
      exact whole
  · obtain ⟨master, idle⟩ := not_or.mp renders
    have none := frame.activeTiles_idle (Bool.not_eq_true _ ▸ idle)
    refine ⟨fun _ => Or.inr ?_, fun renders_ => absurd renders_ renders⟩
    rw [not_not.mp master, none]
    simp

theorem isCompleted_update {progress : Nat → TileProgress} {tileID : Nat} (moved : TileProgress)
    (before : (progress tileID).isCompleted = false) (after : moved.isCompleted = false)
    (other : Nat) :
    (Function.update progress tileID moved other).isCompleted = (progress other).isCompleted := by
  by_cases same : other = tileID
  · rw [same, Function.update_self, before, after]
  · rw [Function.update_of_ne same]

theorem begun_update {progress : Nat → TileProgress} {tileID : Nat} (moved : TileProgress)
    (before : progress tileID ≠ .rendering) (after : moved ≠ .rendering) (other : Nat) :
    Function.update progress tileID moved other ≠ .rendering ↔ progress other ≠ .rendering := by
  by_cases same : other = tileID
  · rw [same, Function.update_self]
    exact iff_of_true after before
  · rw [Function.update_of_ne same]

theorem appending_of_update {progress : Nat → TileProgress} {tileID : Nat} (moved : TileProgress)
    (after : ∀ message n, moved ≠ .appending message n) {other : Nat} {message : List UInt8}
    {n : Nat} (pending : Function.update progress tileID moved other = .appending message n) :
    progress other = .appending message n := by
  by_cases same : other = tileID
  · rw [same, Function.update_self] at pending
    exact absurd pending (after message n)
  · rwa [Function.update_of_ne same] at pending

theorem not_all_completed {progress : Nat → TileProgress} {tileID : Nat} {active : List Nat}
    (member : tileID ∈ active) (unfinished : (progress tileID).isCompleted = false) :
    ¬ ∀ other ∈ active, (progress other).isCompleted = true := by
  intro all
  rw [all tileID member] at unfinished
  cases unfinished

/-- Counting a tile adds one. -/
theorem countP_completed {progress : Nat → TileProgress} {tileID : Nat} {active : List Nat}
    (distinct : active.Nodup) (member : tileID ∈ active)
    (before : (progress tileID).isCompleted = false) :
    (active.countP fun other =>
        (Function.update progress tileID .completed other).isCompleted) =
      (active.countP fun other => (progress other).isCompleted) + 1 := by
  induction active with
  | nil => simp at member
  | cons head rest inductionHypothesis =>
    obtain ⟨apart, distinctRest⟩ := List.nodup_cons.mp distinct
    rw [List.countP_cons, List.countP_cons]
    rcases List.mem_cons.mp member with rfl | later
    · have others : (rest.countP fun other =>
          (Function.update progress tileID .completed other).isCompleted) =
          rest.countP fun other => (progress other).isCompleted := by
        refine List.countP_congr fun other member => ?_
        have different : other ≠ tileID := fun same => apart (same ▸ member)
        rw [Function.update_of_ne different]
      rw [others, Function.update_self, before]
      simp [TileProgress.isCompleted]
    · have different : head ≠ tileID := fun same => apart (same ▸ later)
      rw [inductionHypothesis distinctRest later, Function.update_of_ne different]
      omega

theorem startNewFrame_logged :
    Logged frame tiles rank
      (frame.startNewFrame rank (masterMsgSize C frame.channels frame.tileSize)) [] where
  distinct := List.nodup_nil
  begun := by simp [startNewFrame]
  active := by simp
  built := by simp
  reserved := by simp [startNewFrame]
  room := by simp [startNewFrame]
  pending := by simp
  appended := by simp
  counted := by simp [startNewFrame, TileProgress.isCompleted]
  closed := by simp [startNewFrame]
  finishes := by simp [startNewFrame]

theorem Logged.place_le {log : List (Nat × List UInt8)} (logged : Logged frame tiles rank state log)
    {position : Nat} {entry : Nat × List UInt8} (placed : log[position]? = some entry) :
    position * masterMsgSize C frame.channels frame.tileSize +
        masterMsgSize C frame.channels frame.tileSize ≤ state.nextTileWrite := by
  obtain ⟨inside, -⟩ := List.getElem?_eq_some_iff.mp placed
  rw [logged.reserved, ← Nat.succ_mul]
  exact Nat.mul_le_mul_right _ inside

theorem Logged.reserved_le {log : List (Nat × List UInt8)}
    (logged : Logged frame tiles rank state log) :
    state.nextTileWrite ≤ state.tileGatherBuffer.length := by
  have few : (log.map Prod.fst).length ≤ (frame.activeTiles rank).length := by
    refine (logged.distinct.subperm ?_).length_le
    intro tileID member
    obtain ⟨entry, logged_, rfl⟩ := List.mem_map.mp member
    exact logged.active entry logged_
  have whole := frame.startCounts_add_active rank
  rw [List.length_map] at few
  rw [logged.reserved, logged.room]
  exact Nat.mul_le_mul_right _ (by omega)

theorem Logged.position_unique {log : List (Nat × List UInt8)}
    (logged : Logged frame tiles rank state log) {first second tileID : Nat}
    {message other : List UInt8} (here : log[first]? = some (tileID, message))
    (there : log[second]? = some (tileID, other)) : first = second := by
  obtain ⟨inside, -⟩ := List.getElem?_eq_some_iff.mp here
  refine (List.getElem?_inj (by simpa using inside) logged.distinct).mp ?_
  rw [List.getElem?_map, List.getElem?_map, here, there]
  rfl

theorem Logged.position_of_begun {log : List (Nat × List UInt8)}
    (logged : Logged frame tiles rank state log) (tileID : Nat)
    (begun : state.progress tileID ≠ .rendering) :
    ∃ (position : Nat) (message : List UInt8), log[position]? = some (tileID, message) := by
  obtain ⟨⟨_, message⟩, member, rfl⟩ := List.mem_map.mp ((logged.begun tileID).mpr begun)
  obtain ⟨position, placed⟩ := List.getElem?_of_mem member
  exact ⟨position, message, placed⟩

/-- The addition gives the message the room behind the reserved range. -/
theorem Logged.fetchAdd {log : List (Nat × List UInt8)} (logged : Logged frame tiles rank state log)
    {tileID : Nat} {message : List UInt8} (active : tileID ∈ frame.activeTiles rank)
    (rendering : state.progress tileID = .rendering)
    (built : frame.IsMessage tiles tileID message) :
    Logged frame tiles rank
      { state with
        nextTileWrite := state.nextTileWrite + message.length
        progress := Function.update state.progress tileID (.appending message state.nextTileWrite) }
      (log ++ [(tileID, message)]) := by
  have fresh : tileID ∉ log.map Prod.fst := fun member =>
    (logged.begun tileID).mp member rendering
  have unfinished : (state.progress tileID).isCompleted = false := by
    rw [rendering]
    rfl
  have older : ∀ (position other : Nat) (bytes : List UInt8),
      log[position]? = some (other, bytes) → other ≠ tileID := by
    rintro position other bytes placed rfl
    exact fresh (List.mem_map.mpr ⟨_, List.mem_of_getElem? placed, rfl⟩)
  have last : ∀ (position other : Nat) (bytes : List UInt8),
      (log ++ [(tileID, message)])[position]? = some (other, bytes) →
        log[position]? = some (other, bytes) ∨
          position = log.length ∧ other = tileID ∧ bytes = message := by
    intro position other bytes placed
    rw [List.getElem?_append] at placed
    split at placed
    · exact Or.inl placed
    · next behind =>
      obtain ⟨index, same⟩ := List.getElem?_eq_some_iff.mp placed
      simp only [List.length_singleton] at index
      simp only [List.getElem_singleton, Prod.mk.injEq] at same
      exact Or.inr ⟨by omega, same.1.symm, same.2.symm⟩
  constructor
  case distinct =>
    rw [List.map_append, List.map_singleton, List.nodup_append_comm]
    exact List.nodup_cons.mpr ⟨fresh, logged.distinct⟩
  case begun =>
    intro other
    by_cases same : other = tileID
    · simp [same]
    · have before := logged.begun other
      simp only [List.map_append, List.mem_append, List.map_singleton, List.mem_singleton, same,
        or_false, Function.update_of_ne same]
      exact before
  case active =>
    intro entry member
    rcases List.mem_append.mp member with old | new
    · exact logged.active entry old
    · rw [List.mem_singleton.mp new]
      exact active
  case built =>
    intro entry member
    rcases List.mem_append.mp member with old | new
    · exact logged.built entry old
    · rw [List.mem_singleton.mp new]
      exact built
  case reserved =>
    simp only [List.length_append, List.length_singleton, Nat.succ_mul, logged.reserved,
      built.length_eq]
  case room => exact logged.room
  case pending =>
    intro position other bytes placed found n pending
    rcases last position other bytes placed with old | ⟨rfl, rfl, rfl⟩
    · simp only [Function.update_of_ne (older position other bytes old)] at pending
      exact logged.pending position other bytes old found n pending
    · simp only [Function.update_self, TileProgress.appending.injEq] at pending
      exact ⟨pending.1.symm, pending.2.symm.trans logged.reserved⟩
  case appended =>
    intro position other bytes placed notPending
    rcases last position other bytes placed with old | ⟨rfl, rfl, rfl⟩
    · simp only [Function.update_of_ne (older position other bytes old)] at notPending
      exact logged.appended position other bytes old notPending
    · exact absurd (Function.update_self _ _ _) (notPending _ _)
  case counted => simp only [isCompleted_update (.appending _ _) unfinished rfl, logged.counted]
  case closed => exact fun done => absurd (logged.closed done) (not_all_completed active unfinished)
  case finishes =>
    refine fun _ _ all => absurd all (not_all_completed active ?_)
    exact (isCompleted_update _ unfinished rfl tileID).trans unfinished

/-- The copy puts the message at its place and touches no other. -/
theorem Logged.memcpy {log : List (Nat × List UInt8)} (logged : Logged frame tiles rank state log)
    {tileID n : Nat} {message buffer : List UInt8}
    (reserved : state.progress tileID = .appending message n)
    (written : write state.tileGatherBuffer n message = some buffer) :
    Logged frame tiles rank
      { state with
        tileGatherBuffer := buffer
        progress := Function.update state.progress tileID .appended } log := by
  have unfinished : (state.progress tileID).isCompleted = false := by
    rw [reserved]
    rfl
  have begun : state.progress tileID ≠ .rendering := by
    rw [reserved]
    nofun
  obtain ⟨place, own, placed⟩ := logged.position_of_begun tileID begun
  obtain ⟨rfl, rfl⟩ := logged.pending place tileID own placed message n reserved
  have sized := (logged.built _ (List.mem_of_getElem? placed)).length_eq
  have active := logged.active _ (List.mem_of_getElem? placed)
  simp only at sized active
  constructor
  case distinct => exact logged.distinct
  case begun =>
    intro other
    exact (logged.begun other).trans (begun_update .appended begun nofun other).symm
  case active => exact logged.active
  case built => exact logged.built
  case reserved => exact logged.reserved
  case room => exact (length_write written).trans logged.room
  case pending =>
    intro position other bytes found otherMessage n pending
    exact logged.pending position other bytes found otherMessage n
      (appending_of_update .appended nofun pending)
  case appended =>
    intro position other bytes found notPending
    by_cases same : other = tileID
    · subst same
      obtain rfl := logged.position_unique found placed
      obtain rfl : bytes = message := by
        rw [placed] at found
        exact ((Prod.mk.inj (Option.some.inj found)).2).symm
      have stands := read_write_self written
      rw [sized] at stands
      exact stands
    · simp only [Function.update_of_ne same] at notPending
      have apart : position ≠ place := by
        rintro rfl
        rw [placed] at found
        exact same (Prod.mk.inj (Option.some.inj found)).1.symm
      refine (read_write_apart written ?_).trans
        (logged.appended position other bytes found notPending)
      rw [sized]
      exact places_apart apart _
  case counted => simp only [isCompleted_update .appended unfinished rfl, logged.counted]
  case closed => exact fun done => absurd (logged.closed done) (not_all_completed active unfinished)
  case finishes =>
    refine fun _ _ all => absurd all (not_all_completed active ?_)
    exact (isCompleted_update _ unfinished rfl tileID).trans unfinished

/-- Counting a tile closes the frame with the last one. -/
theorem Logged.count {log : List (Nat × List UInt8)} (logged : Logged frame tiles rank state log)
    {tileID : Nat} (appended : state.progress tileID = .appended) :
    Logged frame tiles rank
      (frame.isFrameComplete rank 1 { state with
        progress := Function.update state.progress tileID .completed }) log := by
  have unfinished : (state.progress tileID).isCompleted = false := by
    rw [appended]
    rfl
  have begun : state.progress tileID ≠ .rendering := by
    rw [appended]
    nofun
  obtain ⟨place, own, placed⟩ := logged.position_of_begun tileID begun
  have active := logged.active _ (List.mem_of_getElem? placed)
  have more := countP_completed (frame.activeTiles_nodup rank) active unfinished
  have counted : state.numTilesCompletedThisFrame + 1 =
      (frame.startCounts rank).numTilesCompletedThisFrame +
        (frame.activeTiles rank).countP fun other =>
          (Function.update state.progress tileID .completed other).isCompleted := by
    rw [more, logged.counted]
    omega
  obtain ⟨done, complete⟩ := isFrameComplete_done frame rank
    { state with progress := Function.update state.progress tileID .completed } 1 counted
  constructor
  case distinct => exact logged.distinct
  case begun =>
    intro other
    exact (logged.begun other).trans (begun_update .completed begun nofun other).symm
  case active => exact logged.active
  case built => exact logged.built
  case reserved => exact logged.reserved
  case room => exact logged.room
  case pending =>
    intro position other bytes found otherMessage n pending
    exact logged.pending position other bytes found otherMessage n
      (appending_of_update .completed nofun pending)
  case appended =>
    intro position other bytes found notPending
    refine logged.appended position other bytes found ?_
    by_cases same : other = tileID
    · rw [same, appended]
      nofun
    · simp only [isFrameComplete, Function.update_of_ne same] at notPending
      exact notPending
  case counted => exact counted
  case closed =>
    intro closed
    rcases done closed with before | all
    · exact absurd (logged.closed before) (not_all_completed active unfinished)
    · exact all
  case finishes => exact fun _ renders all => complete renders all

/-- So does the last call of `startNewFrame` if nothing is left to be completed. -/
theorem Logged.start {log : List (Nat × List UInt8)} (logged : Logged frame tiles rank state log) :
    Logged frame tiles rank (frame.isFrameComplete rank 0 { state with started := true }) log := by
  obtain ⟨done, complete⟩ := isFrameComplete_done frame rank { state with started := true } 0
    logged.counted
  exact
    { distinct := logged.distinct
      begun := logged.begun
      active := logged.active
      built := logged.built
      reserved := logged.reserved
      room := logged.room
      pending := logged.pending
      appended := logged.appended
      counted := logged.counted
      closed := fun closed => (done closed).elim logged.closed id
      finishes := fun _ renders all => complete renders all }

theorem Logged.closeCurrentFrame {log : List (Nat × List UInt8)}
    (logged : Logged frame tiles rank state log) (master : rank = 0)
    (idle : frame.masterIsAWorker = false) :
    Logged frame tiles rank { state with frameIsDone := true } log := by
  have none : frame.activeTiles rank = [] := by
    rw [master]
    exact frame.activeTiles_idle idle
  exact
    { logged with
      closed := fun _ => by simp [none]
      finishes := fun _ _ _ => rfl }

theorem Logged.step {log : List (Nat × List UInt8)} {next : RankFrame}
    (logged : Logged frame tiles rank state log) (moved : frame.RankStep tiles rank state next) :
    ∃ extended, Logged frame tiles rank next extended := by
  cases moved with
  | fetchAdd tileID message active rendering built =>
    exact ⟨_, logged.fetchAdd active rendering built⟩
  | memcpy tileID message n buffer reserved written => exact ⟨log, logged.memcpy reserved written⟩
  | count tileID appended => exact ⟨log, logged.count appended⟩
  | start starting => exact ⟨log, logged.start⟩
  | closeCurrentFrame master idle => exact ⟨log, logged.closeCurrentFrame master idle⟩

theorem reached_logged (reached : frame.Reached tiles rank state) :
    ∃ log, Logged frame tiles rank state log := by
  refine @reachable_invariant _ _ _ (fun state => ∃ log, Logged frame tiles rank state log)
    ?_ ?_ state reached
  · rintro _ rfl
    exact ⟨[], startNewFrame_logged⟩
  · rintro _ _ ⟨log, logged⟩ moved
    exact logged.step moved

/-- No message is copied past the end of the gather buffer, and what is reserved ends
inside. -/
theorem reached_inside (reached : frame.Reached tiles rank state) :
    state.nextTileWrite ≤ state.tileGatherBuffer.length ∧
      ∀ tileID message n, state.progress tileID = .appending message n →
        n + message.length ≤ state.nextTileWrite := by
  obtain ⟨log, logged⟩ := reached_logged reached
  refine ⟨logged.reserved_le, ?_⟩
  intro tileID message n pending
  obtain ⟨place, own, placed⟩ := logged.position_of_begun tileID (by rw [pending]; nofun)
  obtain ⟨rfl, rfl⟩ := logged.pending place tileID own placed message n pending
  rw [(logged.built _ (List.mem_of_getElem? placed)).length_eq]
  exact logged.place_le placed

/-- When a rank's frame is closed, its buffer holds one message for each of its active tiles,
in the order in which they got their room, and nothing else is reserved. -/
theorem closed_appended (reached : frame.Reached tiles rank state)
    (closed : state.frameIsDone = true) :
    state.nextTileWrite =
        frame.numTilesExpected rank * masterMsgSize C frame.channels frame.tileSize ∧
      ∃ log : List (Nat × List UInt8), (log.map Prod.fst).Perm (frame.activeTiles rank) ∧
        (∀ entry ∈ log, frame.IsMessage tiles entry.1 entry.2) ∧
        read state.tileGatherBuffer 0 state.nextTileWrite = log.flatMap Prod.snd := by
  obtain ⟨log, logged⟩ := reached_logged reached
  have all := logged.closed closed
  have everyTile : (log.map Prod.fst).Perm (frame.activeTiles rank) := by
    refine (List.perm_ext_iff_of_nodup logged.distinct (frame.activeTiles_nodup rank)).mpr ?_
    intro tileID
    constructor
    · intro member
      obtain ⟨entry, logged_, rfl⟩ := List.mem_map.mp member
      exact logged.active entry logged_
    · intro active
      have completed := all tileID active
      refine (logged.begun tileID).mpr fun rendering => ?_
      rw [rendering] at completed
      cases completed
  have whole : log.length = (frame.activeTiles rank).length := by
    rw [← everyTile.length_eq, List.length_map]
  refine ⟨?_, log, everyTile, logged.built, ?_⟩
  · rw [logged.reserved, whole, numTilesExpected_eq]
  · rw [logged.reserved]
    refine read_pieces log fun position entry placed => ?_
    rw [Nat.zero_add]
    refine logged.appended position entry.1 entry.2 placed fun other n pending => ?_
    have completed := all entry.1 (logged.active entry (List.mem_of_getElem? placed))
    rw [pending] at completed
    cases completed

/-! ## Frames close -/

/-- What is left to do for a tile. -/
def stepsLeft : TileProgress → Nat
  | .rendering => 3
  | .appending _ _ => 2
  | .appended => 1
  | .completed => 0

/-- What is left to do on a rank. -/
def workLeft (frame : DistributedFrame E) (rank : Nat) (state : RankFrame) : Nat :=
  ((frame.activeTiles rank).map fun tileID => stepsLeft (state.progress tileID)).sum +
    if state.started then 0 else 1

omit [PixelColor C] in
theorem workLeft_update (frame : DistributedFrame E) {tileID : Nat} {moved : TileProgress}
    {next : RankFrame} (active : tileID ∈ frame.activeTiles rank)
    (progress : next.progress = Function.update state.progress tileID moved)
    (started : next.started = state.started)
    (less : stepsLeft moved < stepsLeft (state.progress tileID)) :
    frame.workLeft rank next < frame.workLeft rank state := by
  unfold workLeft
  rw [started]
  refine Nat.add_lt_add_right (List.sum_lt_sum _ _ ?_ ⟨tileID, active, ?_⟩) _
  · intro other _
    rw [progress]
    by_cases same : other = tileID
    · rw [same, Function.update_self]
      exact less.le
    · rw [Function.update_of_ne same]
  · rw [progress, Function.update_self]
    exact less

/-- Every step of a rank that renders leaves less to do. -/
theorem workLeft_step {next : RankFrame} (reached : frame.Reached tiles rank state)
    (moved : frame.RankStep tiles rank state next)
    (renders : rank ≠ 0 ∨ frame.masterIsAWorker = true) :
    frame.workLeft rank next < frame.workLeft rank state := by
  obtain ⟨log, logged⟩ := reached_logged reached
  have begun : ∀ tileID, state.progress tileID ≠ .rendering →
      tileID ∈ frame.activeTiles rank := by
    intro tileID begun
    obtain ⟨place, message, placed⟩ := logged.position_of_begun tileID begun
    exact logged.active _ (List.mem_of_getElem? placed)
  cases moved with
  | fetchAdd tileID message active rendering built =>
    exact frame.workLeft_update active rfl rfl
      (by rw [rendering]; exact Nat.lt_succ_self 2)
  | memcpy tileID message n buffer reserved written =>
    exact frame.workLeft_update (begun tileID (by rw [reserved]; nofun)) rfl rfl
      (by rw [reserved]; exact Nat.lt_succ_self 1)
  | count tileID appended =>
    exact frame.workLeft_update (begun tileID (by rw [appended]; nofun)) rfl rfl
      (by rw [appended]; exact Nat.lt_succ_self 0)
  | start starting =>
    simp only [workLeft, isFrameComplete, starting, if_true, Bool.false_eq_true, if_false]
    omega
  | closeCurrentFrame master idle =>
    rcases renders with other | working
    · exact absurd master other
    · rw [idle] at working
      cases working

/-- A rank that can take no step has closed its frame. -/
theorem closed_of_terminal (reached : frame.Reached tiles rank state)
    (renders : rank ≠ 0 ∨ frame.masterIsAWorker = true)
    (stuck : Terminal (frame.RankStep tiles rank) state) : state.frameIsDone = true := by
  obtain ⟨log, logged⟩ := reached_logged reached
  have started : state.started = true := by
    by_contra starting
    exact stuck _ (.start state (Bool.not_eq_true _ ▸ starting))
  refine logged.finishes started renders fun tileID active => ?_
  cases progress : state.progress tileID with
  | completed => rfl
  | appended => exact absurd (.count state tileID progress) (stuck _)
  | appending message n =>
    obtain ⟨inside, bounded⟩ := reached_inside reached
    obtain ⟨buffer, written⟩ := Option.isSome_iff_exists.mp
      (write_isSome.mpr ((bounded tileID message n progress).trans inside))
    exact absurd (.memcpy state tileID message n buffer progress written) (stuck _)
  | rendering =>
    have sized := List.length_replicate (n := masterMsgSize C frame.channels frame.tileSize)
      (a := (0 : UInt8))
    obtain ⟨message, built⟩ := buildMessage_defined frame.channels frame.tileSize
      (tileBegin frame.tileSize frame.size tileID) (tiles tileID) sized
    exact absurd (.fetchAdd state tileID message active progress ⟨_, sized, built⟩) (stuck _)

theorem frame_closes (reached : frame.Reached tiles rank state) :
    ∃ last, frame.Reached tiles rank last ∧ last.frameIsDone = true := by
  by_cases renders : rank ≠ 0 ∨ frame.masterIsAWorker = true
  · obtain ⟨last, run, ends⟩ := @terminal_reachable _
      (fun state next => frame.Reached tiles rank state ∧ frame.RankStep tiles rank state next)
      (frame.workLeft rank) (fun state next moved => workLeft_step moved.1 moved.2 renders) state
    have arrived : frame.Reached tiles rank last :=
      reachable_run reached (run.lift id fun _ _ moved => moved.2)
    exact ⟨last, arrived, closed_of_terminal arrived renders fun next moved =>
      ends next ⟨arrived, moved⟩⟩
  · obtain ⟨master, idle⟩ := not_or.mp renders
    exact ⟨_, reachable_step reached
      (.closeCurrentFrame state (not_not.mp master) (Bool.not_eq_true _ ▸ idle)), rfl⟩

end Runs

end DistributedFrame

end Ospray

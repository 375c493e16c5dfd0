import Mathlib
import Ospray.Fb.TileData

/-!
# Tiles rendered several times in one frame

The dynamic load balancer may render a tile more than once in a frame. The owner
does not know the order in which these instances arrive. It keeps the first one
with an even number aside and sums up the others without normalizing; the last
arrival adds the one kept aside, under the largest number seen, which normalizes
the sums.

The sums of a pixel do not depend on the order of its samples, and the variance
takes the samples with odd numbers, none of which is kept aside. That is why the
frame ends as if the instances had been accumulated one after another.
-/

namespace Ospray

variable {K D : Type}

/-- `WriteMultipleTile`. -/
structure WriteMultipleTile (K D : Type) extends TileData K D where
  maxAccumID : Nat
  instances : Int
  writeOnceTile : Bool
  bufferedTile : Tile K D
  tileBuffered : Bool

/-- `newFrame`, where `tileInstances` is the number of times the tile was scheduled. -/
def WriteMultipleTile.newFrame (self : WriteMultipleTile K D) (tileInstances : Int) :
    WriteMultipleTile K D :=
  { self with
    maxAccumID := 0
    instances := tileInstances
    writeOnceTile := tileInstances ≤ 1
    tileBuffered := false }

section Process

variable [Field K] [LinearOrder K]
variable (target : Target) (rsqrtf : K → K) (channels : Channels)

/-- The depths of the region's rows, copied with the first sample since the last
clear. -/
def WriteMultipleTile.copyDepth (self : WriteMultipleTile K D) (tile : Tile K D) :
    WriteMultipleTile K D :=
  let bytes := covered target tile.region.size
  let copied := fun (pixels : Nat → Pixel K D) j =>
    if j < bytes then { pixels j with z := (tile.pixel j).z } else pixels j
  { self with
    accum := { self.accum with pixel := copied self.accum.pixel }
    final := { self.final with pixel := copied self.final.pixel } }

/-- The part of `process` under the mutex: the tile is kept aside or summed up. -/
def WriteMultipleTile.absorb (self : WriteMultipleTile K D) (tile : Tile K D) :
    WriteMultipleTile K D :=
  let counted :=
    { self with maxAccumID := max self.maxAccumID tile.accumID, instances := self.instances - 1 }
  if !self.tileBuffered && tile.accumID % 2 == 0 then
    { counted with bufferedTile := tile, tileBuffered := true }
  else
    let sums := accumulateTileSimple target tile self.accum self.variance
    if channels.hasAux then
      let aux := accumulateAuxTile target tile self.final sums.1
      { counted with accum := aux.2, variance := sums.2, final := aux.1 }
    else { counted with accum := sums.1, variance := sums.2 }

/-- The part of `process` for the last instance. With an even largest number the
error is estimated before the tile kept aside is added, with an odd one after;
the variance has taken as many samples in either case. -/
def WriteMultipleTile.complete (self : WriteMultipleTile K D) (tile : Tile K D) :
    WriteMultipleTile K D :=
  let sz := tile.region.size
  let bufferedTile := { self.bufferedTile with accumID := self.maxAccumID }
  if self.maxAccumID % 2 == 0 then
    let prevErr := computeErrorForTile target rsqrtf sz self.accum self.variance
      ((self.maxAccumID : K) - 1)
    let accumulated := self.toTileData.accumulate target rsqrtf channels bufferedTile
    { self with
      toTileData := { accumulated with error := ((prevErr : K) : WithTop K) }
      bufferedTile := bufferedTile }
  else
    -- The same as `accumulate`, with the accumulation of variance disabled.
    let accumulated := self.toTileData.accumulate target rsqrtf
      { channels with hasVarianceBuffer := false, varianceAccumulates := nofun } bufferedTile
    { self with
      toTileData := { accumulated with
        error := ((computeErrorForTile target rsqrtf sz accumulated.accum accumulated.variance
          (self.maxAccumID : K) : K) : WithTop K) }
      bufferedTile := bufferedTile }

/-- `process`, and whether it calls `tileIsCompleted`. -/
def WriteMultipleTile.process (self : WriteMultipleTile K D) (tile : Tile K D) :
    WriteMultipleTile K D × Bool :=
  if self.writeOnceTile then
    ({ self with toTileData :=
        (self.toTileData.setFinalRegion tile).accumulate target rsqrtf channels tile }, true)
  else
    let begun :=
      if tile.accumID = 0 then
        { self with toTileData := self.toTileData.setFinalRegion tile }.copyDepth target tile
      else self
    let absorbed := begun.absorb target channels tile
    if absorbed.instances = 0 then (absorbed.complete target rsqrtf channels tile, true)
    else (absorbed, false)

/-- The calls of `process` in one frame, and which of them call `tileIsCompleted`. -/
def WriteMultipleTile.processAll (self : WriteMultipleTile K D) :
    List (Tile K D) → WriteMultipleTile K D × List Bool
  | [] => (self, [])
  | tile :: rest =>
    let call := self.process target rsqrtf channels tile
    let later := call.1.processAll rest
    (later.1, call.2 :: later.2)

/-- A sequence of frames with one instance of the tile each. -/
def WriteMultipleTile.singleFrames (self : WriteMultipleTile K D) (tiles : List (Tile K D)) :
    WriteMultipleTile K D :=
  tiles.foldl (fun self tile => ((self.newFrame 1).process target rsqrtf channels tile).1) self

end Process

section Sums

variable [Field K]

/-- The variance of a pixel after a sample that is summed up without a reset. -/
def Pixel.vary (self : Pixel K D) (accumID : Nat) (sample : Pixel K D) : Pixel K D :=
  if accumID % 2 == 1 then { self with color := self.color + sample.color } else self

/-- The samples with the given numbers, added to a pixel. -/
def sumSamples (hasAux : Bool) (samples : Nat → Pixel K D) (base : Pixel K D) (ids : List Nat) :
    Pixel K D :=
  ids.foldl (fun sums id => sums.add hasAux (samples id)) base

/-- The variance of a pixel after the samples with the given numbers. -/
def varySamples (samples : Nat → Pixel K D) (base : Pixel K D) (ids : List Nat) : Pixel K D :=
  ids.foldl (fun vari id => vari.vary id (samples id)) base

theorem addSample_comm (hasAux : Bool) (sums first second : Pixel K D) :
    (sums.add hasAux first).add hasAux second = (sums.add hasAux second).add hasAux first := by
  cases hasAux <;> simp [Pixel.add, Pixel.withAux, add_left_comm, add_right_comm]

theorem sumSamples_perm (hasAux : Bool) (samples : Nat → Pixel K D) (base : Pixel K D)
    {ids others : List Nat} (same : ids.Perm others) :
    sumSamples hasAux samples base ids = sumSamples hasAux samples base others :=
  same.foldl_eq' (fun _ _ _ _ sums => addSample_comm hasAux sums _ _) base

theorem varySamples_perm (samples : Nat → Pixel K D) (base : Pixel K D)
    {ids others : List Nat} (same : ids.Perm others) :
    varySamples samples base ids = varySamples samples base others := by
  refine same.foldl_eq' ?_ base
  intro first _ second _ vari
  unfold Pixel.vary
  split_ifs <;> simp [add_right_comm]

theorem mean_mean (hasAux : Bool) (last : Pixel K D) (count total : K) (sums others : Pixel K D) :
    (last.mean hasAux count others).mean hasAux total sums = last.mean hasAux total sums := by
  cases hasAux <;> rfl

theorem withAux_mean (hasAux : Bool) (last : Pixel K D) (normal albedo : Vec3 K) (total : K)
    (sums : Pixel K D) :
    (last.withAux hasAux normal albedo).mean hasAux total sums = last.mean hasAux total sums := by
  cases hasAux <;> rfl

end Sums

section Agreement

variable [Field K] [LinearOrder K]
variable (target : Target) (rsqrtf : K → K) (channels : Channels)

/-- A pixel in the middle of a frame: the samples with the given numbers have been
summed up, and the final pixel has changed in its normal and albedo at most. -/
structure Summed (channels : Channels) (samples : Nat → Pixel K D) (base : OwnedPixel K D)
    (ids : List Nat) (pixel : OwnedPixel K D) : Prop where
  accum : pixel.accum = sumSamples channels.hasAux samples base.accum ids
  variance : pixel.variance = varySamples samples base.variance ids
  final : ∃ normal albedo, pixel.final = base.final.withAux channels.hasAux normal albedo

omit [LinearOrder K] in
/-- Summing up a tile, seen at one pixel. -/
theorem absorb_at (self : WriteMultipleTile K D) (tile : Tile K D) (later : 0 < tile.accumID)
    (summed : ¬ (!self.tileBuffered && tile.accumID % 2 == 0) = true) (j : Nat) :
    ∃ normal albedo, (self.absorb target channels tile).toTileData.at j =
      if j < covered target tile.region.size then
        { accum := (self.accum.pixel j).add channels.hasAux (tile.pixel j)
          variance := (self.variance.pixel j).vary tile.accumID (tile.pixel j)
          final := (self.final.pixel j).withAux channels.hasAux normal albedo }
      else self.toTileData.at j := by
  have notFirst : ¬ tile.accumID < 1 := Nat.not_lt.mpr later
  have sums := accumulateTileSimple_pixel target tile self.accum self.variance j
  have aux := accumulateAuxTile_pixel target tile self.final
    (accumulateTileSimple target tile self.accum self.variance).1 j
  simp only [auxSample, notFirst, if_false] at aux
  unfold WriteMultipleTile.absorb TileData.at Pixel.add Pixel.vary Pixel.withAux
  rw [if_neg summed]
  refine ⟨((tile.accumID : K) + 1)⁻¹ • ((self.accum.pixel j).normal + (tile.pixel j).normal),
    ((tile.accumID : K) + 1)⁻¹ • ((self.accum.pixel j).albedo + (tile.pixel j).albedo), ?_⟩
  by_cases inRows : j < covered target tile.region.size
  · simp only [if_pos inRows, Prod.mk.injEq] at sums aux ⊢
    cases channels.hasAux with
    | false => simp only [Bool.false_eq_true, if_false, sums.1, sums.2, add_comm]
    | true => simp only [if_true, aux.1, aux.2, sums.1, sums.2, add_comm]
  · simp only [if_neg inRows, Prod.mk.injEq] at sums aux ⊢
    cases channels.hasAux with
    | false => simp only [Bool.false_eq_true, if_false, sums.1, sums.2]
    | true => simp only [if_true, aux.1, aux.2, sums.1, sums.2]

omit [LinearOrder K] in
theorem absorb_counters (self : WriteMultipleTile K D) (tile : Tile K D) :
    (self.absorb target channels tile).writeOnceTile = self.writeOnceTile ∧
      (self.absorb target channels tile).instances = self.instances - 1 ∧
      (self.absorb target channels tile).maxAccumID = max self.maxAccumID tile.accumID := by
  unfold WriteMultipleTile.absorb
  split_ifs <;> exact ⟨rfl, rfl, rfl⟩

omit [LinearOrder K] in
theorem absorb_buffer (self : WriteMultipleTile K D) (tile : Tile K D)
    (summed : ¬ (!self.tileBuffered && tile.accumID % 2 == 0) = true) :
    (self.absorb target channels tile).tileBuffered = self.tileBuffered ∧
      (self.absorb target channels tile).bufferedTile = self.bufferedTile := by
  unfold WriteMultipleTile.absorb
  rw [if_neg summed]
  split_ifs <;> exact ⟨rfl, rfl⟩

/-- The instance of a tile with the given number, as rendered from the samples of
its pixels. -/
def instanceTile (target : Target) (tile fbSize : Vec2i) (samples : Nat → Nat → Pixel K D)
    (accumID : Nat) : Tile K D :=
  Tile.make target.tileSize tile fbSize accumID (samples accumID)

variable (tile fbSize : Vec2i) (samples : Nat → Nat → Pixel K D)

/-- Pixels of the rows of a tile. -/
def tileArea : Nat := covered target (tileRegion target.tileSize tile fbSize).size

/-- The owner after the instances with the given numbers have arrived, of which
`begun` is the state at the beginning of the frame and `total` the number. -/
structure Collecting (begun : WriteMultipleTile K D) (total : Int) (seen : List Nat)
    (owner : WriteMultipleTile K D) : Prop where
  several : owner.writeOnceTile = false
  missing : owner.instances = total - seen.length
  bounded : ∀ id ∈ seen, id ≤ owner.maxAccumID
  attained : seen = [] ∧ owner.maxAccumID = 0 ∨ owner.maxAccumID ∈ seen
  summed : ∃ summed : List Nat,
    (owner.tileBuffered = false ∧ seen.Perm summed ∧ (∀ id ∈ seen, id % 2 = 1) ∨
      owner.tileBuffered = true ∧ ∃ first, first % 2 = 0 ∧
        owner.bufferedTile = instanceTile target tile fbSize samples first ∧
        seen.Perm (first :: summed)) ∧
    ∀ j, if j < tileArea target tile fbSize then
        Summed channels (fun id => samples id j) (begun.toTileData.at j) summed
          (owner.toTileData.at j)
      else owner.toTileData.at j = begun.toTileData.at j

omit [LinearOrder K] in
theorem newFrame_collecting (begun : WriteMultipleTile K D) (total : Int) (several : 1 < total) :
    Collecting target channels tile fbSize samples begun total [] (begun.newFrame total) := by
  refine ⟨?_, by simp [WriteMultipleTile.newFrame], by simp, .inl ⟨rfl, rfl⟩, [],
    .inl ⟨rfl, .refl _, by simp⟩, ?_⟩
  · simp [WriteMultipleTile.newFrame, several]
  · intro j
    split
    · refine ⟨rfl, rfl, (begun.final.pixel j).normal, (begun.final.pixel j).albedo, ?_⟩
      cases channels.hasAux <;> rfl
    · rfl

omit [LinearOrder K] in
theorem summed_snoc {pixels : Nat → Pixel K D} {base pixel : OwnedPixel K D} {ids : List Nat}
    (summed : Summed channels pixels base ids pixel) (id : Nat) (normal albedo : Vec3 K) :
    Summed channels pixels base (ids ++ [id])
      { accum := pixel.accum.add channels.hasAux (pixels id)
        variance := pixel.variance.vary id (pixels id)
        final := pixel.final.withAux channels.hasAux normal albedo } := by
  obtain ⟨accum, variance, oldNormal, oldAlbedo, final⟩ := summed
  refine ⟨?_, ?_, normal, albedo, ?_⟩
  · simp [accum, sumSamples]
  · simp [variance, varySamples]
  · simp only [final]
    cases channels.hasAux <;> rfl

omit [LinearOrder K] in
/-- Every instance is kept aside or summed up. -/
theorem absorb_collecting {begun owner : WriteMultipleTile K D} {total : Int} {seen : List Nat}
    (collecting : Collecting target channels tile fbSize samples begun total seen owner)
    (id : Nat) (later : 0 < id) :
    Collecting target channels tile fbSize samples begun total (seen ++ [id])
      (owner.absorb target channels (instanceTile target tile fbSize samples id)) := by
  obtain ⟨several, missing, bounded, attained, summed, kept, pixels⟩ := collecting
  obtain ⟨onceNext, instancesNext, maxNext⟩ := absorb_counters target channels owner
    (instanceTile target tile fbSize samples id)
  have number : (instanceTile target tile fbSize samples id).accumID = id := rfl
  rw [number] at maxNext
  refine ⟨onceNext.trans several, ?_, ?_, ?_, ?_⟩
  · rw [instancesNext, missing, List.length_append, List.length_singleton]
    push_cast
    ring
  · intro other member
    rw [maxNext]
    rcases List.mem_append.mp member with before | now
    · exact (bounded other before).trans (le_max_left _ _)
    · exact (List.mem_singleton.mp now).le.trans (le_max_right _ _)
  · rw [maxNext, List.mem_append, List.mem_singleton]
    refine .inr ?_
    rcases le_total owner.maxAccumID id with smaller | larger
    · exact .inr (max_eq_right smaller)
    · rw [max_eq_left larger]
      rcases attained with ⟨_, zero⟩ | member
      · omega
      · exact .inl member
  · by_cases aside : (!owner.tileBuffered && id % 2 == 0) = true
    · have keeps : owner.absorb target channels (instanceTile target tile fbSize samples id) =
          { owner with
            maxAccumID := max owner.maxAccumID id, instances := owner.instances - 1
            bufferedTile := instanceTile target tile fbSize samples id, tileBuffered := true } :=
        if_pos aside
      simp only [Bool.and_eq_true, Bool.not_eq_true', beq_iff_eq] at aside
      rcases kept with ⟨_, same, _⟩ | ⟨buffered, _⟩
      · rw [keeps]
        refine ⟨summed, .inr ⟨rfl, id, aside.2, rfl, ?_⟩, pixels⟩
        exact (List.perm_append_singleton id seen).trans (same.cons id)
      · rw [aside.1] at buffered
        cases buffered
    · refine ⟨summed ++ [id], ?_, ?_⟩
      · have unchanged := absorb_buffer target channels owner
          (instanceTile target tile fbSize samples id) aside
        rw [unchanged.1, unchanged.2]
        rcases kept with ⟨unbuffered, same, odd⟩ | ⟨buffered, first, even, which, same⟩
        · refine .inl ⟨unbuffered, same.append_right [id], ?_⟩
          intro other member
          rcases List.mem_append.mp member with before | now
          · exact odd other before
          · rw [unbuffered] at aside
            simp only [Bool.not_false, Bool.true_and, beq_iff_eq] at aside
            rw [List.mem_singleton.mp now]
            omega
        · exact .inr ⟨buffered, first, even, which, same.append_right [id]⟩
      · intro j
        obtain ⟨normal, albedo, here⟩ := absorb_at target channels owner
          (instanceTile target tile fbSize samples id) later aside j
        have before := pixels j
        rw [here]
        by_cases inRows : j < tileArea target tile fbSize
        · rw [if_pos inRows] at before ⊢
          have inTile : j < covered target
            (instanceTile target tile fbSize samples id).region.size := inRows
          rw [if_pos inTile]
          exact summed_snoc channels before id normal albedo
        · rw [if_neg inRows] at before ⊢
          have outside : ¬ j < covered target
            (instanceTile target tile fbSize samples id).region.size := inRows
          rw [if_neg outside]
          exact before

/-- A call of `process` absorbs its instance, and completes the tile when it is the
last one. -/
theorem process_collecting {begun owner : WriteMultipleTile K D} {total : Int} {seen : List Nat}
    (collecting : Collecting target channels tile fbSize samples begun total seen owner)
    (id : Nat) (later : 0 < id) :
    let arrived := instanceTile target tile fbSize samples id
    let absorbed := owner.absorb target channels arrived
    owner.process target rsqrtf channels arrived =
      if total = seen.length + 1 then (absorbed.complete target rsqrtf channels arrived, true)
      else (absorbed, false) := by
  intro arrived absorbed
  have counters := absorb_counters target channels owner arrived
  have notFirst : ¬ arrived.accumID = 0 := Nat.ne_of_gt later
  unfold WriteMultipleTile.process
  simp only [collecting.several, Bool.false_eq_true, if_false, notFirst, counters.2.1,
    collecting.missing]
  by_cases last : total = seen.length + 1
  · rw [if_pos last, if_pos (by omega)]
  · rw [if_neg last, if_neg (by omega)]

/-- All instances of a frame: the tile is completed by the last one, when every
instance has been absorbed. -/
theorem processAll_collecting {begun owner : WriteMultipleTile K D} {total : Int}
    {seen : List Nat} (rest : List Nat)
    (collecting : Collecting target channels tile fbSize samples begun total seen owner)
    (later : ∀ id ∈ rest, 0 < id) (all : total = seen.length + rest.length) (more : rest ≠ []) :
    ∃ absorbed last,
      Collecting target channels tile fbSize samples begun total (seen ++ rest) absorbed ∧
      owner.processAll target rsqrtf channels (rest.map (instanceTile target tile fbSize samples)) =
        (absorbed.complete target rsqrtf channels (instanceTile target tile fbSize samples last),
          List.replicate (rest.length - 1) false ++ [true]) := by
  induction rest generalizing seen owner with
  | nil => exact absurd rfl more
  | cons id rest inductionHypothesis =>
    have now := process_collecting target rsqrtf channels tile fbSize samples collecting id
      (later id List.mem_cons_self)
    have absorbed := absorb_collecting target channels tile fbSize samples collecting id
      (later id List.mem_cons_self)
    rcases eq_or_ne rest [] with rfl | others
    · refine ⟨_, id, absorbed, ?_⟩
      dsimp only at now
      rw [if_pos (by simpa using all)] at now
      simp only [List.map_cons, List.map_nil, WriteMultipleTile.processAll, now]
      rfl
    · have notLast : ¬ total = seen.length + 1 := by
        have some := List.length_pos_iff.mpr others
        rw [List.length_cons] at all
        omega
      dsimp only at now
      rw [if_neg notLast] at now
      obtain ⟨last, final, collected, run⟩ := inductionHypothesis absorbed
        (fun other member => later other (List.mem_cons_of_mem id member))
        (by rw [all, List.length_append]; simp; ring) others
      refine ⟨last, final, by simpa using collected, ?_⟩
      simp only [List.map_cons, WriteMultipleTile.processAll, now, run]
      obtain ⟨head, tail, rfl⟩ := List.exists_cons_of_ne_nil others
      simp [List.replicate_succ]

/-- Completing the tile adds the instance kept aside and normalizes the sums. The
variance has taken its samples already: the number used is even, or else the
accumulation of variance is disabled. -/
theorem complete_at (accumulates : channels.hasAccumBuffer = true)
    (owner : WriteMultipleTile K D) (last : Tile K D) (positive : 0 < owner.maxAccumID) (j : Nat) :
    (owner.complete target rsqrtf channels last).toTileData.at j =
      if j < covered target owner.bufferedTile.region.size then
        { accum := (owner.accum.pixel j).add channels.hasAux (owner.bufferedTile.pixel j)
          variance := owner.variance.pixel j
          final := (owner.final.pixel j).mean channels.hasAux ((owner.maxAccumID : K) + 1)
            ((owner.accum.pixel j).add channels.hasAux (owner.bufferedTile.pixel j)) }
      else owner.toTileData.at j := by
  unfold WriteMultipleTile.complete
  by_cases even : (owner.maxAccumID % 2 == 0) = true
  · have notOdd : (owner.maxAccumID % 2 == 1) = false := by
      simp only [beq_iff_eq] at even
      simp [even]
    have added := accumulate_later target rsqrtf channels accumulates owner.toTileData
      { owner.bufferedTile with accumID := owner.maxAccumID } positive j
    simp only [OwnedPixel.later, notOdd, Bool.and_false, Bool.false_eq_true, if_false] at added
    rw [if_pos even]
    exact added
  · have added := accumulate_later target rsqrtf
      { channels with hasVarianceBuffer := false, varianceAccumulates := nofun } accumulates
      owner.toTileData { owner.bufferedTile with accumID := owner.maxAccumID } positive j
    simp only [OwnedPixel.later, Bool.false_and, Bool.false_eq_true, if_false] at added
    rw [if_neg even]
    exact added

theorem process_once (owner : WriteMultipleTile K D) (once : owner.writeOnceTile = true)
    (id j : Nat) :
    (owner.process target rsqrtf channels
        (instanceTile target tile fbSize samples id)).1.toTileData.at j =
      if j < tileArea target tile fbSize then
        (owner.toTileData.at j).accumulate channels id (samples id j)
      else owner.toTileData.at j := by
  unfold WriteMultipleTile.process
  rw [if_pos once]
  exact accumulate_at target rsqrtf channels
    (owner.toTileData.setFinalRegion (instanceTile target tile fbSize samples id))
    (instanceTile target tile fbSize samples id) j

theorem singleFrame_accumulate (owner : WriteMultipleTile K D) (id j : Nat) :
    ((owner.newFrame 1).process target rsqrtf channels
        (instanceTile target tile fbSize samples id)).1.toTileData.at j =
      if j < tileArea target tile fbSize then
        (owner.toTileData.at j).accumulate channels id (samples id j)
      else owner.toTileData.at j :=
  process_once target rsqrtf channels tile fbSize samples (owner.newFrame 1) rfl id j

theorem singleFrame_at (accumulates : channels.hasAccumBuffer = true)
    (owner : WriteMultipleTile K D) (id : Nat) (later : 0 < id) (j : Nat) :
    ((owner.newFrame 1).process target rsqrtf channels
        (instanceTile target tile fbSize samples id)).1.toTileData.at j =
      if j < tileArea target tile fbSize then
        (owner.toTileData.at j).later channels id (samples id j)
      else owner.toTileData.at j := by
  have notFirst : ¬ id < 1 := Nat.not_lt.mpr later
  rw [singleFrame_accumulate]
  simp only [OwnedPixel.accumulate, notFirst, accumulates, if_false, if_true]

omit [LinearOrder K] in
/-- A further sample varies a pixel like one that is summed up, unless it resets a
variance that is not zero. -/
theorem later_variance (variance : channels.hasVarianceBuffer = true) (pixel : OwnedPixel K D)
    (id : Nat) (later : 0 < id) (sample : Pixel K D)
    (fresh : id = 1 → pixel.variance.color = 0) :
    (pixel.later channels id sample).variance = pixel.variance.vary id sample := by
  unfold OwnedPixel.later Pixel.vary
  rw [variance]
  rcases eq_or_ne id 1 with rfl | further
  · simp [fresh rfl]
  · have large : 1 < id := by omega
    simp [large]

/-- Frames with one instance each, the numbers counting up from `k`. The induction
is on the number of frames; a reset of the variance can only happen in the first
one, and changes nothing when the variance is zero there. -/
theorem singleFrames_at (variance : channels.hasVarianceBuffer = true)
    (owner : WriteMultipleTile K D) (k : Nat) (later : 1 ≤ k) (j : Nat)
    (fresh : k = 1 → (owner.variance.pixel j).color = 0) (more : Nat) :
    (owner.singleFrames target rsqrtf channels
        ((List.range' k (more + 1)).map (instanceTile target tile fbSize samples))).toTileData.at j =
      if j < tileArea target tile fbSize then
        { accum := sumSamples channels.hasAux (fun id => samples id j) (owner.accum.pixel j)
            (List.range' k (more + 1))
          variance := varySamples (fun id => samples id j) (owner.variance.pixel j)
            (List.range' k (more + 1))
          final := (owner.final.pixel j).mean channels.hasAux (((k + more : Nat) : K) + 1)
            (sumSamples channels.hasAux (fun id => samples id j) (owner.accum.pixel j)
              (List.range' k (more + 1))) }
      else owner.toTileData.at j := by
  have accumulates := channels.varianceAccumulates variance
  induction more with
  | zero =>
    refine (singleFrame_at target rsqrtf channels tile fbSize samples accumulates owner k
      later j).trans ?_
    have varied := later_variance channels variance (owner.toTileData.at j) k later (samples k j)
      fresh
    split
    · exact congrArg (OwnedPixel.mk _ · _) varied
    · rfl
  | succ more inductionHypothesis =>
    have oneMore : List.range' k (more + 1 + 1) = List.range' k (more + 1) ++ [k + (more + 1)] := by
      rw [List.range'_concat, Nat.one_mul]
    have frame := singleFrame_at target rsqrtf channels tile fbSize samples accumulates
      (owner.singleFrames target rsqrtf channels
        ((List.range' k (more + 1)).map (instanceTile target tile fbSize samples)))
      (k + (more + 1)) (by omega) j
    rw [inductionHypothesis] at frame
    have unfolded : owner.singleFrames target rsqrtf channels
        ((List.range' k (more + 1 + 1)).map (instanceTile target tile fbSize samples)) =
        (((owner.singleFrames target rsqrtf channels
          ((List.range' k (more + 1)).map (instanceTile target tile fbSize samples))).newFrame
            1).process target rsqrtf channels
            (instanceTile target tile fbSize samples (k + (more + 1)))).1 := by
      rw [oneMore]
      simp [WriteMultipleTile.singleFrames]
    rw [unfolded]
    refine frame.trans ?_
    split
    · have varied := later_variance channels variance
        ⟨sumSamples channels.hasAux (fun id => samples id j) (owner.accum.pixel j)
            (List.range' k (more + 1)),
          varySamples (fun id => samples id j) (owner.variance.pixel j) (List.range' k (more + 1)),
          (owner.final.pixel j).mean channels.hasAux (((k + more : Nat) : K) + 1)
            (sumSamples channels.hasAux (fun id => samples id j) (owner.accum.pixel j)
              (List.range' k (more + 1)))⟩
        (k + (more + 1)) (by omega) (samples (k + (more + 1)) j) (by omega)
      rw [oneMore]
      simp only [sumSamples, varySamples, List.foldl_append, List.foldl_cons, List.foldl_nil]
        at varied ⊢
      rw [← varied]
      simp only [OwnedPixel.later, mean_mean]
    · rfl

omit [LinearOrder K] in
/-- When all instances have been absorbed, the largest number is the last one of
the range, and one instance with an even number has been kept aside. -/
theorem collected_buffer {begun owner : WriteMultipleTile K D} {total : Int} {seen : List Nat}
    (collecting : Collecting target channels tile fbSize samples begun total seen owner)
    (k more : Nat) (instances : seen.Perm (List.range' k (more + 2))) :
    owner.maxAccumID = k + (more + 1) ∧ ∃ first summed, first % 2 = 0 ∧
      owner.bufferedTile = instanceTile target tile fbSize samples first ∧
      (List.range' k (more + 2)).Perm (first :: summed) ∧
      ∀ j, if j < tileArea target tile fbSize then
          Summed channels (fun id => samples id j) (begun.toTileData.at j) summed
            (owner.toTileData.at j)
        else owner.toTileData.at j = begun.toTileData.at j := by
  obtain ⟨_, _, bounded, attained, summed, kept, pixels⟩ := collecting
  have within : ∀ id, id ∈ seen ↔ k ≤ id ∧ id < k + (more + 2) := by
    intro id
    rw [instances.mem_iff, List.mem_range'_1]
  refine ⟨?_, ?_⟩
  · have reached := bounded (k + (more + 1)) ((within _).mpr ⟨by omega, by omega⟩)
    rcases attained with ⟨rfl, _⟩ | member
    · have none := instances.length_eq
      simp at none
    · have limit := (within _).mp member
      omega
  · rcases kept with ⟨_, _, odd⟩ | ⟨_, first, even, which, same⟩
    · have one := odd k ((within _).mpr ⟨by omega, by omega⟩)
      have two := odd (k + 1) ((within _).mpr ⟨by omega, by omega⟩)
      omega
    · exact ⟨first, summed, even, which, instances.symm.trans same, pixels⟩

/-- A completed frame with several instances, seen at one pixel: the samples have
been added as if in order, and the mean is the one of the last number. -/
theorem complete_collected (accumulates : channels.hasAccumBuffer = true)
    {begun owner : WriteMultipleTile K D} {total : Int} {seen : List Nat}
    (collecting : Collecting target channels tile fbSize samples begun total seen owner)
    (k more : Nat) (instances : seen.Perm (List.range' k (more + 2))) (last : Tile K D) (j : Nat) :
    (owner.complete target rsqrtf channels last).toTileData.at j =
      if j < tileArea target tile fbSize then
        { accum := sumSamples channels.hasAux (fun id => samples id j) (begun.accum.pixel j)
            (List.range' k (more + 2))
          variance := varySamples (fun id => samples id j) (begun.variance.pixel j)
            (List.range' k (more + 2))
          final := (begun.final.pixel j).mean channels.hasAux (((k + (more + 1) : Nat) : K) + 1)
            (sumSamples channels.hasAux (fun id => samples id j) (begun.accum.pixel j)
              (List.range' k (more + 2))) }
      else begun.toTileData.at j := by
  obtain ⟨largest, first, summed, even, which, same, pixels⟩ :=
    collected_buffer target channels tile fbSize samples collecting k more instances
  have completed := complete_at target rsqrtf channels accumulates owner last (by omega) j
  rw [completed, largest, which]
  have here := pixels j
  by_cases inRows : j < tileArea target tile fbSize
  · have inTile : j < covered target
      (instanceTile target tile fbSize samples first).region.size := inRows
    rw [if_pos inRows] at here ⊢
    rw [if_pos inTile]
    obtain ⟨accum, variance, normal, albedo, final⟩ := here
    have sums : (owner.accum.pixel j).add channels.hasAux (samples first j) =
        sumSamples channels.hasAux (fun id => samples id j) (begun.accum.pixel j)
          (List.range' k (more + 2)) := by
      have moved := same.trans (List.perm_append_singleton first summed).symm
      rw [sumSamples_perm _ _ _ moved]
      simp only [sumSamples, List.foldl_append, List.foldl_cons, List.foldl_nil]
      exact congrArg (Pixel.add · channels.hasAux (samples first j)) accum
    have varied : owner.variance.pixel j =
        varySamples (fun id => samples id j) (begun.variance.pixel j)
          (List.range' k (more + 2)) := by
      have unvaried : (begun.variance.pixel j).vary first (samples first j) =
          begun.variance.pixel j := by
        simp [Pixel.vary, even]
      rw [varySamples_perm _ _ same]
      simp only [varySamples, List.foldl_cons, unvaried]
      exact variance
    have replaced : owner.final.pixel j =
        (begun.final.pixel j).withAux channels.hasAux normal albedo := final
    have sample : (instanceTile target tile fbSize samples first).pixel j = samples first j := rfl
    rw [sample, sums, varied, replaced, withAux_mean]
  · have outside : ¬ j < covered target
      (instanceTile target tile fbSize samples first).region.size := inRows
    rw [if_neg inRows] at here ⊢
    rw [if_neg outside]
    exact here

/-- `clear(OSP_FB_ACCUM)` of the tile. -/
def WriteMultipleTile.clearAccum (inf : D) (self : WriteMultipleTile K D) :
    WriteMultipleTile K D :=
  { self with toTileData := self.toTileData.clearAccum channels inf }

/-- After a clear and one frame the variance is still zero. -/
theorem clear_fresh (variance : channels.hasVarianceBuffer = true) (inf : D)
    (self : WriteMultipleTile K D) (j : Nat) :
    (((self.clearAccum channels inf).singleFrames target rsqrtf channels
      ((List.range 1).map (instanceTile target tile fbSize samples))).variance.pixel j).color =
        0 := by
  have accumulates := channels.varianceAccumulates variance
  have cleared : ((self.clearAccum channels inf).variance.pixel j).color = 0 := by
    simp [WriteMultipleTile.clearAccum, TileData.clearAccum, accumulates, variance]
  have once : ((self.clearAccum channels inf).newFrame 1).writeOnceTile = true := rfl
  have frame := accumulate_first target rsqrtf channels
    (((self.clearAccum channels inf).newFrame 1).toTileData.setFinalRegion
      (instanceTile target tile fbSize samples 0))
    (instanceTile target tile fbSize samples 0) rfl j
  have kept := congrArg OwnedPixel.variance frame
  have unfolded : (self.clearAccum channels inf).singleFrames target rsqrtf channels
      ((List.range 1).map (instanceTile target tile fbSize samples)) =
      (((self.clearAccum channels inf).newFrame 1).process target rsqrtf channels
        (instanceTile target tile fbSize samples 0)).1 := rfl
  rw [unfolded]
  unfold WriteMultipleTile.process
  rw [if_pos once]
  refine (congrArg Pixel.color (kept.trans ?_)).trans cleared
  split <;> rfl

/-- A frame with several instances of a tile, in any order of arrival, ends as if
they had been accumulated one after another in frames of their own, and the tile
is completed by the last arrival alone. -/
theorem writeMultipleTile_agrees (variance : channels.hasVarianceBuffer = true) (inf : D)
    (self : WriteMultipleTile K D) (k m : Nat) (begun : 1 ≤ k) (several : 2 ≤ m)
    (order : List Nat) (instances : order.Perm (List.range' k m)) :
    let before := (self.clearAccum channels inf).singleFrames target rsqrtf channels
      ((List.range k).map (instanceTile target tile fbSize samples))
    let multiple := (before.newFrame m).processAll target rsqrtf channels
      (order.map (instanceTile target tile fbSize samples))
    let single := before.singleFrames target rsqrtf channels
      ((List.range' k m).map (instanceTile target tile fbSize samples))
    multiple.2 = List.replicate (m - 1) false ++ [true] ∧
      multiple.1.accum.pixel = single.accum.pixel ∧
      multiple.1.variance.pixel = single.variance.pixel ∧
      multiple.1.final.pixel = single.final.pixel := by
  intro before multiple single
  have accumulates := channels.varianceAccumulates variance
  have count : order.length = m := by rw [instances.length_eq, List.length_range']
  obtain ⟨more, rfl⟩ := Nat.exists_eq_add_of_le' several
  obtain ⟨absorbed, last, collected, run⟩ := processAll_collecting target rsqrtf channels tile
    fbSize samples order (newFrame_collecting target channels tile fbSize samples before
      ((more + 2 : Nat) : Int) (by omega))
    (by
      intro id member
      have limits := List.mem_range'_1.mp (instances.mem_iff.mp member)
      omega)
    (by simp [count]) (by
      rintro rfl
      simp at count)
  have flags : multiple.2 = List.replicate (more + 2 - 1) false ++ [true] := by
    rw [← count]
    exact congrArg Prod.snd run
  have state : multiple.1 = absorbed.complete target rsqrtf channels
      (instanceTile target tile fbSize samples last) := congrArg Prod.fst run
  have same : ∀ j, multiple.1.toTileData.at j = single.toTileData.at j := by
    intro j
    rw [state, complete_collected target rsqrtf channels tile fbSize samples accumulates collected
      k more (by simpa using instances) _ j]
    refine (singleFrames_at target rsqrtf channels tile fbSize samples variance before k begun j
      ?_ (more + 1)).symm
    rintro rfl
    exact clear_fresh target rsqrtf channels tile fbSize samples variance inf self j
  exact ⟨flags, funext fun j => congrArg OwnedPixel.accum (same j),
    funext fun j => congrArg OwnedPixel.variance (same j),
    funext fun j => congrArg OwnedPixel.final (same j)⟩

end Agreement

/-- The only tile of a four by four frame, as it is created. -/
def createdTile : WriteMultipleTile ℚ ℚ :=
  let blank := Tile.make 4 ⟨0, 0⟩ ⟨4, 4⟩ 0 (fun _ => ⟨0, 0, 0, 0⟩)
  { error := ⊤, accum := blank, variance := blank, final := blank
    maxAccumID := 0, instances := 0, writeOnceTile := true
    bufferedTile := blank, tileBuffered := false }

/-- Two instances that arrive in the wrong order. -/
theorem writeMultipleTile_agrees_swapped :
    let target : Target := ⟨4, 2, by decide, by decide⟩
    let channels : Channels := ⟨true, true, true, false, false, by decide⟩
    let instances := instanceTile target ⟨0, 0⟩ ⟨4, 4⟩ (fun id _ => ⟨fun _ => (id : ℚ), 0, 0, 0⟩)
    let before := (createdTile.clearAccum channels 0).singleFrames target id channels [instances 0]
    let multiple := (before.newFrame 2).processAll target id channels [instances 2, instances 1]
    let single := before.singleFrames target id channels [instances 1, instances 2]
    multiple.2 = [false, true] ∧ multiple.1.accum.pixel = single.accum.pixel ∧
      multiple.1.variance.pixel = single.variance.pixel ∧
      multiple.1.final.pixel = single.final.pixel :=
  writeMultipleTile_agrees ⟨4, 2, by decide, by decide⟩ id
    ⟨true, true, true, false, false, by decide⟩ ⟨0, 0⟩ ⟨4, 4⟩
    (fun id _ => ⟨fun _ => (id : ℚ), 0, 0, 0⟩) rfl 0 createdTile 1 2 le_rfl le_rfl [2, 1]
    (List.Perm.swap 1 2 [])

end Ospray

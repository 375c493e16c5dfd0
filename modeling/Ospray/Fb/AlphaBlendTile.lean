import Mathlib
import Ospray.Fb.TileData

/-!
# Alpha-blended tiles and their generations

`AlphaBlendTile_simple` buffers the tiles of one screen region until all of them
have arrived. It does not know their number: each tile announces how many tiles
of the next generation it has as children, and tiles may arrive in any order.
The counters follow one generation at a time. When nothing of it is missing and
children are expected, they move on and the buffer is scanned again for tiles
that were early.

The invariant is stated with the tiles that are still to come: none of them
belongs to an earlier generation, exactly `missingInCurrentGeneration` of them
belong to the current one, and the children expected are those of the current
generation's buffered tiles. The counters are integers here; on a tree of fewer
than `2 ^ 31` tiles with non-negative numbers of children they stay inside the
`int` the source declares, since they never exceed the number of tiles.
-/

namespace Ospray

variable {K D : Type}

/-- A report of the checks for a negative number of missing tiles. -/
structure NegativeMissing where
  missing : Int
  expectedInNext : Int
  currentGeneration : Nat
  tile : Vec2i

/-- The counters of `AlphaBlendTile_simple`, with the reports they gave rise to. -/
structure Generations where
  currentGeneration : Nat
  expectedInNextGeneration : Int
  missingInCurrentGeneration : Int
  reports : List NegativeMissing

/-- What a call of `process` lets the outside see. -/
inductive BlendEvent (K D : Type) where
  | negativeMissing (report : NegativeMissing)
  | tileIsCompleted (bufferedTile : List (Tile K D))

/-- `AlphaBlendTile_simple`. -/
structure AlphaBlendTile (K D : Type) extends TileData K D where
  bufferedTile : List (Tile K D)
  generations : Generations

/-- The counters' check: `handleError` is told about a negative number of missing
tiles, and the computation goes on. -/
def Generations.check (tile : Tile K D) (self : Generations) : Generations :=
  if self.missingInCurrentGeneration < 0 then
    { self with reports := self.reports ++ [{
        missing := self.missingInCurrentGeneration
        expectedInNext := self.expectedInNextGeneration
        currentGeneration := self.currentGeneration
        tile := tile.region.lower }] }
  else self

/-- A tile of the current generation is no longer missing, and its children are
expected. -/
def Generations.count (self : Generations) (arrived : Tile K D) : Generations :=
  { self with
    missingInCurrentGeneration := self.missingInCurrentGeneration - 1
    expectedInNextGeneration := self.expectedInNextGeneration + arrived.children }

/-- The scan over the buffered tiles after moving to the next generation. The
`tile` is the one being processed, which the reports name. -/
def Generations.scan (tile : Tile K D) (bufferedTile : List (Tile K D)) (self : Generations) :
    Generations :=
  bufferedTile.foldl (fun counters buffered =>
    (if buffered.generation = counters.currentGeneration then counters.count buffered
      else counters).check tile) self

/-- One round of the `while` loop: the next generation begins. -/
def Generations.advance (tile : Tile K D) (bufferedTile : List (Tile K D)) (self : Generations) :
    Generations :=
  Generations.scan tile bufferedTile
    { self with
      currentGeneration := self.currentGeneration + 1
      missingInCurrentGeneration := self.expectedInNextGeneration
      expectedInNextGeneration := 0 }

/-- The condition of the `while` loop: the generation is complete and has children. -/
def Generations.Complete (self : Generations) : Prop :=
  self.missingInCurrentGeneration = 0 ∧ 0 < self.expectedInNextGeneration

instance (self : Generations) : Decidable self.Complete :=
  inferInstanceAs (Decidable (_ ∧ _))

/-- Number of tiles of one generation. -/
def tilesOf (generation : Nat) (tiles : List (Tile K D)) : Nat :=
  tiles.countP (fun tile => tile.generation = generation)

/-- Sum of `children` over the tiles of one generation. -/
def childrenOf (generation : Nat) (tiles : List (Tile K D)) : Int :=
  ((tiles.filter (fun tile => tile.generation = generation)).map Tile.children).sum

@[simp] theorem check_counters (tile : Tile K D) (counters : Generations) :
    (counters.check tile).currentGeneration = counters.currentGeneration ∧
      (counters.check tile).missingInCurrentGeneration = counters.missingInCurrentGeneration ∧
      (counters.check tile).expectedInNextGeneration = counters.expectedInNextGeneration := by
  unfold Generations.check
  split <;> simp

theorem check_quiet (tile : Tile K D) (counters : Generations)
    (enough : 0 ≤ counters.missingInCurrentGeneration) : counters.check tile = counters :=
  if_neg (Int.not_lt.mpr enough)

@[simp] theorem count_counters (counters : Generations) (arrived : Tile K D) :
    (counters.count arrived).currentGeneration = counters.currentGeneration ∧
      (counters.count arrived).missingInCurrentGeneration =
        counters.missingInCurrentGeneration - 1 ∧
      (counters.count arrived).expectedInNextGeneration =
        counters.expectedInNextGeneration + arrived.children ∧
      (counters.count arrived).reports = counters.reports :=
  ⟨rfl, rfl, rfl, rfl⟩

/-- A scan counts the buffered tiles of the current generation and collects
their children. While enough tiles are missing it reports nothing. -/
theorem scan_counters (tile : Tile K D) (bufferedTile : List (Tile K D)) (counters : Generations) :
    (counters.scan tile bufferedTile).currentGeneration = counters.currentGeneration ∧
      (counters.scan tile bufferedTile).missingInCurrentGeneration =
        counters.missingInCurrentGeneration - tilesOf counters.currentGeneration bufferedTile ∧
      (counters.scan tile bufferedTile).expectedInNextGeneration =
        counters.expectedInNextGeneration +
          childrenOf counters.currentGeneration bufferedTile ∧
      ((tilesOf counters.currentGeneration bufferedTile : Int) ≤
          counters.missingInCurrentGeneration →
        (counters.scan tile bufferedTile).reports = counters.reports) := by
  induction bufferedTile generalizing counters with
  | nil => simp [Generations.scan, tilesOf, childrenOf]
  | cons buffered rest inductionHypothesis =>
    by_cases current : buffered.generation = counters.currentGeneration
    · have step : counters.scan tile (buffered :: rest) =
          ((counters.count buffered).check tile).scan tile rest := by
        simp [Generations.scan, current]
      have one : tilesOf counters.currentGeneration (buffered :: rest) =
          tilesOf counters.currentGeneration rest + 1 := by
        simp [tilesOf, current]
      have more : childrenOf counters.currentGeneration (buffered :: rest) =
          buffered.children + childrenOf counters.currentGeneration rest := by
        simp [childrenOf, current]
      obtain ⟨generation, missing, expected, quiet⟩ :=
        inductionHypothesis ((counters.count buffered).check tile)
      simp only [check_counters, count_counters] at generation missing expected quiet
      rw [step, one, more]
      refine ⟨generation, by rw [missing]; push_cast; ring, by rw [expected]; ring, ?_⟩
      intro enough
      have notNegative : 0 ≤ (counters.count buffered).missingInCurrentGeneration := by
        simp only [count_counters]
        omega
      have unchecked : ((counters.count buffered).check tile).reports = counters.reports := by
        rw [check_quiet tile _ notNegative, (count_counters counters buffered).2.2.2]
      exact (quiet (by omega)).trans unchecked
    · have step : counters.scan tile (buffered :: rest) =
          (counters.check tile).scan tile rest := by
        simp [Generations.scan, current]
      have same : tilesOf counters.currentGeneration (buffered :: rest) =
          tilesOf counters.currentGeneration rest := by
        simp [tilesOf, current]
      have sameChildren : childrenOf counters.currentGeneration (buffered :: rest) =
          childrenOf counters.currentGeneration rest := by
        simp [childrenOf, current]
      obtain ⟨generation, missing, expected, quiet⟩ :=
        inductionHypothesis (counters.check tile)
      simp only [check_counters] at generation missing expected quiet
      rw [step, same, sameChildren]
      refine ⟨generation, missing, expected, ?_⟩
      intro enough
      have unchecked : counters.check tile = counters := check_quiet tile counters (by omega)
      exact (quiet enough).trans (congrArg Generations.reports unchecked)

/-- Number of buffered tiles of later generations than the current one. -/
def Generations.ahead (bufferedTile : List (Tile K D)) (self : Generations) : Nat :=
  bufferedTile.countP (fun tile => self.currentGeneration < tile.generation)

/-- What moving to the next generation does to each counter. -/
theorem advance_counters (tile : Tile K D) (bufferedTile : List (Tile K D))
    (counters : Generations) :
    (counters.advance tile bufferedTile).currentGeneration = counters.currentGeneration + 1 ∧
      (counters.advance tile bufferedTile).missingInCurrentGeneration =
        counters.expectedInNextGeneration -
          tilesOf (counters.currentGeneration + 1) bufferedTile ∧
      (counters.advance tile bufferedTile).expectedInNextGeneration =
        childrenOf (counters.currentGeneration + 1) bufferedTile ∧
      ((tilesOf (counters.currentGeneration + 1) bufferedTile : Int) ≤
          counters.expectedInNextGeneration →
        (counters.advance tile bufferedTile).reports = counters.reports) := by
  obtain ⟨generation, missing, expected, quiet⟩ := scan_counters tile bufferedTile
    { counters with
      currentGeneration := counters.currentGeneration + 1
      missingInCurrentGeneration := counters.expectedInNextGeneration
      expectedInNextGeneration := 0 }
  exact ⟨generation, missing, expected.trans (Int.zero_add _), quiet⟩

/-- Every tile ahead of the next generation is ahead of the current one, and so
are the tiles of the next generation itself. -/
theorem ahead_split (bufferedTile : List (Tile K D)) (counters next : Generations)
    (generation : next.currentGeneration = counters.currentGeneration + 1) :
    next.ahead bufferedTile + tilesOf (counters.currentGeneration + 1) bufferedTile =
      counters.ahead bufferedTile := by
  induction bufferedTile with
  | nil => simp [Generations.ahead, tilesOf]
  | cons buffered rest inductionHypothesis =>
    simp only [Generations.ahead, tilesOf, generation, List.countP_cons,
      decide_eq_true_eq] at inductionHypothesis ⊢
    -- A tile is counted on the left once when it is later than the next
    -- generation, or of it, and on the right once in either case.
    split_ifs <;> omega

/-- The `while` loop of `process`. A round that finds no tile of its generation
leaves tiles missing and is the last one; every other round has fewer tiles
ahead of it, which is why the loop ends. -/
def Generations.catchUp (tile : Tile K D) (bufferedTile : List (Tile K D)) (self : Generations) :
    Generations :=
  if self.Complete then Generations.catchUp tile bufferedTile (self.advance tile bufferedTile)
  else self
termination_by 2 * self.ahead bufferedTile + if self.Complete then 1 else 0
decreasing_by
  rename_i complete
  obtain ⟨generation, missing, _, _⟩ := advance_counters tile bufferedTile self
  have split := ahead_split bufferedTile self _ generation
  simp only [complete, if_true]
  by_cases found : tilesOf (self.currentGeneration + 1) bufferedTile = 0
  · have unfinished : ¬ (self.advance tile bufferedTile).Complete := by
      intro done
      have positive := complete.2
      have none := done.1
      rw [missing, found] at none
      simp only [Nat.cast_zero] at none
      omega
    simp only [unfinished, if_false]
    omega
  · split_ifs <;> omega

/-- The bookkeeping of `process` for the tile just buffered, up to its last check. -/
def Generations.follow (bufferedTile : List (Tile K D)) (tile : Tile K D) (self : Generations) :
    Generations :=
  if tile.generation = self.currentGeneration then
    ((self.count tile).check tile).catchUp tile bufferedTile
  else self

/-- The counters with the reports of earlier calls left behind. -/
def Generations.quiet (self : Generations) : Generations := { self with reports := [] }

section Process

variable [Field K] [LinearOrder K] [LT D] [DecidableLT D]

/-- `newFrame`, which asserts that no tile is buffered from the frame before. -/
def AlphaBlendTile.newFrame (self : AlphaBlendTile K D) : Option (AlphaBlendTile K D) :=
  if self.bufferedTile.isEmpty then
    some { self with generations := {
      currentGeneration := 0
      expectedInNextGeneration := 0
      missingInCurrentGeneration := 1
      reports := [] } }
  else none

/-- `process`: buffer the tile, follow its generation, and composite the buffer
once nothing is missing. The event of the completion branch records what the
buffer holds when the branch is entered. -/
def AlphaBlendTile.process (target : Target) (rsqrtf : K → K) (channels : Channels)
    (self : AlphaBlendTile K D) (tile : Tile K D) :
    AlphaBlendTile K D × List (BlendEvent K D) :=
  let bufferedTile := self.bufferedTile ++ [tile]
  let generations := (self.generations.quiet.follow bufferedTile tile).check tile
  let events := generations.reports.map .negativeMissing
  if generations.missingInCurrentGeneration = 0 then
    -- Sort for back-to-front blending, composite into the first tile, accumulate it.
    -- `std::sort` leaves the order of equal tiles open; here they stay as they arrived.
    let sorted := bufferedTile.mergeSort (fun a b => b.sortOrder ≤ a.sortOrder)
    let prepared := self.toTileData.setFinalRegion tile
    let accumulated :=
      match sortAndBlendFragments target sorted with
      | [] => prepared
      | first :: _ => prepared.accumulate target rsqrtf channels first
    ({ toTileData := accumulated, bufferedTile := [], generations := generations },
      events ++ [.tileIsCompleted bufferedTile])
  else
    ({ self with bufferedTile := bufferedTile, generations := generations }, events)

/-- The calls of `process` for tiles arriving in list order: the state after each
call and the events of the call. -/
def AlphaBlendTile.processAll (target : Target) (rsqrtf : K → K) (channels : Channels) :
    AlphaBlendTile K D → List (Tile K D) → List (AlphaBlendTile K D × List (BlendEvent K D))
  | _, [] => []
  | self, tile :: rest =>
    let call := self.process target rsqrtf channels tile
    call :: processAll target rsqrtf channels call.1 rest

theorem processAll_length (target : Target) (rsqrtf : K → K) (channels : Channels)
    (self : AlphaBlendTile K D) (tiles : List (Tile K D)) :
    (self.processAll target rsqrtf channels tiles).length = tiles.length := by
  induction tiles generalizing self with
  | nil => rfl
  | cons tile rest inductionHypothesis =>
    exact congrArg Nat.succ (inductionHypothesis _)

end Process

section Counters

/-- A valid generation tree: one tile of generation zero, and as many tiles of
each further generation as the generation before has children. -/
def ValidGenerationTree (tree : Multiset (Tile K D)) : Prop :=
  tree.countP (fun tile => tile.generation = 0) = 1 ∧
    ∀ generation, (tree.countP (fun tile => tile.generation = generation + 1) : Int) =
      ((tree.filter (fun tile => tile.generation = generation)).map Tile.children).sum

/-- The counters agree with the tiles that have arrived and those still to come. -/
structure Follows (arrived rest : List (Tile K D)) (counters : Generations) : Prop where
  earlier : ∀ generation < counters.currentGeneration, tilesOf generation rest = 0
  missing : counters.missingInCurrentGeneration = tilesOf counters.currentGeneration rest
  expected : counters.expectedInNextGeneration = childrenOf counters.currentGeneration arrived

theorem tilesOf_append (generation : Nat) (left right : List (Tile K D)) :
    tilesOf generation (left ++ right) = tilesOf generation left + tilesOf generation right := by
  simp [tilesOf]

theorem childrenOf_append (generation : Nat) (left right : List (Tile K D)) :
    childrenOf generation (left ++ right) =
      childrenOf generation left + childrenOf generation right := by
  simp [childrenOf]

theorem childrenOf_none (generation : Nat) (tiles : List (Tile K D))
    (none : tilesOf generation tiles = 0) : childrenOf generation tiles = 0 := by
  have empty : tiles.filter (fun tile => tile.generation = generation) = [] := by
    rw [← List.length_eq_zero_iff, ← List.countP_eq_length_filter]
    exact none
  simp [childrenOf, empty]

theorem valid_children {tiles : List (Tile K D)}
    (valid : ValidGenerationTree (tiles : Multiset (Tile K D))) (generation : Nat) :
    (tilesOf (generation + 1) tiles : Int) = childrenOf generation tiles := by
  have equal := valid.2 generation
  simpa only [Multiset.coe_countP, Multiset.filter_coe, Multiset.map_coe, Multiset.sum_coe,
    tilesOf, childrenOf] using equal

/-- Below a generation without children there are no tiles. The induction goes
down the generations, each one empty because the one above has no children. -/
theorem valid_leaf_generation {tiles : List (Tile K D)}
    (valid : ValidGenerationTree (tiles : Multiset (Tile K D))) (generation depth : Nat)
    (leaf : childrenOf generation tiles ≤ 0) : tilesOf (generation + 1 + depth) tiles = 0 := by
  induction depth with
  | zero =>
    have children := valid_children valid generation
    rw [Nat.add_zero]
    omega
  | succ depth inductionHypothesis =>
    have children := valid_children valid (generation + 1 + depth)
    rw [childrenOf_none _ _ inductionHypothesis] at children
    exact_mod_cast children

/-- When nothing of the current generation is missing, the tree condition turns
the expected children into the tiles of the next generation still to come. -/
theorem advance_follows {arrived rest : List (Tile K D)} {counters : Generations}
    (valid : ValidGenerationTree ((arrived ++ rest : List (Tile K D)) : Multiset (Tile K D)))
    (follows : Follows arrived rest counters) (tile : Tile K D)
    (complete : counters.missingInCurrentGeneration = 0) :
    Follows arrived rest (counters.advance tile arrived) ∧
      (counters.advance tile arrived).reports = counters.reports := by
  have noneLeft : tilesOf counters.currentGeneration rest = 0 := by
    exact_mod_cast follows.missing.symm.trans complete
  have children := valid_children valid counters.currentGeneration
  rw [childrenOf_append, childrenOf_none _ _ noneLeft, add_zero, tilesOf_append,
    ← follows.expected] at children
  push_cast at children
  obtain ⟨generation, missing, expected, quiet⟩ := advance_counters tile arrived counters
  refine ⟨⟨?_, ?_, ?_⟩, quiet (by omega)⟩
  · intro earlier behind
    rw [generation] at behind
    rcases Nat.lt_succ_iff_lt_or_eq.mp behind with before | same
    · exact follows.earlier earlier before
    · exact same ▸ noneLeft
  · rw [missing, generation]
    omega
  · rw [expected, generation]

/-- The catch-up loop keeps the counters in agreement, stops in a generation
that is incomplete or childless, and reports nothing on a valid tree. -/
theorem catchUp_follows {arrived rest : List (Tile K D)} (counters : Generations)
    (valid : ValidGenerationTree ((arrived ++ rest : List (Tile K D)) : Multiset (Tile K D)))
    (follows : Follows arrived rest counters) (tile : Tile K D) :
    Follows arrived rest (counters.catchUp tile arrived) ∧
      ¬ (counters.catchUp tile arrived).Complete ∧
      (counters.catchUp tile arrived).reports = counters.reports := by
  induction counters using Generations.catchUp.induct tile arrived with
  | case1 counters complete inductionHypothesis =>
    obtain ⟨nextFollows, silent⟩ := advance_follows valid follows tile complete.1
    obtain ⟨lastFollows, stopped, quiet⟩ := inductionHypothesis nextFollows
    rw [Generations.catchUp, if_pos complete]
    exact ⟨lastFollows, stopped, quiet.trans silent⟩
  | case2 counters incomplete =>
    rw [Generations.catchUp, if_neg incomplete]
    exact ⟨follows, incomplete, rfl⟩

/-- Once the loop has stopped, nothing is missing exactly when every tile of the
tree has arrived. -/
theorem follows_finished {arrived rest : List (Tile K D)} {counters : Generations}
    (valid : ValidGenerationTree ((arrived ++ rest : List (Tile K D)) : Multiset (Tile K D)))
    (follows : Follows arrived rest counters) (stopped : ¬ counters.Complete) :
    counters.missingInCurrentGeneration = 0 ↔ rest = [] := by
  constructor
  · intro complete
    have noneLeft : tilesOf counters.currentGeneration rest = 0 := by
      exact_mod_cast follows.missing.symm.trans complete
    have leaf : childrenOf counters.currentGeneration (arrived ++ rest) ≤ 0 := by
      rw [childrenOf_append, childrenOf_none _ _ noneLeft, add_zero, ← follows.expected]
      exact Int.not_lt.mp (fun positive => stopped ⟨complete, positive⟩)
    have absent : ∀ generation, tilesOf generation rest = 0 := by
      intro generation
      rcases Nat.lt_trichotomy generation counters.currentGeneration with before | same | later
      · exact follows.earlier generation before
      · exact same ▸ noneLeft
      · obtain ⟨depth, rfl⟩ := Nat.exists_eq_add_of_lt later
        have below := valid_leaf_generation valid counters.currentGeneration depth leaf
        rw [tilesOf_append, Nat.add_right_comm] at below
        omega
    refine List.eq_nil_iff_forall_not_mem.mpr ?_
    intro tile remaining
    have counted : 0 < tilesOf tile.generation rest :=
      List.countP_pos_iff.mpr ⟨tile, remaining, by simp⟩
    exact absurd (absent tile.generation) (by omega)
  · rintro rfl
    rw [follows.missing]
    simp [tilesOf]

/-- The counters after one more tile, before the last check. A tile of the current
generation may complete it and start the catch-up loop; any other tile only
waits in the buffer, and then the generation it waits for is still incomplete. -/
theorem follow_arrival {arrived rest : List (Tile K D)} {tile : Tile K D} {counters : Generations}
    (valid : ValidGenerationTree
      ((arrived ++ tile :: rest : List (Tile K D)) : Multiset (Tile K D)))
    (follows : Follows arrived (tile :: rest) counters)
    (waiting : 0 < counters.missingInCurrentGeneration) :
    Follows (arrived ++ [tile]) rest (counters.follow (arrived ++ [tile]) tile) ∧
      ¬ (counters.follow (arrived ++ [tile]) tile).Complete ∧
      (counters.follow (arrived ++ [tile]) tile).reports = counters.reports := by
  have oneMore : ((arrived ++ tile :: rest : List (Tile K D)) : Multiset (Tile K D)) =
      ((arrived ++ [tile] ++ rest : List (Tile K D)) : Multiset (Tile K D)) := by
    rw [List.append_assoc, List.singleton_append]
  have earlierRest : ∀ generation < counters.currentGeneration, tilesOf generation rest = 0 := by
    intro generation before
    have none := follows.earlier generation before
    rw [← List.singleton_append, tilesOf_append] at none
    omega
  have missing := follows.missing
  unfold Generations.follow
  by_cases current : tile.generation = counters.currentGeneration
  · have counted : Follows (arrived ++ [tile]) rest (counters.count tile) := by
      refine ⟨earlierRest, ?_, ?_⟩
      · simp only [count_counters, missing, tilesOf, List.countP_cons, current, decide_true,
          if_true]
        push_cast
        ring
      · simp only [count_counters, childrenOf_append, follows.expected]
        simp [childrenOf, current]
    have notNegative : 0 ≤ (counters.count tile).missingInCurrentGeneration := by
      simp only [count_counters]
      omega
    rw [if_pos current, check_quiet tile _ notNegative]
    obtain ⟨lastFollows, stopped, quiet⟩ := catchUp_follows (counters.count tile)
      (oneMore ▸ valid) counted tile
    exact ⟨lastFollows, stopped, quiet⟩
  · rw [if_neg current]
    refine ⟨⟨earlierRest, ?_, ?_⟩, fun done => absurd done.1 (Int.ne_of_gt waiting), rfl⟩
    · simpa [tilesOf, current] using missing
    · simpa [childrenOf, current] using follows.expected

/-- A tile object in the middle of a frame: the tiles that have arrived are
buffered in order, the counters follow them, and something is missing. -/
structure Awaiting (arrived rest : List (Tile K D)) (blending : AlphaBlendTile K D) : Prop where
  buffered : blending.bufferedTile = arrived
  follows : Follows arrived rest blending.generations
  waiting : 0 < blending.generations.missingInCurrentGeneration

theorem newFrame_awaiting {arrivals : List (Tile K D)} {self started : AlphaBlendTile K D}
    (valid : ValidGenerationTree (arrivals : Multiset (Tile K D)))
    (begun : self.newFrame = some started) : Awaiting [] arrivals started := by
  unfold AlphaBlendTile.newFrame at begun
  split at begun
  · rename_i empty
    obtain rfl := Option.some.inj begun
    have root : tilesOf 0 arrivals = 1 := by
      simpa only [Multiset.coe_countP, tilesOf] using valid.1
    refine ⟨List.isEmpty_iff.mp empty, ⟨?_, ?_, ?_⟩, Int.one_pos⟩
    · intro generation before
      exact absurd before (Nat.not_lt_zero _)
    · simp [root]
    · simp [childrenOf]
  · cases begun

end Counters

section Calls

variable [Field K] [LinearOrder K] [LT D] [DecidableLT D]
variable (target : Target) (rsqrtf : K → K) (channels : Channels)

/-- A call that leaves tiles of the tree to come reports nothing, completes
nothing, and the object goes on waiting. -/
theorem process_waits {arrived rest : List (Tile K D)} {tile : Tile K D}
    {self : AlphaBlendTile K D}
    (valid : ValidGenerationTree
      ((arrived ++ tile :: rest : List (Tile K D)) : Multiset (Tile K D)))
    (awaiting : Awaiting arrived (tile :: rest) self) (more : rest ≠ []) :
    Awaiting (arrived ++ [tile]) rest (self.process target rsqrtf channels tile).1 ∧
      (self.process target rsqrtf channels tile).2 = [] := by
  obtain ⟨buffered, follows, waiting⟩ := awaiting
  have stillFollows : Follows arrived _ self.generations.quiet :=
    ⟨follows.earlier, follows.missing, follows.expected⟩
  obtain ⟨nowFollows, stopped, quiet⟩ := follow_arrival valid stillFollows waiting
  have validNow : ValidGenerationTree
      ((arrived ++ [tile] ++ rest : List (Tile K D)) : Multiset (Tile K D)) := by
    rwa [List.append_assoc, List.singleton_append]
  have unfinished := mt (follows_finished validNow nowFollows stopped).mp more
  have positive : 0 < (self.generations.quiet.follow (arrived ++ [tile])
      tile).missingInCurrentGeneration := by
    have count := nowFollows.missing
    omega
  unfold AlphaBlendTile.process
  simp only [buffered, check_quiet tile _ positive.le, if_neg unfinished]
  refine ⟨⟨rfl, nowFollows, positive⟩, ?_⟩
  rw [quiet]
  rfl

/-- The call with the last tile of the tree enters the completion branch, with
every tile buffered, and leaves the buffer empty. -/
theorem process_completes {arrived : List (Tile K D)} {tile : Tile K D}
    {self : AlphaBlendTile K D}
    (valid : ValidGenerationTree ((arrived ++ [tile] : List (Tile K D)) : Multiset (Tile K D)))
    (awaiting : Awaiting arrived [tile] self) :
    (self.process target rsqrtf channels tile).1.generations.missingInCurrentGeneration = 0 ∧
      (self.process target rsqrtf channels tile).1.bufferedTile = [] ∧
      (self.process target rsqrtf channels tile).2 = [.tileIsCompleted (arrived ++ [tile])] := by
  obtain ⟨buffered, follows, waiting⟩ := awaiting
  have stillFollows : Follows arrived _ self.generations.quiet :=
    ⟨follows.earlier, follows.missing, follows.expected⟩
  obtain ⟨nowFollows, stopped, quiet⟩ := follow_arrival valid stillFollows waiting
  have validNow : ValidGenerationTree
      ((arrived ++ [tile] ++ [] : List (Tile K D)) : Multiset (Tile K D)) := by
    rwa [List.append_nil]
  have finished := (follows_finished validNow nowFollows stopped).mpr rfl
  unfold AlphaBlendTile.process
  simp only [buffered, check_quiet tile _ finished.ge, if_pos finished]
  refine ⟨finished, trivial, ?_⟩
  rw [quiet]
  rfl

/-- The calls for the remaining tiles: all but the last one wait quietly, and the
last one completes the tile. The induction is on the tiles still to come. -/
theorem processAll_completes (arrived : List (Tile K D)) (rest : List (Tile K D))
    (self : AlphaBlendTile K D)
    (valid : ValidGenerationTree ((arrived ++ rest : List (Tile K D)) : Multiset (Tile K D)))
    (awaiting : Awaiting arrived rest self) :
    ∃ earlier last, self.processAll target rsqrtf channels rest = earlier ++ [last] ∧
      (∀ call ∈ earlier, 0 < call.1.generations.missingInCurrentGeneration ∧ call.2 = []) ∧
      last.1.generations.missingInCurrentGeneration = 0 ∧ last.1.bufferedTile = [] ∧
      last.2 = [.tileIsCompleted (arrived ++ rest)] := by
  induction rest generalizing arrived self with
  | nil =>
    have missing := awaiting.follows.missing
    have waiting := awaiting.waiting
    simp only [tilesOf, List.countP_nil, Nat.cast_zero] at missing
    omega
  | cons tile rest inductionHypothesis =>
    rcases eq_or_ne rest [] with rfl | more
    · obtain ⟨finished, empty, completed⟩ :=
        process_completes target rsqrtf channels valid awaiting
      exact ⟨[], _, rfl, by simp, finished, empty, completed⟩
    · obtain ⟨awaitingNext, silent⟩ :=
        process_waits target rsqrtf channels valid awaiting more
      have validNext : ValidGenerationTree
          ((arrived ++ [tile] ++ rest : List (Tile K D)) : Multiset (Tile K D)) := by
        rwa [List.append_assoc, List.singleton_append]
      obtain ⟨earlier, last, calls, waits, finished, empty, completed⟩ :=
        inductionHypothesis (arrived ++ [tile]) _ validNext awaitingNext
      refine ⟨self.process target rsqrtf channels tile :: earlier, last, ?_, ?_, finished,
        empty, ?_⟩
      · rw [AlphaBlendTile.processAll, calls, List.cons_append]
      · intro call called
        rcases List.mem_cons.mp called with rfl | later
        · exact ⟨awaitingNext.waiting, silent⟩
        · exact waits call later
      · rw [completed, List.append_assoc, List.singleton_append]

/-- Whatever order the tiles of a valid tree arrive in, the number of missing
tiles is never negative and stays positive until the last call; only that call
completes the tile, when the buffer holds exactly the tree, and it leaves the
buffer empty, so that the next frame may begin. -/
theorem alphaBlendTile_completes_once (tree : Multiset (Tile K D))
    (valid : ValidGenerationTree tree) (arrivals : List (Tile K D))
    (order : (arrivals : Multiset (Tile K D)) = tree) (self started : AlphaBlendTile K D)
    (begun : self.newFrame = some started) :
    let calls := started.processAll target rsqrtf channels arrivals
    calls.length = arrivals.length ∧
      (∀ call ∈ calls, 0 ≤ call.1.generations.missingInCurrentGeneration) ∧
      ∃ earlier last, ∃ held : List (Tile K D), calls = earlier ++ [last] ∧
        (∀ call ∈ earlier, 0 < call.1.generations.missingInCurrentGeneration ∧ call.2 = []) ∧
        last.2 = [.tileIsCompleted held] ∧ (held : Multiset (Tile K D)) = tree ∧
        last.1.generations.missingInCurrentGeneration = 0 ∧
        last.1.bufferedTile = [] ∧ last.1.newFrame.isSome := by
  subst order
  obtain ⟨earlier, last, calls, waits, finished, empty, completed⟩ :=
    processAll_completes target rsqrtf channels [] arrivals started valid
      (newFrame_awaiting valid begun)
  refine ⟨processAll_length target rsqrtf channels started arrivals, ?_,
    earlier, last, arrivals, calls, waits, completed, rfl, finished, empty, ?_⟩
  · intro call called
    rw [calls, List.mem_append, List.mem_singleton] at called
    rcases called with before | rfl
    · exact (waits call before).1.le
    · exact finished.ge
  · simp [AlphaBlendTile.newFrame, empty]

end Calls

/-- A background tile that announces one further tile. -/
def backgroundTile : Tile ℚ ℚ :=
  { Tile.make 4 ⟨0, 0⟩ ⟨4, 4⟩ 0 (fun _ => ⟨0, 0, 0, 0⟩) with children := 1 }

/-- The further tile, a leaf of generation one. -/
def brickTile : Tile ℚ ℚ :=
  { Tile.make 4 ⟨0, 0⟩ ⟨4, 4⟩ 0 (fun _ => ⟨1, 0, 0, 0⟩) with generation := 1 }

/-- A blending tile between two frames. -/
def idleBlendTile : AlphaBlendTile ℚ ℚ :=
  { error := ⊤, accum := backgroundTile, variance := backgroundTile, final := backgroundTile
    bufferedTile := [], generations := ⟨0, 0, 0, []⟩ }

theorem background_brick_valid : ValidGenerationTree ({backgroundTile, brickTile} :
    Multiset (Tile ℚ ℚ)) := by
  refine ⟨rfl, ?_⟩
  intro generation
  rcases generation with _ | _ | generation
  · rfl
  · rfl
  · simp [Multiset.insert_eq_cons, ← Multiset.cons_zero, Multiset.countP_cons_of_neg,
      Multiset.filter_cons_of_neg, backgroundTile, brickTile, Tile.make]

/-- The leaf overtakes the root, and still the root's arrival completes the tile. -/
theorem alphaBlendTile_completes_once_overtaken :
    ∃ started, idleBlendTile.newFrame = some started ∧
      ∃ earlier last, ∃ held : List (Tile ℚ ℚ),
        started.processAll ⟨4, 2, by decide, by decide⟩ id ⟨true, true, true, false, false, by simp⟩
          [brickTile, backgroundTile] = earlier ++ [last] ∧
        (∀ call ∈ earlier, 0 < call.1.generations.missingInCurrentGeneration ∧ call.2 = []) ∧
        last.2 = [.tileIsCompleted held] ∧
        (held : Multiset (Tile ℚ ℚ)) = {backgroundTile, brickTile} ∧
        last.1.generations.missingInCurrentGeneration = 0 ∧
        last.1.bufferedTile = [] ∧ last.1.newFrame.isSome := by
  refine ⟨_, rfl, ?_⟩
  exact (alphaBlendTile_completes_once _ id _ {backgroundTile, brickTile}
    background_brick_valid [brickTile, backgroundTile] (Multiset.cons_swap _ _ 0)
    idleBlendTile _ rfl).2.2

end Ospray

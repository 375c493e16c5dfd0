import Ospray.Fb.CompletedTiles

/-!
# Compositing the parts of a tile by depth

Each worker sends its part of a tile, in any order. The first part is copied, and each
of the others replaces the pixels it is nearer at: their color and their depth, while
the normals and albedos stay those of the part that came first.
-/

namespace Ospray

variable {K D : Type} [Field K] [LinearOrder K] [LinearOrder D]
variable (target : Target) (rsqrtf : K → K) (channels : Channels)

/-- The calls of `process` for several parts, and which of them called
`tileIsCompleted`. -/
def ZCompositeTile.processParts (self : ZCompositeTile K D) (parts : List (Tile K D)) :
    ZCompositeTile K D × List Bool :=
  parts.foldl (fun state tile =>
    let call := state.1.process target rsqrtf channels tile
    (call.1, state.2 ++ [call.2])) (self, [])

/-- What the parts are composited to, the first of them copied. -/
def zCompositeAll (first : Tile K D) (rest : List (Tile K D)) : Tile K D :=
  rest.foldl (fun current tile => zComposite target tile current) first

/-- The nearest part at a pixel, of several the one that came first. -/
def nearest (j : Nat) (first : Tile K D) (rest : List (Tile K D)) : Tile K D :=
  rest.foldl (fun best tile => if (tile.pixel j).z < (best.pixel j).z then tile else best) first

omit [Field K] [LinearOrder K] in
/-- One more part. -/
theorem nearest_append (j : Nat) (first : Tile K D) (rest : List (Tile K D)) (tile : Tile K D) :
    nearest j first (rest ++ [tile]) =
      if (tile.pixel j).z < ((nearest j first rest).pixel j).z then tile
      else nearest j first rest := by
  rw [nearest, List.foldl_append]
  rfl

omit [Field K] [LinearOrder K] in
/-- It is one of the parts, and no part is nearer. -/
theorem nearest_spec (j : Nat) (first : Tile K D) (rest : List (Tile K D)) :
    nearest j first rest ∈ first :: rest ∧
      ∀ other ∈ first :: rest, ((nearest j first rest).pixel j).z ≤ (other.pixel j).z := by
  induction rest using List.reverseRecOn with
  | nil =>
    refine ⟨List.mem_cons_self, ?_⟩
    intro other member
    obtain rfl := List.mem_singleton.mp member
    exact le_refl _
  | append_singleton rest tile inductionHypothesis =>
    obtain ⟨member, below⟩ := inductionHypothesis
    rw [nearest_append, ← List.cons_append]
    split
    · next nearer =>
      refine ⟨List.mem_append_right _ (List.mem_singleton.mpr rfl), ?_⟩
      intro other among
      rcases List.mem_append.mp among with before | last
      · exact le_of_lt (lt_of_lt_of_le nearer (below other before))
      · rw [List.mem_singleton.mp last]
    · next farther =>
      refine ⟨List.mem_append_left _ member, ?_⟩
      intro other among
      rcases List.mem_append.mp among with before | last
      · exact below other before
      · rw [List.mem_singleton.mp last]
        exact not_lt.mp farther

omit [Field K] [LinearOrder K] in
/-- The composite has the color and the depth of the nearest part, and the normal and
the albedo of the first. The induction is on the parts, in the order they came. -/
theorem zCompositeAll_pixel (first : Tile K D) (rest : List (Tile K D)) (j : Nat)
    (inTile : j < target.tileSize * target.tileSize) :
    (zCompositeAll target first rest).pixel j =
      { color := ((nearest j first rest).pixel j).color
        z := ((nearest j first rest).pixel j).z
        normal := (first.pixel j).normal
        albedo := (first.pixel j).albedo } := by
  induction rest using List.reverseRecOn with
  | nil => rfl
  | append_singleton rest tile inductionHypothesis =>
    have next : zCompositeAll target first (rest ++ [tile]) =
        zComposite target tile (zCompositeAll target first rest) := by
      rw [zCompositeAll, List.foldl_append]
      rfl
    rw [next, nearest_append]
    simp only [zComposite, inTile, true_and, inductionHypothesis]
    split <;> rfl

/-- After some of the parts, though not all: they are composited, and the tile is not
completed. -/
theorem processParts_before (self : ZCompositeTile K D) (first : Tile K D)
    (rest : List (Tile K D)) (missing : rest.length + 1 < self.numWorkers) :
    self.newFrame.processParts target rsqrtf channels (first :: rest) =
      ({ self with
        numPartsComposited := rest.length + 1
        compositedTileData := zCompositeAll target first rest },
        List.replicate (rest.length + 1) false) := by
  induction rest using List.reverseRecOn with
  | nil =>
    have unfinished : ¬ 0 + 1 = self.numWorkers := by
      rw [List.length_nil] at missing
      omega
    simp [ZCompositeTile.processParts, ZCompositeTile.process, ZCompositeTile.newFrame, unfinished,
      zCompositeAll]
  | append_singleton rest tile inductionHypothesis =>
    rw [List.length_append, List.length_singleton] at missing ⊢
    have unfinished : ¬ rest.length + 1 + 1 = self.numWorkers := by omega
    have next : self.newFrame.processParts target rsqrtf channels (first :: (rest ++ [tile])) =
        (let state := self.newFrame.processParts target rsqrtf channels (first :: rest)
        let call := state.1.process target rsqrtf channels tile
        (call.1, state.2 ++ [call.2])) := by
      rw [ZCompositeTile.processParts, ← List.cons_append, List.foldl_append]
      rfl
    rw [next, inductionHypothesis (by omega)]
    simp only [ZCompositeTile.process, Nat.succ_ne_zero, if_false, unfinished, zCompositeAll,
      List.foldl_append, List.foldl_cons, List.foldl_nil]
    rw [← List.replicate_succ']

/-- After all parts: the tile is completed with the last one, and only the composite of
all is accumulated. -/
theorem processParts_all (self : ZCompositeTile K D) (first : Tile K D) (rest : List (Tile K D))
    (complete : rest.length + 1 = self.numWorkers) :
    self.newFrame.processParts target rsqrtf channels (first :: rest) =
      ({ self with
        toTileData := self.toTileData.accumulate target rsqrtf channels
          (zCompositeAll target first rest)
        numPartsComposited := rest.length + 1
        compositedTileData := zCompositeAll target first rest },
        List.replicate rest.length false ++ [true]) := by
  induction rest using List.reverseRecOn with
  | nil =>
    have finished : 0 + 1 = self.numWorkers := complete
    simp [ZCompositeTile.processParts, ZCompositeTile.process, ZCompositeTile.newFrame, finished,
      zCompositeAll]
  | append_singleton rest tile _ =>
    rw [List.length_append, List.length_singleton] at complete ⊢
    have next : self.newFrame.processParts target rsqrtf channels (first :: (rest ++ [tile])) =
        (let state := self.newFrame.processParts target rsqrtf channels (first :: rest)
        let call := state.1.process target rsqrtf channels tile
        (call.1, state.2 ++ [call.2])) := by
      rw [ZCompositeTile.processParts, ← List.cons_append, List.foldl_append]
      rfl
    rw [next, processParts_before target rsqrtf channels self first rest (by omega)]
    simp only [ZCompositeTile.process, Nat.succ_ne_zero, if_false, complete, if_true,
      zCompositeAll, List.foldl_append, List.foldl_cons, List.foldl_nil]

/-- The pixel is that of one nearest part: its depth and its color, and the auxiliary
values the frame buffer has channels for. -/
def OfNearest (parts : List (Tile K D)) (j : Nat) (pixel : Pixel K D) : Prop :=
  ∃ part ∈ parts, (∀ other ∈ parts, (part.pixel j).z ≤ (other.pixel j).z) ∧
    pixel.z = (part.pixel j).z ∧ pixel.color = (part.pixel j).color ∧
    (channels.hasNormalBuffer = true → pixel.normal = (part.pixel j).normal) ∧
    (channels.hasAlbedoBuffer = true → pixel.albedo = (part.pixel j).albedo)

/-- At every pixel some nearest part has the color of the nearest part that came first,
and the auxiliary values of the part that came first of all. -/
def AuxAgree (first : Tile K D) (rest : List (Tile K D)) : Prop :=
  ∀ j < target.tileSize * target.tileSize, ∃ part ∈ first :: rest,
    (∀ other ∈ first :: rest, (part.pixel j).z ≤ (other.pixel j).z) ∧
    (part.pixel j).color = ((nearest j first rest).pixel j).color ∧
    (channels.hasNormalBuffer = true → (part.pixel j).normal = (first.pixel j).normal) ∧
    (channels.hasAlbedoBuffer = true → (part.pixel j).albedo = (first.pixel j).albedo)

omit [Field K] [LinearOrder K] in
theorem auxAgree_of_colors (first : Tile K D) (rest : List (Tile K D))
    (colors : channels.hasAux = false) : AuxAgree target channels first rest := by
  intro j inTile
  obtain ⟨member, below⟩ := nearest_spec j first rest
  simp only [Channels.hasAux, Bool.or_eq_false_iff] at colors
  refine ⟨nearest j first rest, member, below, rfl, ?_, ?_⟩
  · rw [colors.1]
    rintro ⟨⟩
  · rw [colors.2]
    rintro ⟨⟩

/-- For every order of the parts: the tile is completed once, with the last part, and
accumulates the composite; every pixel of it is that of one nearest part exactly when
the auxiliary values agree. -/
theorem zComposite_nearest_iff (self : ZCompositeTile K D) (first : Tile K D)
    (rest : List (Tile K D)) (complete : rest.length + 1 = self.numWorkers) :
    let after := self.newFrame.processParts target rsqrtf channels (first :: rest)
    (after.2 = List.replicate rest.length false ++ [true] ∧
      after.1.toTileData =
        self.toTileData.accumulate target rsqrtf channels after.1.compositedTileData ∧
      ∀ j < target.tileSize * target.tileSize,
        OfNearest channels (first :: rest) j (after.1.compositedTileData.pixel j)) ↔
      AuxAgree target channels first rest := by
  intro after
  have all : after = _ := processParts_all target rsqrtf channels self first rest complete
  rw [all]
  simp only [true_and]
  refine forall₂_congr fun j inTile => ?_
  obtain ⟨member, below⟩ := nearest_spec j first rest
  rw [zCompositeAll_pixel target first rest j inTile, OfNearest]
  refine exists_congr fun part => and_congr_right fun among => and_congr_right fun nearer => ?_
  have depth : ((nearest j first rest).pixel j).z = (part.pixel j).z :=
    le_antisymm (below part among) (nearer _ member)
  simp only [depth, true_and, eq_comm]

/-- A part of one pixel. -/
def onePixelPart (color z normal : ℚ) : Tile ℚ ℚ :=
  Tile.make 1 ⟨0, 0⟩ ⟨1, 1⟩ 0 fun _ => ⟨fun _ => color, z, fun _ => normal, 0⟩

/-- The tile of two workers. -/
def compositedTwice : ZCompositeTile ℚ ℚ where
  toTileData := createdData
  numPartsComposited := 0
  numWorkers := 2
  compositedTileData := onePixelPart 0 0 0

/-- With colors only the part that comes last may be the nearest. -/
theorem zComposite_nearest_last :
    OfNearest colorsOnly [onePixelPart 5 2 1, onePixelPart 6 1 0] 0
      ((compositedTwice.newFrame.processParts ⟨1, 1, by decide, by decide⟩ id colorsOnly
        [onePixelPart 5 2 1, onePixelPart 6 1 0]).1.compositedTileData.pixel 0) :=
  ((zComposite_nearest_iff ⟨1, 1, by decide, by decide⟩ id colorsOnly compositedTwice
    (onePixelPart 5 2 1) [onePixelPart 6 1 0] rfl).mpr
      (auxAgree_of_colors _ _ _ _ rfl)).2.2 0 (by decide)

/-- The channels of a frame buffer with colors and normals. -/
def colorsAndNormals : Channels := ⟨false, false, false, true, false, no_variance⟩

/-- With normals the pixel gets the color of the nearer part and the normal of the farther
one, which came first. -/
theorem normal_of_farther :
    ¬ OfNearest colorsAndNormals [onePixelPart 5 2 1, onePixelPart 6 1 0] 0
      ((compositedTwice.newFrame.processParts ⟨1, 1, by decide, by decide⟩ id colorsAndNormals
        [onePixelPart 5 2 1, onePixelPart 6 1 0]).1.compositedTileData.pixel 0) := by
  rw [processParts_all _ _ _ compositedTwice _ _ rfl, zCompositeAll_pixel _ _ _ 0 (by decide)]
  rintro ⟨part, among, nearer, -, -, normal, -⟩
  have first : ((onePixelPart 5 2 1).pixel 0).normal 0 = (part.pixel 0).normal 0 :=
    congrFun (normal rfl) 0
  have near := nearer (onePixelPart 6 1 0) (by simp)
  rcases List.mem_pair.mp among with rfl | rfl
  · exact absurd near (by norm_num [onePixelPart, Tile.make])
  · exact absurd first (by norm_num [onePixelPart, Tile.make])

end Ospray

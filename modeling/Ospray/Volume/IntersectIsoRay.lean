import Mathlib.Data.Fintype.Basic
import Ospray.Library.Brackets
import Ospray.Volume.BvhStack
import Ospray.Volume.UnstructuredVolume

/-!
# Isosurfaces in a cell

A ray is cut to the part of it in a cell. For each isovalue, from the first one on, the
values at the two ends are compared with it: the straight line between them in a
tetrahedron, or four cuts of the field in other cells, give the distance of its surface.
The loop is left with the first isovalue that is not between the two values, and with the
first hit. The arithmetic is exact.
-/

namespace Ospray.Unstructured

open Library.Brackets

/-- `dot` -/
def dot (a b : Fin 3 → ℚ) : ℚ := a 0 * b 0 + a 1 * b 1 + a 2 * b 2

/-- `cross` -/
def cross (a b : Fin 3 → ℚ) : Fin 3 → ℚ :=
  ![a 1 * b 2 - a 2 * b 1, a 2 * b 0 - a 0 * b 2, a 0 * b 1 - a 1 * b 0]

namespace IsoRay

/-- A point of a ray. -/
def point (ray : IsoRay) (t : ℚ) : Fin 3 → ℚ := fun axis => ray.org axis + ray.dir axis * t

end IsoRay

/-- What the kernels compute with square roots or by iteration: the normals of the faces of cells, which may
also be precomputed, and the values that are sampled at points, which are taken to be inside. -/
structure CellFields where
  tetNormal : Nat → Nat → Fin 3 → ℚ
  hexNormal : Nat → Nat → Fin 3 → ℚ
  intersectAndSampleTet : Nat → (Fin 3 → ℚ) → ℚ
  intersectAndSampleWedge : Nat → (Fin 3 → ℚ) → ℚ
  intersectAndSampleHexPlanar : Nat → (Fin 3 → ℚ) → ℚ

/-! ## The segment -/

section Segments

variable (volume : UnstructuredVolume) (fields : CellFields) (rcp : ℚ → ℚ) (id : Nat) (ray : IsoRay)

/-- One side of the part of a ray between some planes. -/
def clip (segment : ℚ × ℚ) (p0 norm : Fin 3 → ℚ) : ℚ × ℚ :=
  let side_dot := dot ray.dir norm
  let side_t := rcp side_dot * dot (fun axis => p0 axis - ray.org axis) norm
  if side_dot < 0 then (max segment.1 side_t, segment.2) else (segment.1, min segment.2 side_t)

/-- `t_nr` and `t_fr` of a tetrahedron -/
def tetSegment : ℚ × ℚ :=
  (List.range 4).foldl (fun segment plane =>
    clip rcp ray segment (volume.vertices (volume.indices (2 * id + 1) ((plane + 1) &&& 3)))
      (fields.tetNormal id plane)) (ray.t0, ray.t)

/-- `t_nr` and `t_fr` of a hexahedron -/
def hexSegment : ℚ × ℚ :=
  (List.range 6).foldl (fun segment plane =>
    clip rcp ray segment
      (volume.vertices (if plane < 3 then volume.indices (2 * id) 0 else volume.indices (2 * id + 1) 2))
      (fields.hexNormal id plane)) (ray.t0, ray.t)

/-- The distance at which a ray meets a triangle. -/
def triangleDistance (v0 v1 v2 : Fin 3 → ℚ) : Option ℚ :=
  let EPSILON : ℚ := 1 / 10000000
  let edge1 := fun axis => v1 axis - v0 axis
  let edge2 := fun axis => v2 axis - v0 axis
  let h := cross ray.dir edge2
  let a := dot edge1 h
  if a > -EPSILON ∧ a < EPSILON then none
  else
    let f := 1 / a
    let s := fun axis => ray.org axis - v0 axis
    let u := f * dot s h
    if u < 0 ∨ u > 1 then none
    else
      let q := cross s edge1
      let v := f * dot ray.dir q
      if v < 0 ∨ u + v > 1 then none
      else
        let t := f * dot edge2 q
        if t > EPSILON then some t else none

/-- The triangles of a wedge's faces. -/
def wedgeFaces : List (Nat × Nat × Nat) :=
  [(0, 2, 1), (3, 4, 5), (0, 3, 2), (1, 4, 0), (2, 5, 1), (0, 4, 3), (1, 5, 4), (2, 3, 5)]

/-- `t_nr` and `t_fr` of a wedge, if the ray meets any triangle -/
def wedgeSegment : Option (ℚ × ℚ) :=
  let vertex := fun i => volume.vertices (volume.cellIndex id (i + 2))
  wedgeFaces.foldl (fun segment face =>
    match triangleDistance ray (vertex face.1) (vertex face.2.1) (vertex face.2.2), segment with
    | some t, some (t_nr, t_fr) => some (min t_nr t, max t_fr t)
    | some t, none => some (t, t)
    | none, segment => segment) none

end Segments

/-! ## The isovalues -/

/-- `NUM_ITERATIONS` -/
def numIterations : Nat := 4

section Isovalues

variable (iterations : Nat) (sample : ℚ → ℚ) (segment : ℚ × ℚ)

/-- What is left of the segment after some cuts for an isovalue. A tetrahedron takes none. -/
def cuts (piso : ℚ) : Bracket ℚ := (narrow sample piso)^[iterations] (between sample segment.1 segment.2)

/-- `t_hit` -/
def hitDistance (piso : ℚ) : ℚ := cut piso (cuts iterations sample segment piso)

/-- The ray after a hit of the isovalue with an index. -/
def report (geomID : Int) (i : Nat) (piso : ℚ) (ray : IsoRay) : IsoRay :=
  let last := cuts iterations sample segment piso
  { ray with
    t := hitDistance iterations sample segment piso
    u := (last.right - last.left) * (1 / 8)
    geomID := geomID
    primID := i }

/-- The loop over the isovalues, from one with an index on. -/
def isoLoop (geomID : Int) (ray : IsoRay) : Nat → List ℚ → IsoRay
  | _, [] => ray
  | i, piso :: rest =>
    if sameSign (sample segment.1 - piso) (sample segment.2 - piso) then ray
    else if hitDistance iterations sample segment piso < ray.t then
      report iterations sample segment geomID i piso ray
    else isoLoop geomID ray (i + 1) rest

end Isovalues

section Cells

variable (volume : UnstructuredVolume) (fields : CellFields) (rcp : ℚ → ℚ) (id : Nat) (ray : IsoRay)

/-- The part of a ray in a cell, if it is not empty. -/
def cellSegment : Option (ℚ × ℚ) :=
  if volume.indices (2 * id) 0 = -1 then
    let segment := tetSegment volume fields rcp id ray
    if segment.1 > segment.2 then none else some segment
  else if volume.indices (2 * id) 0 = -2 then
    match wedgeSegment volume id ray with
    | some segment => if segment.1 ≥ segment.2 then none else some segment
    | none => none
  else
    let segment := hexSegment volume fields rcp id ray
    if segment.1 > segment.2 then none else some segment

/-- The number of cuts in a cell. -/
def cellIterations : Nat := if volume.indices (2 * id) 0 = -1 then 0 else numIterations

/-- The value of a cell at a distance on a ray. -/
def cellSample (t : ℚ) : ℚ :=
  if volume.indices (2 * id) 0 = -1 then fields.intersectAndSampleTet id (ray.point t)
  else if volume.indices (2 * id) 0 = -2 then fields.intersectAndSampleWedge id (ray.point t)
  else fields.intersectAndSampleHexPlanar id (ray.point t)

/-- `UnstructuredVolume_intersectIsoRay` -/
def intersectIsoRay (isovalues : List ℚ) (geomID : Int) : IsoRay :=
  match cellSegment volume fields rcp id ray with
  | none => ray
  | some segment =>
    isoLoop (cellIterations volume id) (cellSample volume fields id ray) segment geomID ray 0 isovalues

end Cells

/-! ## The nearest crossing -/

/-- An isovalue lies between two values. -/
def Crosses (v0 v1 piso : ℚ) : Prop := v0 < piso ∧ piso < v1 ∨ v1 < piso ∧ piso < v0

section Loop

variable (iterations : Nat) (sample : ℚ → ℚ) (segment : ℚ × ℚ) (ray : IsoRay)

/-- The surface of an isovalue is crossed before the end of the ray, -/
def Visible (piso : ℚ) : Prop :=
  Crosses (sample segment.1) (sample segment.2) piso ∧ hitDistance iterations sample segment piso < ray.t

/-- or not before it. -/
def Hidden (piso : ℚ) : Prop :=
  Crosses (sample segment.1) (sample segment.2) piso ∧ ray.t ≤ hitDistance iterations sample segment piso

/-- No surface that is crossed is nearer. -/
def IsNearest (isovalues : List ℚ) (piso : ℚ) : Prop :=
  ∀ other ∈ isovalues, Crosses (sample segment.1) (sample segment.2) other →
    hitDistance iterations sample segment piso ≤ hitDistance iterations sample segment other

/-- A hit is reported if and only if a surface is crossed before the end of the ray, and it is the nearest of
these. -/
def ReportsNearest (geomID : Int) (isovalues : List ℚ) (result : IsoRay) : Prop :=
  (∀ piso ∈ isovalues, ¬ Visible iterations sample segment ray piso) ∧ result = ray ∨
    ∃ i piso, isovalues[i]? = some piso ∧ Visible iterations sample segment ray piso ∧
      result = report iterations sample segment geomID i piso ray ∧
      IsNearest iterations sample segment isovalues piso

/-- The first isovalue, but for those behind the end of the ray, is the nearest. -/
def NearestIsFirst (isovalues : List ℚ) : Prop :=
  ∃ before piso after, isovalues = before ++ piso :: after ∧
    (∀ skipped ∈ before, Hidden iterations sample segment ray skipped) ∧
    Visible iterations sample segment ray piso ∧ IsNearest iterations sample segment isovalues piso

variable {iterations sample segment ray} {geomID : Int} {piso : ℚ} {isovalues before after : List ℚ}

theorem crosses_iff : Crosses (sample segment.1) (sample segment.2) piso ↔
    sameSign (sample segment.1 - piso) (sample segment.2 - piso) = false :=
  sameSign_iff.symm

theorem hitDistance_mem (ordered : segment.1 ≤ segment.2)
    (crosses : Crosses (sample segment.1) (sample segment.2) piso) :
    segment.1 ≤ hitDistance iterations sample segment piso ∧
      hitDistance iterations sample segment piso < segment.2 := by
  obtain ⟨surrounds, left, right⟩ :=
    iterate_surrounds (surrounds_between ordered (crosses_iff.mp crosses)) iterations
  obtain ⟨low, high, -⟩ := cut_mem surrounds
  exact ⟨left.trans low, high.trans_le right⟩

/-- The loop passes over surfaces behind the end of the ray. -/
theorem isoLoop_hidden (hidden : ∀ skipped ∈ before, Hidden iterations sample segment ray skipped) (i : Nat) :
    isoLoop iterations sample segment geomID ray i (before ++ after) =
      isoLoop iterations sample segment geomID ray (i + before.length) after := by
  induction before generalizing i with
  | nil => rfl
  | cons first rest inductionHypothesis =>
    obtain ⟨crosses, behind⟩ := hidden first List.mem_cons_self
    rw [List.cons_append, isoLoop, crosses_iff.mp crosses, if_neg Bool.false_ne_true, if_neg (not_lt.mpr behind),
      inductionHypothesis (fun skipped member => hidden skipped (List.mem_cons_of_mem _ member)),
      List.length_cons, Nat.add_assoc, Nat.add_comm 1]

/-- It reports the first one before it, -/
theorem isoLoop_visible (visible : Visible iterations sample segment ray piso) (i : Nat) :
    isoLoop iterations sample segment geomID ray i (piso :: after) =
      report iterations sample segment geomID i piso ray := by
  rw [isoLoop, crosses_iff.mp visible.1, if_neg Bool.false_ne_true, if_pos visible.2]

/-- unless an isovalue that is not between the values comes first. -/
theorem isoLoop_blocked (blocked : ¬ Crosses (sample segment.1) (sample segment.2) piso) (i : Nat) :
    isoLoop iterations sample segment geomID ray i (piso :: after) = ray := by
  rw [isoLoop, if_pos]
  by_contra differs
  exact blocked (crosses_iff.mpr (Bool.not_eq_true _ ▸ differs))

theorem visible_or_hidden (piso : ℚ) : Visible iterations sample segment ray piso ∨
    Hidden iterations sample segment ray piso ∨ ¬ Crosses (sample segment.1) (sample segment.2) piso := by
  by_cases crosses : Crosses (sample segment.1) (sample segment.2) piso
  · obtain near | far := lt_or_ge (hitDistance iterations sample segment piso) ray.t
    · exact .inl ⟨crosses, near⟩
    · exact .inr (.inl ⟨crosses, far⟩)
  · exact .inr (.inr crosses)

/-- The first isovalue that the loop does not pass over decides. -/
theorem isoLoop_cases (isovalues : List ℚ) :
    isoLoop iterations sample segment geomID ray 0 isovalues = ray ∨
      ∃ before piso after, isovalues = before ++ piso :: after ∧
        (∀ skipped ∈ before, Hidden iterations sample segment ray skipped) ∧
        Visible iterations sample segment ray piso := by
  have splits : (∀ piso ∈ isovalues, Hidden iterations sample segment ray piso) ∨
      ∃ before piso after, isovalues = before ++ piso :: after ∧
        (∀ skipped ∈ before, Hidden iterations sample segment ray skipped) ∧
        ¬ Hidden iterations sample segment ray piso := by
    induction isovalues with
    | nil => exact .inl nofun
    | cons first rest inductionHypothesis =>
      by_cases hidden : Hidden iterations sample segment ray first
      · obtain all | ⟨before, piso, after, rfl, skipped, shown⟩ := inductionHypothesis
        · exact .inl (List.forall_mem_cons.mpr ⟨hidden, all⟩)
        · exact .inr ⟨first :: before, piso, after, rfl, List.forall_mem_cons.mpr ⟨hidden, skipped⟩, shown⟩
      · exact .inr ⟨[], first, rest, rfl, nofun, hidden⟩
  obtain all | ⟨before, piso, after, rfl, skipped, shown⟩ := splits
  · left
    have passes := @isoLoop_hidden iterations sample segment ray geomID isovalues [] all 0
    rwa [List.append_nil] at passes
  · obtain visible | hidden | blocked := @visible_or_hidden iterations sample segment ray piso
    · exact .inr ⟨before, piso, after, rfl, skipped, visible⟩
    · exact absurd hidden shown
    · left
      rw [isoLoop_hidden skipped, isoLoop_blocked blocked]

/-- The loop reports the nearest surface if and only if none is visible, or the nearest comes first. -/
theorem isoLoop_nearest_iff : ReportsNearest iterations sample segment ray geomID isovalues
      (isoLoop iterations sample segment geomID ray 0 isovalues) ↔
    (∀ piso ∈ isovalues, ¬ Visible iterations sample segment ray piso) ∨
      NearestIsFirst iterations sample segment ray isovalues := by
  constructor
  · rintro (⟨none_, -⟩ | ⟨i, piso, -, visible, same, nearest⟩)
    · exact .inl none_
    · right
      obtain unchanged | ⟨before, first, after, split_, skipped, shown⟩ :=
        @isoLoop_cases iterations sample segment ray geomID isovalues
      · have t := congrArg IsoRay.t (unchanged.symm.trans same)
        exact absurd visible.2 t.le.not_gt
      · refine ⟨before, first, after, split_, skipped, shown, fun other member crosses => ?_⟩
        rw [split_, isoLoop_hidden skipped, isoLoop_visible shown] at same
        have t := congrArg IsoRay.t same
        exact t.le.trans (nearest other member crosses)
  · rintro (none_ | ⟨before, piso, after, rfl, skipped, visible, nearest⟩)
    · left
      refine ⟨none_, ?_⟩
      obtain unchanged | ⟨before, first, after, rfl, -, shown⟩ :=
        @isoLoop_cases iterations sample segment ray geomID isovalues
      · exact unchanged
      · exact absurd shown (none_ first (List.mem_append_right _ List.mem_cons_self))
    · refine .inr ⟨before.length, piso, ?_, visible, ?_, nearest⟩
      · rw [List.getElem?_append_right le_rfl, Nat.sub_self]
        rfl
      · rw [isoLoop_hidden skipped, isoLoop_visible visible, Nat.zero_add]

end Loop

/-! ## The intersection -/

section Intersection

variable {volume : UnstructuredVolume} {fields : CellFields} {rcp : ℚ → ℚ} {id : Nat} {ray : IsoRay}
  {segment : ℚ × ℚ}

theorem foldl_clip (planes : List Nat) (p0 norm : Nat → Fin 3 → ℚ) (start : ℚ × ℚ) :
    let segment := planes.foldl (fun segment plane => clip rcp ray segment (p0 plane) (norm plane)) start
    start.1 ≤ segment.1 ∧ segment.2 ≤ start.2 := by
  induction planes generalizing start with
  | nil => exact ⟨le_rfl, le_rfl⟩
  | cons plane rest inductionHypothesis =>
    have first : start.1 ≤ (clip rcp ray start (p0 plane) (norm plane)).1 ∧
        (clip rcp ray start (p0 plane) (norm plane)).2 ≤ start.2 := by
      simp only [clip]
      split_ifs
      · exact ⟨le_max_left _ _, le_rfl⟩
      · exact ⟨le_rfl, min_le_left _ _⟩
    have others := inductionHypothesis (clip rcp ray start (p0 plane) (norm plane))
    exact ⟨first.1.trans others.1, others.2.trans first.2⟩

/-- The segment is not empty, and in a tetrahedron or a hexahedron it is a part of the ray. -/
theorem cellSegment_ordered (found : cellSegment volume fields rcp id ray = some segment) :
    segment.1 ≤ segment.2 ∧
      (volume.indices (2 * id) 0 ≠ -2 → ray.t0 ≤ segment.1 ∧ segment.2 ≤ ray.t) := by
  rw [cellSegment] at found
  split_ifs at found with tet wedge
  · dsimp only at found
    split_ifs at found with empty
    obtain rfl := Option.some.inj found
    exact ⟨not_lt.mp empty, fun _ => foldl_clip _ _ _ (ray.t0, ray.t)⟩
  · refine ⟨?_, fun notWedge => absurd wedge notWedge⟩
    cases met : wedgeSegment volume id ray with
    | none =>
      rw [met] at found
      cases found
    | some part =>
      rw [met] at found
      dsimp only at found
      split_ifs at found with empty
      obtain rfl := Option.some.inj found
      exact (not_le.mp empty).le
  · dsimp only at found
    split_ifs at found with empty
    obtain rfl := Option.some.inj found
    exact ⟨not_lt.mp empty, fun _ => foldl_clip _ _ _ (ray.t0, ray.t)⟩

/-- **Several isovalues.** Where a ray has a segment in a cell, surfaces are crossed inside the segment. The
nearest one before the end of the ray is reported, and nothing if there is none, if and only if
there is none, or the first isovalue is the one of the nearest, where those that are crossed
behind the end of the ray do not count. -/
theorem intersectIsoRay_nearest_iff (isovalues : List ℚ) (geomID : Int)
    (found : cellSegment volume fields rcp id ray = some segment) :
    let iterations := cellIterations volume id
    let sample := cellSample volume fields id ray
    (∀ piso, Crosses (sample segment.1) (sample segment.2) piso →
      segment.1 ≤ hitDistance iterations sample segment piso ∧
        hitDistance iterations sample segment piso < segment.2) ∧
    (volume.indices (2 * id) 0 ≠ -2 → ray.t0 ≤ segment.1 ∧ segment.2 ≤ ray.t) ∧
    (ReportsNearest iterations sample segment ray geomID isovalues
        (intersectIsoRay volume fields rcp id ray isovalues geomID) ↔
      (∀ piso ∈ isovalues, ¬ Visible iterations sample segment ray piso) ∨
        NearestIsFirst iterations sample segment ray isovalues) := by
  obtain ⟨ordered, onRay⟩ := cellSegment_ordered found
  refine ⟨fun piso => hitDistance_mem ordered, onRay, ?_⟩
  rw [intersectIsoRay, found]
  exact isoLoop_nearest_iff

end Intersection

/-- A tetrahedron at the origin. -/
def oneTet : UnstructuredVolume where
  nCells := 1
  vertices idx := [![0, 0, 0], ![1, 0, 0], ![0, 1, 0], ![0, 0, 1]].getD idx.toNat 0
  field idx := [0, 1, 0, 0].getD idx.toNat 0
  cellField := none
  indices cell i := if cell = 0 then -1 else i

/-- Its field is the first coordinate. The normals are not made units. -/
def firstCoordinate : CellFields where
  tetNormal _ plane := [![1, 1, 1], ![-1, 0, 0], ![0, -1, 0], ![0, 0, -1]].getD plane 0
  hexNormal _ _ := 0
  intersectAndSampleTet _ samplePos := samplePos 0
  intersectAndSampleWedge _ samplePos := samplePos 0
  intersectAndSampleHexPlanar _ samplePos := samplePos 0

/-- A ray through the tetrahedron, at distances from 1 to 7/5. -/
def tetRay : IsoRay := ⟨![-1, 1 / 8, 1 / 8], ![1, 1 / 8, 1 / 8], 0, 10, 0, -1, -1⟩

theorem cellSegment_oneTet : cellSegment oneTet firstCoordinate (fun x => x⁻¹) 0 tetRay = some (1, 7 / 5) := by
  decide +kernel

theorem intersectIsoRay_nearest_oneTet :
    let sample := cellSample oneTet firstCoordinate 0 tetRay
    ReportsNearest 0 sample (1, 7 / 5) tetRay 7 [1 / 8, 2, 1 / 4]
      (intersectIsoRay oneTet firstCoordinate (fun x => x⁻¹) 0 tetRay [1 / 8, 2, 1 / 4] 7) := by
  refine (intersectIsoRay_nearest_iff [1 / 8, 2, 1 / 4] 7 cellSegment_oneTet).2.2.mpr (.inr ?_)
  have least : ∀ other ∈ [1 / 8, 2, 1 / 4],
      hitDistance 0 (cellSample oneTet firstCoordinate 0 tetRay) (1, 7 / 5) (1 / 8) ≤
        hitDistance 0 (cellSample oneTet firstCoordinate 0 tetRay) (1, 7 / 5) other := by
    decide +kernel
  exact ⟨[], 1 / 8, [2, 1 / 4], rfl, nofun, ⟨.inl (by decide +kernel), by decide +kernel⟩,
    fun other member _ => least other member⟩

/-- With the isovalues 2 and 1/4, nothing is reported, though 1/4 is crossed. With 3/8 and 1/8, the farther
one is reported. -/
theorem isovalues_missed :
    let sample := cellSample oneTet firstCoordinate 0 tetRay
    ¬ ReportsNearest 0 sample (1, 7 / 5) tetRay 7 [2, 1 / 4]
      (intersectIsoRay oneTet firstCoordinate (fun x => x⁻¹) 0 tetRay [2, 1 / 4] 7) ∧
    ¬ ReportsNearest 0 sample (1, 7 / 5) tetRay 7 [3 / 8, 1 / 8]
      (intersectIsoRay oneTet firstCoordinate (fun x => x⁻¹) 0 tetRay [3 / 8, 1 / 8] 7) := by
  intro sample
  have quarter : Visible 0 sample (1, 7 / 5) tetRay (1 / 4) := ⟨.inl (by decide +kernel), by decide +kernel⟩
  have eighth : Visible 0 sample (1, 7 / 5) tetRay (1 / 8) := ⟨.inl (by decide +kernel), by decide +kernel⟩
  have nothing : (intersectIsoRay oneTet firstCoordinate (fun x => x⁻¹) 0 tetRay [2, 1 / 4] 7).t = 10 := by
    decide +kernel
  have farther : (intersectIsoRay oneTet firstCoordinate (fun x => x⁻¹) 0 tetRay [3 / 8, 1 / 8] 7).t =
      1 + 3 / 8 := by
    decide +kernel
  constructor
  · rintro (⟨none_, -⟩ | ⟨i, piso, -, visible, same, -⟩)
    · exact none_ (1 / 4) (by decide +kernel) quarter
    · rw [congrArg IsoRay.t same] at nothing
      exact absurd visible.2 nothing.ge.not_gt
  · rintro (⟨none_, -⟩ | ⟨i, piso, -, -, same, nearest⟩)
    · exact none_ (1 / 8) (by decide +kernel) eighth
    · rw [congrArg IsoRay.t same] at farther
      have order := nearest (1 / 8) (by decide +kernel) eighth.1
      change hitDistance 0 sample (1, 7 / 5) piso = 1 + 3 / 8 at farther
      rw [farther] at order
      exact absurd order (by decide +kernel)

end Ospray.Unstructured

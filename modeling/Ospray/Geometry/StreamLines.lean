import Ospray.Geometry.Capsules
import Ospray.Geometry.Spheres

/-!
# Intersecting rays and stream lines

A link of a stream line is a capsule. The kernel starts with the part of the ray between the caps
of the cylinder, and extends it by the parts in the two spheres.
-/

namespace Ospray.Geometry

/-- `StreamLines`: a link goes from the vertex of its index to the next one. -/
structure StreamLines (K : Type) where
  radius : K
  vertex : Int → Vec3 K
  index : Int → Int
  geomID : Int

namespace StreamLines

section Kernel

variable {K : Type} [Field K] [LinearOrder K] (self : StreamLines K)

omit [LinearOrder K] in
/-- `normalize` -/
def normalize (sqrt : K → K) (v : Vec3 K) : Vec3 K := (1 / sqrt (dot v v)) • v

/-- `StreamLines_bounds` -/
def bounds (primID : Int) : Vec3 K × Vec3 K :=
  let index := self.index primID
  let A := self.vertex index
  let B := self.vertex (index + 1)
  (fun axis => min (A axis) (B axis) - self.radius, fun axis => max (A axis) (B axis) + self.radius)

/-- `intersectSphere`, which extends the part from `t_in` to `t_out`. -/
def intersectSphere (sqrt : K → K) (ray : Ray K) (center : Vec3 K) (t_in t_out : Extended K) (r : K) :
    Extended K × Extended K :=
  let rd2 := 1 / dot ray.dir ray.dir
  let CO := center - ray.org
  let projCO := dot CO ray.dir * rd2
  let perp := CO - projCO • ray.dir
  let l2 := dot perp perp
  let r2 := r * r
  if l2 > r2 then (t_in, t_out)
  else
    let td := sqrt ((r2 - l2) * rd2)
    let sph_t_in := projCO - td
    let sph_t_out := projCO + td
    (min t_in (finite sph_t_in), max t_out (finite sph_t_out))

/-- `intersectCylinder`, which replaces the part from `t_in` to `t_out`. -/
def intersectCylinder (sqrt : K → K) (ray : Ray K) (v0 v1 : Vec3 K) (t_in t_out : Extended K) (r : K) :
    Extended K × Extended K :=
  let d := ray.dir
  let s := v1 - v0
  let sxd := cross s d
  let a := dot sxd sxd
  if a = 0 then (t_in, t_out)
  else
    let f := v0 - ray.org
    let sxf := cross s f
    let ra := 1 / a
    let ts := dot sxd sxf * ra
    let fp := f - ts • d
    let s2 := dot s s
    let perp := cross s fp
    let c := r * r * s2 - dot perp perp
    if c < 0 then (t_in, t_out)
    else
      let td := sqrt (c * ra)
      let tin := ts - td
      let tout := ts + td
      let rsd := 1 / dot s d
      let tA := dot s f * rsd
      let tB := tA + s2 * rsd
      let cyl_t_in := max (min tA tB) tin
      let cyl_t_out := min (max tA tB) tout
      if cyl_t_in < cyl_t_out then (finite cyl_t_in, finite cyl_t_out) else (t_in, t_out)

omit [LinearOrder K] in
/-- A `float` in arithmetic, which is not infinite there. -/
def value : Extended K → K
  | some (some x) => x
  | _ => 0

/-- A hit is stored, with the normal from the closest point of the axis. -/
def hit (sqrt : K → K) (primID instID : Int) (isOcclusionTest : Bool) (ray : Ray K) (t : Extended K) : Ray K :=
  let idx := self.index primID
  let A := self.vertex idx
  let B := self.vertex (idx + 1)
  let P := ray.org + value t • ray.dir
  let s := dot (P - A) (B - A) * (1 / dot (B - A) (B - A))
  let s := min (max s 0) 1
  let PonAxis := A + s • (B - A)
  ray.report { primID := primID, geomID := self.geomID, instID := instID } isOcclusionTest (value t)
    (normalize sqrt (P - PonAxis)) s

/-- The part of the ray in the cylinder and the spheres of a link, in the order of the kernel. -/
def part (sqrt : K → K) (primID : Int) (ray : Ray K) : Extended K × Extended K :=
  let idx := self.index primID
  let A := self.vertex idx
  let B := self.vertex (idx + 1)
  let cylinder := intersectCylinder sqrt ray A B ⊤ ⊥ self.radius
  let first := intersectSphere sqrt ray A cylinder.1 cylinder.2 self.radius
  intersectSphere sqrt ray B first.1 first.2 self.radius

/-- `StreamLines_intersect_kernel` -/
def intersectKernel (sqrt : K → K) (primID instID : Int) (isOcclusionTest : Bool) (ray : Ray K) : Ray K :=
  let t_in := (self.part sqrt primID ray).1
  let t_out := (self.part sqrt primID ray).2
  if t_in < t_out then
    if t_in > ray.t0 ∧ t_in < ray.t then self.hit sqrt primID instID isOcclusionTest ray t_in
    else if t_out > ray.t0 ∧ t_out < ray.t then self.hit sqrt primID instID isOcclusionTest ray t_out
    else ray
  else ray

end Kernel

/-! ## The part of a ray in a capsule -/

/-- The part goes from the first place to the last one, if there are any. -/
def Spans (span : Extended ℝ × Extended ℝ) (parts : Set ℝ) : Prop :=
  parts = ∅ ∧ span = (⊤, ⊥) ∨ ∃ x y, span = (finite x, finite y) ∧ IsLeast parts x ∧ IsGreatest parts y

variable {ray : Ray ℝ} {span : Extended ℝ × Extended ℝ} {parts : Set ℝ}

/-- The part is extended by the places in a sphere. -/
theorem spans_sphere (dir : ray.dir ≠ 0) (spans : Spans span parts) (center : Vec3 ℝ) {r : ℝ} :
    Spans (intersectSphere Real.sqrt ray center span.1 span.2 r)
      (parts ∪ {t | dot (ray.point t - center) (ray.point t - center) ≤ r * r}) := by
  have length := dot_self_pos dir
  set projCO := dot (center - ray.org) ray.dir * (1 / dot ray.dir ray.dir)
  set perp := center - ray.org - projCO • ray.dir
  have distance : ∀ t, dot (ray.point t - center) (ray.point t - center) =
      (t - projCO) * (t - projCO) * dot ray.dir ray.dir + dot perp perp := fun t =>
    (Spheres.distance_eq length.ne' center t).2
  obtain far | near := lt_or_ge (r * r) (dot perp perp)
  · have nowhere : {t | dot (ray.point t - center) (ray.point t - center) ≤ r * r} = ∅ := by
      refine Set.eq_empty_iff_forall_notMem.mpr fun t close => ?_
      have square := mul_nonneg (mul_self_nonneg (t - projCO)) length.le
      have sum := (distance t).symm.trans_le close
      linarith
    have kept : intersectSphere Real.sqrt ray center span.1 span.2 r = span := if_pos far
    rw [kept, nowhere, Set.union_empty]
    exact spans
  · set td := √((r * r - dot perp perp) * (1 / dot ray.dir ray.dir))
    have places : {t | dot (ray.point t - center) (ray.point t - center) ≤ r * r} =
        Set.Icc (projCO - td) (projCO + td) := by
      ext t
      rw [Set.mem_ofPred_eq, distance, ← le_sub_iff_add_le]
      exact Library.Quadratics.le_iff length (sub_nonneg.mpr near)
    have ordered : projCO - td ≤ projCO + td := by
      have root : 0 ≤ td := Real.sqrt_nonneg _
      linarith
    have extended : intersectSphere Real.sqrt ray center span.1 span.2 r =
        (min span.1 (finite (projCO - td)), max span.2 (finite (projCO + td))) := if_neg near.not_gt
    rw [extended, places]
    refine Or.inr ?_
    obtain ⟨rfl, rfl⟩ | ⟨x, y, rfl, least, greatest⟩ := spans
    · refine ⟨projCO - td, projCO + td, ?_, ?_, ?_⟩
      · rw [min_eq_right le_top, max_eq_right bot_le]
      · rw [Set.empty_union]
        exact isLeast_Icc ordered
      · rw [Set.empty_union]
        exact isGreatest_Icc ordered
    · refine ⟨_, _, ?_, least.union (isLeast_Icc ordered), greatest.union (isGreatest_Icc ordered)⟩
      rw [finite_min, finite_max]

/-- The part between the caps covers the cylinder, up to the balls. -/
theorem spans_cylinder (capsule : Capsule) (oblique : dot capsule.axis ray.dir ≠ 0) (tangent : capsule.NotTangent ray) :
    ∃ parts ⊆ capsule.cylinder ray,
      Spans (intersectCylinder Real.sqrt ray capsule.A capsule.B ⊤ ⊥ capsule.radius) parts ∧
        ∀ t ∈ capsule.cylinder ray, t ∈ parts ∨
          ∃ x ∈ capsule.ball ray 0 ∪ capsule.ball ray 1, ∃ y ∈ capsule.ball ray 0 ∪ capsule.ball ray 1, x ≤ t ∧ t ≤ y := by
  set f := capsule.A - ray.org
  set a := dot (cross capsule.axis ray.dir) (cross capsule.axis ray.dir)
  set tA := dot capsule.axis f * (1 / dot capsule.axis ray.dir)
  set tB := tA + dot capsule.axis capsule.axis * (1 / dot capsule.axis ray.dir)
  have caps := fun t => axial_mem_iff (f := f) capsule.axis_pos oblique t
  simp only [f, ← Ray.point_sub] at caps
  by_cases parallel : a = 0
  · -- the places on the planes of the caps are in the balls
    refine ⟨∅, Set.empty_subset _, ?_, fun t within => Or.inr ?_⟩
    · rw [show intersectCylinder Real.sqrt ray capsule.A capsule.B ⊤ ⊥ capsule.radius = (⊤, ⊥) from if_pos parallel]
      exact Or.inl ⟨rfl, rfl⟩
    have onA : tA ∈ capsule.ball ray 0 := by
      have close := within.2
      rw [capsule.square_axial_eq ray parallel t tA, (caps tA).1.mpr rfl] at close
      exact close
    have onB : tB ∈ capsule.ball ray 1 := by
      have close := within.2
      rw [capsule.square_axial_eq ray parallel t tB, (caps tB).2.1.mpr rfl] at close
      exact close
    obtain ⟨low, high⟩ := (caps t).2.2.mp within.1
    refine ⟨min tA tB, ?_, max tA tB, ?_, low, high⟩
    · obtain first | second := min_choice tA tB
      · exact Or.inl (first.symm ▸ onA)
      · exact Or.inr (second.symm ▸ onB)
    · obtain first | second := max_choice tA tB
      · exact Or.inl (first.symm ▸ onA)
      · exact Or.inr (second.symm ▸ onB)
  set ts := dot (cross capsule.axis ray.dir) (cross capsule.axis f) * (1 / a)
  set perp := cross capsule.axis (f - ts • ray.dir)
  set c := capsule.radius * capsule.radius * dot capsule.axis capsule.axis - dot perp perp
  have apart : 0 < a := lt_of_le_of_ne (dot_self_nonneg _) (Ne.symm parallel)
  have places : ∀ t, t ∈ capsule.cylinder ray ↔ (min tA tB ≤ t ∧ t ≤ max tA tB) ∧ (t - ts) * (t - ts) * a ≤ c :=
    capsule.mem_cylinder ray oblique parallel
  obtain negative | nonneg := lt_or_ge c 0
  · refine ⟨∅, Set.empty_subset _, ?_, fun t within => ?_⟩
    · rw [show intersectCylinder Real.sqrt ray capsule.A capsule.B ⊤ ⊥ capsule.radius = (⊤, ⊥) from
        (if_neg parallel).trans (if_pos negative)]
      exact Or.inl ⟨rfl, rfl⟩
    · have square := mul_nonneg (mul_self_nonneg (t - ts)) apart.le
      exact absurd (((places t).mp within).2) (by linarith)
  set td := √(c * (1 / a))
  set cyl_t_in := max (min tA tB) (ts - td)
  set cyl_t_out := min (max tA tB) (ts + td)
  have cylinder : capsule.cylinder ray = Set.Icc cyl_t_in cyl_t_out := by
    ext t
    rw [places, Library.Quadratics.le_iff apart nonneg, Set.mem_Icc, max_le_iff, le_min_iff, and_and_and_comm]
  obtain proper | single := lt_or_ge cyl_t_in cyl_t_out
  · refine ⟨capsule.cylinder ray, subset_rfl, ?_, fun t within => Or.inl within⟩
    rw [show intersectCylinder Real.sqrt ray capsule.A capsule.B ⊤ ⊥ capsule.radius =
      (finite cyl_t_in, finite cyl_t_out) from (if_neg parallel).trans ((if_neg nonneg.not_gt).trans (if_pos proper)),
      cylinder]
    exact Or.inr ⟨_, _, rfl, isLeast_Icc proper.le, isGreatest_Icc proper.le⟩
  · refine ⟨∅, Set.empty_subset _, ?_, fun t within => Or.inr ?_⟩
    · rw [show intersectCylinder Real.sqrt ray capsule.A capsule.B ⊤ ⊥ capsule.radius = (⊤, ⊥) from
        (if_neg parallel).trans ((if_neg nonneg.not_gt).trans (if_neg single.not_gt))]
      exact Or.inl ⟨rfl, rfl⟩
    -- the only place is on the plane of a cap
    have range := cylinder ▸ within
    have atIn : t = cyl_t_in := le_antisymm (range.2.trans single) range.1
    have atOut : t = cyl_t_out := le_antisymm range.2 (single.trans range.1)
    have onCap : t = tA ∨ t = tB := by
      by_contra other
      have lower : t = ts - td := by
        obtain cap | root := max_choice (min tA tB) (ts - td)
        · obtain first | second := min_choice tA tB
          · exact absurd (Or.inl (atIn.trans (cap.trans first))) other
          · exact absurd (Or.inr (atIn.trans (cap.trans second))) other
        · exact atIn.trans root
      have upper : t = ts + td := by
        obtain cap | root := min_choice (max tA tB) (ts + td)
        · obtain first | second := max_choice tA tB
          · exact absurd (Or.inl (atOut.trans (cap.trans first))) other
          · exact absurd (Or.inr (atOut.trans (cap.trans second))) other
        · exact atOut.trans root
      have root : (t - ts) * (t - ts) * a = c := (Library.Quadratics.eq_iff apart nonneg).mpr (Or.inl lower)
      have distance : capsule.square ray t (axial capsule.axis (ray.point t - capsule.A)) =
          capsule.radius * capsule.radius := by
        refine mul_right_cancel₀ capsule.axis_pos.ne' ((capsule.square_from_line ray parallel t).trans ?_)
        exact (congrArg (· + dot perp perp) root).trans (sub_add_cancel _ _)
      exact capsule.not_vertex ray tangent parallel within distance (by linarith)
    obtain onA | onB := onCap
    · have here := capsule.mem_ball_of_axial ray within ((caps t).1.mpr onA)
      exact ⟨t, Or.inl here, t, Or.inl here, le_rfl, le_rfl⟩
    · have here := capsule.mem_ball_of_axial ray within ((caps t).2.1.mpr onB)
      exact ⟨t, Or.inr here, t, Or.inr here, le_rfl, le_rfl⟩

/-- The part that the kernel computes is that of the capsule. -/
theorem spans_solid (capsule : Capsule) (dir : ray.dir ≠ 0) (oblique : dot capsule.axis ray.dir ≠ 0)
    (tangent : capsule.NotTangent ray) :
    let cylinder := intersectCylinder Real.sqrt ray capsule.A capsule.B ⊤ ⊥ capsule.radius
    let first := intersectSphere Real.sqrt ray capsule.A cylinder.1 cylinder.2 capsule.radius
    let second := intersectSphere Real.sqrt ray capsule.B first.1 first.2 capsule.radius
    Spans second (capsule.body ray).solid := by
  intro cylinder first second
  obtain ⟨parts, parts_subset, spans, cover⟩ := spans_cylinder capsule oblique tangent
  have ballA : {t | dot (ray.point t - capsule.A) (ray.point t - capsule.A) ≤ capsule.radius * capsule.radius} =
      capsule.ball ray 0 := by
    simp only [Capsule.ball, Capsule.square, Capsule.offset, zero_smul, add_zero]
  have ballB : {t | dot (ray.point t - capsule.B) (ray.point t - capsule.B) ≤ capsule.radius * capsule.radius} =
      capsule.ball ray 1 := by
    simp only [Capsule.ball, Capsule.square, Capsule.offset, Capsule.axis, one_smul, add_sub_cancel]
  have both : Spans second (parts ∪ capsule.ball ray 0 ∪ capsule.ball ray 1) := by
    rw [← ballA, ← ballB]
    exact spans_sphere dir (spans_sphere dir spans capsule.A) capsule.B
  have subset : parts ∪ capsule.ball ray 0 ∪ capsule.ball ray 1 ⊆ (capsule.body ray).solid := by
    rw [capsule.solid_eq ray]
    exact Set.union_subset_union_left _ (Set.union_subset_union_left _ parts_subset)
  have between : ∀ t ∈ (capsule.body ray).solid, ∃ x ∈ parts ∪ capsule.ball ray 0 ∪ capsule.ball ray 1,
      ∃ y ∈ parts ∪ capsule.ball ray 0 ∪ capsule.ball ray 1, x ≤ t ∧ t ≤ y := by
    intro t solid
    rw [capsule.solid_eq ray] at solid
    obtain (within | here) | here := solid
    · obtain part | ⟨x, inBall, y, inBall', before, after⟩ := cover t within
      · exact ⟨t, Or.inl (Or.inl part), t, Or.inl (Or.inl part), le_rfl, le_rfl⟩
      · rw [Set.union_assoc]
        exact ⟨x, Or.inr inBall, y, Or.inr inBall', before, after⟩
    · exact ⟨t, Or.inl (Or.inr here), t, Or.inl (Or.inr here), le_rfl, le_rfl⟩
    · exact ⟨t, Or.inr here, t, Or.inr here, le_rfl, le_rfl⟩
  obtain ⟨nothing, start⟩ | ⟨x, y, ends, least, greatest⟩ := both
  · refine Or.inl ⟨Set.eq_empty_iff_forall_notMem.mpr fun t solid => ?_, start⟩
    obtain ⟨x, place, -⟩ := between t solid
    exact (Set.eq_empty_iff_forall_notMem.mp nothing x) place
  · refine Or.inr ⟨x, y, ends, Library.isLeast_of_cover least subset fun t solid => ?_,
      Library.isGreatest_of_cover greatest subset fun t solid => ?_⟩
    · obtain ⟨z, place, -, -, before, -⟩ := between t solid
      exact ⟨z, place, before⟩
    · obtain ⟨-, -, z, place, -, after⟩ := between t solid
      exact ⟨z, place, after⟩

/-! ## The first hit -/

variable (self : StreamLines ℝ) {primID : Int}

/-- The capsule of a link. -/
def capsule (primID : Int) (proper : self.vertex (self.index primID) ≠ self.vertex (self.index primID + 1))
    (radius : 0 < self.radius) : Capsule where
  A := self.vertex (self.index primID)
  B := self.vertex (self.index primID + 1)
  radius := self.radius
  proper := proper
  positive := radius

theorem hit_finite (proper : self.vertex (self.index primID) ≠ self.vertex (self.index primID + 1))
    (radius : 0 < self.radius) (instID : Int) (isOcclusionTest : Bool) (t : ℝ) :
    let capsule := self.capsule primID proper radius
    let n := ray.point t - capsule.foot ray t
    self.hit Real.sqrt primID instID isOcclusionTest ray (finite t) =
      ray.report { primID := primID, geomID := self.geomID, instID := instID } isOcclusionTest t
        ((1 / √(dot n n)) • n) (capsule.nearest ray t) := by
  intro capsule n
  have coordinate : dot (ray.point t - capsule.A) capsule.axis * (1 / dot capsule.axis capsule.axis) =
      axial capsule.axis (ray.point t - capsule.A) := by
    rw [axial, dot_comm, mul_one_div]
  simp only [n, Capsule.foot, Capsule.nearest, ← coordinate]
  rfl

/-- The kernel reports the first hit. -/
theorem reportsFirst {instID : Int} (proper : self.vertex (self.index primID) ≠ self.vertex (self.index primID + 1))
    (radius : 0 < self.radius) (dir : ray.dir ≠ 0)
    (oblique : dot (self.capsule primID proper radius).axis ray.dir ≠ 0)
    (tangent : (self.capsule primID proper radius).NotTangent ray) :
    let capsule := self.capsule primID proper radius
    ReportsFirst (capsule.body ray).surface (capsule.foot ray) (self.bounds primID)
      { primID := primID, geomID := self.geomID, instID := instID } ray
      (self.intersectKernel Real.sqrt primID instID) := by
  intro capsule
  have spans : Spans (self.part Real.sqrt primID ray) (capsule.body ray).solid :=
    spans_solid capsule dir oblique tangent
  obtain ⟨nothing, start⟩ | ⟨x, y, span, least, greatest⟩ := spans
  · have nowhere : ray.hits (capsule.body ray).surface = ∅ := by
      refine Set.eq_empty_iff_forall_notMem.mpr fun t hit => ?_
      exact Set.eq_empty_iff_forall_notMem.mp nothing t hit.1.1
    refine reportsFirst_intro (fun _ isOcclusionTest => ?_) fun some_ => absurd nowhere some_.ne_empty
    rw [intersectKernel, start]
    exact if_neg not_top_lt
  · obtain ⟨ordered, surface⟩ := (capsule.body ray).surface_eq least greatest (capsule.comesInside ray tangent least.1)
    have root : ∀ t, t = x ∨ t = y → t ∈ (capsule.body ray).surface := fun t either => surface ▸ either
    have within : finite x < finite y := finite_lt_finite.mpr ordered
    refine reportsFirst_of_roots (fun t => finite t > ray.t0 ∧ finite t < ray.t) (x := x) (y := y) ordered.le
      (fun t meets => surface.subset meets) (fun t either => ?_)
      (fun t => (1 / √(dot (ray.point t - capsule.foot ray t) (ray.point t - capsule.foot ray t))) •
        (ray.point t - capsule.foot ray t)) (fun t => capsule.nearest ray t) (fun near isOcclusionTest => ?_)
      (fun far near isOcclusionTest => ?_) (fun far far' isOcclusionTest => ?_)
      (fun t meets _ => capsule.outward ray meets) (fun t meets => capsule.bounded ray meets)
    · exact ⟨fun accepted => ⟨root t either, accepted⟩, fun hit => hit.2⟩
    · rw [intersectKernel, span]
      exact (if_pos within).trans ((if_pos near).trans (self.hit_finite proper radius instID isOcclusionTest x))
    · rw [intersectKernel, span]
      exact (if_pos within).trans ((if_neg far).trans ((if_pos near).trans
        (self.hit_finite proper radius instID isOcclusionTest y)))
    · rw [intersectKernel, span]
      exact (if_pos within).trans ((if_neg far).trans (if_neg far'))

end StreamLines

end Ospray.Geometry

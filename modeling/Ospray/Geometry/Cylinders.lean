import Mathlib.Tactic.Module
import Ospray.Geometry.Axes
import Ospray.Library.Quadratics

/-!
# Intersecting rays and cylinders

The cylinders have no caps. The kernel solves for the distance from the axis, and keeps the roots
between the planes through the ends of the axis.
-/

namespace Ospray.Geometry

/-- `Cylinders`: each cylinder may have a radius of its own. -/
structure Cylinders (K : Type) where
  v0 : Int → Vec3 K
  v1 : Int → Vec3 K
  radius : K
  ownRadius : Option (Int → K)
  geomID : Int

namespace Cylinders

section Kernel

variable {K : Type} [Field K] [LinearOrder K] (self : Cylinders K)

omit [Field K] [LinearOrder K] in
/-- The radius of a cylinder. -/
def radiusOf (primID : Int) : K :=
  match self.ownRadius with
  | some ownRadius => ownRadius primID
  | none => self.radius

omit [LinearOrder K] in
/-- How far the bounds are from the axis. -/
def reach (sqrt : K → K) (primID : Int) : Vec3 K :=
  let a2 : Vec3 K := fun axis => (self.v0 primID - self.v1 primID) axis * (self.v0 primID - self.v1 primID) axis
  let d2 := a2 0 + a2 1 + a2 2
  let a : Vec3 K := ![a2 1 + a2 2, a2 0 + a2 2, a2 0 + a2 1]
  fun axis => self.radiusOf primID * sqrt (a axis / d2)

/-- `Cylinders_bounds` -/
def bounds (sqrt : K → K) (primID : Int) : Vec3 K × Vec3 K :=
  (fun axis => min (self.v0 primID axis) (self.v1 primID axis) - self.reach sqrt primID axis,
    fun axis => max (self.v0 primID axis) (self.v1 primID axis) + self.reach sqrt primID axis)

/-- `Cylinders_intersect_kernel` -/
def intersectKernel (sqrt : K → K) (primID instID : Int) (isOcclusionTest : Bool) (ray : Ray K) : Ray K :=
  let radius := self.radiusOf primID
  let v0 := self.v0 primID
  let v1 := self.v1 primID
  let d := ray.dir
  let s := v1 - v0
  let sxd := cross s d
  let a := dot sxd sxd
  if a = 0 then ray
  else
    let f := v0 - ray.org
    let sxf := cross s f
    let ra := 1 / a
    let ts := dot sxd sxf * ra
    let fp := f - ts • d
    let s2 := dot s s
    let perp := cross s fp
    let c := radius * radius * s2 - dot perp perp
    if c < 0 then ray
    else
      let td := sqrt (c * ra)
      let t_in := ts - td
      let t_out := ts + td
      let sf := dot s f
      let sd := dot s d
      let rsd := 1 / sd
      let tA := sf * rsd
      let tB := tA + s2 * rsd
      let tmin := max (finite (min tA tB)) ray.t0
      let tmax := min (finite (max tA tB)) ray.t
      let ids : HitIDs := { primID := primID, geomID := self.geomID, instID := instID }
      if tmin < finite t_in ∧ finite t_in ≤ tmax then
        let u := (t_in * sd - sf) * (1 / s2)
        ray.report ids isOcclusionTest t_in (-td • d - fp - u • s) u
      else if tmin < finite t_out ∧ finite t_out ≤ tmax then
        let u := (t_out * sd - sf) * (1 / s2)
        ray.report ids isOcclusionTest t_out (td • d - fp - u • s) u
      else ray

end Kernel

variable (self : Cylinders ℝ) {primID : Int} {ray : Ray ℝ}

/-- The axis of a cylinder. -/
def axis (primID : Int) : Vec3 ℝ := self.v1 primID - self.v0 primID

/-- The places where a ray meets a cylinder, at the distance of the radius from a point of the axis. -/
def surface (primID : Int) (ray : Ray ℝ) : Set ℝ :=
  {t | ∃ u : ℝ, 0 ≤ u ∧ u ≤ 1 ∧
    let normal := ray.point t - (self.v0 primID + u • self.axis primID)
    dot (self.axis primID) normal = 0 ∧ dot normal normal = self.radiusOf primID * self.radiusOf primID}

/-- The coordinate along the axis of a point of the ray. -/
noncomputable def coordinate (primID : Int) (ray : Ray ℝ) (t : ℝ) : ℝ :=
  axial (self.axis primID) (ray.point t - self.v0 primID)

/-- The point of the axis that is closest to a point of the ray. -/
noncomputable def foot (primID : Int) (ray : Ray ℝ) (t : ℝ) : Vec3 ℝ :=
  self.v0 primID + self.coordinate primID ray t • self.axis primID

/-- A point of the ray is on the cylinder if it is between the ends, at the distance of the radius from the axis. -/
theorem mem_surface (axis : 0 < dot (self.axis primID) (self.axis primID)) (t : ℝ) :
    let w := t • ray.dir - (self.v0 primID - ray.org)
    t ∈ self.surface primID ray ↔ (0 ≤ axial (self.axis primID) w ∧ axial (self.axis primID) w ≤ 1) ∧
      dot (cross (self.axis primID) w) (cross (self.axis primID) w) =
        self.radiusOf primID * self.radiusOf primID * dot (self.axis primID) (self.axis primID) := by
  intro w
  have seen : ∀ u : ℝ, ray.point t - (self.v0 primID + u • self.axis primID) = w - u • self.axis primID := fun u => by
    rw [← sub_sub, Ray.point_sub]
  have distance := distance_axis (w := w) axis (axial (self.axis primID) w)
  rw [sub_self, zero_mul, zero_mul, add_zero] at distance
  simp only [surface, Set.mem_ofPred_eq, seen, eq_axial_iff axis]
  constructor
  · rintro ⟨u, low, high, rfl, length⟩
    exact ⟨⟨low, high⟩, by rw [← distance, length]⟩
  · rintro ⟨⟨low, high⟩, length⟩
    exact ⟨_, low, high, rfl, mul_right_cancel₀ axis.ne' (distance.trans length)⟩

theorem normal_of_mem (axis : 0 < dot (self.axis primID) (self.axis primID)) {t : ℝ}
    (meets : t ∈ self.surface primID ray) :
    dot (self.axis primID) (ray.point t - self.foot primID ray t) = 0 ∧
      dot (ray.point t - self.foot primID ray t) (ray.point t - self.foot primID ray t) =
        self.radiusOf primID * self.radiusOf primID := by
  obtain ⟨u, -, -, perpendicular, length⟩ := meets
  have coordinate : self.coordinate primID ray t = u := by
    rw [← sub_sub, eq_axial_iff axis] at perpendicular
    exact perpendicular.symm
  rw [foot, coordinate]
  exact ⟨perpendicular, length⟩

theorem abs_le_of_share (radius : 0 < self.radiusOf primID) (axis : 0 < dot (self.axis primID) (self.axis primID))
    {component share : ℝ} (short : component * component * dot (self.axis primID) (self.axis primID) ≤
      self.radiusOf primID * self.radiusOf primID * share) :
    |component| ≤ self.radiusOf primID * √(share / dot (self.axis primID) (self.axis primID)) := by
  have squares : component * component ≤
      self.radiusOf primID * self.radiusOf primID * (share / dot (self.axis primID) (self.axis primID)) := by
    rw [mul_div_assoc', le_div_iff₀ axis]
    exact short
  have nonneg : 0 ≤ share / dot (self.axis primID) (self.axis primID) :=
    nonneg_of_mul_nonneg_right ((mul_self_nonneg component).trans squares) (mul_pos radius radius)
  rw [← abs_of_nonneg (mul_nonneg radius.le (Real.sqrt_nonneg _)), ← sq_le_sq, mul_pow, Real.sq_sqrt nonneg, sq, sq]
  exact squares

theorem abs_normal_le (radius : 0 < self.radiusOf primID) (axis : 0 < dot (self.axis primID) (self.axis primID))
    {n : Vec3 ℝ} (perpendicular : dot (self.axis primID) n = 0)
    (length : dot n n = self.radiusOf primID * self.radiusOf primID) (i : Fin 3) :
    |n i| ≤ self.reach Real.sqrt primID i := by
  have squares : ∀ j, (self.v0 primID - self.v1 primID) j * (self.v0 primID - self.v1 primID) j =
      self.axis primID j * self.axis primID j := fun j => by
    simp only [Cylinders.axis, Pi.sub_apply]
    ring
  obtain ⟨first, second, third⟩ := component_le_of_perpendicular perpendicular
  rw [length] at first second third
  simp only [reach, squares]
  match i with
  | 0 => exact self.abs_le_of_share radius axis first
  | 1 => exact self.abs_le_of_share radius axis second
  | 2 => exact self.abs_le_of_share radius axis third

/-- A point of the surface is inside of the bounds. -/
theorem bounded (radius : 0 < self.radiusOf primID) (axis : 0 < dot (self.axis primID) (self.axis primID)) {t : ℝ}
    (meets : t ∈ self.surface primID ray) :
    Bounded (self.bounds Real.sqrt primID).1 (self.bounds Real.sqrt primID).2 (ray.point t) := by
  obtain ⟨perpendicular, length⟩ := self.normal_of_mem axis meets
  obtain ⟨⟨low, high⟩, -⟩ := (self.mem_surface axis t).mp meets
  rw [← Ray.point_sub] at low high
  have near := self.abs_normal_le radius axis perpendicular length
  have split : ∀ i, ray.point t i = self.v0 primID i +
      self.coordinate primID ray t * (self.v1 primID i - self.v0 primID i) +
      (ray.point t - self.foot primID ray t) i := fun i => by
    simp only [foot, Cylinders.axis, Pi.sub_apply, Pi.add_apply, Pi.smul_apply, smul_eq_mul]
    ring
  refine ⟨fun i => ?_, fun i => ?_⟩
  · have ends := (between (a := self.v0 primID i) (b := self.v1 primID i) low high).1
    have normal := (abs_le.mp (near i)).1
    rw [split i]
    exact (sub_eq_add_neg _ _).trans_le (add_le_add ends normal)
  · have ends := (between (a := self.v0 primID i) (b := self.v1 primID i) low high).2
    have normal := (abs_le.mp (near i)).2
    rw [split i]
    exact add_le_add ends normal

theorem coordinate_eq (t : ℝ) : self.coordinate primID ray t =
    (t * dot (self.axis primID) ray.dir - dot (self.axis primID) (self.v0 primID - ray.org)) *
      (1 / dot (self.axis primID) (self.axis primID)) := by
  rw [coordinate, Ray.point_sub, axial, dot_sub, dot_smul, mul_one_div]

/-- The ray is nowhere tangent to the cylinder. -/
def NotTangent (primID : Int) (ray : Ray ℝ) : Prop :=
  ∀ t ∈ self.surface primID ray, dot ray.dir (ray.point t - self.foot primID ray t) ≠ 0

/-- The ray meets none of the circles at the ends. -/
def OffRims (primID : Int) (ray : Ray ℝ) : Prop :=
  ∀ t ∈ self.surface primID ray, self.coordinate primID ray t ≠ 0 ∧ self.coordinate primID ray t ≠ 1

/-- The kernel reports the first hit. -/
theorem reportsFirst {instID : Int} (radius : 0 < self.radiusOf primID) (ends_ : self.v0 primID ≠ self.v1 primID)
    (oblique : dot (self.axis primID) ray.dir ≠ 0) (tangent : self.NotTangent primID ray)
    (rims : self.OffRims primID ray) (ends : ray.EndsOff (self.surface primID ray)) :
    ReportsFirst (self.surface primID ray) (self.foot primID ray) (self.bounds Real.sqrt primID)
      { primID := primID, geomID := self.geomID, instID := instID } ray
      (self.intersectKernel Real.sqrt primID instID) := by
  have axis : 0 < dot (self.axis primID) (self.axis primID) := dot_self_pos (sub_ne_zero.mpr ends_.symm)
  by_cases parallel : dot (cross (self.axis primID) ray.dir) (cross (self.axis primID) ray.dir) = 0
  · have nowhere : ray.hits (self.surface primID ray) = ∅ := by
      refine Set.eq_empty_iff_forall_notMem.mpr fun t hit => tangent t hit.1 ?_
      exact dot_of_parallel axis parallel (self.normal_of_mem axis hit.1).1
    refine reportsFirst_intro (fun _ isOcclusionTest => ?_) fun some_ => absurd nowhere some_.ne_empty
    exact if_pos parallel
  have apart : 0 < dot (cross (self.axis primID) ray.dir) (cross (self.axis primID) ray.dir) :=
    lt_of_le_of_ne (dot_self_nonneg _) (Ne.symm parallel)
  set f := self.v0 primID - ray.org
  set a := dot (cross (self.axis primID) ray.dir) (cross (self.axis primID) ray.dir)
  set ts := dot (cross (self.axis primID) ray.dir) (cross (self.axis primID) f) * (1 / a)
  set perp := cross (self.axis primID) (f - ts • ray.dir)
  set c := self.radiusOf primID * self.radiusOf primID * dot (self.axis primID) (self.axis primID) - dot perp perp
  have places : ∀ t, t ∈ self.surface primID ray ↔
      (0 ≤ axial (self.axis primID) (t • ray.dir - f) ∧ axial (self.axis primID) (t • ray.dir - f) ≤ 1) ∧
        (t - ts) * (t - ts) * a = c := fun t => by
    refine (self.mem_surface axis t).trans (and_congr_right fun _ => ?_)
    rw [eq_sub_iff_add_eq]
    exact iff_of_eq (congrArg (· = _) (cross_sq parallel t))
  obtain negative | nonneg := lt_or_ge c 0
  · have nowhere : ray.hits (self.surface primID ray) = ∅ := by
      refine Set.eq_empty_iff_forall_notMem.mpr fun t hit => ?_
      have square := ((places t).mp hit.1).2
      have product := mul_nonneg (mul_self_nonneg (t - ts)) apart.le
      linarith
    refine reportsFirst_intro (fun _ isOcclusionTest => ?_) fun some_ => absurd nowhere some_.ne_empty
    exact (if_neg parallel).trans (if_pos negative)
  set td := √(c * (1 / a))
  set tA := dot (self.axis primID) f * (1 / dot (self.axis primID) ray.dir)
  set tB := tA + dot (self.axis primID) (self.axis primID) * (1 / dot (self.axis primID) ray.dir)
  have roots : ∀ t, (t - ts) * (t - ts) * a = c ↔ t = ts - td ∨ t = ts + td := fun t =>
    Library.Quadratics.eq_iff apart nonneg
  have root : 0 ≤ td := Real.sqrt_nonneg _
  have accepts : ∀ t, t = ts - td ∨ t = ts + td → (max (finite (min tA tB)) ray.t0 < finite t ∧
      finite t ≤ min (finite (max tA tB)) ray.t ↔ t ∈ self.surface primID ray ∧ ray.Inside t) := by
    intro t isRoot
    obtain ⟨atA, atB, within⟩ := axial_mem_iff (f := f) axis oblique t
    rw [max_lt_iff, le_min_iff, finite_lt_finite, finite_le_finite]
    constructor
    · rintro ⟨⟨low, started⟩, high, before⟩
      have meets : t ∈ self.surface primID ray := (places t).mpr ⟨within.mpr ⟨low.le, high⟩, (roots t).mpr isRoot⟩
      exact ⟨meets, started, lt_of_le_of_ne before (ends t meets).2⟩
    · rintro ⟨meets, started, before⟩
      obtain ⟨low, high⟩ := within.mp ((places t).mp meets).1
      obtain ⟨noFirst, noSecond⟩ := rims t meets
      rw [coordinate, Ray.point_sub] at noFirst noSecond
      refine ⟨⟨lt_of_le_of_ne low fun same => ?_, started⟩, high, before.le⟩
      obtain first | second := min_choice tA tB
      · exact noFirst (atA.mpr (same.symm.trans first))
      · exact noSecond (atB.mpr (same.symm.trans second))
  refine reportsFirst_of_roots (fun t => max (finite (min tA tB)) ray.t0 < finite t ∧
    finite t ≤ min (finite (max tA tB)) ray.t) (x := ts - td) (y := ts + td) (by linarith)
    (fun t meets => (roots t).mp ((places t).mp meets).2) accepts
    (fun t => (t - ts) • ray.dir - (f - ts • ray.dir) - self.coordinate primID ray t • self.axis primID)
    (fun t => self.coordinate primID ray t) (fun first isOcclusionTest => ?_)
    (fun far second isOcclusionTest => ?_) (fun far far' isOcclusionTest => ?_) (fun t _ _ => ⟨1, one_pos, ?_⟩)
    (fun t => self.bounded radius axis)
  · refine (if_neg parallel).trans ((if_neg nonneg.not_gt).trans ((if_pos first).trans ?_))
    rw [self.coordinate_eq, sub_sub_cancel_left]
    rfl
  · refine (if_neg parallel).trans ((if_neg nonneg.not_gt).trans ((if_neg far).trans ((if_pos second).trans ?_)))
    rw [self.coordinate_eq, add_sub_cancel_left]
    rfl
  · exact (if_neg parallel).trans ((if_neg nonneg.not_gt).trans ((if_neg far).trans (if_neg far')))
  · rw [one_smul, foot, ← sub_sub, Ray.point_sub]
    module

end Cylinders

end Ospray.Geometry

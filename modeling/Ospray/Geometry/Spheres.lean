import Mathlib.Tactic.LinearCombination
import Ospray.Geometry.Rays
import Ospray.Library.Quadratics

/-!
# Intersecting rays and spheres

The kernel takes the point of the ray that is closest to the center, and goes from there as far
as the sphere allows, back and forth.
-/

namespace Ospray.Geometry

/-- `Spheres`: each sphere may have a radius of its own. -/
structure Spheres (K : Type) where
  center : Int → Vec3 K
  radius : K
  ownRadius : Option (Int → K)
  geomID : Int

namespace Spheres

section Kernel

variable {K : Type} [Field K] [LinearOrder K] (self : Spheres K)

omit [Field K] [LinearOrder K] in
/-- The radius of a sphere. -/
def radiusOf (primID : Int) : K :=
  match self.ownRadius with
  | some ownRadius => ownRadius primID
  | none => self.radius

omit [LinearOrder K] in
/-- `Spheres_bounds` -/
def bounds (primID : Int) : Vec3 K × Vec3 K :=
  (fun axis => self.center primID axis - self.radiusOf primID, fun axis => self.center primID axis + self.radiusOf primID)

/-- `Spheres_intersect_kernel` -/
def intersectKernel (sqrt : K → K) (primID instID : Int) (isOcclusionTest : Bool) (ray : Ray K) : Ray K :=
  let radius := self.radiusOf primID
  let center := self.center primID
  let d := ray.dir
  let rd2 := 1 / dot d d
  let CO := center - ray.org
  let projCO := dot CO d * rd2
  let perp := CO - projCO • d
  let l2 := dot perp perp
  let r2 := radius * radius
  if l2 > r2 then ray
  else
    let td := sqrt ((r2 - l2) * rd2)
    let t_in := projCO - td
    let t_out := projCO + td
    let ids : HitIDs := { primID := primID, geomID := self.geomID, instID := instID }
    if ray.t0 < finite t_in ∧ finite t_in ≤ ray.t then ray.report ids isOcclusionTest t_in (-td • d - perp) ray.u
    else if ray.t0 < finite t_out ∧ finite t_out ≤ ray.t then
      ray.report ids isOcclusionTest t_out (td • d - perp) ray.u
    else ray

end Kernel

variable (self : Spheres ℝ) {primID : Int} {ray : Ray ℝ}

/-- The places where a ray meets a sphere. -/
def surface (primID : Int) (ray : Ray ℝ) : Set ℝ :=
  {t | dot (ray.point t - self.center primID) (ray.point t - self.center primID) =
    self.radiusOf primID * self.radiusOf primID}

/-- The square of the distance from the center, from the closest point on. -/
theorem distance_eq (dir : dot ray.dir ray.dir ≠ 0) (center : Vec3 ℝ) (t : ℝ) :
    let projCO := dot (center - ray.org) ray.dir * (1 / dot ray.dir ray.dir)
    let perp := center - ray.org - projCO • ray.dir
    ray.point t - center = (t - projCO) • ray.dir - perp ∧
      dot (ray.point t - center) (ray.point t - center) =
        (t - projCO) * (t - projCO) * dot ray.dir ray.dir + dot perp perp := by
  intro projCO perp
  have split : ray.point t - center = (t - projCO) • ray.dir - perp := by
    funext axis
    simp only [Ray.point, perp, Pi.sub_apply, Pi.add_apply, Pi.smul_apply, smul_eq_mul]
    ring
  have right : dot ray.dir perp = 0 := by
    have proj : projCO * dot ray.dir ray.dir = dot (center - ray.org) ray.dir := by
      rw [mul_assoc, one_div_mul_cancel dir, mul_one]
    simp only [dot, perp, Pi.sub_apply, Pi.smul_apply, smul_eq_mul] at proj ⊢
    linear_combination -proj
  refine ⟨split, ?_⟩
  rw [split]
  simp only [dot, Pi.sub_apply, Pi.smul_apply, smul_eq_mul] at right ⊢
  linear_combination -(2 * (t - projCO)) * right

theorem mem_surface (primID : Int) (dir : 0 < dot ray.dir ray.dir) (t : ℝ) :
    let projCO := dot (self.center primID - ray.org) ray.dir * (1 / dot ray.dir ray.dir)
    let perp := self.center primID - ray.org - projCO • ray.dir
    t ∈ self.surface primID ray ↔ (t - projCO) * (t - projCO) * dot ray.dir ray.dir =
      self.radiusOf primID * self.radiusOf primID - dot perp perp := by
  intro projCO perp
  rw [surface, Set.mem_ofPred_eq, (distance_eq dir.ne' (self.center primID) t).2, eq_sub_iff_add_eq]

theorem bounded (radius : 0 < self.radiusOf primID) {t : ℝ} (meets : t ∈ self.surface primID ray) :
    Bounded (self.bounds primID).1 (self.bounds primID).2 (ray.point t) := by
  have near := abs_component_le radius.le (le_of_eq meets)
  refine ⟨fun axis => ?_, fun axis => ?_⟩
  · have low := (abs_le.mp (near axis)).1
    simp only [bounds, Pi.sub_apply] at low ⊢
    linarith
  · have high := (abs_le.mp (near axis)).2
    simp only [bounds, Pi.sub_apply] at high ⊢
    linarith

/-- The kernel reports the first hit. -/
theorem reportsFirst {instID : Int} (radius : 0 < self.radiusOf primID) (dir : ray.dir ≠ 0)
    (ends : ray.EndsOff (self.surface primID ray)) :
    ReportsFirst (self.surface primID ray) (fun _ => self.center primID) (self.bounds primID)
      { primID := primID, geomID := self.geomID, instID := instID } ray
      (self.intersectKernel Real.sqrt primID instID) := by
  have length := dot_self_pos dir
  set projCO := dot (self.center primID - ray.org) ray.dir * (1 / dot ray.dir ray.dir)
  set perp := self.center primID - ray.org - projCO • ray.dir
  have places : ∀ t, t ∈ self.surface primID ray ↔ (t - projCO) * (t - projCO) * dot ray.dir ray.dir =
      self.radiusOf primID * self.radiusOf primID - dot perp perp := self.mem_surface primID length
  obtain far | near := lt_or_ge (self.radiusOf primID * self.radiusOf primID) (dot perp perp)
  · have nowhere : ray.hits (self.surface primID ray) = ∅ := by
      refine Set.eq_empty_iff_forall_notMem.mpr fun t hit => ?_
      have square := (places t).mp hit.1
      have nonneg := mul_nonneg (mul_self_nonneg (t - projCO)) length.le
      linarith
    refine reportsFirst_intro (fun _ isOcclusionTest => ?_) fun some_ => absurd nowhere some_.ne_empty
    exact if_pos far
  · set td := √((self.radiusOf primID * self.radiusOf primID - dot perp perp) * (1 / dot ray.dir ray.dir))
    have roots : ∀ t, t ∈ self.surface primID ray ↔ t = projCO - td ∨ t = projCO + td := fun t =>
      (places t).trans (Library.Quadratics.eq_iff length (sub_nonneg.mpr near))
    have nonneg : 0 ≤ td := Real.sqrt_nonneg _
    refine reportsFirst_of_roots (fun t => ray.t0 < finite t ∧ finite t ≤ ray.t) (x := projCO - td) (y := projCO + td)
      (by linarith) (fun t => (roots t).mp) (fun t root => ?_) (fun t => (t - projCO) • ray.dir - perp)
      (fun _ => ray.u) (fun first isOcclusionTest => ?_) (fun far second isOcclusionTest => ?_)
      (fun far far' isOcclusionTest => ?_) (fun t _ _ => ⟨1, one_pos, ?_⟩) (fun t => self.bounded radius)
    · have meets := (roots t).mpr root
      refine ⟨fun accepted => ⟨meets, accepted.1, lt_of_le_of_ne accepted.2 (ends t meets).2⟩, fun hit => ?_⟩
      exact ⟨hit.2.1, hit.2.2.le⟩
    · refine (if_neg near.not_gt).trans ((if_pos first).trans ?_)
      rw [sub_sub_cancel_left]
    · refine (if_neg near.not_gt).trans ((if_neg far).trans ((if_pos second).trans ?_))
      rw [add_sub_cancel_left]
    · exact (if_neg near.not_gt).trans ((if_neg far).trans (if_neg far'))
    · rw [one_smul, (distance_eq length.ne' (self.center primID) t).1]

end Spheres

end Ospray.Geometry

import Ospray.Geometry.Cylinders
import Ospray.Geometry.StreamLines

/-!
# First hits

Spheres, cylinders and the links of stream lines report the first place of their surface. A ray
is not tangent to the surface, nor perpendicular to an axis, and does not end on the surface.
-/

namespace Ospray.Geometry

/-- A ray that goes up a little. -/
noncomputable def rising : Ray ℝ where
  org := ![-2, 0, 0]
  t0 := finite 0
  dir := ![4, 0, 1]
  t := ⊤
  Ng := 0
  u := 0
  primID := -1
  geomID := -1
  instID := -1

/-- A sphere, a cylinder and a link, of radius one. -/
noncomputable def unitSpheres : Spheres ℝ :=
  { center := fun _ => 0, radius := 1, ownRadius := none, geomID := 0 }

noncomputable def upright : Cylinders ℝ :=
  { v0 := fun _ => ![0, 0, -2], v1 := fun _ => ![0, 0, 2], radius := 1, ownRadius := none, geomID := 0 }

noncomputable def uprightLink : StreamLines ℝ :=
  { radius := 1, vertex := fun i => if i = 0 then ![0, 0, -2] else ![0, 0, 2], index := fun primID => primID,
    geomID := 0 }

theorem rising_point (t : ℝ) : rising.point t = ![-2 + 4 * t, 0, t] := by
  funext i
  match i with
  | 0 => simp [rising, Ray.point]; ring
  | 1 => simp [rising, Ray.point]
  | 2 => simp [rising, Ray.point]

theorem rising_endsOff {surface : Set ℝ} (start : 0 ∉ surface) : rising.EndsOff surface := by
  refine fun t meets => ⟨fun same => ?_, fun same => ?_⟩
  · exact start (finite_inj.mp same ▸ meets)
  · cases same

theorem rising_dir : rising.dir ≠ 0 := fun zero => by
  have first := congrFun zero 0
  norm_num [rising] at first

theorem upright_axis : upright.axis 0 = ![0, 0, 4] := by
  funext i
  match i with
  | 0 => exact sub_zero 0
  | 1 => exact sub_zero 0
  | 2 => exact (by norm_num : (2 : ℝ) - -2 = 4)

theorem rising_sub (t u : ℝ) : rising.point t - (![0, 0, -2] + u • ![0, 0, 4]) = ![-2 + 4 * t, 0, t + 2 - 4 * u] := by
  rw [rising_point]
  funext i
  match i with
  | 0 => simp
  | 1 => simp
  | 2 => exact (by ring : t - (-2 + u * 4) = t + 2 - 4 * u)

theorem rising_dot (t u : ℝ) : dot rising.dir ![-2 + 4 * t, 0, t + 2 - 4 * u] = 4 * (-2 + 4 * t) + (t + 2 - 4 * u) := by
  simp [rising, dot]

theorem upright_place {t : ℝ} (meets : t ∈ upright.surface 0 rising) :
    t + 2 - 4 * upright.coordinate 0 rising t = 0 ∧ (-2 + 4 * t) * (-2 + 4 * t) = 1 := by
  have axis : 0 < dot (upright.axis 0) (upright.axis 0) := by
    rw [upright_axis]
    exact (by norm_num : (0 : ℝ) < 0 * 0 + 0 * 0 + 4 * 4)
  obtain ⟨perpendicular, length⟩ := upright.normal_of_mem axis meets
  have normal : rising.point t - upright.foot 0 rising t =
      ![-2 + 4 * t, 0, t + 2 - 4 * upright.coordinate 0 rising t] := by
    rw [Cylinders.foot, upright_axis]
    exact rising_sub t _
  rw [normal, upright_axis] at perpendicular
  rw [normal] at length
  have along : t + 2 - 4 * upright.coordinate 0 rising t = 0 := by
    have product : 0 * (-2 + 4 * t) + 0 * 0 + 4 * (t + 2 - 4 * upright.coordinate 0 rising t) = 0 := perpendicular
    linarith
  have squares : (-2 + 4 * t) * (-2 + 4 * t) + 0 * 0 + (t + 2 - 4 * upright.coordinate 0 rising t) *
      (t + 2 - 4 * upright.coordinate 0 rising t) = 1 * 1 := length
  rw [along] at squares
  exact ⟨along, by linarith⟩

theorem upright_notTangent : upright.NotTangent 0 rising := by
  intro t meets flat
  obtain ⟨along, length⟩ := upright_place meets
  have normal : rising.point t - upright.foot 0 rising t =
      ![-2 + 4 * t, 0, t + 2 - 4 * upright.coordinate 0 rising t] := by
    rw [Cylinders.foot, upright_axis]
    exact rising_sub t _
  rw [normal, rising_dot, along] at flat
  nlinarith

theorem upright_offRims : upright.OffRims 0 rising := by
  intro t meets
  obtain ⟨along, length⟩ := upright_place meets
  refine ⟨fun first => ?_, fun second => ?_⟩
  · rw [first] at along
    nlinarith
  · rw [second] at along
    nlinarith

theorem upright_start : 0 ∉ upright.surface 0 rising := fun meets => by
  have length := (upright_place meets).2
  norm_num at length

theorem uprightLink_proper :
    uprightLink.vertex (uprightLink.index 0) ≠ uprightLink.vertex (uprightLink.index 0 + 1) := fun same => by
  have third : (-2 : ℝ) = 2 := congrFun same 2
  norm_num at third

theorem uprightLink_axis : (uprightLink.capsule 0 uprightLink_proper one_pos).axis = ![0, 0, 4] := upright_axis

theorem uprightLink_notTangent : (uprightLink.capsule 0 uprightLink_proper one_pos).NotTangent rising := by
  set capsule := uprightLink.capsule 0 uprightLink_proper one_pos
  intro t touches flat
  have normal : ∀ u : ℝ, rising.point t - (capsule.A + u • capsule.axis) = ![-2 + 4 * t, 0, t + 2 - 4 * u] := fun u => by
    rw [show capsule.axis = ![0, 0, 4] from uprightLink_axis]
    exact rising_sub t u
  have length : (-2 + 4 * t) * (-2 + 4 * t) + 0 * 0 + (t + 2 - 4 * capsule.nearest rising t) *
      (t + 2 - 4 * capsule.nearest rising t) = 1 * 1 := by
    have square := (capsule.mem_surface rising).mp touches
    rw [Capsule.square, Capsule.offset, normal] at square
    exact square
  rw [Capsule.foot, normal, rising_dot] at flat
  -- the place is between the ends of the axis, where the normal is level
  have coordinate : axial capsule.axis (rising.point t - capsule.A) = (t + 2) / 4 := by
    have seen := normal 0
    rw [zero_smul, add_zero] at seen
    rw [axial, seen, show capsule.axis = ![0, 0, 4] from uprightLink_axis]
    exact (by ring : (0 * (-2 + 4 * t) + 0 * 0 + 4 * (t + 2 - 4 * 0)) / (0 * 0 + 0 * 0 + 4 * 4) = (t + 2) / 4)
  have level : t + 2 - 4 * capsule.nearest rising t = 0 := by
    rw [Capsule.nearest, coordinate, max_eq_left (by nlinarith), min_eq_left (by nlinarith)]
    ring
  nlinarith

theorem unitSpheres_start : 0 ∉ unitSpheres.surface 0 rising := fun meets => by
  have point : rising.point 0 - unitSpheres.center 0 = ![-2, 0, 0] := by
    rw [rising_point, mul_zero, add_zero]
    exact sub_zero _
  have length : dot (rising.point 0 - unitSpheres.center 0) (rising.point 0 - unitSpheres.center 0) = 1 * 1 := meets
  rw [point] at length
  have square : -2 * -2 + 0 * 0 + 0 * 0 = (1 : ℝ) * 1 := length
  norm_num at square

/-- The kernels of the analytic primitives report the first hit. -/
theorem analytic_first_hits :
    (∀ (self : Spheres ℝ) (primID instID : Int) (ray : Ray ℝ), 0 < self.radiusOf primID → ray.dir ≠ 0 →
      ray.EndsOff (self.surface primID ray) →
      ReportsFirst (self.surface primID ray) (fun _ => self.center primID) (self.bounds primID)
        { primID := primID, geomID := self.geomID, instID := instID } ray
        (self.intersectKernel Real.sqrt primID instID)) ∧
    (∀ (self : Cylinders ℝ) (primID instID : Int) (ray : Ray ℝ), 0 < self.radiusOf primID →
      self.v0 primID ≠ self.v1 primID → dot (self.axis primID) ray.dir ≠ 0 → self.NotTangent primID ray →
      self.OffRims primID ray → ray.EndsOff (self.surface primID ray) →
      ReportsFirst (self.surface primID ray) (self.foot primID ray) (self.bounds Real.sqrt primID)
        { primID := primID, geomID := self.geomID, instID := instID } ray
        (self.intersectKernel Real.sqrt primID instID)) ∧
    (∀ (self : StreamLines ℝ) (primID instID : Int) (ray : Ray ℝ) (radius : 0 < self.radius)
      (proper : self.vertex (self.index primID) ≠ self.vertex (self.index primID + 1)),
      let capsule := self.capsule primID proper radius
      ray.dir ≠ 0 → dot capsule.axis ray.dir ≠ 0 → capsule.NotTangent ray →
      ReportsFirst (capsule.body ray).surface (capsule.foot ray) (self.bounds primID)
        { primID := primID, geomID := self.geomID, instID := instID } ray
        (self.intersectKernel Real.sqrt primID instID)) := by
  refine ⟨fun self primID instID ray radius dir ends => ?_, fun self primID instID ray radius proper oblique tangent
    rims ends => ?_, fun self primID instID ray radius proper => ?_⟩
  · exact self.reportsFirst radius dir ends
  · exact self.reportsFirst radius proper oblique tangent rims ends
  · intro capsule dir oblique tangent
    exact self.reportsFirst proper radius dir oblique tangent

/-- The three kernels for the rising ray. -/
theorem analytic_first_hits_rising :
    ReportsFirst (unitSpheres.surface 0 rising) (fun _ => unitSpheres.center 0) (unitSpheres.bounds 0)
        { primID := 0, geomID := 0, instID := 0 } rising (unitSpheres.intersectKernel Real.sqrt 0 0) ∧
      ReportsFirst (upright.surface 0 rising) (upright.foot 0 rising) (upright.bounds Real.sqrt 0)
        { primID := 0, geomID := 0, instID := 0 } rising (upright.intersectKernel Real.sqrt 0 0) ∧
      ReportsFirst ((uprightLink.capsule 0 uprightLink_proper one_pos).body rising).surface
        ((uprightLink.capsule 0 uprightLink_proper one_pos).foot rising) (uprightLink.bounds 0)
        { primID := 0, geomID := 0, instID := 0 } rising (uprightLink.intersectKernel Real.sqrt 0 0) := by
  have oblique : dot ![0, 0, 4] rising.dir ≠ 0 := fun zero => by
    have product : 0 * 4 + 0 * 0 + 4 * 1 = (0 : ℝ) := zero
    norm_num at product
  have proper : upright.v0 0 ≠ upright.v1 0 := uprightLink_proper
  refine ⟨?_, ?_, ?_⟩
  · exact analytic_first_hits.1 unitSpheres 0 0 rising one_pos rising_dir (rising_endsOff unitSpheres_start)
  · exact analytic_first_hits.2.1 upright 0 0 rising one_pos proper (upright_axis.symm ▸ oblique) upright_notTangent
      upright_offRims (rising_endsOff upright_start)
  · exact analytic_first_hits.2.2 uprightLink 0 0 rising one_pos uprightLink_proper rising_dir
      (uprightLink_axis.symm ▸ oblique) uprightLink_notTangent

end Ospray.Geometry

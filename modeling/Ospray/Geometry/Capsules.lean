import Mathlib.Analysis.Convex.Segment
import Mathlib.Analysis.Real.Sqrt
import Mathlib.Tactic.FieldSimp
import Mathlib.Tactic.Module
import Mathlib.Topology.Algebra.Order.Field
import Mathlib.Topology.Instances.Real.Lemmas
import Ospray.Geometry.Axes
import Ospray.Library.LineBodies

/-!
# Capsules

A segment, and everything that is within a radius of it. A capsule is the union of a cylinder and
of two balls. It is convex, so that a ray that comes inside has two places on its surface.
-/

namespace Ospray.Geometry

/-- A segment that is more than a point, with a radius. -/
structure Capsule where
  A : Vec3 ℝ
  B : Vec3 ℝ
  radius : ℝ
  proper : A ≠ B
  positive : 0 < radius

namespace Capsule

variable (capsule : Capsule) (ray : Ray ℝ) {t u : ℝ}

/-- The segment as a vector. -/
def axis : Vec3 ℝ := capsule.B - capsule.A

theorem axis_pos : 0 < dot capsule.axis capsule.axis := dot_self_pos (sub_ne_zero.mpr capsule.proper.symm)

/-- A point of the ray as it is seen from a point of the segment. -/
noncomputable def offset (t u : ℝ) : Vec3 ℝ := ray.point t - (capsule.A + u • capsule.axis)

/-- The square of the distance from a point of the segment. -/
noncomputable def square (t u : ℝ) : ℝ := dot (capsule.offset ray t u) (capsule.offset ray t u)

theorem square_convex {t' u' near far : ℝ} (sum : near + far = 1) (nonneg : 0 ≤ near) (nonneg' : 0 ≤ far) :
    capsule.square ray (near * t + far * t') (near * u + far * u') ≤
      near * capsule.square ray t u + far * capsule.square ray t' u' := by
  have mixed : capsule.offset ray (near * t + far * t') (near * u + far * u') =
      near • capsule.offset ray t u + far • capsule.offset ray t' u' := by
    obtain rfl := eq_sub_of_add_eq' sum
    simp only [offset, Ray.point]
    module
  have gap := mul_nonneg (mul_nonneg nonneg nonneg') (dot_self_nonneg (capsule.offset ray t u - capsule.offset ray t' u'))
  rw [square, mixed, square, square]
  obtain rfl := eq_sub_of_add_eq' sum
  simp only [dot, Pi.add_apply, Pi.sub_apply, Pi.smul_apply, smul_eq_mul] at gap ⊢
  linarith

/-- Everything within the radius of the segment, along a ray. -/
noncomputable def body : Library.LineBody ℝ where
  solid := {t | ∃ u : ℝ, (0 ≤ u ∧ u ≤ 1) ∧ capsule.square ray t u ≤ capsule.radius * capsule.radius}
  inner := {t | ∃ u : ℝ, (0 ≤ u ∧ u ≤ 1) ∧ capsule.square ray t u < capsule.radius * capsule.radius}
  inner_subset := fun _ ⟨u, range, inside⟩ => ⟨u, range, inside.le⟩
  isOpen_inner := by
    refine isOpen_iff_mem_nhds.mpr fun t ⟨u, range, inside⟩ => ?_
    have continuous : Continuous fun t => capsule.square ray t u := by
      simp only [square, dot, offset, Ray.point, Pi.sub_apply, Pi.add_apply, Pi.smul_apply, smul_eq_mul]
      fun_prop
    exact Filter.mem_of_superset ((isOpen_lt continuous continuous_const).mem_nhds inside)
      fun t' inside' => ⟨u, range, inside'⟩
  toward := by
    rintro x ⟨u, range, inside⟩ y ⟨v, range', solid⟩ z strictly
    have between : z ∈ openSegment ℝ x y := by
      obtain ⟨after, before⟩ | ⟨after, before⟩ := strictly
      · rw [openSegment_eq_Ioo (after.trans before)]
        exact ⟨after, before⟩
      · rw [openSegment_symm, openSegment_eq_Ioo (after.trans before)]
        exact ⟨after, before⟩
    obtain ⟨near, far, positive, positive', sum, rfl⟩ := between
    refine ⟨near * u + far * v, ⟨?_, ?_⟩, ?_⟩
    · exact add_nonneg (mul_nonneg positive.le range.1) (mul_nonneg positive'.le range'.1)
    · calc near * u + far * v ≤ near * 1 + far * 1 :=
            add_le_add (mul_le_mul_of_nonneg_left range.2 positive.le) (mul_le_mul_of_nonneg_left range'.2 positive'.le)
        _ = 1 := by rw [mul_one, mul_one, sum]
    · calc capsule.square ray (near * x + far * y) (near * u + far * v)
          ≤ near * capsule.square ray x u + far * capsule.square ray y v :=
            capsule.square_convex ray sum positive.le positive'.le
        _ < near * (capsule.radius * capsule.radius) + far * (capsule.radius * capsule.radius) :=
            add_lt_add_of_lt_of_le (mul_lt_mul_of_pos_left inside positive)
              (mul_le_mul_of_nonneg_left solid positive'.le)
        _ = capsule.radius * capsule.radius := by rw [← add_mul, sum, one_mul]

/-- The coordinate of the point of the segment that is closest to a point of the ray. -/
noncomputable def nearest (t : ℝ) : ℝ := min (max (axial capsule.axis (ray.point t - capsule.A)) 0) 1

/-- The point of the segment that is closest to a point of the ray. -/
noncomputable def foot (t : ℝ) : Vec3 ℝ := capsule.A + capsule.nearest ray t • capsule.axis

theorem nearest_mem (t : ℝ) : 0 ≤ capsule.nearest ray t ∧ capsule.nearest ray t ≤ 1 :=
  ⟨le_min (le_max_right _ _) zero_le_one, min_le_right _ _⟩

theorem square_mul (t u : ℝ) :
    let w := ray.point t - capsule.A
    capsule.square ray t u * dot capsule.axis capsule.axis =
      dot (cross capsule.axis w) (cross capsule.axis w) + (u - axial capsule.axis w) * (u - axial capsule.axis w) *
        (dot capsule.axis capsule.axis * dot capsule.axis capsule.axis) := by
  intro w
  rw [square, offset, ← sub_sub]
  exact distance_axis capsule.axis_pos u

theorem square_le_of_abs_le {v : ℝ} (closer : |u - axial capsule.axis (ray.point t - capsule.A)| ≤
    |v - axial capsule.axis (ray.point t - capsule.A)|) : capsule.square ray t u ≤ capsule.square ray t v := by
  have squares := mul_self_le_mul_self (abs_nonneg _) closer
  rw [abs_mul_abs_self, abs_mul_abs_self] at squares
  refine le_of_mul_le_mul_right ?_ capsule.axis_pos
  rw [square_mul, square_mul]
  exact add_le_add_right (mul_le_mul_of_nonneg_right squares (mul_self_nonneg _)) _

theorem square_nearest_le (range : 0 ≤ u ∧ u ≤ 1) : capsule.square ray t (capsule.nearest ray t) ≤ capsule.square ray t u := by
  refine capsule.square_le_of_abs_le ray ?_
  rw [nearest]
  obtain before | after := lt_or_ge (axial capsule.axis (ray.point t - capsule.A)) 0
  · rw [max_eq_right before.le, min_eq_left zero_le_one, abs_of_pos (by linarith), abs_of_pos (by linarith)]
    linarith
  obtain within | beyond := le_or_gt (axial capsule.axis (ray.point t - capsule.A)) 1
  · rw [max_eq_left after, min_eq_left within, sub_self, abs_zero]
    exact abs_nonneg _
  · rw [max_eq_left after, min_eq_right beyond.le, abs_of_neg (by linarith), abs_of_neg (by linarith)]
    linarith

theorem mem_solid : t ∈ (capsule.body ray).solid ↔
    capsule.square ray t (capsule.nearest ray t) ≤ capsule.radius * capsule.radius := by
  refine ⟨fun ⟨u, range, close⟩ => ?_, fun close => ⟨_, capsule.nearest_mem ray t, close⟩⟩
  exact (capsule.square_nearest_le ray range).trans close

theorem mem_inner : t ∈ (capsule.body ray).inner ↔
    capsule.square ray t (capsule.nearest ray t) < capsule.radius * capsule.radius := by
  refine ⟨fun ⟨u, range, close⟩ => ?_, fun close => ⟨_, capsule.nearest_mem ray t, close⟩⟩
  exact (capsule.square_nearest_le ray range).trans_lt close

theorem mem_surface : t ∈ (capsule.body ray).surface ↔
    capsule.square ray t (capsule.nearest ray t) = capsule.radius * capsule.radius := by
  rw [Library.LineBody.surface, Set.mem_sdiff, mem_solid, mem_inner, not_lt]
  exact ⟨fun ⟨below, above⟩ => le_antisymm below above, fun equal => ⟨equal.le, equal.ge⟩⟩

/-- The ray is nowhere tangent to the capsule. -/
def NotTangent : Prop := ∀ t ∈ (capsule.body ray).surface, dot ray.dir (ray.point t - capsule.foot ray t) ≠ 0

theorem square_add (t u h : ℝ) : capsule.square ray (t + h) u =
    capsule.square ray t u + 2 * h * dot ray.dir (capsule.offset ray t u) + h * h * dot ray.dir ray.dir := by
  have moved : capsule.offset ray (t + h) u = capsule.offset ray t u + h • ray.dir := by
    simp only [offset, Ray.point]
    module
  rw [square, square, moved]
  simp only [dot, Pi.add_apply, Pi.smul_apply, smul_eq_mul]
  ring

/-- A ray that meets a capsule, and is not tangent to it, comes inside. -/
theorem comesInside (tangent : capsule.NotTangent ray) (meets : t ∈ (capsule.body ray).solid) :
    (capsule.body ray).inner.Nonempty := by
  by_cases inside : t ∈ (capsule.body ray).inner
  · exact ⟨t, inside⟩
  have touches : t ∈ (capsule.body ray).surface := ⟨meets, inside⟩
  set slope := dot ray.dir (capsule.offset ray t (capsule.nearest ray t))
  have steep : slope ≠ 0 := tangent t touches
  have dir : 0 < dot ray.dir ray.dir := by
    refine dot_self_pos fun zero => steep ?_
    simp [slope, zero, dot]
  -- the place that is closest to the foot
  refine ⟨t + -slope / dot ray.dir ray.dir, capsule.nearest ray t, capsule.nearest_mem ray t, ?_⟩
  have lower : 2 * (-slope / dot ray.dir ray.dir) * slope +
      -slope / dot ray.dir ray.dir * (-slope / dot ray.dir ray.dir) * dot ray.dir ray.dir =
        -(slope * slope / dot ray.dir ray.dir) := by
    field_simp
    ring
  have gain := div_pos (mul_self_pos.mpr steep) dir
  rw [square_add, add_assoc, lower, (capsule.mem_surface ray).mp touches]
  linarith

/-! ## The parts -/

/-- The ball around the point of the segment with a coordinate. -/
def ball (u : ℝ) : Set ℝ := {t | capsule.square ray t u ≤ capsule.radius * capsule.radius}

/-- The cylinder between the balls. -/
def cylinder : Set ℝ :=
  {t | (0 ≤ axial capsule.axis (ray.point t - capsule.A) ∧ axial capsule.axis (ray.point t - capsule.A) ≤ 1) ∧
    capsule.square ray t (axial capsule.axis (ray.point t - capsule.A)) ≤ capsule.radius * capsule.radius}

theorem solid_eq : (capsule.body ray).solid = capsule.cylinder ray ∪ capsule.ball ray 0 ∪ capsule.ball ray 1 := by
  refine Set.Subset.antisymm (fun t solid => ?_) ?_
  · have close := (capsule.mem_solid ray).mp solid
    rw [nearest] at close
    obtain before | after := lt_or_ge (axial capsule.axis (ray.point t - capsule.A)) 0
    · rw [max_eq_right before.le, min_eq_left zero_le_one] at close
      exact Or.inl (Or.inr close)
    obtain within | beyond := le_or_gt (axial capsule.axis (ray.point t - capsule.A)) 1
    · rw [max_eq_left after, min_eq_left within] at close
      exact Or.inl (Or.inl ⟨⟨after, within⟩, close⟩)
    · rw [max_eq_left after, min_eq_right beyond.le] at close
      exact Or.inr close
  · rintro t ((⟨range, close⟩ | close) | close)
    · exact ⟨_, range, close⟩
    · exact ⟨0, ⟨le_rfl, zero_le_one⟩, close⟩
    · exact ⟨1, ⟨zero_le_one, le_rfl⟩, close⟩

theorem square_axial (t : ℝ) : capsule.square ray t (axial capsule.axis (ray.point t - capsule.A)) *
    dot capsule.axis capsule.axis =
      dot (cross capsule.axis (ray.point t - capsule.A)) (cross capsule.axis (ray.point t - capsule.A)) := by
  rw [square_mul, sub_self, zero_mul, zero_mul, add_zero]

/-! ## The cylinder -/

theorem mem_ball_of_axial (within : t ∈ capsule.cylinder ray) (here : axial capsule.axis (ray.point t - capsule.A) = u) :
    t ∈ capsule.ball ray u := by
  obtain ⟨-, close⟩ := within
  rwa [here] at close

theorem square_axial_eq (parallel : dot (cross capsule.axis ray.dir) (cross capsule.axis ray.dir) = 0) (t t' : ℝ) :
    capsule.square ray t (axial capsule.axis (ray.point t - capsule.A)) =
      capsule.square ray t' (axial capsule.axis (ray.point t' - capsule.A)) := by
  have apart : ∀ t, cross capsule.axis (ray.point t - capsule.A) = -cross capsule.axis (capsule.A - ray.org) := fun t => by
    rw [ray.point_sub, cross_sub_smul, cross_eq_zero parallel, smul_zero, zero_sub]
  refine mul_right_cancel₀ capsule.axis_pos.ne' ?_
  rw [square_axial, square_axial, apart, apart]

theorem square_from_line (apart : dot (cross capsule.axis ray.dir) (cross capsule.axis ray.dir) ≠ 0) (t : ℝ) :
    let f := capsule.A - ray.org
    let a := dot (cross capsule.axis ray.dir) (cross capsule.axis ray.dir)
    let ts := dot (cross capsule.axis ray.dir) (cross capsule.axis f) * (1 / a)
    let perp := cross capsule.axis (f - ts • ray.dir)
    capsule.square ray t (axial capsule.axis (ray.point t - capsule.A)) * dot capsule.axis capsule.axis =
      (t - ts) * (t - ts) * a + dot perp perp := by
  intro f a ts perp
  rw [square_axial, ray.point_sub]
  exact cross_sq apart t

/-- The places of the cylinder, by the caps and by the distance from the line of the segment. -/
theorem mem_cylinder (oblique : dot capsule.axis ray.dir ≠ 0)
    (apart : dot (cross capsule.axis ray.dir) (cross capsule.axis ray.dir) ≠ 0) (t : ℝ) :
    let f := capsule.A - ray.org
    let a := dot (cross capsule.axis ray.dir) (cross capsule.axis ray.dir)
    let ts := dot (cross capsule.axis ray.dir) (cross capsule.axis f) * (1 / a)
    let perp := cross capsule.axis (f - ts • ray.dir)
    let tA := dot capsule.axis f * (1 / dot capsule.axis ray.dir)
    let tB := tA + dot capsule.axis capsule.axis * (1 / dot capsule.axis ray.dir)
    t ∈ capsule.cylinder ray ↔ (min tA tB ≤ t ∧ t ≤ max tA tB) ∧
      (t - ts) * (t - ts) * a ≤ capsule.radius * capsule.radius * dot capsule.axis capsule.axis - dot perp perp := by
  intro f a ts perp tA tB
  have between := (axial_mem_iff (f := f) capsule.axis_pos oblique t).2.2
  rw [← Ray.point_sub] at between
  have distance := capsule.square_from_line ray apart t
  refine and_congr between ?_
  rw [← mul_le_mul_iff_left₀ capsule.axis_pos, distance, le_sub_iff_add_le]

theorem nearest_eq (within : t ∈ capsule.cylinder ray) :
    capsule.nearest ray t = axial capsule.axis (ray.point t - capsule.A) := by
  obtain ⟨⟨low, high⟩, -⟩ := within
  rw [nearest, max_eq_left low, min_eq_left high]

/-- A place of the cylinder that is its vertex, and not closer than the radius, is one where the ray is tangent. -/
theorem not_vertex (tangent : capsule.NotTangent ray)
    (apart : dot (cross capsule.axis ray.dir) (cross capsule.axis ray.dir) ≠ 0)
    (within : t ∈ capsule.cylinder ray) (distance : capsule.square ray t (axial capsule.axis (ray.point t - capsule.A)) =
      capsule.radius * capsule.radius) :
    t ≠ dot (cross capsule.axis ray.dir) (cross capsule.axis (capsule.A - ray.org)) *
      (1 / dot (cross capsule.axis ray.dir) (cross capsule.axis ray.dir)) := by
  intro vertex
  have nearest := capsule.nearest_eq ray within
  have touches : t ∈ (capsule.body ray).surface := by rw [mem_surface, nearest, distance]
  refine tangent t touches ?_
  set n := ray.point t - capsule.foot ray t
  have normal : n = ray.point t - capsule.A - capsule.nearest ray t • capsule.axis := (sub_sub _ _ _).symm
  have perpendicular : dot capsule.axis n = 0 := by rw [normal, eq_axial_iff capsule.axis_pos, nearest]
  -- the derivative of the distance from the line
  have flat : dot (cross capsule.axis ray.dir) (cross capsule.axis n) = 0 := by
    have product : dot (cross capsule.axis ray.dir) (cross capsule.axis (t • ray.dir - (capsule.A - ray.org))) = 0 := by
      rw [cross_sub_smul, dot_sub, dot_smul, vertex, mul_assoc, one_div_mul_cancel apart, mul_one, sub_self]
    have along : axial capsule.axis (ray.point t - capsule.A) * dot capsule.axis capsule.axis =
        dot capsule.axis (ray.point t - capsule.A) := div_mul_cancel₀ _ capsule.axis_pos.ne'
    rw [← ray.point_sub, dot_cross_cross] at product
    rw [dot_cross_cross, perpendicular, zero_mul, sub_zero, normal, dot_sub, dot_smul, nearest,
      dot_comm ray.dir capsule.axis]
    linear_combination product - dot capsule.axis ray.dir * along
  rw [dot_cross_cross, perpendicular, zero_mul, sub_zero] at flat
  exact (mul_eq_zero.mp flat).resolve_left capsule.axis_pos.ne'

/-! ## The surface -/

theorem outward (touches : t ∈ (capsule.body ray).surface) :
    let n := ray.point t - capsule.foot ray t
    Outward (capsule.foot ray t) (ray.point t) ((1 / √(dot n n)) • n) := by
  intro n
  have length : dot n n = capsule.radius * capsule.radius := (capsule.mem_surface ray).mp touches
  refine ⟨1 / √(dot n n), ?_, rfl⟩
  rw [length, Real.sqrt_mul_self capsule.positive.le]
  exact one_div_pos.mpr capsule.positive

theorem bounded (touches : t ∈ (capsule.body ray).surface) :
    Bounded (fun i => min (capsule.A i) (capsule.B i) - capsule.radius)
      (fun i => max (capsule.A i) (capsule.B i) + capsule.radius) (ray.point t) := by
  have near := abs_component_le capsule.positive.le ((capsule.mem_surface ray).mp touches).le
  obtain ⟨low, high⟩ := capsule.nearest_mem ray t
  have split : ∀ i, ray.point t i = capsule.A i + capsule.nearest ray t * (capsule.B i - capsule.A i) +
      capsule.offset ray t (capsule.nearest ray t) i := fun i => by
    simp only [offset, axis, Pi.sub_apply, Pi.add_apply, Pi.smul_apply, smul_eq_mul]
    ring
  refine ⟨fun i => ?_, fun i => ?_⟩
  · rw [split i, sub_eq_add_neg]
    exact add_le_add (between low high).1 (abs_le.mp (near i)).1
  · rw [split i]
    exact add_le_add (between low high).2 (abs_le.mp (near i)).2

end Capsule

end Ospray.Geometry

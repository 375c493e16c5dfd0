import Mathlib.Algebra.Module.Pi
import Mathlib.Data.Fin.VecNotation
import Mathlib.Data.Fintype.Basic
import Mathlib.Data.Real.Basic
import Mathlib.Order.Bounds.Basic
import Mathlib.Order.WithBot
import Mathlib.Tactic.Linarith
import Ospray.Fb.Tile

/-!
# Rays and the first hit

A kernel tests a ray against a primitive. It leaves the ray as it is, or stores a hit: where, on
which primitive, and with which normal. A test for occlusion only marks the ray. The ends of a ray
may be infinite. What is expected is the first place in the open interval of the ray that is on the
surface of the primitive.
-/

namespace Ospray.Geometry

variable {K : Type}

/-- A `float` that may be infinite. -/
abbrev Extended (K : Type) := WithBot (WithTop K)

/-- A number that is not infinite. -/
def finite (x : K) : Extended K := ((x : WithTop K) : WithBot (WithTop K))

/-- A `Ray`, with the fields of a hit. -/
structure Ray (K : Type) where
  org : Vec3 K
  t0 : Extended K
  dir : Vec3 K
  t : Extended K
  Ng : Vec3 K
  u : K
  primID : Int
  geomID : Int
  instID : Int

/-- The identifiers that a kernel stores. -/
structure HitIDs where
  primID : Int
  geomID : Int
  instID : Int

/-- A hit is stored, or the ray is marked as occluded. -/
def Ray.report (ray : Ray K) (ids : HitIDs) (isOcclusionTest : Bool) (t : K) (Ng : Vec3 K) (u : K) : Ray K :=
  if isOcclusionTest then { ray with t := ⊥ }
  else { ray with t := finite t, primID := ids.primID, geomID := ids.geomID, instID := ids.instID, Ng := Ng, u := u }

section Vectors

variable [Field K]

/-- `dot` -/
def dot (a b : Vec3 K) : K := a 0 * b 0 + a 1 * b 1 + a 2 * b 2

/-- `cross` -/
def cross (a b : Vec3 K) : Vec3 K :=
  ![a 1 * b 2 - a 2 * b 1, a 2 * b 0 - a 0 * b 2, a 0 * b 1 - a 1 * b 0]

/-- The point of a ray at a parameter. -/
def Ray.point (ray : Ray K) (t : K) : Vec3 K := ray.org + t • ray.dir

end Vectors

section Intervals

variable [LinearOrder K] {x y : K}

@[simp] theorem finite_lt_finite : finite x < finite y ↔ x < y :=
  WithBot.coe_lt_coe.trans WithTop.coe_lt_coe

@[simp] theorem finite_le_finite : finite x ≤ finite y ↔ x ≤ y :=
  WithBot.coe_le_coe.trans WithTop.coe_le_coe

omit [LinearOrder K] in
@[simp] theorem finite_inj : finite x = finite y ↔ x = y :=
  WithBot.coe_inj.trans WithTop.coe_inj

theorem finite_min (x y : K) : finite (min x y) = min (finite x) (finite y) :=
  Monotone.map_min fun _ _ ordered => finite_le_finite.mpr ordered

theorem finite_max (x y : K) : finite (max x y) = max (finite x) (finite y) :=
  Monotone.map_max fun _ _ ordered => finite_le_finite.mpr ordered

/-- The parameter is in the open interval of the ray. -/
def Ray.Inside (ray : Ray K) (t : K) : Prop := ray.t0 < finite t ∧ finite t < ray.t

/-- The places of a surface in the interval of the ray. -/
def Ray.hits (ray : Ray K) (surface : Set K) : Set K := {t ∈ surface | ray.Inside t}

/-- The surface is not met at the ends of the interval. -/
def Ray.EndsOff (ray : Ray K) (surface : Set K) : Prop := ∀ t ∈ surface, finite t ≠ ray.t0 ∧ finite t ≠ ray.t

/-- Of two roots the first one that is accepted is the first place of the surface, if all places are roots and a root
is accepted when it is a place in the interval. -/
theorem first_of_roots {ray : Ray K} {surface : Set K} {accepted : K → Prop} (ordered : x ≤ y)
    (only : ∀ t ∈ surface, t = x ∨ t = y)
    (accepts : ∀ t, t = x ∨ t = y → (accepted t ↔ t ∈ surface ∧ ray.Inside t)) :
    (accepted x → IsLeast (ray.hits surface) x) ∧
      (¬accepted x → accepted y → IsLeast (ray.hits surface) y) ∧
      (¬accepted x → ¬accepted y → ray.hits surface = ∅) := by
  refine ⟨fun near => ⟨(accepts x (Or.inl rfl)).mp near, fun t hit => ?_⟩,
    fun far near => ⟨(accepts y (Or.inr rfl)).mp near, fun t hit => ?_⟩, fun far far' => ?_⟩
  · obtain rfl | rfl := only t hit.1
    · exact le_rfl
    · exact ordered
  · obtain rfl | rfl := only t hit.1
    · exact absurd ((accepts t (Or.inl rfl)).mpr hit) far
    · exact le_rfl
  · refine Set.eq_empty_iff_forall_notMem.mpr fun t hit => ?_
    obtain rfl | rfl := only t hit.1
    · exact far ((accepts t (Or.inl rfl)).mpr hit)
    · exact far' ((accepts t (Or.inr rfl)).mpr hit)

end Intervals

/-! ## Lengths -/

section Lengths

variable {v : Vec3 ℝ} {radius : ℝ}

theorem dot_self_nonneg (v : Vec3 ℝ) : 0 ≤ dot v v :=
  add_nonneg (add_nonneg (mul_self_nonneg _) (mul_self_nonneg _)) (mul_self_nonneg _)

theorem component_le (v : Vec3 ℝ) (axis : Fin 3) : v axis * v axis ≤ dot v v := by
  have first := mul_self_nonneg (v 0)
  have second := mul_self_nonneg (v 1)
  have third := mul_self_nonneg (v 2)
  rw [dot]
  induction axis using Library.Literals.three_cases with
  | zero => linarith
  | one => linarith
  | two => linarith

theorem dot_self_pos (nonzero : v ≠ 0) : 0 < dot v v := by
  obtain ⟨axis, other⟩ := Function.ne_iff.mp nonzero
  exact (mul_self_pos.mpr other).trans_le (component_le v axis)

theorem abs_component_le (nonneg : 0 ≤ radius) (short : dot v v ≤ radius * radius) (axis : Fin 3) :
    |v axis| ≤ radius := by
  rw [← abs_of_nonneg nonneg, ← sq_le_sq, sq, sq]
  exact (component_le v axis).trans short

end Lengths

/-- A normal points away from the foot of a point on the axis. -/
def Outward (foot point Ng : Vec3 ℝ) : Prop := ∃ scale : ℝ, 0 < scale ∧ Ng = scale • (point - foot)

/-- A point is in a box. -/
structure Bounded (lower upper point : Vec3 ℝ) : Prop where
  above : ∀ axis, lower axis ≤ point axis
  below : ∀ axis, point axis ≤ upper axis

/-- The kernel reports the first place of the surface in the interval of the ray, with the normal there, inside of the
bounds; and nothing if there is no such place. -/
structure ReportsFirst (surface : Set ℝ) (foot : ℝ → Vec3 ℝ) (bounds : Vec3 ℝ × Vec3 ℝ) (ids : HitIDs) (ray : Ray ℝ)
    (kernel : Bool → Ray ℝ → Ray ℝ) : Prop where
  reports : ∀ isOcclusionTest, kernel isOcclusionTest ray ≠ ray ↔ (ray.hits surface).Nonempty
  hits : (ray.hits surface).Nonempty → ∃ t Ng u, IsLeast (ray.hits surface) t ∧
    (∀ isOcclusionTest, kernel isOcclusionTest ray = ray.report ids isOcclusionTest t Ng u) ∧
    Outward (foot t) (ray.point t) Ng ∧ Bounded bounds.1 bounds.2 (ray.point t)

theorem report_ne {ray : Ray ℝ} {t : ℝ} (inside : ray.Inside t) (ids : HitIDs) (isOcclusionTest : Bool) (Ng : Vec3 ℝ)
    (u : ℝ) : ray.report ids isOcclusionTest t Ng u ≠ ray := by
  intro same
  have kept := congrArg Ray.t same
  cases isOcclusionTest with
  | true => exact absurd kept ((bot_le).trans_lt inside.2).ne
  | false => exact absurd kept inside.2.ne

theorem reportsFirst_intro {surface : Set ℝ} {foot : ℝ → Vec3 ℝ} {bounds : Vec3 ℝ × Vec3 ℝ} {ids : HitIDs}
    {ray : Ray ℝ} {kernel : Bool → Ray ℝ → Ray ℝ}
    (misses : ray.hits surface = ∅ → ∀ isOcclusionTest, kernel isOcclusionTest ray = ray)
    (hits : (ray.hits surface).Nonempty → ∃ t Ng u, IsLeast (ray.hits surface) t ∧
      (∀ isOcclusionTest, kernel isOcclusionTest ray = ray.report ids isOcclusionTest t Ng u) ∧
      Outward (foot t) (ray.point t) Ng ∧ Bounded bounds.1 bounds.2 (ray.point t)) :
    ReportsFirst surface foot bounds ids ray kernel := by
  refine ⟨fun isOcclusionTest => ⟨fun changed => ?_, fun some_ => ?_⟩, hits⟩
  · by_contra none_
    exact changed (misses (Set.not_nonempty_iff_eq_empty.mp none_) isOcclusionTest)
  · obtain ⟨t, Ng, u, least, stored, -, -⟩ := hits some_
    rw [stored isOcclusionTest]
    exact report_ne least.1.2 ids isOcclusionTest Ng u

/-- A kernel that takes the first accepted one of two roots. -/
theorem reportsFirst_of_roots {surface : Set ℝ} {foot : ℝ → Vec3 ℝ} {bounds : Vec3 ℝ × Vec3 ℝ} {ids : HitIDs}
    {ray : Ray ℝ} {kernel : Bool → Ray ℝ → Ray ℝ} {x y : ℝ} (accepted : ℝ → Prop) (ordered : x ≤ y)
    (only : ∀ t ∈ surface, t = x ∨ t = y)
    (accepts : ∀ t, t = x ∨ t = y → (accepted t ↔ t ∈ surface ∧ ray.Inside t)) (Ng : ℝ → Vec3 ℝ) (u : ℝ → ℝ)
    (near : accepted x → ∀ isOcclusionTest, kernel isOcclusionTest ray = ray.report ids isOcclusionTest x (Ng x) (u x))
    (far : ¬accepted x → accepted y →
      ∀ isOcclusionTest, kernel isOcclusionTest ray = ray.report ids isOcclusionTest y (Ng y) (u y))
    (miss : ¬accepted x → ¬accepted y → ∀ isOcclusionTest, kernel isOcclusionTest ray = ray)
    (outward : ∀ t ∈ surface, t = x ∨ t = y → Outward (foot t) (ray.point t) (Ng t))
    (bounded : ∀ t ∈ surface, Bounded bounds.1 bounds.2 (ray.point t)) :
    ReportsFirst surface foot bounds ids ray kernel := by
  obtain ⟨first, second, none_⟩ := first_of_roots ordered only accepts
  by_cases here : accepted x
  · have least := first here
    exact reportsFirst_intro (fun empty => absurd empty (Set.nonempty_iff_ne_empty.mp ⟨x, least.1⟩))
      fun _ => ⟨x, Ng x, u x, least, near here, outward x least.1.1 (Or.inl rfl), bounded x least.1.1⟩
  by_cases there : accepted y
  · have least := second here there
    exact reportsFirst_intro (fun empty => absurd empty (Set.nonempty_iff_ne_empty.mp ⟨y, least.1⟩))
      fun _ => ⟨y, Ng y, u y, least, far here there, outward y least.1.1 (Or.inr rfl), bounded y least.1.1⟩
  · exact reportsFirst_intro (fun _ => miss here there) fun some_ => absurd (none_ here there) some_.ne_empty

end Ospray.Geometry

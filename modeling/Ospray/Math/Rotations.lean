import Mathlib.Analysis.Real.Sqrt
import Mathlib.Tactic.FieldSimp
import Mathlib.Tactic.FinCases
import Mathlib.Tactic.LinearCombination
import Ospray.Geometry.Rays

/-!
# Rotations

A rotation is a matrix with the columns of a right-handed orthonormal frame, or a quaternion of norm
one. A quaternion is read off a matrix through the products of its components, of which the matrix
has all: one of the four squares is large, and the others are divided by its root.
-/

namespace Ospray.Rotations

open Ospray.Geometry (dot cross)

variable {K : Type} [Field K]

/-! ## Quaternions -/

/-- `QuaternionT` -/
@[ext] structure QuaternionT (K : Type) where
  r : K
  i : K
  j : K
  k : K

namespace QuaternionT

/-- `QuaternionT(v)` -/
def ofVector (v : Vec3 K) : QuaternionT K := ⟨0, v 0, v 1, v 2⟩

/-- `v` -/
def v (self : QuaternionT K) : Vec3 K := ![self.i, self.j, self.k]

/-- `conj` -/
def conj (a : QuaternionT K) : QuaternionT K := ⟨a.r, -a.i, -a.j, -a.k⟩

/-- `operator*` -/
def mul (a b : QuaternionT K) : QuaternionT K where
  r := a.r * b.r - a.i * b.i - a.j * b.j - a.k * b.k
  i := a.r * b.i + a.i * b.r + a.j * b.k - a.k * b.j
  j := a.r * b.j - a.i * b.k + a.j * b.r + a.k * b.i
  k := a.r * b.k + a.i * b.j - a.j * b.i + a.k * b.r

/-- `xfmPoint` -/
def xfmPoint (a : QuaternionT K) (b : Vec3 K) : Vec3 K := ((a.mul (ofVector b)).mul a.conj).v

/-- `abs` -/
noncomputable def abs (a : QuaternionT ℝ) : ℝ := √(a.r * a.r + a.i * a.i + a.j * a.j + a.k * a.k)

end QuaternionT

/-! ## Matrices -/

/-- `LinearSpace3`, by its columns. -/
@[ext] structure LinearSpace3 (K : Type) where
  vx : Vec3 K
  vy : Vec3 K
  vz : Vec3 K

namespace LinearSpace3

/-- `LinearSpace3(q)` -/
def ofQuaternion (q : QuaternionT K) : LinearSpace3 K where
  vx := ![q.r * q.r + q.i * q.i - q.j * q.j - q.k * q.k, 2 * (q.i * q.j + q.r * q.k), 2 * (q.i * q.k - q.r * q.j)]
  vy := ![2 * (q.i * q.j - q.r * q.k), q.r * q.r - q.i * q.i + q.j * q.j - q.k * q.k, 2 * (q.j * q.k + q.r * q.i)]
  vz := ![2 * (q.i * q.k + q.r * q.j), 2 * (q.j * q.k - q.r * q.i), q.r * q.r - q.i * q.i - q.j * q.j + q.k * q.k]

/-- `det` -/
def det (self : LinearSpace3 K) : K := dot self.vx (cross self.vy self.vz)

/-- `transposed` -/
def transposed (self : LinearSpace3 K) : LinearSpace3 K where
  vx := ![self.vx 0, self.vy 0, self.vz 0]
  vy := ![self.vx 1, self.vy 1, self.vz 1]
  vz := ![self.vx 2, self.vy 2, self.vz 2]

/-- `adjoint` -/
def adjoint (self : LinearSpace3 K) : LinearSpace3 K :=
  transposed ⟨cross self.vy self.vz, cross self.vz self.vx, cross self.vx self.vy⟩

/-- `operator/` by a number -/
def div (a : LinearSpace3 K) (b : K) : LinearSpace3 K :=
  ⟨fun d => a.vx d / b, fun d => a.vy d / b, fun d => a.vz d / b⟩

/-- `inverse` -/
def inverse (self : LinearSpace3 K) : LinearSpace3 K := self.adjoint.div self.det

/-- `operator*` with a vector -/
def mulVec (a : LinearSpace3 K) (b : Vec3 K) : Vec3 K := b 0 • a.vx + b 1 • a.vy + b 2 • a.vz

/-- `operator*` -/
def mul (a b : LinearSpace3 K) : LinearSpace3 K := ⟨a.mulVec b.vx, a.mulVec b.vy, a.mulVec b.vz⟩

end LinearSpace3

/-- `AffineSpaceT` -/
structure AffineSpaceT (K : Type) where
  l : LinearSpace3 K
  p : Vec3 K

namespace AffineSpaceT

/-- `rcp` -/
def rcp (a : AffineSpaceT K) : AffineSpaceT K :=
  let il := a.l.inverse
  ⟨il, -(il.mulVec a.p)⟩

/-- `xfmPoint` -/
def xfmPoint (m : AffineSpaceT K) (p : Vec3 K) : Vec3 K := p 0 • m.l.vx + (p 1 • m.l.vy + (p 2 • m.l.vz + m.p))

end AffineSpaceT

/-! ## Quaternions of frames -/

/-- `rsqrt`, which is defined for positive numbers. -/
noncomputable def rsqrt (t : ℝ) : Option ℝ := if 0 < t then some (1 / √t) else none

/-- `QuaternionT(vx, vy, vz)` -/
noncomputable def QuaternionT.ofFrame (vx vy vz : Vec3 ℝ) : Option (QuaternionT ℝ) :=
  if vx 0 + vy 1 + vz 2 ≥ 0 then do
    let t := 1 + (vx 0 + vy 1 + vz 2)
    let s := (← rsqrt t) * (1 / 2)
    return ⟨t * s, (vy 2 - vz 1) * s, (vz 0 - vx 2) * s, (vx 1 - vy 0) * s⟩
  else if vx 0 ≥ max (vy 1) (vz 2) then do
    let t := (1 + vx 0) - (vy 1 + vz 2)
    let s := (← rsqrt t) * (1 / 2)
    return ⟨(vy 2 - vz 1) * s, t * s, (vx 1 + vy 0) * s, (vz 0 + vx 2) * s⟩
  else if vy 1 ≥ vz 2 then do
    let t := (1 + vy 1) - (vz 2 + vx 0)
    let s := (← rsqrt t) * (1 / 2)
    return ⟨(vz 0 - vx 2) * s, (vx 1 + vy 0) * s, t * s, (vy 2 + vz 1) * s⟩
  else do
    let t := (1 + vz 2) - (vx 0 + vy 1)
    let s := (← rsqrt t) * (1 / 2)
    return ⟨(vx 1 - vy 0) * s, (vz 0 + vx 2) * s, (vy 2 + vz 1) * s, t * s⟩

/-! ## Products -/

theorem mulVec_ofQuaternion (q : QuaternionT K) (v : Vec3 K) :
    (LinearSpace3.ofQuaternion q).mulVec v = q.xfmPoint v := by
  funext d
  fin_cases d <;>
    simp [LinearSpace3.mulVec, LinearSpace3.ofQuaternion, QuaternionT.xfmPoint, QuaternionT.mul, QuaternionT.conj,
      QuaternionT.ofVector, QuaternionT.v] <;> ring

theorem ofQuaternion_mul (p q : QuaternionT K) :
    LinearSpace3.ofQuaternion (p.mul q) = (LinearSpace3.ofQuaternion p).mul (LinearSpace3.ofQuaternion q) := by
  ext d <;> fin_cases d <;>
    simp [LinearSpace3.mul, LinearSpace3.mulVec, LinearSpace3.ofQuaternion, QuaternionT.mul] <;> ring

theorem mulVec_adjoint (m : LinearSpace3 K) (v : Vec3 K) : m.adjoint.mulVec (m.mulVec v) = m.det • v := by
  funext d
  fin_cases d <;>
    simp [LinearSpace3.mulVec, LinearSpace3.adjoint, LinearSpace3.transposed, LinearSpace3.det, dot, cross] <;> ring

theorem mulVec_inverse {m : LinearSpace3 K} (regular : m.det ≠ 0) (v : Vec3 K) :
    m.inverse.mulVec (m.mulVec v) = v := by
  have scaled : ∀ w, m.inverse.mulVec w = (1 / m.det) • m.adjoint.mulVec w := by
    intro w
    funext d
    simp [LinearSpace3.mulVec, LinearSpace3.inverse, LinearSpace3.div]
    ring
  rw [scaled, mulVec_adjoint, smul_smul, one_div, inv_mul_cancel₀ regular, one_smul]

theorem xfmPoint_rcp {m : AffineSpaceT K} (regular : m.l.det ≠ 0) (x : Vec3 K) :
    m.rcp.xfmPoint (m.xfmPoint x) = x := by
  have affine : ∀ (a : AffineSpaceT K) (w : Vec3 K), a.xfmPoint w = a.l.mulVec w + a.p := by
    intro a w
    rw [AffineSpaceT.xfmPoint, LinearSpace3.mulVec, add_assoc, add_assoc]
  have additive : ∀ v w, m.l.inverse.mulVec (v + w) = m.l.inverse.mulVec v + m.l.inverse.mulVec w := by
    intro v w
    funext d
    simp [LinearSpace3.mulVec]
    ring
  rw [affine, affine, AffineSpaceT.rcp, additive, mulVec_inverse regular, add_neg_cancel_right]

/-! ## Frames -/

/-- The vectors are a right-handed orthonormal frame. -/
structure RightHanded (vx vy vz : Vec3 ℝ) : Prop where
  xx : dot vx vx = 1
  yy : dot vy vy = 1
  zz : dot vz vz = 1
  xy : dot vx vy = 0
  yz : dot vy vz = 0
  zx : dot vz vx = 0
  right : 0 < (LinearSpace3.mk vx vy vz).det

namespace RightHanded

variable {vx vy vz : Vec3 ℝ}

theorem rotate (frame : RightHanded vx vy vz) : RightHanded vy vz vx := by
  have same : (LinearSpace3.mk vy vz vx).det = (LinearSpace3.mk vx vy vz).det := by
    simp [LinearSpace3.det, dot, cross]
    ring
  exact ⟨frame.yy, frame.zz, frame.xx, frame.yz, frame.zx, frame.xy, same ▸ frame.right⟩

/-- The determinant is one: its square is the one of the products of the vectors. -/
theorem det_eq_one (frame : RightHanded vx vy vz) : (LinearSpace3.mk vx vy vz).det = 1 := by
  have gram : (LinearSpace3.mk vx vy vz).det ^ 2 =
      dot vx vx * (dot vy vy * dot vz vz - dot vy vz ^ 2) - dot vx vy * (dot vx vy * dot vz vz - dot vy vz * dot vz vx) +
        dot vz vx * (dot vx vy * dot vy vz - dot vy vy * dot vz vx) := by
    simp [LinearSpace3.det, dot, cross]
    ring
  rw [frame.xx, frame.yy, frame.zz, frame.xy, frame.yz, frame.zx] at gram
  have square : (LinearSpace3.mk vx vy vz).det ^ 2 = 1 := by
    rw [gram]
    norm_num
  rw [sq] at square
  obtain one | negative := mul_self_eq_one_iff.mp square
  · exact one
  · exact absurd frame.right (by rw [negative]; norm_num)

/-- A vector is the product of the other two. -/
theorem eq_cross (frame : RightHanded vx vy vz) : vx = cross vy vz := by
  have det : dot vx (cross vy vz) = 1 := frame.det_eq_one
  have lagrange : dot (cross vy vz) (cross vy vz) = dot vy vy * dot vz vz - dot vy vz ^ 2 := by
    simp [dot, cross]
    ring
  rw [frame.yy, frame.zz, frame.yz] at lagrange
  have difference : dot (vx - cross vy vz) (vx - cross vy vz) = 0 := by
    have expanded : dot (vx - cross vy vz) (vx - cross vy vz) =
        dot vx vx - 2 * dot vx (cross vy vz) + dot (cross vy vz) (cross vy vz) := by
      simp [dot, cross]
      ring
    rw [expanded, frame.xx, det, lagrange]
    norm_num
  have zero : ∀ w : Vec3 ℝ, dot w w = 0 → w = 0 := by
    intro w squares
    have x := mul_self_nonneg (w 0)
    have y := mul_self_nonneg (w 1)
    have z := mul_self_nonneg (w 2)
    rw [dot] at squares
    have zeroX : w 0 = 0 := mul_self_eq_zero.mp (by linarith)
    have zeroY : w 1 = 0 := mul_self_eq_zero.mp (by linarith)
    have zeroZ : w 2 = 0 := mul_self_eq_zero.mp (by linarith)
    funext d
    fin_cases d
    · exact zeroX
    · exact zeroY
    · exact zeroZ
  exact sub_eq_zero.mp (zero _ difference)

end RightHanded

/-! ## Products of components -/

/-- Four times the products of the components of a quaternion. -/
structure Products where
  rr : ℝ
  ii : ℝ
  jj : ℝ
  kk : ℝ
  ri : ℝ
  rj : ℝ
  rk : ℝ
  ij : ℝ
  ik : ℝ
  jk : ℝ

/-- What a matrix says about them. -/
def products (vx vy vz : Vec3 ℝ) : Products where
  rr := 1 + (vx 0 + vy 1 + vz 2)
  ii := (1 + vx 0) - (vy 1 + vz 2)
  jj := (1 + vy 1) - (vz 2 + vx 0)
  kk := (1 + vz 2) - (vx 0 + vy 1)
  ri := vy 2 - vz 1
  rj := vz 0 - vx 2
  rk := vx 1 - vy 0
  ij := vx 1 + vy 0
  ik := vz 0 + vx 2
  jk := vy 2 + vz 1

/-- They are products: two of them with a common factor make two others. -/
structure Products.Consistent (p : Products) : Prop where
  rr_ii : p.ri * p.ri = p.rr * p.ii
  rr_jj : p.rj * p.rj = p.rr * p.jj
  rr_kk : p.rk * p.rk = p.rr * p.kk
  ii_jj : p.ij * p.ij = p.ii * p.jj
  ii_kk : p.ik * p.ik = p.ii * p.kk
  jj_kk : p.jk * p.jk = p.jj * p.kk
  rr_ij : p.ri * p.rj = p.rr * p.ij
  rr_ik : p.ri * p.rk = p.rr * p.ik
  rr_jk : p.rj * p.rk = p.rr * p.jk
  ii_rj : p.ri * p.ij = p.ii * p.rj
  ii_rk : p.ri * p.ik = p.ii * p.rk
  ii_jk : p.ij * p.ik = p.ii * p.jk
  jj_ri : p.rj * p.ij = p.jj * p.ri
  jj_rk : p.rj * p.jk = p.jj * p.rk
  jj_ik : p.ij * p.jk = p.jj * p.ik
  kk_ri : p.rk * p.ik = p.kk * p.ri
  kk_rj : p.rk * p.jk = p.kk * p.rj
  kk_ij : p.ik * p.jk = p.kk * p.ij

/-- Those of a frame are: its vectors are products of each other, and its rows are orthonormal. -/
theorem consistent_products {vx vy vz : Vec3 ℝ} (frame : RightHanded vx vy vz) :
    (products vx vy vz).Consistent := by
  have det : vx 0 * (vy 1 * vz 2 - vy 2 * vz 1) + vx 1 * (vy 2 * vz 0 - vy 0 * vz 2) +
      vx 2 * (vy 0 * vz 1 - vy 1 * vz 0) = 1 := frame.det_eq_one
  have x0 : vx 0 = vy 1 * vz 2 - vy 2 * vz 1 := congrFun frame.eq_cross 0
  have x1 : vx 1 = vy 2 * vz 0 - vy 0 * vz 2 := congrFun frame.eq_cross 1
  have x2 : vx 2 = vy 0 * vz 1 - vy 1 * vz 0 := congrFun frame.eq_cross 2
  have y0 : vy 0 = vz 1 * vx 2 - vz 2 * vx 1 := congrFun frame.rotate.eq_cross 0
  have y1 : vy 1 = vz 2 * vx 0 - vz 0 * vx 2 := congrFun frame.rotate.eq_cross 1
  have y2 : vy 2 = vz 0 * vx 1 - vz 1 * vx 0 := congrFun frame.rotate.eq_cross 2
  have z0 : vz 0 = vx 1 * vy 2 - vx 2 * vy 1 := congrFun frame.rotate.rotate.eq_cross 0
  have z1 : vz 1 = vx 2 * vy 0 - vx 0 * vy 2 := congrFun frame.rotate.rotate.eq_cross 1
  have z2 : vz 2 = vx 0 * vy 1 - vx 1 * vy 0 := congrFun frame.rotate.rotate.eq_cross 2
  have col00 : vx 0 * vx 0 + vx 1 * vx 1 + vx 2 * vx 2 = 1 := frame.xx
  have col11 : vy 0 * vy 0 + vy 1 * vy 1 + vy 2 * vy 2 = 1 := frame.yy
  have col22 : vz 0 * vz 0 + vz 1 * vz 1 + vz 2 * vz 2 = 1 := frame.zz
  have col01 : vx 0 * vy 0 + vx 1 * vy 1 + vx 2 * vy 2 = 0 := frame.xy
  have col12 : vy 0 * vz 0 + vy 1 * vz 1 + vy 2 * vz 2 = 0 := frame.yz
  have col02 : vz 0 * vx 0 + vz 1 * vx 1 + vz 2 * vx 2 = 0 := frame.zx
  have row00 : vx 0 * vx 0 + vy 0 * vy 0 + vz 0 * vz 0 = 1 := by
    linear_combination vx 0 * x0 + vy 0 * y0 + vz 0 * z0 + det
  have row11 : vx 1 * vx 1 + vy 1 * vy 1 + vz 1 * vz 1 = 1 := by
    linear_combination vx 1 * x1 + vy 1 * y1 + vz 1 * z1 + det
  have row01 : vx 0 * vx 1 + vy 0 * vy 1 + vz 0 * vz 1 = 0 := by
    linear_combination vx 0 * x1 + vy 0 * y1 + vz 0 * z1
  have row02 : vx 0 * vx 2 + vy 0 * vy 2 + vz 0 * vz 2 = 0 := by
    linear_combination vx 0 * x2 + vy 0 * y2 + vz 0 * z2
  have row12 : vx 1 * vx 2 + vy 1 * vy 2 + vz 1 * vz 2 = 0 := by
    linear_combination vx 1 * x2 + vy 1 * y2 + vz 1 * z2
  constructor <;> simp only [products]
  · linear_combination -row00 + col11 + col22 - 2 * x0
  · linear_combination col00 - row11 + col22 - 2 * y1
  · linear_combination row00 + row11 - col22 - 2 * z2
  · linear_combination row00 + row11 - col22 + 2 * z2
  · linear_combination col00 - row11 + col22 + 2 * y1
  · linear_combination -row00 + col11 + col22 + 2 * x0
  · linear_combination -col01 - row01 - x1 - y0
  · linear_combination -col02 - row02 - x2 - z0
  · linear_combination -col12 - row12 - y2 - z1
  · linear_combination -col02 + row02 + x2 - z0
  · linear_combination col01 - row01 - x1 + y0
  · linear_combination col12 + row12 - y2 - z1
  · linear_combination col12 - row12 - y2 + z1
  · linear_combination -col01 + row01 - x1 + y0
  · linear_combination col02 + row02 - x2 - z0
  · linear_combination -col12 + row12 - y2 + z1
  · linear_combination col02 - row02 + x2 - z0
  · linear_combination col01 + row01 - x1 - y0

/-- The quaternion has these products. -/
structure QuaternionT.HasProducts (q : QuaternionT ℝ) (p : Products) : Prop where
  rr : 4 * (q.r * q.r) = p.rr
  ii : 4 * (q.i * q.i) = p.ii
  jj : 4 * (q.j * q.j) = p.jj
  kk : 4 * (q.k * q.k) = p.kk
  ri : 4 * (q.r * q.i) = p.ri
  rj : 4 * (q.r * q.j) = p.rj
  rk : 4 * (q.r * q.k) = p.rk
  ij : 4 * (q.i * q.j) = p.ij
  ik : 4 * (q.i * q.k) = p.ik
  jk : 4 * (q.j * q.k) = p.jk

variable {vx vy vz : Vec3 ℝ} {q : QuaternionT ℝ}

/-- Then its matrix is the one that they are read off, -/
theorem ofQuaternion_of_products (has : q.HasProducts (products vx vy vz)) :
    LinearSpace3.ofQuaternion q = ⟨vx, vy, vz⟩ := by
  obtain ⟨rr, ii, jj, kk, ri, rj, rk, ij, ik, jk⟩ := has
  simp only [products] at rr ii jj kk ri rj rk ij ik jk
  ext d <;> fin_cases d <;> simp [LinearSpace3.ofQuaternion] <;> linarith

/-- and its norm is one. -/
theorem abs_of_products (has : q.HasProducts (products vx vy vz)) : q.abs = 1 := by
  obtain ⟨rr, ii, jj, kk, -, -, -, -, -, -⟩ := has
  simp only [products] at rr ii jj kk
  have one : q.r * q.r + q.i * q.i + q.j * q.j + q.k * q.k = 1 := by linarith
  rw [QuaternionT.abs, one, Real.sqrt_one]

/-! ## The branches -/

theorem rsqrt_half {t : ℝ} (positive : 0 < t) : ∃ s, rsqrt t = some s ∧ 4 * (s * (1 / 2) * (s * (1 / 2))) * t = 1 := by
  refine ⟨1 / √t, if_pos positive, ?_⟩
  have root : √t * √t = t := Real.mul_self_sqrt positive.le
  have nonzero : √t ≠ 0 := (Real.sqrt_pos.mpr positive).ne'
  calc 4 * (1 / √t * (1 / 2) * (1 / √t * (1 / 2))) * t = t / (√t * √t) := by
        field_simp
        ring
    _ = 1 := by rw [root, div_self positive.ne']

theorem scaled {s t x y z : ℝ} (scale : 4 * (s * s) * t = 1) (product : x * y = t * z) :
    4 * (x * s * (y * s)) = z := by
  linear_combination 4 * (s * s) * product + z * scale

theorem scaled_square {s t x : ℝ} (scale : 4 * (s * s) * t = 1) : 4 * (t * s * (x * s)) = x := by
  linear_combination x * scale

theorem scaled_square' {s t x : ℝ} (scale : 4 * (s * s) * t = 1) : 4 * (x * s * (t * s)) = x := by
  rw [mul_comm (x * s), scaled_square scale]

theorem bind_root {t s : ℝ} (root : rsqrt t = some s) (next : ℝ → Option (QuaternionT ℝ)) :
    (rsqrt t).bind next = next s := by
  rw [root, Option.bind_some]

/-- In every branch the square is positive, and the quaternion has the products. -/
theorem ofFrame_spec (frame : RightHanded vx vy vz) :
    ∃ q, QuaternionT.ofFrame vx vy vz = some q ∧ q.HasProducts (products vx vy vz) := by
  have all := consistent_products frame
  by_cases trace : vx 0 + vy 1 + vz 2 ≥ 0
  · obtain ⟨s, root, scale⟩ := rsqrt_half (by linarith : 0 < 1 + (vx 0 + vy 1 + vz 2))
    refine ⟨_, (if_pos trace).trans (bind_root root _), ?_⟩
    exact
      { rr := scaled_square scale
        ii := scaled scale all.rr_ii
        jj := scaled scale all.rr_jj
        kk := scaled scale all.rr_kk
        ri := scaled_square scale
        rj := scaled_square scale
        rk := scaled_square scale
        ij := scaled scale all.rr_ij
        ik := scaled scale all.rr_ik
        jk := scaled scale all.rr_jk }
  · -- the squares add up to four, and the first one is below one
    have below : vx 0 + vy 1 + vz 2 < 0 := not_le.mp trace
    by_cases first : vx 0 ≥ max (vy 1) (vz 2)
    · obtain ⟨second, third⟩ := max_le_iff.mp first
      obtain ⟨s, root, scale⟩ := rsqrt_half (by linarith : 0 < (1 + vx 0) - (vy 1 + vz 2))
      refine ⟨_, ((if_neg trace).trans (if_pos first)).trans (bind_root root _), ?_⟩
      exact
        { rr := scaled scale (all.rr_ii.trans (mul_comm _ _))
          ii := scaled_square scale
          jj := scaled scale all.ii_jj
          kk := scaled scale all.ii_kk
          ri := scaled_square' scale
          rj := scaled scale all.ii_rj
          rk := scaled scale all.ii_rk
          ij := scaled_square scale
          ik := scaled_square scale
          jk := scaled scale all.ii_jk }
    · by_cases second : vy 1 ≥ vz 2
      · have less : vx 0 < vy 1 := by rwa [ge_iff_le, max_eq_left second, not_le] at first
        obtain ⟨s, root, scale⟩ := rsqrt_half (by linarith : 0 < (1 + vy 1) - (vz 2 + vx 0))
        refine ⟨_, ((if_neg trace).trans ((if_neg first).trans (if_pos second))).trans (bind_root root _), ?_⟩
        exact
          { rr := scaled scale (all.rr_jj.trans (mul_comm _ _))
            ii := scaled scale (all.ii_jj.trans (mul_comm _ _))
            jj := scaled_square scale
            kk := scaled scale all.jj_kk
            ri := scaled scale all.jj_ri
            rj := scaled_square' scale
            rk := scaled scale all.jj_rk
            ij := scaled_square' scale
            ik := scaled scale all.jj_ik
            jk := scaled_square scale }
      · have less : vx 0 < vz 2 := by rwa [ge_iff_le, max_eq_right (not_le.mp second).le, not_le] at first
        obtain ⟨s, root, scale⟩ := rsqrt_half (by linarith : 0 < (1 + vz 2) - (vx 0 + vy 1))
        refine ⟨_, ((if_neg trace).trans ((if_neg first).trans (if_neg second))).trans (bind_root root _), ?_⟩
        exact
          { rr := scaled scale (all.rr_kk.trans (mul_comm _ _))
            ii := scaled scale (all.ii_kk.trans (mul_comm _ _))
            jj := scaled scale (all.jj_kk.trans (mul_comm _ _))
            kk := scaled_square scale
            ri := scaled scale all.kk_ri
            rj := scaled scale all.kk_rj
            rk := scaled_square' scale
            ij := scaled scale all.kk_ij
            ik := scaled_square' scale
            jk := scaled_square' scale }

/-! ## Agreement -/

/-- The representations of rotations agree: a right-handed orthonormal frame has a quaternion of norm
one, whose matrix is the frame; matrices of quaternions turn vectors and are multiplied like these;
and an affine map is undone by its inverse. -/
theorem rotations_agree :
    (∀ vx vy vz : Vec3 ℝ, RightHanded vx vy vz → ∃ q, QuaternionT.ofFrame vx vy vz = some q ∧ q.abs = 1 ∧
      LinearSpace3.ofQuaternion q = ⟨vx, vy, vz⟩) ∧
      (∀ (q : QuaternionT ℝ) (v : Vec3 ℝ), (LinearSpace3.ofQuaternion q).mulVec v = q.xfmPoint v) ∧
      (∀ p q : QuaternionT ℝ, LinearSpace3.ofQuaternion (p.mul q) =
        (LinearSpace3.ofQuaternion p).mul (LinearSpace3.ofQuaternion q)) ∧
      ∀ m : AffineSpaceT ℝ, m.l.det ≠ 0 → ∀ x, m.rcp.xfmPoint (m.xfmPoint x) = x := by
  refine ⟨?_, mulVec_ofQuaternion, ofQuaternion_mul, fun m regular => xfmPoint_rcp regular⟩
  intro vx vy vz frame
  obtain ⟨q, same, has⟩ := ofFrame_spec frame
  exact ⟨q, same, abs_of_products has, ofQuaternion_of_products has⟩

/-- Half a turn about the second axis, and twice the identity. -/
theorem rotations_agree_half_turn :
    (∃ q, QuaternionT.ofFrame ![-1, 0, 0] ![0, 1, 0] ![0, 0, -1] = some q ∧ q.abs = 1 ∧
      LinearSpace3.ofQuaternion q = ⟨![-1, 0, 0], ![0, 1, 0], ![0, 0, -1]⟩) ∧
      ∀ x, (AffineSpaceT.mk ⟨![(2 : ℝ), 0, 0], ![0, 2, 0], ![0, 0, 2]⟩ ![1, 1, 1]).rcp.xfmPoint
        ((AffineSpaceT.mk ⟨![2, 0, 0], ![0, 2, 0], ![0, 0, 2]⟩ ![1, 1, 1]).xfmPoint x) = x := by
  constructor
  · apply rotations_agree.1
    constructor <;> simp [LinearSpace3.det, dot, cross]
  · apply rotations_agree.2.2.2
    simp [LinearSpace3.det, dot, cross]

end Ospray.Rotations

import Mathlib.Algebra.Order.Field.Basic
import Mathlib.Algebra.Order.Ring.Abs
import Mathlib.Data.Rat.Cast.Defs
import Mathlib.Tactic.FieldSimp
import Mathlib.Tactic.Linarith
import Mathlib.Tactic.Positivity
import Mathlib.Tactic.Ring

namespace Klett.Luft

class Isnan (K : Type*) where
  isnan : K → Bool

/-- The functions of the standard library that the flight model calls. -/
class Cmath (K : Type*) extends Isnan K where
  sqrt : K → K
  sin : K → K
  cos : K → K
  asin : K → K
  atan2 : K → K → K

open Cmath Isnan

/-- A NaN compares false with everything, and is neither a literal nor made by a change of sign. -/
class LawfulIsnan (K : Type*) [OfScientific K] [Neg K] [LT K] [Isnan K] : Prop where
  not_lt_of_isnan (x y : K) : isnan x = true → ¬x < y ∧ ¬y < x
  isnan_neg (x : K) : isnan (-x) = isnan x
  isnan_literal (m : ℕ) (s : Bool) (e : ℕ) : isnan (OfScientific.ofScientific m s e : K) = false

/-- The identities that define them where the arithmetic is exact. -/
class ExactCmath (K : Type*) [Field K] [LinearOrder K] [Cmath K] : Prop where
  sqrt_nonneg (x : K) : 0 ≤ sqrt x
  sqrt_mul_self (x : K) : 0 ≤ x → sqrt x * sqrt x = x
  sin_sq_add_cos_sq (x : K) : sin x * sin x + cos x * cos x = 1
  isnan_eq_false (x : K) : isnan x = false

section Constants

variable {K : Type*} [Field K]

def kPi : K := 3.14159265358979323846

def kDegToRad : K := kPi / 180.0

def kGravity : K := 9.80665

def kSeaLevelDensity : K := 1.225

end Constants

@[ext]
structure Vec3 (K : Type*) where
  x : K
  y : K
  z : K

namespace Vec3

variable {K : Type*}

instance instAdd [Add K] : Add (Vec3 K) := ⟨fun u v => ⟨u.x + v.x, u.y + v.y, u.z + v.z⟩⟩

instance instSub [Sub K] : Sub (Vec3 K) := ⟨fun u v => ⟨u.x - v.x, u.y - v.y, u.z - v.z⟩⟩

instance instHMul [Mul K] : HMul (Vec3 K) K (Vec3 K) := ⟨fun v s => ⟨v.x * s, v.y * s, v.z * s⟩⟩

instance instHDiv [Div K] : HDiv (Vec3 K) K (Vec3 K) := ⟨fun v s => ⟨v.x / s, v.y / s, v.z / s⟩⟩

def zero [Zero K] : Vec3 K := ⟨0, 0, 0⟩

def magnitudeSq [Add K] [Mul K] (v : Vec3 K) : K := v.x * v.x + v.y * v.y + v.z * v.z

def magnitude [Add K] [Mul K] [Cmath K] (v : Vec3 K) : K := sqrt v.magnitudeSq

def dot [Add K] [Mul K] (u v : Vec3 K) : K := u.x * v.x + u.y * v.y + u.z * v.z

def cross [Sub K] [Mul K] (u v : Vec3 K) : Vec3 K :=
  ⟨u.y * v.z - u.z * v.y, u.z * v.x - u.x * v.z, u.x * v.y - u.y * v.x⟩

end Vec3

/-- `w` is the scalar part. -/
@[ext]
structure Quaternion (K : Type*) where
  w : K
  x : K
  y : K
  z : K

namespace Quaternion

variable {K : Type*}

instance instAdd [Add K] : Add (Quaternion K) := ⟨fun p q => ⟨p.w + q.w, p.x + q.x, p.y + q.y, p.z + q.z⟩⟩

instance instHMul [Mul K] : HMul (Quaternion K) K (Quaternion K) := ⟨fun q s => ⟨q.w * s, q.x * s, q.y * s, q.z * s⟩⟩

instance instMul [Add K] [Sub K] [Mul K] : Mul (Quaternion K) where
  mul p q :=
    { w := p.w * q.w - p.x * q.x - p.y * q.y - p.z * q.z
      x := p.w * q.x + p.x * q.w + p.y * q.z - p.z * q.y
      y := p.w * q.y - p.x * q.z + p.y * q.w + p.z * q.x
      z := p.w * q.z + p.x * q.y - p.y * q.x + p.z * q.w }

variable [Field K]

def conjugate (q : Quaternion K) : Quaternion K := ⟨q.w, -q.x, -q.y, -q.z⟩

/-- From the body frame to the world frame. -/
def rotate (q : Quaternion K) (v : Vec3 K) : Vec3 K :=
  let qv : Quaternion K := ⟨0, v.x, v.y, v.z⟩
  let result := q * qv * q.conjugate
  ⟨result.x, result.y, result.z⟩

/-- From the world frame to the body frame. -/
def inverseRotate (q : Quaternion K) (v : Vec3 K) : Vec3 K :=
  let qv : Quaternion K := ⟨0, v.x, v.y, v.z⟩
  let result := q.conjugate * qv * q
  ⟨result.x, result.y, result.z⟩

def derivative (q : Quaternion K) (omega : Vec3 K) : Quaternion K :=
  let omegaQ : Quaternion K := ⟨0, omega.x, omega.y, omega.z⟩
  let dq := q * omegaQ
  ⟨dq.w * 0.5, dq.x * 0.5, dq.y * 0.5, dq.z * 0.5⟩

variable [Cmath K]

def norm (q : Quaternion K) : K := sqrt (q.w * q.w + q.x * q.x + q.y * q.y + q.z * q.z)

def normalized [LT K] [DecidableLT K] (q : Quaternion K) : Quaternion K :=
  let n := q.norm
  if n < 1e-12 then ⟨1, 0, 0, 0⟩ else ⟨q.w / n, q.x / n, q.y / n, q.z / n⟩

def fromEuler (roll pitch yaw : K) : Quaternion K :=
  let cr := cos (roll * 0.5)
  let sr := sin (roll * 0.5)
  let cp := cos (pitch * 0.5)
  let sp := sin (pitch * 0.5)
  let cy := cos (yaw * 0.5)
  let sy := sin (yaw * 0.5)
  { w := cr * cp * cy + sr * sp * sy
    x := sr * cp * cy - cr * sp * sy
    y := cr * sp * cy + sr * cp * sy
    z := cr * cp * sy - sr * sp * cy }

variable [LinearOrder K]

/-- Roll, pitch and yaw. Where the nose points straight up or down, the pitch is a right angle. -/
def toEuler (q : Quaternion K) : Vec3 K :=
  let sinrCosp := 2.0 * (q.w * q.x + q.y * q.z)
  let cosrCosp := 1.0 - 2.0 * (q.x * q.x + q.y * q.y)
  let sinp := 2.0 * (q.w * q.y - q.z * q.x)
  let sinyCosp := 2.0 * (q.w * q.z + q.x * q.y)
  let cosyCosp := 1.0 - 2.0 * (q.y * q.y + q.z * q.z)
  { x := atan2 sinrCosp cosrCosp
    y := if |sinp| ≥ 1.0 then (if sinp < 0 then -(kPi / 2.0) else kPi / 2.0) else asin sinp
    z := atan2 sinyCosp cosyCosp }

end Quaternion

section Exact

variable {K : Type*} [Field K] [LinearOrder K] [IsStrictOrderedRing K]

theorem Quaternion.squares_nonneg (q : Quaternion K) : 0 ≤ q.w * q.w + q.x * q.x + q.y * q.y + q.z * q.z := by
  linarith [mul_self_nonneg q.w, mul_self_nonneg q.x, mul_self_nonneg q.y, mul_self_nonneg q.z]

variable [Cmath K] [ExactCmath K]

theorem sqrt_eq_one_iff {x : K} (hx : 0 ≤ x) : sqrt x = 1 ↔ x = 1 := by
  constructor
  · intro h
    rw [← ExactCmath.sqrt_mul_self x hx, h, one_mul]
  · rintro rfl
    have hsq := ExactCmath.sqrt_mul_self (1 : K) zero_le_one
    have hnonneg := ExactCmath.sqrt_nonneg (1 : K)
    nlinarith

theorem Quaternion.norm_eq_one_iff (q : Quaternion K) :
    q.norm = 1 ↔ q.w * q.w + q.x * q.x + q.y * q.y + q.z * q.z = 1 := sqrt_eq_one_iff q.squares_nonneg

theorem Quaternion.norm_normalized (q : Quaternion K) : q.normalized.norm = 1 := by
  rw [Quaternion.norm_eq_one_iff, Quaternion.normalized]
  split_ifs with hsmall
  · ring
  · have hpos : 0 < q.norm := by
      have hlarge := not_lt.mp hsmall
      have htiny : (0 : K) < 1e-12 := by positivity
      exact htiny.trans_le hlarge
    have hsq : q.norm * q.norm = q.w * q.w + q.x * q.x + q.y * q.y + q.z * q.z :=
      ExactCmath.sqrt_mul_self _ q.squares_nonneg
    field_simp
    linarith

theorem Quaternion.norm_fromEuler (roll pitch yaw : K) : (Quaternion.fromEuler roll pitch yaw).norm = 1 := by
  rw [Quaternion.norm_eq_one_iff]
  have hroll := ExactCmath.sin_sq_add_cos_sq (roll * 0.5 : K)
  have hpitch := ExactCmath.sin_sq_add_cos_sq (pitch * 0.5 : K)
  have hyaw := ExactCmath.sin_sq_add_cos_sq (yaw * 0.5 : K)
  simp only [Quaternion.fromEuler]
  generalize sin (roll * 0.5 : K) = sr at *
  generalize cos (roll * 0.5 : K) = cr at *
  generalize sin (pitch * 0.5 : K) = sp at *
  generalize cos (pitch * 0.5 : K) = cp at *
  generalize sin (yaw * 0.5 : K) = sy at *
  generalize cos (yaw * 0.5 : K) = cy at *
  calc _ = (sr * sr + cr * cr) * (sp * sp + cp * cp) * (sy * sy + cy * cy) := by ring
    _ = 1 := by rw [hroll, hpitch, hyaw, one_mul, one_mul]

end Exact

end Klett.Luft

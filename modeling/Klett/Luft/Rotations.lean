import Klett.Luft.MathTypes

namespace Klett.Luft

section Vectors

variable {K : Type*} [Field K] (u v w : Vec3 K) (s : K)

@[simp] theorem Vec3.add_x : (u + v).x = u.x + v.x := rfl
@[simp] theorem Vec3.add_y : (u + v).y = u.y + v.y := rfl
@[simp] theorem Vec3.add_z : (u + v).z = u.z + v.z := rfl

@[simp] theorem Vec3.sub_x : (u - v).x = u.x - v.x := rfl
@[simp] theorem Vec3.sub_y : (u - v).y = u.y - v.y := rfl
@[simp] theorem Vec3.sub_z : (u - v).z = u.z - v.z := rfl

@[simp] theorem Vec3.mul_x : (v * s).x = v.x * s := rfl
@[simp] theorem Vec3.mul_y : (v * s).y = v.y * s := rfl
@[simp] theorem Vec3.mul_z : (v * s).z = v.z * s := rfl

@[simp] theorem Vec3.div_x : (v / s).x = v.x / s := rfl
@[simp] theorem Vec3.div_y : (v / s).y = v.y / s := rfl
@[simp] theorem Vec3.div_z : (v / s).z = v.z / s := rfl

theorem Vec3.dot_add : u.dot (v + w) = u.dot v + u.dot w := by
  simp only [Vec3.dot, Vec3.add_x, Vec3.add_y, Vec3.add_z]
  ring

theorem Vec3.dot_sub : u.dot (v - w) = u.dot v - u.dot w := by
  simp only [Vec3.dot, Vec3.sub_x, Vec3.sub_y, Vec3.sub_z]
  ring

theorem Vec3.dot_div : u.dot (v / s) = u.dot v / s := by
  simp only [Vec3.dot, Vec3.div_x, Vec3.div_y, Vec3.div_z]
  ring

theorem Vec3.dot_comm : u.dot v = v.dot u := by
  simp only [Vec3.dot]
  ring

theorem Vec3.dot_cross_self : u.dot (v.cross u) = 0 := by
  simp only [Vec3.dot, Vec3.cross]
  ring

theorem Vec3.dot_cross_left : u.dot (u.cross v) = 0 := by
  simp only [Vec3.dot, Vec3.cross]
  ring

end Vectors

namespace Quaternion

section Rotations

variable {K : Type*} [Field K] (p q : Quaternion K) (u v : Vec3 K) (s : K)

@[simp] theorem mul_w : (p * q).w = p.w * q.w - p.x * q.x - p.y * q.y - p.z * q.z := rfl
@[simp] theorem mul_x : (p * q).x = p.w * q.x + p.x * q.w + p.y * q.z - p.z * q.y := rfl
@[simp] theorem mul_y : (p * q).y = p.w * q.y - p.x * q.z + p.y * q.w + p.z * q.x := rfl
@[simp] theorem mul_z : (p * q).z = p.w * q.z + p.x * q.y - p.y * q.x + p.z * q.w := rfl

@[simp] theorem add_w : (p + q).w = p.w + q.w := rfl
@[simp] theorem add_x : (p + q).x = p.x + q.x := rfl
@[simp] theorem add_y : (p + q).y = p.y + q.y := rfl
@[simp] theorem add_z : (p + q).z = p.z + q.z := rfl

@[simp] theorem scale_w : (q * s).w = q.w * s := rfl
@[simp] theorem scale_x : (q * s).x = q.x * s := rfl
@[simp] theorem scale_y : (q * s).y = q.y * s := rfl
@[simp] theorem scale_z : (q * s).z = q.z * s := rfl

def dot : K := p.w * q.w + p.x * q.x + p.y * q.y + p.z * q.z

theorem rotate_add : q.rotate (u + v) = q.rotate u + q.rotate v := by
  ext
  all_goals
    simp only [rotate, mul_w, mul_x, mul_y, mul_z, conjugate, Vec3.add_x, Vec3.add_y, Vec3.add_z]
    ring

theorem rotate_mul : q.rotate (v * s) = q.rotate v * s := by
  ext
  all_goals
    simp only [rotate, mul_w, mul_x, mul_y, mul_z, conjugate, Vec3.mul_x, Vec3.mul_y, Vec3.mul_z]
    ring

theorem inverseRotate_div : q.inverseRotate (v / s) = q.inverseRotate v / s := by
  ext
  all_goals
    simp only [inverseRotate, mul_w, mul_x, mul_y, mul_z, conjugate, Vec3.div_x, Vec3.div_y, Vec3.div_z]
    ring

/-- The two rotations are transposes of each other, whatever the norm. -/
theorem dot_inverseRotate : u.dot (q.inverseRotate v) = (q.rotate u).dot v := by
  simp only [Vec3.dot, inverseRotate, rotate, mul_w, mul_x, mul_y, mul_z, conjugate]
  ring

theorem derivative_zero : q.derivative ⟨0, 0, 0⟩ = ⟨0, 0, 0, 0⟩ := by
  ext
  all_goals
    simp only [derivative, mul_w, mul_x, mul_y, mul_z]
    ring

theorem dot_derivative : q.dot (q.derivative v) = 0 := by
  simp only [dot, derivative, mul_w, mul_x, mul_y, mul_z]
  ring

theorem rotate_inverseRotate_eq : q.rotate (q.inverseRotate v) = v * (q.dot q * q.dot q) := by
  ext
  all_goals
    simp only [rotate, inverseRotate, mul_w, mul_x, mul_y, mul_z, conjugate, dot, Vec3.mul_x, Vec3.mul_y, Vec3.mul_z]
    ring

theorem magnitudeSq_rotate_eq : (q.rotate v).magnitudeSq = v.magnitudeSq * (q.dot q * q.dot q) := by
  simp only [Vec3.magnitudeSq, rotate, mul_w, mul_x, mul_y, mul_z, conjugate, dot]
  ring

theorem magnitudeSq_inverseRotate_eq : (q.inverseRotate v).magnitudeSq = v.magnitudeSq * (q.dot q * q.dot q) := by
  simp only [Vec3.magnitudeSq, inverseRotate, mul_w, mul_x, mul_y, mul_z, conjugate, dot]
  ring

end Rotations

section Unit

variable {K : Type*} [Field K] [LinearOrder K] [IsStrictOrderedRing K] [Cmath K] {q : Quaternion K}

theorem normalized_unit (hq : q.norm = 1) : q.normalized = q := by
  have htiny : ¬(1 : K) < 1e-12 := by norm_num
  simp only [normalized, hq, if_neg htiny, div_one]

variable [ExactCmath K]

theorem dot_self (hq : q.norm = 1) : q.dot q = 1 := q.norm_eq_one_iff.mp hq

theorem rotate_inverseRotate (hq : q.norm = 1) (v : Vec3 K) : q.rotate (q.inverseRotate v) = v := by
  rw [rotate_inverseRotate_eq, dot_self hq]
  ext <;> simp

theorem magnitudeSq_rotate (hq : q.norm = 1) (v : Vec3 K) : (q.rotate v).magnitudeSq = v.magnitudeSq := by
  rw [magnitudeSq_rotate_eq, dot_self hq, mul_one, mul_one]

theorem magnitudeSq_inverseRotate (hq : q.norm = 1) (v : Vec3 K) :
    (q.inverseRotate v).magnitudeSq = v.magnitudeSq := by
  rw [magnitudeSq_inverseRotate_eq, dot_self hq, mul_one, mul_one]

end Unit

end Quaternion

section Magnitude

variable {K : Type*} [Field K] [LinearOrder K] [IsStrictOrderedRing K]

theorem Vec3.magnitudeSq_nonneg (v : Vec3 K) : 0 ≤ v.magnitudeSq :=
  add_nonneg (add_nonneg (mul_self_nonneg _) (mul_self_nonneg _)) (mul_self_nonneg _)

theorem Vec3.magnitudeSq_level (v : Vec3 K) : ({ v with z := 0 } : Vec3 K).magnitudeSq ≤ v.magnitudeSq := by
  simp only [Vec3.magnitudeSq, mul_zero, add_zero]
  exact le_add_of_nonneg_right (mul_self_nonneg _)

variable [Cmath K] [ExactCmath K]

theorem Vec3.magnitude_le {u v : Vec3 K} (h : u.magnitudeSq ≤ v.magnitudeSq) : u.magnitude ≤ v.magnitude := by
  apply (mul_self_le_mul_self_iff (ExactCmath.sqrt_nonneg _) (ExactCmath.sqrt_nonneg _)).mpr
  rwa [ExactCmath.sqrt_mul_self _ u.magnitudeSq_nonneg, ExactCmath.sqrt_mul_self _ v.magnitudeSq_nonneg]

end Magnitude

end Klett.Luft

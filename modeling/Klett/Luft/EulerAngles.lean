import Klett.Luft.Aerodynamics

namespace Klett.Luft

open Cmath

namespace Quaternion

/-- What the three angles say of the body axes. -/
structure HasEuler (q : Quaternion ℝ) (roll pitch yaw : ℝ) : Prop where
  sinRoll : 2 * (q.w * q.x + q.y * q.z) = Real.sin roll * Real.cos pitch
  cosRoll : 1 - 2 * (q.x * q.x + q.y * q.y) = Real.cos roll * Real.cos pitch
  sinPitch : 2 * (q.w * q.y - q.z * q.x) = Real.sin pitch
  sinYaw : 2 * (q.w * q.z + q.x * q.y) = Real.sin yaw * Real.cos pitch
  cosYaw : 1 - 2 * (q.y * q.y + q.z * q.z) = Real.cos yaw * Real.cos pitch

theorem half_angle (a : ℝ) : Real.sin (a * 0.5) * Real.sin (a * 0.5) + Real.cos (a * 0.5) * Real.cos (a * 0.5) = 1 ∧
    Real.sin a = 2 * Real.sin (a * 0.5) * Real.cos (a * 0.5) ∧
    Real.cos a = Real.cos (a * 0.5) * Real.cos (a * 0.5) - Real.sin (a * 0.5) * Real.sin (a * 0.5) := by
  have hdouble : a = 2 * (a * 0.5) := by
    have hhalf : (0.5 : ℝ) = 1 / 2 := by norm_num
    rw [hhalf]
    ring
  refine ⟨ExactCmath.sin_sq_add_cos_sq (a * 0.5), ?_, ?_⟩
  · rw [← Real.sin_two_mul, ← hdouble]
  · rw [← sq, ← sq, ← Real.cos_two_mul', ← hdouble]

theorem hasEuler_fromEuler (roll pitch yaw : ℝ) : (fromEuler roll pitch yaw).HasEuler roll pitch yaw := by
  obtain ⟨hroll, hsinRoll, hcosRoll⟩ := half_angle roll
  obtain ⟨hpitch, hsinPitch, hcosPitch⟩ := half_angle pitch
  obtain ⟨hyaw, hsinYaw, hcosYaw⟩ := half_angle yaw
  have hq : fromEuler roll pitch yaw =
      let cr := Real.cos (roll * 0.5)
      let sr := Real.sin (roll * 0.5)
      let cp := Real.cos (pitch * 0.5)
      let sp := Real.sin (pitch * 0.5)
      let cy := Real.cos (yaw * 0.5)
      let sy := Real.sin (yaw * 0.5)
      ⟨cr * cp * cy + sr * sp * sy, sr * cp * cy - cr * sp * sy, cr * sp * cy + sr * cp * sy,
        cr * cp * sy - sr * sp * cy⟩ := rfl
  rw [hq]
  generalize Real.cos (roll * 0.5) = cr at *
  generalize Real.sin (roll * 0.5) = sr at *
  generalize Real.cos (pitch * 0.5) = cp at *
  generalize Real.sin (pitch * 0.5) = sp at *
  generalize Real.cos (yaw * 0.5) = cy at *
  generalize Real.sin (yaw * 0.5) = sy at *
  constructor
  · rw [hsinRoll, hcosPitch]
    linear_combination (2 * cr * sr * (cp * cp - sp * sp)) * hyaw
  · rw [hcosRoll, hcosPitch]
    linear_combination (-((sp * sp + cp * cp) * (sy * sy + cy * cy))) * hroll + (-(sy * sy + cy * cy)) * hpitch +
      ((cr * cr - sr * sr) * (cp * cp - sp * sp) - 1) * hyaw
  · rw [hsinPitch]
    linear_combination (2 * cp * sp * (sy * sy + cy * cy)) * hroll + (2 * cp * sp) * hyaw
  · rw [hsinYaw, hcosPitch]
    linear_combination (2 * cy * sy * (cp * cp - sp * sp)) * hroll
  · rw [hcosYaw, hcosPitch]
    linear_combination ((cy * cy - sy * sy) * (cp * cp - sp * sp) - (sp * sp + cp * cp) * (sy * sy + cy * cy)) * hroll +
      (-(sy * sy + cy * cy)) * hpitch + (-1) * hyaw

/-- The rows of a rotation are orthogonal, and each is the cross product of the others: one row and one column have
the rest. -/
theorem direction_cosines {w x y z a b s d e : ℝ} (ha : 2 * (w * x + y * z) = a)
    (hb : w * w - x * x - y * y + z * z = b) (hs : 2 * (w * y - z * x) = s) (hd : 2 * (w * z + x * y) = d)
    (he : w * w + x * x - y * y - z * z = e) (hunit : w * w + x * x + y * y + z * z = 1) :
    (a * a + b * b) * (2 * (x * y - w * z)) = a * e * s - b * d ∧
      (a * a + b * b) * (2 * (x * z + w * y)) = a * d + b * e * s ∧
      (a * a + b * b) * (w * w - x * x + y * y - z * z) = b * e + a * d * s ∧
      (a * a + b * b) * (2 * (y * z - w * x)) = b * d * s - a * e := by
  rw [← ha, ← hb, ← hs, ← hd, ← he]
  refine ⟨?_, ?_, ?_, ?_⟩
  · linear_combination (-(w * w - x * x - y * y + z * z) * (2 * (w * z + x * y))) * hunit
  · linear_combination (2 * (w * x + y * z) * (2 * (w * z + x * y))) * hunit
  · linear_combination ((w * w - x * x - y * y + z * z) * (w * w + x * x - y * y - z * z)) * hunit
  · linear_combination (-(2 * (w * x + y * z)) * (w * w + x * x - y * y - z * z)) * hunit

variable {q : Quaternion ℝ} {roll pitch yaw : ℝ}

/-- The attitude is a yaw, a pitch and a roll, one after the other. -/
theorem HasEuler.rotate (h : q.HasEuler roll pitch yaw) (hunit : q.norm = 1) (hpitch : Real.cos pitch ≠ 0)
    (v : Vec3 ℝ) : q.rotate v =
      let sr := Real.sin roll
      let cr := Real.cos roll
      let sp := Real.sin pitch
      let cp := Real.cos pitch
      let sy := Real.sin yaw
      let cy := Real.cos yaw
      { x := cp * cy * v.x + (sr * sp * cy - cr * sy) * v.y + (cr * sp * cy + sr * sy) * v.z
        y := cp * sy * v.x + (sr * sp * sy + cr * cy) * v.y + (cr * sp * sy - sr * cy) * v.z
        z := -sp * v.x + sr * cp * v.y + cr * cp * v.z } := by
  have hnorm := q.norm_eq_one_iff.mp hunit
  have hcircle := ExactCmath.sin_sq_add_cos_sq roll
  change Real.sin roll * Real.sin roll + Real.cos roll * Real.cos roll = 1 at hcircle
  obtain ⟨hsinRoll, hcosRoll, hsinPitch, hsinYaw, hcosYaw⟩ := h
  have hsquare : Real.cos pitch * Real.cos pitch ≠ 0 := mul_ne_zero hpitch hpitch
  generalize Real.sin roll = sr at *
  generalize Real.cos roll = cr at *
  generalize Real.sin pitch = sp at *
  generalize Real.cos pitch = cp at *
  generalize Real.sin yaw = sy at *
  generalize Real.cos yaw = cy at *
  obtain ⟨w, x, y, z⟩ := q
  dsimp only at hnorm hsinRoll hcosRoll hsinPitch hsinYaw hcosYaw
  have hrow : (sr * cp) * (sr * cp) + (cr * cp) * (cr * cp) = cp * cp := by
    linear_combination (cp * cp) * hcircle
  have hxx : w * w + x * x - y * y - z * z = cy * cp := by linear_combination hcosYaw + hnorm
  have hzz : w * w - x * x - y * y + z * z = cr * cp := by linear_combination hcosRoll + hnorm
  obtain ⟨h12, h13, h22, h23⟩ := direction_cosines hsinRoll hzz hsinPitch hsinYaw hxx hnorm
  rw [hrow] at h12 h13 h22 h23
  have hxy : 2 * (x * y - w * z) = sr * sp * cy - cr * sy := by
    apply mul_left_cancel₀ hsquare
    linear_combination h12
  have hxz : 2 * (x * z + w * y) = cr * sp * cy + sr * sy := by
    apply mul_left_cancel₀ hsquare
    linear_combination h13
  have hyy : w * w - x * x + y * y - z * z = sr * sp * sy + cr * cy := by
    apply mul_left_cancel₀ hsquare
    linear_combination h22
  have hyz : 2 * (y * z - w * x) = cr * sp * sy - sr * cy := by
    apply mul_left_cancel₀ hsquare
    linear_combination h23
  ext
  all_goals simp only [Quaternion.rotate, mul_w, mul_x, mul_y, mul_z, conjugate]
  · linear_combination v.x * hxx + v.y * hxy + v.z * hxz
  · linear_combination v.x * hsinYaw + v.y * hyy + v.z * hyz
  · linear_combination (-v.x) * hsinPitch + v.y * hsinRoll + v.z * hzz

theorem atan2_mul {a c : ℝ} (hc : 0 < c) (ha : a ∈ Set.Ioc (-Real.pi) Real.pi) :
    atan2 (Real.sin a * c) (Real.cos a * c) = a := by
  have hpolar : (⟨Real.cos a * c, Real.sin a * c⟩ : ℂ) = c * (Complex.cos a + Complex.sin a * Complex.I) := by
    rw [← Complex.ofReal_cos, ← Complex.ofReal_sin]
    apply Complex.ext
    · simp only [Complex.mul_re, Complex.add_re, Complex.ofReal_re, Complex.ofReal_im, Complex.I_re, Complex.I_im,
        Complex.add_im, Complex.mul_im]
      ring
    · simp only [Complex.mul_re, Complex.add_re, Complex.ofReal_re, Complex.ofReal_im, Complex.I_re, Complex.I_im,
        Complex.add_im, Complex.mul_im]
      ring
  change Complex.arg ⟨Real.cos a * c, Real.sin a * c⟩ = a
  rw [hpolar, Complex.arg_mul_cos_add_sin_mul_I hc ha]

/-- The legs of a right triangle whose hypotenuse is the cosine of an angle that is known by its sine. -/
theorem polar_arcsin {a b s : ℝ} (h : b * b + a * a = 1 - s ^ 2) :
    a = Real.sin (atan2 a b) * Real.cos (Real.arcsin s) ∧ b = Real.cos (atan2 a b) * Real.cos (Real.arcsin s) := by
  have hroot : sqrt (b * b + a * a) = Real.cos (Real.arcsin s) := by
    change √(b * b + a * a) = _
    rw [h, Real.cos_arcsin]
  have hx := ExactAngles.sqrt_mul_cos_atan2 a b
  have hy := ExactAngles.sqrt_mul_sin_atan2 a b
  rw [hroot, mul_comm] at hx hy
  exact ⟨hy.symm, hx.symm⟩

theorem toEuler_eq (q : Quaternion ℝ) (hlevel : |2 * (q.w * q.y - q.z * q.x)| < 1) : q.toEuler =
    ⟨atan2 (2 * (q.w * q.x + q.y * q.z)) (1 - 2 * (q.x * q.x + q.y * q.y)),
      Real.arcsin (2 * (q.w * q.y - q.z * q.x)),
      atan2 (2 * (q.w * q.z + q.x * q.y)) (1 - 2 * (q.y * q.y + q.z * q.z))⟩ := by
  have hone : (1.0 : ℝ) = 1 := by norm_num
  have htwo : (2.0 : ℝ) = 2 := by norm_num
  simp only [toEuler, hone, htwo, if_neg (not_le.mpr hlevel)]
  rfl

theorem HasEuler.toEuler (h : q.HasEuler roll pitch yaw) (hroll : roll ∈ Set.Ioc (-Real.pi) Real.pi)
    (hpitch : |pitch| < Real.pi / 2) (hyaw : yaw ∈ Set.Ioc (-Real.pi) Real.pi) : q.toEuler = ⟨roll, pitch, yaw⟩ := by
  obtain ⟨hlow, hhigh⟩ := abs_lt.mp hpitch
  have hcos : 0 < Real.cos pitch := Real.cos_pos_of_mem_Ioo ⟨hlow, hhigh⟩
  have hlevel : |2 * (q.w * q.y - q.z * q.x)| < 1 := by
    rw [h.sinPitch, ← sq_lt_one_iff_abs_lt_one]
    have hcircle := Real.sin_sq_add_cos_sq pitch
    have hsquare : 0 < Real.cos pitch ^ 2 := by positivity
    linarith
  rw [toEuler_eq q hlevel, h.sinRoll, h.cosRoll, h.sinPitch, h.sinYaw, h.cosYaw, atan2_mul hcos hroll,
    atan2_mul hcos hyaw, Real.arcsin_sin hlow.le hhigh.le]

theorem hasEuler_toEuler (hunit : q.norm = 1) (hlevel : |2 * (q.w * q.y - q.z * q.x)| < 1) :
    q.HasEuler q.toEuler.x q.toEuler.y q.toEuler.z ∧ Real.cos q.toEuler.y ≠ 0 := by
  have hnorm := q.norm_eq_one_iff.mp hunit
  obtain ⟨hlow, hhigh⟩ := abs_lt.mp hlevel
  rw [toEuler_eq q hlevel]
  dsimp only
  have hsin := Real.sin_arcsin hlow.le hhigh.le
  have hroll : (1 - 2 * (q.x * q.x + q.y * q.y)) * (1 - 2 * (q.x * q.x + q.y * q.y)) +
      2 * (q.w * q.x + q.y * q.z) * (2 * (q.w * q.x + q.y * q.z)) = 1 - (2 * (q.w * q.y - q.z * q.x)) ^ 2 := by
    linear_combination (4 * (q.x * q.x + q.y * q.y)) * hnorm
  have hyaw : (1 - 2 * (q.y * q.y + q.z * q.z)) * (1 - 2 * (q.y * q.y + q.z * q.z)) +
      2 * (q.w * q.z + q.x * q.y) * (2 * (q.w * q.z + q.x * q.y)) = 1 - (2 * (q.w * q.y - q.z * q.x)) ^ 2 := by
    linear_combination (4 * (q.y * q.y + q.z * q.z)) * hnorm
  obtain ⟨hsinRoll, hcosRoll⟩ := polar_arcsin hroll
  obtain ⟨hsinYaw, hcosYaw⟩ := polar_arcsin hyaw
  constructor
  · exact ⟨hsinRoll, hcosRoll, hsin.symm, hsinYaw, hcosYaw⟩
  · rw [Real.cos_arcsin]
    apply Real.sqrt_ne_zero'.mpr
    nlinarith

/-- Angles short of the vertical are read back as they were, and what is read from an attitude describes it. -/
theorem euler_roundTrip :
    (∀ roll pitch yaw : ℝ, roll ∈ Set.Ioc (-Real.pi) Real.pi → |pitch| < Real.pi / 2 →
      yaw ∈ Set.Ioc (-Real.pi) Real.pi → (fromEuler roll pitch yaw).toEuler = ⟨roll, pitch, yaw⟩) ∧
    ∀ q : Quaternion ℝ, q.norm = 1 → |2 * (q.w * q.y - q.z * q.x)| < 1 → ∀ v,
      (fromEuler q.toEuler.x q.toEuler.y q.toEuler.z).rotate v = q.rotate v := by
  constructor
  · intro roll pitch yaw
    exact (hasEuler_fromEuler roll pitch yaw).toEuler
  · intro q hunit hlevel v
    obtain ⟨heuler, hcos⟩ := hasEuler_toEuler hunit hlevel
    rw [heuler.rotate hunit hcos, (hasEuler_fromEuler _ _ _).rotate (norm_fromEuler _ _ _) hcos]

theorem euler_roundTrip_rolled : (fromEuler 1 (-1 / 2) 1 : Quaternion ℝ).toEuler = ⟨1, -1 / 2, 1⟩ ∧
    ∀ v, let q : Quaternion ℝ := ⟨3 / 5, 4 / 5, 0, 0⟩
      (fromEuler q.toEuler.x q.toEuler.y q.toEuler.z).rotate v = q.rotate v := by
  have hpi := Real.two_le_pi
  have hangle : (1 : ℝ) ∈ Set.Ioc (-Real.pi) Real.pi := by
    constructor
    · linarith
    · linarith
  have hlevel : |(-1 / 2 : ℝ)| < Real.pi / 2 := by
    rw [abs_lt]
    constructor
    · linarith
    · linarith
  constructor
  · exact euler_roundTrip.1 1 (-1 / 2) 1 hangle hlevel hangle
  · apply euler_roundTrip.2
    · rw [norm_eq_one_iff]
      norm_num
    · norm_num

end Quaternion

end Klett.Luft

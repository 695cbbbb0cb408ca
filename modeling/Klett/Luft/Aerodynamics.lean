import Klett.Luft.FlightLaws

namespace Klett.Luft

open Klett.Lib Cmath

section Models

variable {K : Type*}

/-- The geometry, the stability derivatives and the deflections of the control surfaces of the aircraft. -/
structure AeroParams (K : Type*) where
  wingArea : K
  wingSpan : K
  meanChord : K
  CL0 : K
  CLa : K
  CLde : K
  CLq : K
  CLdf : K
  CD0 : K
  CDiK : K
  Cm0 : K
  Cma : K
  Cmde : K
  Cmq : K
  Cmdf : K
  Cyb : K
  Cydr : K
  Clb : K
  Clp : K
  Clr : K
  Clda : K
  Cldr : K
  Cnb : K
  Cnp : K
  Cnr : K
  Cnda : K
  Cndr : K
  maxElevator : K
  maxAileron : K
  maxRudder : K
  maxFlap : K

variable [Field K]

def AeroParams.default : AeroParams K where
  wingArea := 16.2
  wingSpan := 11.0
  meanChord := 1.49
  CL0 := 0.307
  CLa := 4.73
  CLde := 0.43
  CLq := 3.9
  CLdf := 0.8
  CD0 := 0.027
  CDiK := 0.054
  Cm0 := 0.04
  Cma := -0.613
  Cmde := -1.122
  Cmq := -12.4
  Cmdf := -0.1
  Cyb := -0.31
  Cydr := 0.187
  Clb := -0.089
  Clp := -0.47
  Clr := 0.096
  Clda := -0.178
  Cldr := 0.0147
  Cnb := 0.065
  Cnp := -0.03
  Cnr := -0.099
  Cnda := 0.02
  Cndr := -0.074
  maxElevator := 28.0 * kDegToRad
  maxAileron := 20.0 * kDegToRad
  maxRudder := 16.0 * kDegToRad
  maxFlap := 40.0 * kDegToRad

variable [LinearOrder K] [Cmath K]

/-- The air density is not used. -/
def Aerodynamics.compute (aero : AeroParams K) (state : AircraftState K) (_params : AircraftParams K)
    (input : ControlInput K) (_airDensity : K) : ForcesAndMoments K :=
  let V := state.airspeed
  if V < 1.0 then { force := ⟨0.0, 0.0, 0.0⟩, moment := ⟨0.0, 0.0, 0.0⟩ }
  else
    let alpha := state.alpha
    let beta := state.beta
    let qbar := state.dynamicPressure
    let S := aero.wingArea
    let b := aero.wingSpan
    let c := aero.meanChord
    let deltaE := input.elevator * aero.maxElevator
    let deltaA := input.aileron * aero.maxAileron
    let deltaR := input.rudder * aero.maxRudder
    let deltaF := input.flaps * aero.maxFlap
    let p := state.angularVelocity.x
    let q := state.angularVelocity.y
    let r := state.angularVelocity.z
    let inv2V := 1.0 / (2.0 * V)
    let pHat := p * b * inv2V
    let qHat := q * c * inv2V
    let rHat := r * b * inv2V
    let CL := aero.CL0 + aero.CLa * alpha + aero.CLde * deltaE + aero.CLq * qHat + aero.CLdf * deltaF
    let CD := aero.CD0 + aero.CDiK * CL * CL
    let CY := aero.Cyb * beta + aero.Cydr * deltaR
    let Cl := aero.Clb * beta + aero.Clp * pHat + aero.Clr * rHat + aero.Clda * deltaA + aero.Cldr * deltaR
    let Cm := aero.Cm0 + aero.Cma * alpha + aero.Cmde * deltaE + aero.Cmq * qHat + aero.Cmdf * deltaF
    let Cn := aero.Cnb * beta + aero.Cnp * pHat + aero.Cnr * rHat + aero.Cnda * deltaA + aero.Cndr * deltaR
    let L := qbar * S * CL
    let D := qbar * S * CD
    let cosA := cos alpha
    let sinA := sin alpha
    { force := ⟨-D * cosA + L * sinA, qbar * S * CY, -D * sinA - L * cosA⟩
      moment := ⟨qbar * S * b * Cl, qbar * S * c * Cm, qbar * S * b * Cn⟩ }

/-- What the identities of the plane's polar coordinates need of the functions of the standard library. -/
class ExactAngles (K : Type*) [Field K] [LinearOrder K] [Cmath K] : Prop where
  sqrt_mul_cos_atan2 (y x : K) : sqrt (x * x + y * y) * cos (atan2 y x) = x
  sqrt_mul_sin_atan2 (y x : K) : sqrt (x * x + y * y) * sin (atan2 y x) = y
  mul_asin_nonneg (x : K) : -1 ≤ x → x ≤ 1 → 0 ≤ x * asin x

/-- Drag slows the aircraft down, and the side force works against a sideslip. -/
structure AeroParams.Damping [Field K] [LinearOrder K] (aero : AeroParams K) : Prop where
  wingArea : 0 ≤ aero.wingArea
  parasite : 0 ≤ aero.CD0
  induced : 0 ≤ aero.CDiK
  sideslip : aero.Cyb ≤ 0

end Models

section Forces

variable {K : Type*} [Field K] [LinearOrder K] [Cmath K] (aero : AeroParams K) {state : AircraftState K}
  (params : AircraftParams K) {input : ControlInput K} (density : K)

theorem Aerodynamics.force_eq (hfast : 1.0 ≤ state.airspeed) (hrudder : input.rudder = 0) : ∃ CL : K,
    (compute aero state params input density).force =
      { x := -(state.dynamicPressure * aero.wingArea * (aero.CD0 + aero.CDiK * CL * CL)) * cos state.alpha +
          state.dynamicPressure * aero.wingArea * CL * sin state.alpha
        y := state.dynamicPressure * aero.wingArea * (aero.Cyb * state.beta)
        z := -(state.dynamicPressure * aero.wingArea * (aero.CD0 + aero.CDiK * CL * CL)) * sin state.alpha -
          state.dynamicPressure * aero.wingArea * CL * cos state.alpha } := by
  simp only [compute, if_neg hfast.not_gt, hrudder, zero_mul, mul_zero, add_zero]
  exact ⟨_, rfl⟩

theorem Aerodynamics.force_zero [IsStrictOrderedRing K] (hslow : state.airspeed < 1.0 ∨ state.dynamicPressure = 0) :
    (compute aero state params input density).force = ⟨0, 0, 0⟩ := by
  simp only [compute]
  split_ifs with h
  · simp only [zero_literal]
  · have hpressure : state.dynamicPressure = 0 := hslow.resolve_left h
    simp only [hpressure, zero_mul, neg_zero, add_zero, sub_zero]

end Forces

section Power

variable {K : Type*} [Field K] [LinearOrder K] [IsStrictOrderedRing K]

theorem AeroParams.default_damping : (AeroParams.default : AeroParams K).Damping := by
  constructor
  all_goals
    simp only [AeroParams.default]
    norm_num

/-- The lift is across the stream and does no work. -/
theorem wind_frame_power {pressure CD CL CYb beta plane c s : K} {air : Vec3 K} (hx : plane * c = air.x)
    (hz : plane * s = air.z) (hcircle : s * s + c * c = 1) (hpressure : 0 ≤ pressure) (hdrag : 0 ≤ CD)
    (hplane : 0 ≤ plane) (hside : CYb ≤ 0) (hslip : 0 ≤ beta * air.y) :
    Vec3.dot { x := -(pressure * CD) * c + pressure * CL * s
               y := pressure * (CYb * beta)
               z := -(pressure * CD) * s - pressure * CL * c } air ≤ 0 := by
  have hloss : 0 ≤ pressure * CD * plane := mul_nonneg (mul_nonneg hpressure hdrag) hplane
  have hleft : pressure * (CYb * (beta * air.y)) ≤ 0 :=
    mul_nonpos_of_nonneg_of_nonpos hpressure (mul_nonpos_of_nonpos_of_nonneg hside hslip)
  simp only [Vec3.dot]
  calc (-(pressure * CD) * c + pressure * CL * s) * air.x + pressure * (CYb * beta) * air.y +
        (-(pressure * CD) * s - pressure * CL * c) * air.z
      = -(pressure * CD * plane) + pressure * (CYb * (beta * air.y)) := by
        rw [← hx, ← hz]
        linear_combination (-(pressure * CD * plane)) * hcircle
    _ ≤ 0 := by linarith

variable [Cmath K] [ExactCmath K]

namespace Vec3

theorem div_magnitude_mem {v : Vec3 K} (hpos : 0 < v.magnitude) :
    -1 ≤ v.y / v.magnitude ∧ v.y / v.magnitude ≤ 1 := by
  have hsq : v.magnitude * v.magnitude = v.magnitudeSq := ExactCmath.sqrt_mul_self _ v.magnitudeSq_nonneg
  have hbound : |v.y| ≤ v.magnitude := by
    apply abs_le_of_sq_le_sq _ hpos.le
    rw [sq, sq, hsq, magnitudeSq]
    linarith [mul_self_nonneg v.x, mul_self_nonneg v.z]
  obtain ⟨hlow, hhigh⟩ := abs_le.mp hbound
  constructor
  · rw [le_div_iff₀ hpos]
    linarith
  · rw [div_le_one hpos]
    exact hhigh

variable [ExactAngles K]

/-- The sideslip angle has the sign of the sideslip. -/
theorem sideslip_nonneg {v : Vec3 K} (hpos : 0 < v.magnitude) :
    0 ≤ asin (clamp (v.y / v.magnitude) (-1.0) 1.0) * v.y := by
  obtain ⟨hlow, hhigh⟩ := div_magnitude_mem hpos
  have hclamp : clamp (v.y / v.magnitude) (-1.0) 1.0 = v.y / v.magnitude := by
    norm_num only [clamp]
    rw [if_neg hlow.not_gt, if_neg hhigh.not_gt]
  have hnonneg : 0 ≤ v.y / v.magnitude * asin (v.y / v.magnitude) := ExactAngles.mul_asin_nonneg _ hlow hhigh
  have heq : asin (v.y / v.magnitude) * v.y = v.magnitude * (v.y / v.magnitude * asin (v.y / v.magnitude)) := by
    rw [← mul_assoc, mul_div_cancel₀ _ hpos.ne']
    exact mul_comm _ _
  rw [hclamp, heq]
  exact mul_nonneg hpos.le hnonneg

end Vec3

namespace FlightDynamics

variable [ExactAngles K] {aero : AeroParams K} {state : AircraftState K} {params : AircraftParams K}
  {input : ControlInput K} {density : K} {wind : Vec3 K}

theorem aerodynamic_power (h : aero.Damping) (hrudder : input.rudder = 0) (hdensity : 0 ≤ density) :
    (Aerodynamics.compute aero (aeroState state density wind) params input density).force.dot
      (state.velocityBody - state.orientation.inverseRotate wind) ≤ 0 := by
  let air := state.velocityBody - state.orientation.inverseRotate wind
  change (Aerodynamics.compute aero (aeroState state density wind) params input density).force.dot air ≤ 0
  by_cases hfast : air.magnitude > 1.0
  · have haero : aeroState state density wind = { state with
        airspeed := air.magnitude
        alpha := atan2 air.z air.x
        beta := asin (clamp (air.y / air.magnitude) (-1.0) 1.0)
        dynamicPressure := 0.5 * density * air.magnitude * air.magnitude } := if_pos hfast
    have hpos : 0 < air.magnitude := by
      apply lt_trans _ hfast
      norm_num
    have hairspeed : 1.0 ≤ (aeroState state density wind).airspeed := by
      rw [haero]
      exact hfast.le
    obtain ⟨CL, hforce⟩ := Aerodynamics.force_eq aero params density hairspeed hrudder
    have hslip : 0 ≤ (aeroState state density wind).beta * air.y := by
      rw [haero]
      exact Vec3.sideslip_nonneg hpos
    have hpressure : 0 ≤ (aeroState state density wind).dynamicPressure * aero.wingArea := by
      rw [haero]
      have hhalf : (0 : K) ≤ 0.5 := by norm_num
      exact mul_nonneg (mul_nonneg (mul_nonneg (mul_nonneg hhalf hdensity) hpos.le) hpos.le) h.wingArea
    have hx := ExactAngles.sqrt_mul_cos_atan2 air.z air.x
    have hz := ExactAngles.sqrt_mul_sin_atan2 air.z air.x
    have hplane : 0 ≤ sqrt (air.x * air.x + air.z * air.z) := ExactCmath.sqrt_nonneg _
    have hcircle := ExactCmath.sin_sq_add_cos_sq (aeroState state density wind).alpha
    have halpha : (aeroState state density wind).alpha = atan2 air.z air.x := by rw [haero]
    rw [← halpha] at hx hz
    have hdrag : 0 ≤ aero.CD0 + aero.CDiK * CL * CL := by
      rw [mul_assoc]
      exact add_nonneg h.parasite (mul_nonneg h.induced (mul_self_nonneg CL))
    rw [hforce]
    exact wind_frame_power hx hz hcircle hpressure hdrag hplane h.sideslip hslip
  · rw [Aerodynamics.force_zero]
    · simp only [Vec3.dot, zero_mul, add_zero, le_refl]
    · have haero : aeroState state density wind = { state with
          airspeed := air.magnitude, alpha := 0.0, beta := 0.0, dynamicPressure := 0.0 } := if_neg hfast
      right
      rw [haero, zero_literal]

/-- The kinetic energy relative to a steady wind, whose components in the body frame turn with `-omega`, is gained from
the engine and from the descent through the air at most. -/
theorem airborne_energy (h : aero.Damping) (hrudder : input.rudder = 0) (hdensity : 0 ≤ density)
    (hmass : 0 < state.totalMass params) :
    let m := state.totalMass params
    let windBody := state.orientation.inverseRotate wind
    let air := state.velocityBody - windBody
    let d := computeDerivatives (Aerodynamics.compute aero) state params input density wind
    m * air.dot (d.velocityBodyDot + state.angularVelocity.cross windBody) ≤
      state.thrustCurrent * air.x + m * kGravity * (state.orientation.rotate air).z := by
  intro m windBody air d
  let force := (Aerodynamics.compute aero (aeroState state density wind) params input density).force
  have hpower : force.dot air ≤ 0 := aerodynamic_power h hrudder hdensity
  have hgravity : air.dot (state.orientation.inverseRotate ⟨0, 0, m * kGravity⟩) =
      m * kGravity * (state.orientation.rotate air).z := by
    rw [Quaternion.dot_inverseRotate]
    simp only [Vec3.dot, mul_zero, zero_add]
    exact mul_comm _ _
  have hthrust : air.dot ⟨state.thrustCurrent, 0, 0⟩ = state.thrustCurrent * air.x := by
    simp only [Vec3.dot, mul_zero, add_zero]
    exact mul_comm _ _
  have hturn : air.dot (state.angularVelocity.cross state.velocityBody) =
      air.dot (state.angularVelocity.cross windBody) := by
    simp only [air, Vec3.dot, Vec3.cross, Vec3.sub_x, Vec3.sub_y, Vec3.sub_z]
    ring
  calc m * air.dot (d.velocityBodyDot + state.angularVelocity.cross windBody)
      = air.dot (force + ⟨state.thrustCurrent, 0, 0⟩ + state.orientation.inverseRotate ⟨0, 0, m * kGravity⟩) := by
        rw [velocityBodyDot_eq, Vec3.dot_add, Vec3.dot_sub, hturn, sub_add_cancel, Vec3.dot_div,
          mul_div_cancel₀ _ hmass.ne', zero_literal]
    _ = force.dot air + state.thrustCurrent * air.x + m * kGravity * (state.orientation.rotate air).z := by
        rw [Vec3.dot_add, Vec3.dot_add, hgravity, hthrust, Vec3.dot_comm]
    _ ≤ state.thrustCurrent * air.x + m * kGravity * (state.orientation.rotate air).z := by linarith

end FlightDynamics

end Power

section Reals

open FlightDynamics

instance instExactAnglesReal : ExactAngles ℝ where
  sqrt_mul_cos_atan2 y x := by
    change √(x * x + y * y) * Real.cos (Complex.arg ⟨x, y⟩) = x
    rw [← Complex.normSq_mk, ← Complex.norm_def, Complex.norm_mul_cos_arg]
  sqrt_mul_sin_atan2 y x := by
    change √(x * x + y * y) * Real.sin (Complex.arg ⟨x, y⟩) = y
    rw [← Complex.normSq_mk, ← Complex.norm_def, Complex.norm_mul_sin_arg]
  mul_asin_nonneg x _ _ := by
    change 0 ≤ x * Real.arcsin x
    rcases le_total 0 x with hx | hx
    · exact mul_nonneg hx (Real.arcsin_nonneg.mpr hx)
    · exact mul_nonneg_of_nonpos_of_nonpos hx (Real.arcsin_nonpos.mpr hx)

theorem airborne_energy_banked :
    let m := bankedState.totalMass AircraftParams.default
    let windBody := bankedState.orientation.inverseRotate ⟨5, 1, 0⟩
    let air := bankedState.velocityBody - windBody
    let d := computeDerivatives (Aerodynamics.compute AeroParams.default) bankedState AircraftParams.default
      ControlInput.neutral 1.225 ⟨5, 1, 0⟩
    m * air.dot (d.velocityBodyDot + bankedState.angularVelocity.cross windBody) ≤
      bankedState.thrustCurrent * air.x + m * kGravity * (bankedState.orientation.rotate air).z :=
  airborne_energy AeroParams.default_damping rfl (by norm_num)
    (by norm_num [AircraftState.totalMass, bankedState, AircraftParams.default])

end Reals

end Klett.Luft

import Klett.Luft.FlightInvariant
import Klett.Luft.Rotations

namespace Klett.Luft

open Klett.Lib Cmath

section Definitions

variable {K : Type*} [Field K] [LinearOrder K] [Cmath K]

/-- The inertia matrix, its off-diagonal entry being `-Ixz`, applied to a vector. -/
def AircraftParams.inertia (params : AircraftParams K) (w : Vec3 K) : Vec3 K where
  x := params.Ixx * w.x - params.Ixz * w.z
  y := params.Iyy * w.y
  z := params.Izz * w.z - params.Ixz * w.x

namespace FlightDynamics

/-- What the aerodynamic model is given. -/
def aeroState (state : AircraftState K) (density : K) (wind : Vec3 K) : AircraftState K :=
  let windBody := state.orientation.inverseRotate wind
  let airVel := state.velocityBody - windBody
  let V := airVel.magnitude
  if V > 1.0 then
    { state with
      airspeed := V
      alpha := atan2 airVel.z airVel.x
      beta := asin (clamp (airVel.y / V) (-1.0) 1.0)
      dynamicPressure := 0.5 * density * V * V }
  else { state with airspeed := V, alpha := 0.0, beta := 0.0, dynamicPressure := 0.0 }

def integrateWith (derivatives : AircraftState K → StateDerivatives K) (start : AircraftState K) (dt : K) :
    AircraftState K :=
  let k1 := derivatives start
  let k2 := derivatives (applyStep start k1 (dt * 0.5))
  let k3 := derivatives (applyStep start k2 (dt * 0.5))
  let k4 := derivatives (applyStep start k3 dt)
  applyStep start (combine k1 k2 k3 k4) (dt / 6.0)

def updateWith (derivatives : AircraftState K → StateDerivatives K) (state : AircraftState K)
    (params : AircraftParams K) (input : ControlInput K) (density : K) (wind : Vec3 K) (dt : K) : AircraftState K :=
  let state := burn state params input density dt
  let state := integrateWith derivatives state dt
  let state := groundContact state
  deriveAirData state density wind

variable (aero : AircraftState K → AircraftParams K → ControlInput K → K → ForcesAndMoments K)
  (state : AircraftState K) (params : AircraftParams K) (input : ControlInput K) (density : K) (wind : Vec3 K) (dt : K)

theorem integrate_eq : integrate aero state params input density wind dt =
    integrateWith (fun state => computeDerivatives aero state params input density wind) state dt := rfl

theorem update_eq : update aero state params input density wind dt =
    updateWith (fun state => computeDerivatives aero state params input density wind) state params input density wind
      dt := rfl

end FlightDynamics

end Definitions

section Energy

variable {K : Type*} [Field K] [LinearOrder K] [IsStrictOrderedRing K] [Cmath K]
  (aero : AircraftState K → AircraftParams K → ControlInput K → K → ForcesAndMoments K)
  (state : AircraftState K) (params : AircraftParams K) (input : ControlInput K) (density : K) (wind : Vec3 K)

namespace FlightDynamics

omit [IsStrictOrderedRing K] in
theorem velocityBodyDot_eq :
    (computeDerivatives aero state params input density wind).velocityBodyDot =
      ((aero (aeroState state density wind) params input density).force + ⟨state.thrustCurrent, 0.0, 0.0⟩ +
          state.orientation.inverseRotate ⟨0.0, 0.0, state.totalMass params * kGravity⟩) / state.totalMass params -
        state.angularVelocity.cross state.velocityBody := rfl

variable {params}

/-- The inverse written out in the source is the inverse of the inertia matrix. -/
theorem inertia_omegaDot (hyy : params.Iyy ≠ 0)
    (hdet : 1e-12 ≤ |params.Ixx * params.Izz - params.Ixz * params.Ixz|) :
    params.inertia (computeDerivatives aero state params input density wind).omegaDot =
      (aero (aeroState state density wind) params input density).moment -
        state.angularVelocity.cross (params.inertia state.angularVelocity) := by
  let det := params.Ixx * params.Izz - params.Ixz * params.Ixz
  let rhs := (aero (aeroState state density wind) params input density).moment -
    state.angularVelocity.cross (params.inertia state.angularVelocity)
  have homegaDot : (computeDerivatives aero state params input density wind).omegaDot =
      { x := 1.0 / det * (params.Izz * rhs.x + params.Ixz * rhs.z)
        y := rhs.y / params.Iyy
        z := 1.0 / det * (params.Ixz * rhs.x + params.Ixx * rhs.z) } := by
    simp only [computeDerivatives, if_neg (not_lt.mpr hdet)]
    rfl
  have hne : det ≠ 0 := by
    intro hzero
    rw [show params.Ixx * params.Izz - params.Ixz * params.Ixz = 0 from hzero, abs_zero] at hdet
    norm_num at hdet
  have hinv : det * (1.0 / det) = 1 := by
    rw [mul_div_cancel₀ _ hne]
    norm_num
  change _ = rhs
  rw [homegaDot]
  generalize 1.0 / det = invDet at hinv
  ext
  · simp only [AircraftParams.inertia]
    linear_combination rhs.x * hinv
  · exact mul_div_cancel₀ _ hyy
  · simp only [AircraftParams.inertia]
    linear_combination rhs.z * hinv

theorem energy_balance (hmass : state.totalMass params ≠ 0) (hyy : params.Iyy ≠ 0)
    (hdet : 1e-12 ≤ |params.Ixx * params.Izz - params.Ixz * params.Ixz|) :
    let m := state.totalMass params
    let v := state.velocityBody
    let w := state.angularVelocity
    let fm := aero (aeroState state density wind) params input density
    let d := computeDerivatives aero state params input density wind
    m * v.dot d.velocityBodyDot + w.dot (params.inertia d.omegaDot) =
        (fm.force + ⟨state.thrustCurrent, 0, 0⟩).dot v + fm.moment.dot w + m * kGravity * d.positionDot.z ∧
      state.orientation.dot d.orientationDot = 0 := by
  intro m v w fm d
  have hrotation : w.dot (params.inertia d.omegaDot) = fm.moment.dot w := by
    rw [inertia_omegaDot aero state input density wind hyy hdet, Vec3.dot_sub, Vec3.dot_cross_left, sub_zero,
      Vec3.dot_comm]
  have hgravity : v.dot (state.orientation.inverseRotate ⟨0, 0, m * kGravity⟩) = m * kGravity * d.positionDot.z := by
    rw [Quaternion.dot_inverseRotate]
    simp only [Vec3.dot, mul_zero, zero_add]
    exact mul_comm _ _
  have htranslation : m * v.dot d.velocityBodyDot =
      (fm.force + ⟨state.thrustCurrent, 0, 0⟩).dot v + m * kGravity * d.positionDot.z := by
    calc m * v.dot d.velocityBodyDot
        = v.dot (fm.force + ⟨state.thrustCurrent, 0, 0⟩ +
            state.orientation.inverseRotate ⟨0, 0, m * kGravity⟩) := by
          rw [velocityBodyDot_eq, Vec3.dot_sub, Vec3.dot_cross_self, sub_zero, Vec3.dot_div,
            mul_div_cancel₀ _ hmass, zero_literal]
      _ = _ := by rw [Vec3.dot_add, hgravity, Vec3.dot_comm v]
  refine ⟨?_, Quaternion.dot_derivative ..⟩
  rw [htranslation, hrotation]
  ring

end FlightDynamics

end Energy

section Ground

variable {K : Type*} [Field K] [LinearOrder K] [IsStrictOrderedRing K]

theorem Vec3.magnitudeSq_raised (v : Vec3 K) :
    (if v.z > 0 then { v with z := 0 } else v).magnitudeSq ≤ v.magnitudeSq := by
  split_ifs
  · exact v.magnitudeSq_level
  · exact le_rfl

namespace FlightDynamics

variable {state : AircraftState K}

theorem groundContact_of_below (hbelow : -state.position.z < 0) :
    let velocityBody := if state.velocityBody.z > 0 then { state.velocityBody with z := 0 } else state.velocityBody
    let velNed := state.orientation.rotate velocityBody
    groundContact state = { state with
      position := { state.position with z := 0 }
      altitudeMsl := 0
      velocityBody :=
        if velNed.z > 0 then state.orientation.inverseRotate { velNed with z := 0 } else velocityBody } := by
  simp only [groundContact, zero_literal, if_pos hbelow]

variable [Cmath K] [ExactCmath K]

theorem groundContact_descent (hunit : state.orientation.norm = 1) (hbelow : -state.position.z < 0) :
    ((groundContact state).orientation.rotate (groundContact state).velocityBody).z ≤ 0 := by
  rw [groundContact_of_below hbelow]
  dsimp only
  split_ifs with hsinks hned hned
  all_goals first
    | exact not_lt.mp hned
    | rw [Quaternion.rotate_inverseRotate hunit]

theorem groundContact_magnitude (hunit : state.orientation.norm = 1) (hbelow : -state.position.z < 0) :
    (groundContact state).velocityBody.magnitude ≤ state.velocityBody.magnitude := by
  apply Vec3.magnitude_le
  rw [groundContact_of_below hbelow]
  dsimp only
  have hbody := state.velocityBody.magnitudeSq_raised
  generalize (if state.velocityBody.z > 0 then { state.velocityBody with z := 0 } else state.velocityBody) = raised
    at hbody ⊢
  split_ifs with hned
  · -- rotating to the world frame and back keeps the length
    calc (state.orientation.inverseRotate { state.orientation.rotate raised with z := 0 }).magnitudeSq
        = ({ state.orientation.rotate raised with z := 0 } : Vec3 K).magnitudeSq :=
          Quaternion.magnitudeSq_inverseRotate hunit _
      _ ≤ (state.orientation.rotate raised).magnitudeSq := Vec3.magnitudeSq_level _
      _ = raised.magnitudeSq := Quaternion.magnitudeSq_rotate hunit _
      _ ≤ state.velocityBody.magnitudeSq := hbody
  · exact hbody

variable (derivatives : AircraftState K → StateDerivatives K) (state : AircraftState K) (params : AircraftParams K)
  (input : ControlInput K) (density : K) (wind : Vec3 K) (dt : K)

theorem ground_contact
    (hbelow : -(integrateWith derivatives (burn state params input density dt) dt).position.z < 0) :
    let integrated := integrateWith derivatives (burn state params input density dt) dt
    let result := updateWith derivatives state params input density wind dt
    result.altitudeMsl = 0 ∧ result.position.z = 0 ∧ (result.orientation.rotate result.velocityBody).z ≤ 0 ∧
      result.velocityBody.magnitude ≤ integrated.velocityBody.magnitude := by
  intro integrated result
  have hunit : integrated.orientation.norm = 1 := Quaternion.norm_normalized _
  have hground := groundContact_of_below hbelow
  refine ⟨?_, ?_, groundContact_descent hunit hbelow, groundContact_magnitude hunit hbelow⟩
  · exact congrArg AircraftState.altitudeMsl hground
  · exact congrArg (·.position.z) hground

end FlightDynamics

end Ground

section Reals

open FlightDynamics

noncomputable def bankedState : AircraftState ℝ where
  position := ⟨0, 0, -100.0⟩
  velocityBody := ⟨50.0, 2.0, 3.0⟩
  orientation := ⟨0.6, 0.8, 0, 0⟩
  angularVelocity := ⟨0.1, 0.2, 0.3⟩
  thrustCurrent := 1000.0
  fuelMass := 100.0
  airspeed := 50.0
  alpha := 0
  beta := 0
  altitudeMsl := 100.0
  dynamicPressure := 0

noncomputable def coupledParams : AircraftParams ℝ := { AircraftParams.default with Ixz := 100.0 }

theorem energy_balance_banked :
    let m := bankedState.totalMass coupledParams
    let v := bankedState.velocityBody
    let w := bankedState.angularVelocity
    let d := computeDerivatives noForces bankedState coupledParams ControlInput.neutral 1.225 ⟨5, 0, 0⟩
    m * v.dot d.velocityBodyDot + w.dot (coupledParams.inertia d.omegaDot) =
        ((⟨0, 0, 0⟩ : Vec3 ℝ) + ⟨1000.0, 0, 0⟩).dot v + (⟨0, 0, 0⟩ : Vec3 ℝ).dot w + m * kGravity * d.positionDot.z ∧
      bankedState.orientation.dot d.orientationDot = 0 :=
  energy_balance noForces bankedState ControlInput.neutral 1.225 ⟨5, 0, 0⟩
    (by norm_num [AircraftState.totalMass, coupledParams, bankedState, AircraftParams.default])
    (by norm_num [coupledParams, AircraftParams.default])
    (by norm_num [coupledParams, AircraftParams.default, abs_of_pos])

def sinking (_ : AircraftState ℝ) : StateDerivatives ℝ := ⟨⟨50.0, 0, 200.0⟩, ⟨0, 0, 0⟩, ⟨0, 0, 0, 0⟩, ⟨0, 0, 0⟩⟩

theorem ground_contact_banked :
    let integrated := integrateWith sinking
      (burn bankedState AircraftParams.default ControlInput.neutral 1.225 1) 1
    let result := updateWith sinking bankedState AircraftParams.default ControlInput.neutral 1.225 ⟨5, 0, 0⟩ 1
    result.altitudeMsl = 0 ∧ result.position.z = 0 ∧ (result.orientation.rotate result.velocityBody).z ≤ 0 ∧
      result.velocityBody.magnitude ≤ integrated.velocityBody.magnitude := by
  apply ground_contact
  have hposition : (burn bankedState AircraftParams.default ControlInput.neutral 1.225 1).position = ⟨0, 0, -100.0⟩ := by
    simp only [burn]
    split_ifs <;> rfl
  simp only [integrateWith, applyStep, combine, sinking, hposition, Vec3.add_z, Vec3.mul_z]
  norm_num

end Reals

end Klett.Luft

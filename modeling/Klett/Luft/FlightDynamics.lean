import Klett.Luft.MathTypes
import Klett.Luft.SimulationEngine

namespace Klett.Luft

open Klett.Lib Cmath

section Data

variable (K : Type*)

structure AircraftParams where
  emptyMass : K
  Ixx : K
  Iyy : K
  Izz : K
  Ixz : K
  maxThrust : K
  idleThrustFrac : K
  engineSpoolTau : K
  sfc : K

structure AircraftState where
  position : Vec3 K
  velocityBody : Vec3 K
  orientation : Quaternion K
  angularVelocity : Vec3 K
  thrustCurrent : K
  fuelMass : K
  airspeed : K
  alpha : K
  beta : K
  altitudeMsl : K
  dynamicPressure : K

structure ForcesAndMoments where
  force : Vec3 K
  moment : Vec3 K

structure EngineState where
  thrust : K
  fuelFlowRate : K

@[ext]
structure StateDerivatives where
  positionDot : Vec3 K
  velocityBodyDot : Vec3 K
  orientationDot : Quaternion K
  omegaDot : Vec3 K

end Data

section Models

variable {K : Type*} [Field K]

def AircraftParams.default : AircraftParams K where
  emptyMass := 757.0
  Ixx := 1285.3
  Iyy := 1824.9
  Izz := 2666.9
  Ixz := 0.0
  maxThrust := 2400.0
  idleThrustFrac := 0.03
  engineSpoolTau := 1.0
  sfc := 0.00008

def AircraftState.totalMass (state : AircraftState K) (params : AircraftParams K) : K :=
  params.emptyMass + state.fuelMass

variable [LinearOrder K]

/-- `EngineModel::update`; the airspeed is not used. -/
def EngineModel.update (throttleCommand currentThrust _airspeed airDensity : K) (params : AircraftParams K) (dt : K) :
    EngineState K :=
  let throttle := clamp throttleCommand 0.0 1.0
  let densityRatio := airDensity / kSeaLevelDensity
  let targetThrust := params.maxThrust * (params.idleThrustFrac + (1.0 - params.idleThrustFrac) * throttle) * densityRatio
  let tau := if params.engineSpoolTau < 0.01 then 0.01 else params.engineSpoolTau
  let thrustDot := (targetThrust - currentThrust) / tau
  let newThrust := currentThrust + thrustDot * dt
  let newThrust := if newThrust < 0.0 then 0.0 else newThrust
  ⟨newThrust, newThrust * params.sfc⟩

variable [Cmath K]

structure WindModel (K : Type*) where
  baseWind : Vec3 K
  gustIntensity : K
  gustsEnabled : Bool

def WindModel.setConstant (windNed : Vec3 K) : WindModel K := ⟨windNed, 0.0, false⟩

def WindModel.setWithGusts (baseWindNed : Vec3 K) (gustIntensity : K) : WindModel K :=
  ⟨baseWindNed, gustIntensity, true⟩

def WindModel.compute (model : WindModel K) (altitudeMsl simTime : K) : Vec3 K :=
  let wind := model.baseWind
  if model.gustsEnabled ∧ model.gustIntensity > 0.0 then
    let t := simTime
    let gi := model.gustIntensity
    let altFactor := if altitudeMsl < 300.0 then 1.0 + 0.5 * (1.0 - altitudeMsl / 300.0) else 1.0
    let gustN := gi * altFactor *
      (0.50 * sin (0.30 * t + 1.0) + 0.30 * sin (0.77 * t + 3.7) + 0.20 * sin (1.83 * t + 0.5))
    let gustE := gi * altFactor *
      (0.50 * sin (0.40 * t + 2.3) + 0.30 * sin (0.93 * t + 5.1) + 0.20 * sin (2.17 * t + 1.2))
    let gustD := gi * altFactor * 0.5 * (0.60 * sin (0.35 * t + 4.0) + 0.40 * sin (1.10 * t + 2.8))
    ⟨wind.x + gustN, wind.y + gustE, wind.z + gustD⟩
  else wind

end Models

section Dynamics

variable {K : Type*} [Field K] [LinearOrder K] [Cmath K]
  (aero : AircraftState K → AircraftParams K → ControlInput K → K → ForcesAndMoments K)

namespace FlightDynamics

def computeDerivatives (state : AircraftState K) (params : AircraftParams K) (input : ControlInput K) (density : K)
    (wind : Vec3 K) : StateDerivatives K :=
  let windBody := state.orientation.inverseRotate wind
  let airVel := state.velocityBody - windBody
  let V := airVel.magnitude
  let aeroState : AircraftState K :=
    if V > 1.0 then
      { state with
        airspeed := V
        alpha := atan2 airVel.z airVel.x
        beta := asin (clamp (airVel.y / V) (-1.0) 1.0)
        dynamicPressure := 0.5 * density * V * V }
    else { state with airspeed := V, alpha := 0.0, beta := 0.0, dynamicPressure := 0.0 }
  let aeroFm := aero aeroState params input density
  let thrustForce : Vec3 K := ⟨state.thrustCurrent, 0.0, 0.0⟩
  let gravityNed : Vec3 K := ⟨0.0, 0.0, state.totalMass params * kGravity⟩
  let gravityBody := state.orientation.inverseRotate gravityNed
  let mass := state.totalMass params
  let totalForce := aeroFm.force + thrustForce + gravityBody
  let omega := state.angularVelocity
  let M := aeroFm.moment
  let p := omega.x
  let q := omega.y
  let r := omega.z
  let H : Vec3 K := ⟨params.Ixx * p - params.Ixz * r, params.Iyy * q, params.Izz * r - params.Ixz * p⟩
  let gyroTerm := omega.cross H
  let rhs := M - gyroTerm
  let det := params.Ixx * params.Izz - params.Ixz * params.Ixz
  let det := if |det| < 1e-12 then 1e-12 else det
  let invDet := 1.0 / det
  { positionDot := state.orientation.rotate state.velocityBody
    velocityBodyDot := totalForce / mass - omega.cross state.velocityBody
    orientationDot := state.orientation.derivative omega
    omegaDot :=
      { x := invDet * (params.Izz * rhs.x + params.Ixz * rhs.z)
        y := rhs.y / params.Iyy
        z := invDet * (params.Ixz * rhs.x + params.Ixx * rhs.z) } }

def burn (state : AircraftState K) (params : AircraftParams K) (input : ControlInput K) (density dt : K) :
    AircraftState K :=
  let eng := EngineModel.update input.throttle state.thrustCurrent state.airspeed density params dt
  let fuelUsed := eng.fuelFlowRate * dt
  let fuelMass := state.fuelMass - fuelUsed
  if fuelMass ≤ 0.0 then { state with fuelMass := 0.0, thrustCurrent := 0.0 }
  else { state with fuelMass := fuelMass, thrustCurrent := eng.thrust }

def applyStep (start : AircraftState K) (d : StateDerivatives K) (h : K) : AircraftState K :=
  { start with
    position := start.position + d.positionDot * h
    velocityBody := start.velocityBody + d.velocityBodyDot * h
    orientation := (start.orientation + d.orientationDot * h).normalized
    angularVelocity := start.angularVelocity + d.omegaDot * h }

def combine (k1 k2 k3 k4 : StateDerivatives K) : StateDerivatives K where
  positionDot := k1.positionDot + k2.positionDot * (2.0 : K) + k3.positionDot * (2.0 : K) + k4.positionDot
  velocityBodyDot :=
    k1.velocityBodyDot + k2.velocityBodyDot * (2.0 : K) + k3.velocityBodyDot * (2.0 : K) + k4.velocityBodyDot
  orientationDot :=
    k1.orientationDot + k2.orientationDot * (2.0 : K) + k3.orientationDot * (2.0 : K) + k4.orientationDot
  omegaDot := k1.omegaDot + k2.omegaDot * (2.0 : K) + k3.omegaDot * (2.0 : K) + k4.omegaDot

/-- A stage overwrites what an earlier one has written, and nothing else: each starts from the same state. -/
def integrate (start : AircraftState K) (params : AircraftParams K) (input : ControlInput K) (density : K)
    (wind : Vec3 K) (dt : K) : AircraftState K :=
  let k1 := computeDerivatives aero start params input density wind
  let k2 := computeDerivatives aero (applyStep start k1 (dt * 0.5)) params input density wind
  let k3 := computeDerivatives aero (applyStep start k2 (dt * 0.5)) params input density wind
  let k4 := computeDerivatives aero (applyStep start k3 dt) params input density wind
  applyStep start (combine k1 k2 k3 k4) (dt / 6.0)

def groundContact (state : AircraftState K) : AircraftState K :=
  let state := { state with altitudeMsl := -state.position.z }
  if state.altitudeMsl < 0.0 then
    let velocityBody :=
      if state.velocityBody.z > 0.0 then { state.velocityBody with z := 0.0 } else state.velocityBody
    let velNed := state.orientation.rotate velocityBody
    { state with
      position := { state.position with z := 0.0 }
      altitudeMsl := 0.0
      velocityBody :=
        if velNed.z > 0.0 then state.orientation.inverseRotate { velNed with z := 0.0 } else velocityBody }
  else state

def deriveAirData (state : AircraftState K) (density : K) (wind : Vec3 K) : AircraftState K :=
  let windBody := state.orientation.inverseRotate wind
  let airVel := state.velocityBody - windBody
  let V := airVel.magnitude
  { state with
    airspeed := V
    alpha := if V > 1.0 then atan2 airVel.z airVel.x else 0.0
    beta := if V > 1.0 then asin (clamp (airVel.y / V) (-1.0) 1.0) else 0.0
    dynamicPressure := 0.5 * density * V * V }

def update (state : AircraftState K) (params : AircraftParams K) (input : ControlInput K) (density : K)
    (wind : Vec3 K) (dt : K) : AircraftState K :=
  let state := burn state params input density dt
  let state := integrate aero state params input density wind dt
  let state := groundContact state
  deriveAirData state density wind

end FlightDynamics

end Dynamics

end Klett.Luft

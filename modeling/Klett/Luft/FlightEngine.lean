import Klett.Luft.FlightDynamics

namespace Klett.Luft

open Klett.Lib Cmath Isnan

structure Config (K : Type*) where
  timeStep : K
  maxSimTime : K
  telemetryPort : ℕ
  commandPort : ℕ
  telemetryRateHz : K
  windowWidth : ℤ
  windowHeight : ℤ
  initialAltitudeM : K
  initialAirspeedMs : K
  initialHeadingDeg : K
  initialFuelKg : K
  windNorthMs : K
  windEastMs : K
  windDownMs : K
  gustIntensity : K
  elevatorSensitivity : K
  aileronSensitivity : K
  rudderSensitivity : K

section Validation

variable {K : Type*} [OfScientific K] [LE K] [LT K] [DecidableLE K] [DecidableLT K]

def validateConfig (cfg : Config K) : Except String Unit :=
  if cfg.timeStep ≤ 0.0 ∨ cfg.timeStep > 0.1 then .error "time_step must be in (0, 0.1]"
  else if cfg.maxSimTime < 0.0 then .error "max_sim_time must be >= 0"
  else if cfg.telemetryPort = 0 then .error "telemetry_port must be > 0"
  else if cfg.commandPort = 0 then .error "command_port must be > 0"
  else if cfg.telemetryPort = cfg.commandPort then .error "telemetry_port and command_port must be different"
  else if cfg.telemetryRateHz ≤ 0.0 then .error "telemetry_rate_hz must be > 0"
  else if cfg.windowWidth < 320 ∨ cfg.windowHeight < 240 then .error "window dimensions too small (min 320x240)"
  else if cfg.initialAltitudeM < 0.0 ∨ cfg.initialAltitudeM > 50000.0 then
    .error "initial_altitude_m must be in [0, 50000]"
  else if cfg.initialAirspeedMs < 0.0 ∨ cfg.initialAirspeedMs > 500.0 then
    .error "initial_airspeed_ms must be in [0, 500]"
  else if cfg.initialHeadingDeg < 0.0 ∨ cfg.initialHeadingDeg ≥ 360.0 then
    .error "initial_heading_deg must be in [0, 360)"
  else if cfg.initialFuelKg < 0.0 then .error "initial_fuel_kg must be >= 0"
  else if cfg.gustIntensity < 0.0 ∨ cfg.gustIntensity > 1.0 then .error "gust_intensity must be in [0, 1]"
  else if cfg.elevatorSensitivity ≤ 0.0 ∨ cfg.elevatorSensitivity > 5.0 then
    .error "elevator_sensitivity must be in (0, 5]"
  else if cfg.aileronSensitivity ≤ 0.0 ∨ cfg.aileronSensitivity > 5.0 then
    .error "aileron_sensitivity must be in (0, 5]"
  else if cfg.rudderSensitivity ≤ 0.0 ∨ cfg.rudderSensitivity > 5.0 then
    .error "rudder_sensitivity must be in (0, 5]"
  else .ok ()

theorem error_else_ok {p : Prop} [Decidable p] {e : String} {rest : Except String Unit} :
    (if p then .error e else rest) = .ok () ↔ ¬p ∧ rest = .ok () := by
  split_ifs with h <;> simp [h]

end Validation

section Guard

variable {K : Type*} [OfScientific K] [Add K] [Mul K] [Neg K] [LT K] [DecidableLT K]

def checkStateValidity [Isnan K] (state : AircraftState K) : Bool :=
  let pos := state.position
  let vel := state.velocityBody
  let q := state.orientation
  let omega := state.angularVelocity
  let kMaxSpeed : K := 1000.0
  if isnan pos.x || isnan pos.y || isnan pos.z then false
  else if isnan vel.x || isnan vel.y || isnan vel.z then false
  else if isnan state.airspeed || isnan state.alpha || isnan state.beta then false
  else if isnan q.w || isnan q.x || isnan q.y || isnan q.z then false
  else if isnan omega.x || isnan omega.y || isnan omega.z then false
  else if vel.magnitudeSq > kMaxSpeed * kMaxSpeed then false
  else true

def clampState (state : AircraftState K) : AircraftState K :=
  let kMaxAltitude : K := 30000.0
  let kMinAltitude : K := -100.0
  let altitudeMsl := clamp state.altitudeMsl kMinAltitude kMaxAltitude
  { state with
    altitudeMsl := altitudeMsl
    position := { state.position with z := -altitudeMsl }
    fuelMass := if state.fuelMass < 0.0 then 0.0 else state.fuelMass }

end Guard

section Engine

variable {K : Type*} [Field K] [LinearOrder K] [Cmath K]

def initialAircraft (config : Config K) : AircraftState K where
  position := ⟨0.0, 0.0, -config.initialAltitudeM⟩
  velocityBody := ⟨config.initialAirspeedMs, 0.0, 0.0⟩
  orientation := Quaternion.fromEuler 0.0 0.0 (config.initialHeadingDeg * kDegToRad)
  angularVelocity := ⟨0.0, 0.0, 0.0⟩
  thrustCurrent := 0.0
  fuelMass := config.initialFuelKg
  airspeed := config.initialAirspeedMs
  alpha := 0.0
  beta := 0.0
  altitudeMsl := config.initialAltitudeM
  dynamicPressure := 0.0

def initialWind (config : Config K) : WindModel K :=
  let windNed : Vec3 K := ⟨config.windNorthMs, config.windEastMs, config.windDownMs⟩
  if config.gustIntensity > 0.0 then WindModel.setWithGusts windNed config.gustIntensity
  else WindModel.setConstant windNed

variable (aero : AircraftState K → AircraftParams K → ControlInput K → K → ForcesAndMoments K) (density : K → K)

def flightPhysics : Physics (Config K) (WindModel K) (AircraftState K) K K where
  timeStep config := config.timeStep
  initialAircraft := initialAircraft
  windModel := initialWind
  update state input windModel simTime timeStep :=
    FlightDynamics.update aero state AircraftParams.default input (density state.altitudeMsl)
      (windModel.compute state.altitudeMsl simTime) timeStep
  checkStateValidity := checkStateValidity
  clampState := clampState

end Engine

end Klett.Luft

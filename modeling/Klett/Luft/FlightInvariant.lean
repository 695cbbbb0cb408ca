import Klett.Luft.FlightEngine
import Mathlib.Analysis.SpecialFunctions.Complex.Arg
import Mathlib.Analysis.SpecialFunctions.Trigonometric.Inverse

namespace Klett.Luft

open Klett.Lib

section Validation

variable {K : Type*} [Field K] [LinearOrder K] [IsStrictOrderedRing K] {cfg : Config K}

theorem timeStep_pos (h : validateConfig cfg = .ok ()) : 0 < cfg.timeStep := by
  simp only [validateConfig, error_else_ok, not_or] at h
  obtain ⟨⟨htime, -⟩, -⟩ := h
  norm_num at htime
  exact htime

theorem initialFuelKg_nonneg (h : validateConfig cfg = .ok ()) : 0 ≤ cfg.initialFuelKg := by
  simp only [validateConfig, error_else_ok] at h
  obtain ⟨-, -, -, -, -, -, -, -, -, -, hfuel, -⟩ := h
  norm_num at hfuel
  exact hfuel

end Validation

section Invariant

variable {K : Type*} [Field K] [LinearOrder K] [Cmath K]

structure AircraftState.Valid (state : AircraftState K) : Prop where
  orientation : state.orientation.norm = 1
  altitude : state.altitudeMsl = -state.position.z
  thrust : 0 ≤ state.thrustCurrent
  fuel : 0 ≤ state.fuelMass
  starved : state.fuelMass = 0 → state.thrustCurrent = 0

end Invariant

section Update

variable {K : Type*} [Field K] [LinearOrder K] [IsStrictOrderedRing K]

theorem zero_literal : (0.0 : K) = 0 := by norm_num

theorem raised_nonneg (x : K) : 0 ≤ if x < 0.0 then 0.0 else x := by
  rw [zero_literal]
  split_ifs with h
  · exact le_rfl
  · exact not_lt.mp h

theorem EngineModel.thrust_nonneg (throttle thrust airspeed density : K) (params : AircraftParams K) (dt : K) :
    0 ≤ (EngineModel.update throttle thrust airspeed density params dt).thrust :=
  raised_nonneg _

variable (aero : AircraftState K → AircraftParams K → ControlInput K → K → ForcesAndMoments K)
  (state : AircraftState K) (params : AircraftParams K) (input : ControlInput K) (density : K) (wind : Vec3 K) (dt : K)

namespace FlightDynamics

theorem burn_cases {params : AircraftParams K} {dt : K} (hsfc : 0 ≤ params.sfc) (hdt : 0 ≤ dt) :
    ∃ used thrust : K, 0 ≤ used ∧ 0 ≤ thrust ∧
      (state.fuelMass - used ≤ 0 ∧
          burn state params input density dt = { state with fuelMass := 0, thrustCurrent := 0 } ∨
        0 < state.fuelMass - used ∧
          burn state params input density dt =
            { state with fuelMass := state.fuelMass - used, thrustCurrent := thrust }) := by
  have hthrust : 0 ≤ (EngineModel.update input.throttle state.thrustCurrent state.airspeed density params dt).thrust :=
    EngineModel.thrust_nonneg ..
  refine ⟨_, _, mul_nonneg (mul_nonneg hthrust hsfc) hdt, hthrust, ?_⟩
  simp only [burn, zero_literal]
  split_ifs with hempty
  · exact .inl ⟨hempty, rfl⟩
  · exact .inr ⟨not_le.mp hempty, rfl⟩

theorem groundContact_eq : ∃ position velocityBody, 0 ≤ -position.z ∧
    groundContact state = { state with
      position := position
      altitudeMsl := -position.z
      velocityBody := velocityBody } := by
  simp only [groundContact, zero_literal]
  split_ifs with hbelow
  all_goals first
    | exact ⟨{ state.position with z := 0 }, _, by simp, by simp; rfl⟩
    | exact ⟨state.position, state.velocityBody, not_lt.mp hbelow, rfl⟩

variable [Cmath K] [ExactCmath K]

theorem integrate_orientation : (integrate aero state params input density wind dt).orientation.norm = 1 :=
  Quaternion.norm_normalized _

theorem update_fields :
    let result := update aero state params input density wind dt
    let burnt := burn state params input density dt
    result.orientation.norm = 1 ∧ result.altitudeMsl = -result.position.z ∧ 0 ≤ result.altitudeMsl ∧
      result.fuelMass = burnt.fuelMass ∧ result.thrustCurrent = burnt.thrustCurrent := by
  obtain ⟨position, velocityBody, hpos, hground⟩ :=
    groundContact_eq (integrate aero (burn state params input density dt) params input density wind dt)
  simp only [update, hground, deriveAirData]
  exact ⟨integrate_orientation .., trivial, hpos, rfl, rfl⟩

theorem update_valid {params : AircraftParams K} {dt : K} (hsfc : 0 ≤ params.sfc) (hdt : 0 ≤ dt) :
    (update aero state params input density wind dt).Valid := by
  obtain ⟨horientation, haltitude, -, hfuel, hthrust⟩ := update_fields aero state params input density wind dt
  obtain ⟨used, thrust, -, hnonneg, ⟨-, hburn⟩ | ⟨hpos, hburn⟩⟩ := burn_cases state input density hsfc hdt
  all_goals
    rw [hburn] at hfuel hthrust
    dsimp only at hfuel hthrust
  · exact ⟨horientation, haltitude, hthrust.ge, hfuel.ge, fun _ => hthrust⟩
  · refine ⟨horientation, haltitude, hnonneg.trans_eq hthrust.symm, hpos.le.trans_eq hfuel.symm, fun hzero => ?_⟩
    rw [hfuel] at hzero
    exact absurd hzero hpos.ne'

theorem update_fuelMass_le {params : AircraftParams K} {dt : K} (hsfc : 0 ≤ params.sfc) (hdt : 0 ≤ dt)
    (hfuel : 0 ≤ state.fuelMass) : (update aero state params input density wind dt).fuelMass ≤ state.fuelMass := by
  obtain ⟨-, -, -, heq, -⟩ := update_fields aero state params input density wind dt
  rw [heq]
  obtain ⟨used, thrust, hused, -, ⟨-, hburn⟩ | ⟨-, hburn⟩⟩ := burn_cases state input density hsfc hdt
  · rw [hburn]
    exact hfuel
  · rw [hburn]
    exact sub_le_self _ hused

end FlightDynamics

end Update

section Engine

variable {K : Type*} [Field K] [LinearOrder K] [IsStrictOrderedRing K]

theorem sfc_nonneg : 0 ≤ (AircraftParams.default : AircraftParams K).sfc := by
  norm_num [AircraftParams.default]

theorem clampState_altitude {state : AircraftState K} (h : 0 ≤ state.altitudeMsl) :
    0 ≤ (clampState state).altitudeMsl ∧ (clampState state).altitudeMsl ≤ 30000 := by
  have hbounds : (-100.0 : K) ≤ 30000.0 := by norm_num
  simp only [clampState]
  constructor
  · rw [clamp_eq_max_min hbounds]
    apply le_max_of_le_right
    exact le_min (by norm_num) h
  · apply (clamp_le hbounds _).trans
    norm_num

variable [Cmath K]

theorem clampState_valid {state : AircraftState K} (h : state.Valid) : (clampState state).Valid where
  orientation := h.orientation
  altitude := (neg_neg _).symm
  thrust := h.thrust
  fuel := raised_nonneg _
  starved hzero := by
    apply h.starved
    simp only [clampState, zero_literal, if_neg h.fuel.not_gt] at hzero
    exact hzero

theorem clampState_fuelMass {state : AircraftState K} (h : state.Valid) :
    (clampState state).fuelMass = state.fuelMass := by
  simp only [clampState, zero_literal, if_neg h.fuel.not_gt]

variable [ExactCmath K]

theorem initialAircraft_valid {config : Config K} (h : validateConfig config = .ok ()) :
    (initialAircraft config).Valid where
  orientation := Quaternion.norm_fromEuler ..
  altitude := (neg_neg _).symm
  thrust := zero_literal.ge
  fuel := initialFuelKg_nonneg h
  starved _ := zero_literal

structure FlightSound (engine : SimulationEngine (WindModel K) (AircraftState K) K K) : Prop where
  aircraft : engine.aircraftState.Valid
  timeStep : 0 < engine.timeStep

variable {aero : AircraftState K → AircraftParams K → ControlInput K → K → ForcesAndMoments K} {density : K → K}
  {engine : SimulationEngine (WindModel K) (AircraftState K) K K}

theorem FlightSound.update (hs : FlightSound engine) : ((flightPhysics aero density).update engine.aircraftState engine.currentInput
    engine.windModel engine.simTime engine.timeStep).Valid :=
  FlightDynamics.update_valid _ _ _ _ _ sfc_nonneg hs.timeStep.le

theorem FlightSound.step (hs : FlightSound engine) : FlightSound (engine.step (flightPhysics aero density)) := by
  obtain ⟨-, hstep⟩ | ⟨aircraft, -, rfl, ⟨-, hstep⟩ | ⟨-, hstep⟩⟩ :=
    SimulationEngine.step_cases (P := flightPhysics aero density) engine
  · rwa [hstep]
  · rw [hstep]
    exact ⟨hs.update, hs.timeStep⟩
  · rw [hstep]
    exact ⟨clampState_valid hs.update, hs.timeStep⟩

theorem FlightSound.step_fuelMass (hs : FlightSound engine) :
    (engine.step (flightPhysics aero density)).aircraftState.fuelMass ≤ engine.aircraftState.fuelMass := by
  have hburnt : ((flightPhysics aero density).update engine.aircraftState engine.currentInput engine.windModel
      engine.simTime engine.timeStep).fuelMass ≤ engine.aircraftState.fuelMass :=
    FlightDynamics.update_fuelMass_le _ _ _ _ _ sfc_nonneg hs.timeStep.le hs.aircraft.fuel
  obtain ⟨-, hstep⟩ | ⟨aircraft, -, rfl, ⟨-, hstep⟩ | ⟨-, hstep⟩⟩ :=
    SimulationEngine.step_cases (P := flightPhysics aero density) engine
  · rw [hstep]
  · rw [hstep]
    exact hburnt
  · rw [hstep]
    exact (clampState_fuelMass hs.update).trans_le hburnt

theorem step_altitude (hrunning : engine.state = .running)
    (hstate : (engine.step (flightPhysics aero density)).state ≠ .error) :
    0 ≤ (engine.step (flightPhysics aero density)).aircraftState.altitudeMsl ∧
      (engine.step (flightPhysics aero density)).aircraftState.altitudeMsl ≤ 30000 := by
  obtain ⟨hnot, -⟩ | ⟨aircraft, -, rfl, ⟨-, hstep⟩ | ⟨-, hstep⟩⟩ :=
    SimulationEngine.step_cases (P := flightPhysics aero density) engine
  · exact absurd hrunning hnot
  · rw [hstep] at hstate
    exact absurd rfl hstate
  · rw [hstep]
    exact clampState_altitude (FlightDynamics.update_fields _ _ _ _ _ _ _).2.2.1

theorem flightSound_initialize {config : Config K} (h : validateConfig config = .ok ()) :
    FlightSound (SimulationEngine.initializeEngine (flightPhysics aero density) config) :=
  ⟨initialAircraft_valid h, timeStep_pos h⟩

theorem FlightSound.call (hs : FlightSound engine) {call : SimulationEngine.Call (Config K) K}
    (hreset : ∀ config, call = .reset config → validateConfig config = .ok ()) :
    FlightSound (engine.call (flightPhysics aero density) call) := by
  cases call with
  | start => rw [SimulationEngine.call, SimulationEngine.start, SimulationEngine.transitionTo_eq]; exact { hs with }
  | pause => rw [SimulationEngine.call, SimulationEngine.pause, SimulationEngine.transitionTo_eq]; exact { hs with }
  | resume => rw [SimulationEngine.call, SimulationEngine.resume, SimulationEngine.transitionTo_eq]; exact { hs with }
  | stop => rw [SimulationEngine.call, SimulationEngine.stop_eq]; exact { hs with }
  | reset config => exact flightSound_initialize (hreset config rfl)
  | setControlInput input => exact { hs with }
  | step => exact hs.step

theorem FlightSound.calls (hs : FlightSound engine) {calls : List (SimulationEngine.Call (Config K) K)}
    (hresets : ∀ config, .reset config ∈ calls → validateConfig config = .ok ()) :
    FlightSound (calls.foldl (fun engine call => engine.call (flightPhysics aero density) call) engine) := by
  induction calls generalizing engine with
  | nil => exact hs
  | cons call calls ih =>
    apply ih
    · apply hs.call
      rintro config rfl
      exact hresets config List.mem_cons_self
    · exact fun config hmem => hresets config (List.mem_cons_of_mem _ hmem)

variable (aero density)

theorem valid_and_clamped {config : Config K} (hconfig : validateConfig config = .ok ())
    (calls : List (SimulationEngine.Call (Config K) K))
    (hresets : ∀ config, .reset config ∈ calls → validateConfig config = .ok ()) :
    let P := flightPhysics aero density
    let engine := calls.foldl (fun engine call => engine.call P call) (SimulationEngine.initializeEngine P config)
    engine.aircraftState.Valid ∧
      (engine.step P).aircraftState.fuelMass ≤ engine.aircraftState.fuelMass ∧
      (engine.state = .running → (engine.step P).state ≠ .error →
        0 ≤ (engine.step P).aircraftState.altitudeMsl ∧ (engine.step P).aircraftState.altitudeMsl ≤ 30000) := by
  intro P engine
  have hstart : FlightSound (SimulationEngine.initializeEngine P config) := flightSound_initialize hconfig
  have hsound : FlightSound engine := hstart.calls hresets
  exact ⟨hsound.aircraft, hsound.step_fuelMass, step_altitude⟩

end Engine

section Reals

noncomputable instance instCmathReal : Cmath ℝ where
  sqrt := Real.sqrt
  sin := Real.sin
  cos := Real.cos
  asin := Real.arcsin
  atan2 y x := Complex.arg ⟨x, y⟩
  isnan _ := false

instance instExactCmathReal : ExactCmath ℝ where
  sqrt_nonneg := Real.sqrt_nonneg
  sqrt_mul_self _ := Real.mul_self_sqrt
  sin_sq_add_cos_sq x := by
    have hsum := Real.sin_sq_add_cos_sq x
    rwa [sq, sq] at hsum
  isnan_eq_false _ := rfl

noncomputable def configAt (altitude : ℝ) : Config ℝ where
  timeStep := 0.01
  maxSimTime := 0
  telemetryPort := 5000
  commandPort := 5001
  telemetryRateHz := 20
  windowWidth := 1280
  windowHeight := 720
  initialAltitudeM := altitude
  initialAirspeedMs := 50
  initialHeadingDeg := 0
  initialFuelKg := 100
  windNorthMs := 0
  windEastMs := 0
  windDownMs := 0
  gustIntensity := 0
  elevatorSensitivity := 1
  aileronSensitivity := 1
  rudderSensitivity := 1

theorem validateConfig_configAt {altitude : ℝ} (hlow : 0 ≤ altitude) (hhigh : altitude ≤ 50000) :
    validateConfig (configAt altitude) = .ok () := by
  simp only [validateConfig, configAt]
  norm_num [hlow, hhigh]

def noForces (_ : AircraftState ℝ) (_ : AircraftParams ℝ) (_ : ControlInput ℝ) (_ : ℝ) : ForcesAndMoments ℝ where
  force := ⟨0, 0, 0⟩
  moment := ⟨0, 0, 0⟩

theorem valid_and_clamped_default :
    let P := flightPhysics noForces fun _ => 1.225
    let engine := (SimulationEngine.initializeEngine P (configAt 1000)).start.step P
    engine.aircraftState.Valid ∧
      (engine.step P).aircraftState.fuelMass ≤ engine.aircraftState.fuelMass ∧
      (engine.state = .running → (engine.step P).state ≠ .error →
        0 ≤ (engine.step P).aircraftState.altitudeMsl ∧ (engine.step P).aircraftState.altitudeMsl ≤ 30000) :=
  valid_and_clamped noForces (fun _ => 1.225) (validateConfig_configAt (by norm_num) (by norm_num)) [.start, .step]
    (by simp)

theorem not_clamped_initialized :
    let P := flightPhysics noForces fun _ => 1.225
    let engine := SimulationEngine.initializeEngine P (configAt 50000)
    validateConfig (configAt 50000) = .ok () ∧ (engine.step P).state ≠ .error ∧
      ¬(engine.step P).aircraftState.altitudeMsl ≤ 30000 := by
  intro P engine
  have hstep : engine.step P = engine := SimulationEngine.step_of_not_running nofun
  refine ⟨validateConfig_configAt (by norm_num) le_rfl, ?_, ?_⟩
  · rw [hstep]
    nofun
  · rw [hstep]
    have haltitude : engine.aircraftState.altitudeMsl = 50000 := rfl
    rw [haltitude]
    norm_num

end Reals

end Klett.Luft

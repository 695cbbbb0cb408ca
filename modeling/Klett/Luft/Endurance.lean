import Klett.Luft.FlightInvariant
import Mathlib.Analysis.SpecialFunctions.Pow.Real

/-!
The standard atmosphere, and what it leaves of the engine's thrust and of the fuel.
-/

namespace Klett.Luft

open Klett.Lib Cmath

class CmathPowers (K : Type*) where
  exp : K → K
  pow : K → K → K

/-- Of the exact functions, what bounds a power with an exponent above one and a decay. -/
class ExactPowers (K : Type*) [Field K] [LinearOrder K] [CmathPowers K] : Prop where
  pow_nonneg (x e : K) : 0 ≤ x → 0 ≤ CmathPowers.pow x e
  pow_le_self (x e : K) : 0 ≤ x → x ≤ 1 → 1 ≤ e → CmathPowers.pow x e ≤ x
  exp_nonneg (x : K) : 0 ≤ CmathPowers.exp x
  exp_le_one (x : K) : x ≤ 0 → CmathPowers.exp x ≤ 1

section Model

variable {K : Type*} [Field K]

def kSeaLevelPressure : K := 101325.0

def kSeaLevelTemperature : K := 288.15

def kLapseRate : K := 0.0065

def kTropopauseAlt : K := 11000.0

def kGasConstantAir : K := 287.058

def kGammaAir : K := 1.4

structure AtmosphereState (K : Type*) where
  temperature : K
  pressure : K
  density : K
  speedOfSound : K

/-- The temperature falls up to the tropopause, and stays what it is there. Above 20 km nothing changes. -/
def Atmosphere.compute [LinearOrder K] [Cmath K] [CmathPowers K] (altitudeMsl : K) : AtmosphereState K :=
  let alt := if altitudeMsl < 0.0 then 0.0 else altitudeMsl
  let (T, P) :=
    if alt ≤ kTropopauseAlt then
      let T := kSeaLevelTemperature - kLapseRate * alt
      let exponent := kGravity / (kLapseRate * kGasConstantAir)
      (T, kSeaLevelPressure * CmathPowers.pow (T / kSeaLevelTemperature) exponent)
    else
      let TTrop := kSeaLevelTemperature - kLapseRate * kTropopauseAlt
      let expTrop := kGravity / (kLapseRate * kGasConstantAir)
      let PTrop := kSeaLevelPressure * CmathPowers.pow (TTrop / kSeaLevelTemperature) expTrop
      let T := TTrop
      let hAbove := (if alt > 20000.0 then 20000.0 else alt) - kTropopauseAlt
      (T, PTrop * CmathPowers.exp (-kGravity * hAbove / (kGasConstantAir * T)))
  { temperature := T
    pressure := P
    density := P / (kGasConstantAir * T)
    speedOfSound := sqrt (kGammaAir * kGasConstantAir * T) }

end Model

section Density

variable {K : Type*} [Field K] [LinearOrder K] [IsStrictOrderedRing K]

theorem Atmosphere.warm {alt : K} (hground : 0 ≤ alt) (hlow : alt ≤ kTropopauseAlt) :
    0 < kSeaLevelTemperature - kLapseRate * alt ∧ kSeaLevelTemperature - kLapseRate * alt ≤ kSeaLevelTemperature := by
  have htop : (0 : K) < kSeaLevelTemperature - kLapseRate * kTropopauseAlt := by
    norm_num [kSeaLevelTemperature, kLapseRate, kTropopauseAlt]
  have hlapse : (0 : K) < kLapseRate := by norm_num [kLapseRate]
  have hfall : kLapseRate * alt ≤ kLapseRate * kTropopauseAlt := mul_le_mul_of_nonneg_left hlow hlapse.le
  have hnonneg : 0 ≤ kLapseRate * alt := mul_nonneg hlapse.le hground
  constructor
  · linarith
  · linarith

variable [CmathPowers K] [ExactPowers K]

/-- The exponent is above one, so that in the troposphere the pressure falls faster than the temperature. -/
theorem troposphere_pressure {T : K} (hpos : 0 < T) (hle : T ≤ kSeaLevelTemperature) :
    0 ≤ kSeaLevelPressure * CmathPowers.pow (T / kSeaLevelTemperature) (kGravity / (kLapseRate * kGasConstantAir)) ∧
      kSeaLevelPressure * CmathPowers.pow (T / kSeaLevelTemperature) (kGravity / (kLapseRate * kGasConstantAir)) ≤
        kSeaLevelDensity * (kGasConstantAir * T) := by
  have hsea : (0 : K) < kSeaLevelTemperature := by norm_num [kSeaLevelTemperature]
  have hratio : 0 ≤ T / kSeaLevelTemperature := div_nonneg hpos.le hsea.le
  have hone : T / kSeaLevelTemperature ≤ 1 := (div_le_one hsea).mpr hle
  have hexponent : (1 : K) ≤ kGravity / (kLapseRate * kGasConstantAir) := by
    norm_num [kGravity, kLapseRate, kGasConstantAir]
  have hpressure : (0 : K) ≤ kSeaLevelPressure := by norm_num [kSeaLevelPressure]
  have hgas : (kSeaLevelPressure : K) ≤ kSeaLevelDensity * (kGasConstantAir * kSeaLevelTemperature) := by
    norm_num [kSeaLevelPressure, kSeaLevelDensity, kGasConstantAir, kSeaLevelTemperature]
  constructor
  · exact mul_nonneg hpressure (ExactPowers.pow_nonneg _ _ hratio)
  · calc kSeaLevelPressure * CmathPowers.pow (T / kSeaLevelTemperature) (kGravity / (kLapseRate * kGasConstantAir))
        ≤ kSeaLevelPressure * (T / kSeaLevelTemperature) :=
          mul_le_mul_of_nonneg_left (ExactPowers.pow_le_self _ _ hratio hone hexponent) hpressure
      _ ≤ kSeaLevelDensity * (kGasConstantAir * kSeaLevelTemperature) * (T / kSeaLevelTemperature) :=
          mul_le_mul_of_nonneg_right hgas hratio
      _ = kSeaLevelDensity * (kGasConstantAir * T) := by
          rw [mul_assoc, mul_assoc, mul_div_cancel₀ _ hsea.ne']

theorem stratosphere_pressure {h : K} (hh : 0 ≤ h) :
    let TTrop : K := kSeaLevelTemperature - kLapseRate * kTropopauseAlt
    let PTrop := kSeaLevelPressure *
      CmathPowers.pow (TTrop / kSeaLevelTemperature) (kGravity / (kLapseRate * kGasConstantAir))
    let P := PTrop * CmathPowers.exp (-kGravity * h / (kGasConstantAir * TTrop))
    0 < TTrop ∧ 0 ≤ P ∧ P ≤ kSeaLevelDensity * (kGasConstantAir * TTrop) := by
  have htropopause : (0 : K) ≤ kTropopauseAlt := by norm_num [kTropopauseAlt]
  obtain ⟨hpos, hle⟩ := Atmosphere.warm htropopause le_rfl
  obtain ⟨hnonneg, hbound⟩ := troposphere_pressure hpos hle
  refine ⟨hpos, mul_nonneg hnonneg (ExactPowers.exp_nonneg _), ?_⟩
  apply le_trans _ hbound
  apply mul_le_of_le_one_right hnonneg
  apply ExactPowers.exp_le_one
  have hgravity : (-kGravity : K) ≤ 0 := by norm_num [kGravity]
  have hgas : (0 : K) ≤ kGasConstantAir := by norm_num [kGasConstantAir]
  exact div_nonpos_of_nonpos_of_nonneg (mul_nonpos_of_nonpos_of_nonneg hgravity hh) (mul_nonneg hgas hpos.le)

variable [Cmath K]

theorem Atmosphere.pressure_mem (altitude : K) : 0 < (compute altitude).temperature ∧ 0 ≤ (compute altitude).pressure ∧
    (compute altitude).pressure ≤ kSeaLevelDensity * (kGasConstantAir * (compute altitude).temperature) := by
  have hground : 0 ≤ if altitude < 0.0 then 0.0 else altitude := raised_nonneg altitude
  simp only [compute]
  generalize (if altitude < 0.0 then 0.0 else altitude) = alt at hground
  split_ifs with hlow hhigh
  · obtain ⟨hpos, hle⟩ := warm hground hlow
    exact ⟨hpos, troposphere_pressure hpos hle⟩
  · apply stratosphere_pressure
    norm_num [kTropopauseAlt]
  · apply stratosphere_pressure
    exact sub_nonneg.mpr (not_le.mp hlow).le

theorem Atmosphere.density_mem (altitude : K) :
    0 ≤ (compute altitude).density ∧ (compute altitude).density ≤ kSeaLevelDensity := by
  obtain ⟨htemperature, hnonneg, hle⟩ := pressure_mem altitude
  have hgas : (0 : K) < kGasConstantAir := by norm_num [kGasConstantAir]
  have hpos : 0 < kGasConstantAir * (compute altitude).temperature := mul_pos hgas htemperature
  have hdensity : (compute altitude).density =
      (compute altitude).pressure / (kGasConstantAir * (compute altitude).temperature) := rfl
  rw [hdensity]
  exact ⟨div_nonneg hnonneg hpos.le, (div_le_iff₀ hpos).mpr hle⟩

end Density

section Thrust

variable {K : Type*} [Field K] [LinearOrder K] [IsStrictOrderedRing K]

/-- A step shorter than the lag ends between the value and its target. -/
theorem lagged_le {value target bound tau dt : K} (hvalue : value ≤ bound) (htarget : target ≤ bound) (hdt : 0 ≤ dt)
    (htau : 0 < tau) (hlag : dt ≤ tau) : value + (target - value) / tau * dt ≤ bound := by
  have hlambda : dt / tau ≤ 1 := (div_le_one htau).mpr hlag
  have hnonneg : 0 ≤ dt / tau := div_nonneg hdt htau.le
  calc value + (target - value) / tau * dt = value * (1 - dt / tau) + target * (dt / tau) := by ring
    _ ≤ bound * (1 - dt / tau) + bound * (dt / tau) := by
      apply add_le_add
      · exact mul_le_mul_of_nonneg_right hvalue (sub_nonneg.mpr hlambda)
      · exact mul_le_mul_of_nonneg_right htarget hnonneg
    _ = bound := by ring

namespace EngineModel

variable (throttle airspeed : K) {thrust density dt : K} {params : AircraftParams K}

/-- In thin air at most the rated thrust is aimed at. -/
theorem target_le (hmax : 0 ≤ params.maxThrust) (hidle : 0 ≤ params.idleThrustFrac)
    (hone : params.idleThrustFrac ≤ 1) (hthin : density ≤ kSeaLevelDensity) :
    params.maxThrust * (params.idleThrustFrac + (1.0 - params.idleThrustFrac) * clamp throttle 0.0 1.0) *
      (density / kSeaLevelDensity) ≤ params.maxThrust := by
  have hone' : (1.0 : K) = 1 := by norm_num
  have hsea : (0 : K) < kSeaLevelDensity := by norm_num [kSeaLevelDensity]
  have hbounds : (0.0 : K) ≤ 1.0 := by norm_num
  have hlow : 0 ≤ clamp throttle 0.0 1.0 := zero_literal.ge.trans (le_clamp hbounds throttle)
  have hhigh : clamp throttle 0.0 1.0 ≤ 1 := (clamp_le hbounds throttle).trans_eq hone'
  have hrest : 0 ≤ 1 - params.idleThrustFrac := sub_nonneg.mpr hone
  have hfraction : 0 ≤ params.idleThrustFrac + (1.0 - params.idleThrustFrac) * clamp throttle 0.0 1.0 := by
    rw [hone']
    exact add_nonneg hidle (mul_nonneg hrest (hone' ▸ hlow))
  have hfull : params.idleThrustFrac + (1.0 - params.idleThrustFrac) * clamp throttle 0.0 1.0 ≤ 1 := by
    have hpart : (1 - params.idleThrustFrac) * clamp throttle 0.0 1.0 ≤ 1 - params.idleThrustFrac :=
      mul_le_of_le_one_right hrest hhigh
    rw [hone'] at hpart ⊢
    linarith
  have hratio : density / kSeaLevelDensity ≤ 1 := (div_le_one hsea).mpr hthin
  calc _ ≤ params.maxThrust * (params.idleThrustFrac + (1.0 - params.idleThrustFrac) * clamp throttle 0.0 1.0) :=
        mul_le_of_le_one_right (mul_nonneg hmax hfraction) hratio
    _ ≤ params.maxThrust := mul_le_of_le_one_right hmax hfull

theorem thrust_le (hthrust : thrust ≤ params.maxThrust) (hmax : 0 ≤ params.maxThrust)
    (hidle : 0 ≤ params.idleThrustFrac) (hone : params.idleThrustFrac ≤ 1) (hthin : density ≤ kSeaLevelDensity)
    (hdt : 0 ≤ dt) (hlag : dt ≤ params.engineSpoolTau) :
    (update throttle thrust airspeed density params dt).thrust ≤ params.maxThrust := by
  let target := params.maxThrust * (params.idleThrustFrac + (1.0 - params.idleThrustFrac) * clamp throttle 0.0 1.0) *
    (density / kSeaLevelDensity)
  let tau := if params.engineSpoolTau < 0.01 then 0.01 else params.engineSpoolTau
  have htau : 0 < tau ∧ dt ≤ tau := by
    have hpos : (0 : K) < 0.01 := by norm_num
    simp only [tau]
    split_ifs with hshort
    · exact ⟨hpos, (hlag.trans_lt hshort).le⟩
    · exact ⟨hpos.trans_le (not_lt.mp hshort), hlag⟩
  have hraised : (update throttle thrust airspeed density params dt).thrust =
      if thrust + (target - thrust) / tau * dt < 0.0 then 0.0 else thrust + (target - thrust) / tau * dt := rfl
  rw [hraised]
  split_ifs
  · exact zero_literal.trans_le hmax
  · exact lagged_le hthrust (target_le throttle hmax hidle hone hthin) hdt htau.1 htau.2

end EngineModel

namespace FlightDynamics

variable {state : AircraftState K} {params : AircraftParams K} (input : ControlInput K) {density dt : K}

theorem burn_rate (hthrust : state.thrustCurrent ≤ params.maxThrust) (hmax : 0 ≤ params.maxThrust)
    (hidle : 0 ≤ params.idleThrustFrac) (hone : params.idleThrustFrac ≤ 1) (hthin : density ≤ kSeaLevelDensity)
    (hdt : 0 ≤ dt) (hlag : dt ≤ params.engineSpoolTau) (hsfc : 0 ≤ params.sfc) :
    (burn state params input density dt).thrustCurrent ≤ params.maxThrust ∧
      state.fuelMass - params.maxThrust * params.sfc * dt ≤ (burn state params input density dt).fuelMass := by
  let eng := EngineModel.update input.throttle state.thrustCurrent state.airspeed density params dt
  have hnext : eng.thrust ≤ params.maxThrust :=
    EngineModel.thrust_le input.throttle state.airspeed hthrust hmax hidle hone hthin hdt hlag
  have hused : eng.fuelFlowRate * dt ≤ params.maxThrust * params.sfc * dt :=
    mul_le_mul_of_nonneg_right (mul_le_mul_of_nonneg_right hnext hsfc) hdt
  have hburn : burn state params input density dt =
      if state.fuelMass - eng.fuelFlowRate * dt ≤ 0.0 then { state with fuelMass := 0.0, thrustCurrent := 0.0 }
      else { state with fuelMass := state.fuelMass - eng.fuelFlowRate * dt, thrustCurrent := eng.thrust } := rfl
  rw [hburn, zero_literal]
  split_ifs with hempty
  · exact ⟨hmax, (sub_le_sub_left hused _).trans hempty⟩
  · exact ⟨hnext, sub_le_sub_left hused _⟩

end FlightDynamics

end Thrust

section Run

/-- A run that has failed or was stopped has burned fuel in a step that the clock does not count. -/
def SimState.Live (state : SimState) : Prop := state ≠ .error ∧ state ≠ .stopped

theorem transitionTo_live {Wind Aircraft α T : Type*} {engine : SimulationEngine Wind Aircraft α T} {target : SimState}
    (htarget : target = .running ∨ target = .paused) (h : (engine.transitionTo target).state.Live) :
    engine.state.Live := by
  rw [SimulationEngine.transitionTo] at h
  split_ifs at h with hvalid
  · obtain rfl | rfl := htarget
    all_goals
      constructor
      all_goals
        intro hstate
        rw [hstate] at hvalid
        exact absurd hvalid (by decide)
  · exact h

variable {K : Type*} [Field K] [LinearOrder K] [IsStrictOrderedRing K]

/-- The fuel that full thrust burns in a second. -/
def maxBurnRate : K :=
  (AircraftParams.default : AircraftParams K).maxThrust * (AircraftParams.default : AircraftParams K).sfc

def loadedConfig (config : Config K) : SimulationEngine.Call (Config K) K → Config K
  | .reset next => next
  | _ => config

theorem maxBurnRate_nonneg : 0 ≤ (maxBurnRate : K) := by
  norm_num [maxBurnRate, AircraftParams.default]

theorem timeStep_le (config : Config K) (h : validateConfig config = .ok ()) :
    config.timeStep ≤ (AircraftParams.default : AircraftParams K).engineSpoolTau := by
  simp only [validateConfig, error_else_ok, not_or] at h
  obtain ⟨⟨-, htime⟩, -⟩ := h
  have htenth : (0.1 : K) ≤ (AircraftParams.default : AircraftParams K).engineSpoolTau := by
    norm_num [AircraftParams.default]
  exact (not_lt.mp htime).trans htenth

variable [Cmath K]

structure Fuelled (config : Config K) (engine : SimulationEngine (WindModel K) (AircraftState K) K K) : Prop where
  sound : FlightSound engine
  lag : engine.timeStep ≤ (AircraftParams.default : AircraftParams K).engineSpoolTau
  thrust : engine.aircraftState.thrustCurrent ≤ (AircraftParams.default : AircraftParams K).maxThrust
  fuel : engine.state.Live → config.initialFuelKg - maxBurnRate * engine.simTime ≤ engine.aircraftState.fuelMass
  spent : config.initialFuelKg - maxBurnRate * (engine.simTime + engine.timeStep) ≤ engine.aircraftState.fuelMass

variable [ExactCmath K] [CmathPowers K]
  (aero : AircraftState K → AircraftParams K → ControlInput K → K → ForcesAndMoments K)

/-- The physics of the engine, its atmosphere included. -/
def standardPhysics : Physics (Config K) (WindModel K) (AircraftState K) K K :=
  flightPhysics aero fun altitude => (Atmosphere.compute altitude).density

variable {aero} {config : Config K} {engine : SimulationEngine (WindModel K) (AircraftState K) K K}

namespace Fuelled

theorem initializeEngine (h : validateConfig config = .ok ()) :
    Fuelled config (SimulationEngine.initializeEngine (standardPhysics aero) config) := by
  have hthrust : (0.0 : K) ≤ (AircraftParams.default : AircraftParams K).maxThrust := by
    norm_num [AircraftParams.default]
  have hspent : maxBurnRate * (0 + config.timeStep) ≥ 0 := by
    apply mul_nonneg maxBurnRate_nonneg
    rw [zero_add]
    exact (timeStep_pos h).le
  have hsound : FlightSound (SimulationEngine.initializeEngine (standardPhysics aero) config) :=
    flightSound_initialize h
  refine ⟨hsound, timeStep_le config h, hthrust, fun _ => ?_, ?_⟩
  · exact sub_le_self _ (mul_zero maxBurnRate).ge
  · exact sub_le_self _ hspent

variable [ExactPowers K]

variable (aero) in
/-- What a step burns, whether its outcome is kept or found invalid. -/
theorem update (hf : Fuelled config engine) :
    let next := (standardPhysics aero).update engine.aircraftState engine.currentInput engine.windModel engine.simTime
      engine.timeStep
    next.thrustCurrent ≤ (AircraftParams.default : AircraftParams K).maxThrust ∧
      engine.aircraftState.fuelMass - maxBurnRate * engine.timeStep ≤ next.fuelMass := by
  intro next
  obtain ⟨-, -, -, hfuel, hthrust⟩ := FlightDynamics.update_fields aero engine.aircraftState AircraftParams.default
    engine.currentInput (Atmosphere.compute engine.aircraftState.altitudeMsl).density
    (engine.windModel.compute engine.aircraftState.altitudeMsl engine.simTime) engine.timeStep
  have hmax : 0 ≤ (AircraftParams.default : AircraftParams K).maxThrust := by norm_num [AircraftParams.default]
  have hidle : 0 ≤ (AircraftParams.default : AircraftParams K).idleThrustFrac := by norm_num [AircraftParams.default]
  have hone : (AircraftParams.default : AircraftParams K).idleThrustFrac ≤ 1 := by norm_num [AircraftParams.default]
  obtain ⟨hbelow, hburnt⟩ := FlightDynamics.burn_rate engine.currentInput hf.thrust hmax hidle hone
    (Atmosphere.density_mem engine.aircraftState.altitudeMsl).2 hf.sound.timeStep.le hf.lag sfc_nonneg
  exact ⟨hthrust.trans_le hbelow, hburnt.trans_eq hfuel.symm⟩

theorem step (hf : Fuelled config engine) : Fuelled config (engine.step (standardPhysics aero)) := by
  obtain ⟨hbelow, hburnt⟩ := hf.update aero
  have hsound : FlightSound (engine.step (standardPhysics aero)) := hf.sound.step
  have hrate : 0 ≤ maxBurnRate * engine.timeStep := mul_nonneg maxBurnRate_nonneg hf.sound.timeStep.le
  obtain ⟨-, hstep⟩ | ⟨aircraft, hrunning, haircraft, hstep⟩ :=
    SimulationEngine.step_cases (P := standardPhysics aero) engine
  · rwa [hstep]
  have hlive : engine.state.Live := by
    rw [hrunning]
    exact ⟨nofun, nofun⟩
  have hfuel := hf.fuel hlive
  rw [← haircraft] at hbelow hburnt
  obtain ⟨-, hstep⟩ | ⟨-, hstep⟩ := hstep
  · rw [hstep] at hsound ⊢
    refine ⟨hsound, hf.lag, hbelow, fun h => absurd rfl h.1, ?_⟩
    have hspent : config.initialFuelKg - maxBurnRate * (engine.simTime + engine.timeStep) ≤ aircraft.fuelMass := by
      rw [mul_add]
      linarith
    exact hspent
  · have hclamped : aircraft.fuelMass = (clampState aircraft).fuelMass := by
      rw [haircraft]
      exact (clampState_fuelMass hf.sound.update).symm
    have hspent : config.initialFuelKg - maxBurnRate * (engine.simTime + engine.timeStep) ≤
        (clampState aircraft).fuelMass := by
      rw [mul_add, ← hclamped]
      linarith
    rw [hstep] at hsound ⊢
    refine ⟨hsound, hf.lag, hbelow, fun _ => hspent, ?_⟩
    have hnext : config.initialFuelKg - maxBurnRate * (engine.simTime + engine.timeStep + engine.timeStep) ≤
        (clampState aircraft).fuelMass := by
      rw [mul_add]
      linarith
    exact hnext

theorem call (hf : Fuelled config engine) {call : SimulationEngine.Call (Config K) K}
    (hreset : ∀ next, call = .reset next → validateConfig next = .ok ()) :
    Fuelled (loadedConfig config call) (engine.call (standardPhysics aero) call) := by
  have htransition {target : SimState} (htarget : target = .running ∨ target = .paused) :
      Fuelled config (engine.transitionTo target) := by
    have hlive : (engine.transitionTo target).state.Live → engine.state.Live := transitionTo_live htarget
    rw [SimulationEngine.transitionTo_eq] at hlive ⊢
    exact ⟨{ hf.sound with }, hf.lag, hf.thrust, fun h => hf.fuel (hlive h), hf.spent⟩
  cases call with
  | start => exact htransition (.inl rfl)
  | pause => exact htransition (.inr rfl)
  | resume => exact htransition (.inl rfl)
  | stop =>
    have hlive (h : engine.stop.state.Live) : engine.state.Live := by
      rw [SimulationEngine.stop] at h
      split_ifs at h with huninitialized
      · exact h
      · exact absurd rfl h.2
    change Fuelled config engine.stop
    rw [SimulationEngine.stop_eq] at hlive ⊢
    exact ⟨{ hf.sound with }, hf.lag, hf.thrust, fun h => hf.fuel (hlive h), hf.spent⟩
  | reset next => exact initializeEngine (hreset next rfl)
  | setControlInput input => exact ⟨{ hf.sound with }, hf.lag, hf.thrust, hf.fuel, hf.spent⟩
  | step => exact hf.step

theorem calls (hf : Fuelled config engine) {calls : List (SimulationEngine.Call (Config K) K)}
    (hresets : ∀ next, .reset next ∈ calls → validateConfig next = .ok ()) :
    Fuelled (calls.foldl loadedConfig config)
      (calls.foldl (fun engine call => engine.call (standardPhysics aero) call) engine) := by
  induction calls generalizing config engine with
  | nil => exact hf
  | cons call calls ih =>
    apply ih
    · apply hf.call
      rintro next rfl
      exact hresets next List.mem_cons_self
    · exact fun next hmem => hresets next (List.mem_cons_of_mem _ hmem)

end Fuelled

variable (aero) [ExactPowers K]

/-- The engine never gives more than its rated thrust, so that the fuel loaded at the last reset lasts at least as
long as full thrust would make it last. -/
theorem SimulationEngine.endurance (hconfig : validateConfig config = .ok ())
    (calls : List (SimulationEngine.Call (Config K) K))
    (hresets : ∀ next, .reset next ∈ calls → validateConfig next = .ok ()) :
    let P := standardPhysics aero
    let engine := calls.foldl (fun engine call => engine.call P call) (initializeEngine P config)
    let loaded := (calls.foldl loadedConfig config).initialFuelKg
    0 ≤ engine.aircraftState.thrustCurrent ∧
      engine.aircraftState.thrustCurrent ≤ (AircraftParams.default : AircraftParams K).maxThrust ∧
      loaded - maxBurnRate * (engine.simTime + engine.timeStep) ≤ engine.aircraftState.fuelMass ∧
      (engine.state.Live → loaded - maxBurnRate * engine.simTime ≤ engine.aircraftState.fuelMass) := by
  intro P engine loaded
  have hstart : Fuelled config (initializeEngine P config) := Fuelled.initializeEngine hconfig
  have hfuelled : Fuelled (calls.foldl loadedConfig config) engine := hstart.calls hresets
  exact ⟨hfuelled.sound.aircraft.thrust, hfuelled.thrust, hfuelled.spent, hfuelled.fuel⟩

end Run

section Reals

noncomputable instance instCmathPowersReal : CmathPowers ℝ where
  exp := Real.exp
  pow := Real.rpow

instance instExactPowersReal : ExactPowers ℝ where
  pow_nonneg _ _ := fun h => Real.rpow_nonneg h _
  pow_le_self x e := fun hnonneg hle hexponent => by
    have hpow : x ^ e ≤ x ^ (1 : ℝ) := Real.rpow_le_rpow_of_exponent_ge' hnonneg hle zero_le_one hexponent
    rwa [Real.rpow_one] at hpow
  exp_nonneg := Real.exp_nonneg
  exp_le_one _ := Real.exp_le_one_iff.mpr

theorem SimulationEngine.endurance_refuelled :
    let P := standardPhysics noForces
    let calls := [.start, .step, .stop, .reset (configAt 1000), .start, .step]
    let engine := calls.foldl (fun engine call => engine.call P call) (initializeEngine P (configAt 2000))
    let loaded := (calls.foldl loadedConfig (configAt 2000)).initialFuelKg
    0 ≤ engine.aircraftState.thrustCurrent ∧
      engine.aircraftState.thrustCurrent ≤ (AircraftParams.default : AircraftParams ℝ).maxThrust ∧
      loaded - maxBurnRate * (engine.simTime + engine.timeStep) ≤ engine.aircraftState.fuelMass ∧
      (engine.state.Live → loaded - maxBurnRate * engine.simTime ≤ engine.aircraftState.fuelMass) := by
  apply endurance noForces (validateConfig_configAt (by norm_num) (by norm_num))
  intro next hnext
  simp only [List.mem_cons, List.not_mem_nil, reduceCtorEq, Call.reset.injEq, false_or, or_false] at hnext
  rw [hnext]
  exact validateConfig_configAt (by norm_num) (by norm_num)

end Reals

end Klett.Luft

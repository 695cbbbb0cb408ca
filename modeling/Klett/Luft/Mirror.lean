import Klett.Luft.Aerodynamics
import Klett.Luft.FreeFall

/-!
A flight and its image in the vertical plane through north.
-/

namespace Klett.Luft

open Klett.Lib Cmath

section Definitions

variable {K : Type*} [Neg K]

def Vec3.mirror (v : Vec3 K) : Vec3 K := ⟨v.x, -v.y, v.z⟩

/-- Of a rate of rotation or a moment. -/
def Vec3.axialMirror (v : Vec3 K) : Vec3 K := ⟨-v.x, v.y, -v.z⟩

def Quaternion.mirror (q : Quaternion K) : Quaternion K := ⟨q.w, -q.x, q.y, -q.z⟩

def AircraftState.mirror (state : AircraftState K) : AircraftState K :=
  { state with
    position := state.position.mirror
    velocityBody := state.velocityBody.mirror
    orientation := state.orientation.mirror
    angularVelocity := state.angularVelocity.axialMirror
    beta := -state.beta }

def ControlInput.mirror (input : ControlInput K) : ControlInput K :=
  { input with aileron := -input.aileron, rudder := -input.rudder }

def ForcesAndMoments.mirror (fm : ForcesAndMoments K) : ForcesAndMoments K where
  force := fm.force.mirror
  moment := fm.moment.axialMirror

def StateDerivatives.mirror (d : StateDerivatives K) : StateDerivatives K where
  positionDot := d.positionDot.mirror
  velocityBodyDot := d.velocityBodyDot.mirror
  orientationDot := d.orientationDot.mirror
  omegaDot := d.omegaDot.axialMirror

def WindModel.mirror (model : WindModel K) : WindModel K := { model with baseWind := model.baseWind.mirror }

def Config.mirror (config : Config K) : Config K :=
  { config with initialHeadingDeg := -config.initialHeadingDeg, windEastMs := -config.windEastMs }

namespace SimulationEngine

variable {T : Type*}

def mirror (engine : SimulationEngine (WindModel K) (AircraftState K) K T) :
    SimulationEngine (WindModel K) (AircraftState K) K T :=
  { engine with
    aircraftState := engine.aircraftState.mirror
    windModel := engine.windModel.mirror
    currentInput := engine.currentInput.mirror }

def Call.mirror : Call (Config K) K → Call (Config K) K
  | .reset config => .reset config.mirror
  | .setControlInput input => .setControlInput input.mirror
  | call => call

end SimulationEngine

/-- An aerodynamic model of an aircraft whose two sides are alike. -/
def Symmetric (aero : AircraftState K → AircraftParams K → ControlInput K → K → ForcesAndMoments K) : Prop :=
  ∀ state params input density,
    aero state.mirror params input.mirror density = (aero state params input density).mirror

/-- The parities of the functions of the standard library. -/
class CmathParity (K : Type*) [Neg K] [Cmath K] : Prop where
  sin_neg (x : K) : sin (-x) = -sin x
  cos_neg (x : K) : cos (-x) = cos x
  asin_neg (x : K) : asin (-x) = -asin x
  isnan_neg (x : K) : Isnan.isnan (-x) = Isnan.isnan x

end Definitions

section Vectors

variable {K : Type*} [Field K] (u v w : Vec3 K) (p q : Quaternion K) (s : K)

namespace Vec3

theorem mirror_add : (u + v).mirror = u.mirror + v.mirror := by
  ext
  · rfl
  · exact neg_add _ _
  · rfl

theorem mirror_sub : (u - v).mirror = u.mirror - v.mirror := by
  ext
  · rfl
  · exact neg_sub' _ _
  · rfl

theorem mirror_mul : (v * s).mirror = v.mirror * s := by
  ext
  · rfl
  · exact (neg_mul _ _).symm
  · rfl

theorem mirror_div : (v / s).mirror = v.mirror / s := by
  ext
  · rfl
  · exact (neg_div _ _).symm
  · rfl

theorem axialMirror_add : (u + v).axialMirror = u.axialMirror + v.axialMirror := by
  ext
  · exact neg_add _ _
  · rfl
  · exact neg_add _ _

theorem axialMirror_sub : (u - v).axialMirror = u.axialMirror - v.axialMirror := by
  ext
  · exact neg_sub' _ _
  · rfl
  · exact neg_sub' _ _

theorem axialMirror_mul : (v * s).axialMirror = v.axialMirror * s := by
  ext
  · exact (neg_mul _ _).symm
  · rfl
  · exact (neg_mul _ _).symm

theorem magnitudeSq_mirror : v.mirror.magnitudeSq = v.magnitudeSq := by
  simp only [magnitudeSq, mirror, neg_mul_neg]

theorem magnitude_mirror [Cmath K] : v.mirror.magnitude = v.magnitude := by
  rw [magnitude, magnitude, magnitudeSq_mirror]

theorem cross_mirror : (w.cross v).mirror = w.axialMirror.cross v.mirror := by
  ext
  all_goals
    simp only [mirror, axialMirror, cross]
    ring

theorem cross_axialMirror : (u.cross v).axialMirror = u.axialMirror.cross v.axialMirror := by
  ext
  all_goals
    simp only [axialMirror, cross]
    ring

end Vec3

namespace Quaternion

theorem mirror_add : (p + q).mirror = p.mirror + q.mirror := by
  ext
  · rfl
  · exact neg_add _ _
  · rfl
  · exact neg_add _ _

theorem mirror_mul : (q * s).mirror = q.mirror * s := by
  ext
  · rfl
  · exact (neg_mul _ _).symm
  · rfl
  · exact (neg_mul _ _).symm

theorem rotate_mirror : q.mirror.rotate v.mirror = (q.rotate v).mirror := by
  ext
  all_goals
    simp only [mirror, Vec3.mirror, rotate, conjugate, mul_w, mul_x, mul_y, mul_z]
    ring

theorem inverseRotate_mirror : q.mirror.inverseRotate v.mirror = (q.inverseRotate v).mirror := by
  ext
  all_goals
    simp only [mirror, Vec3.mirror, inverseRotate, conjugate, mul_w, mul_x, mul_y, mul_z]
    ring

theorem derivative_mirror : q.mirror.derivative v.axialMirror = (q.derivative v).mirror := by
  ext
  all_goals
    simp only [mirror, Vec3.axialMirror, derivative, mul_w, mul_x, mul_y, mul_z]
    ring

variable [Cmath K]

theorem norm_mirror : q.mirror.norm = q.norm := by
  simp only [norm, mirror, neg_mul_neg]

theorem normalized_mirror [LinearOrder K] : q.mirror.normalized = q.normalized.mirror := by
  simp only [normalized, norm_mirror]
  split_ifs
  · simp only [mirror, neg_zero]
  · simp only [mirror, neg_div]

theorem fromEuler_mirror [CmathParity K] (roll pitch yaw : K) :
    fromEuler (-roll) pitch (-yaw) = (fromEuler roll pitch yaw).mirror := by
  ext
  all_goals
    simp only [fromEuler, mirror, neg_mul, CmathParity.sin_neg, CmathParity.cos_neg]
    ring

end Quaternion

end Vectors

section Frame

variable {K : Type*} [Field K] {state : AircraftState K} {params : AircraftParams K} {wind : Vec3 K}

namespace FlightDynamics

theorem inertia_axialMirror (w : Vec3 K) : params.inertia w.axialMirror = (params.inertia w).axialMirror := by
  ext
  · simp only [AircraftParams.inertia, Vec3.axialMirror]
    ring
  · rfl
  · simp only [AircraftParams.inertia, Vec3.axialMirror]
    ring

theorem airVelocity_mirror : state.mirror.velocityBody - state.mirror.orientation.inverseRotate wind.mirror =
    (state.velocityBody - state.orientation.inverseRotate wind).mirror := by
  rw [Vec3.mirror_sub, ← Quaternion.inverseRotate_mirror]
  rfl

theorem combine_mirror (k1 k2 k3 k4 : StateDerivatives K) :
    combine k1.mirror k2.mirror k3.mirror k4.mirror = (combine k1 k2 k3 k4).mirror := by
  simp only [combine, StateDerivatives.mirror, Vec3.mirror_add, Vec3.mirror_mul, Vec3.axialMirror_add,
    Vec3.axialMirror_mul, Quaternion.mirror_add, Quaternion.mirror_mul]

end FlightDynamics

end Frame

section Ordered

variable {K : Type*} [Field K] [LinearOrder K]

theorem clampState_mirror (state : AircraftState K) : clampState state.mirror = (clampState state).mirror := rfl

theorem FlightDynamics.burn_mirror {state : AircraftState K} {params : AircraftParams K} {input : ControlInput K}
    {density dt : K} : burn state.mirror params input.mirror density dt = (burn state params input density dt).mirror := by
  simp only [burn]
  symm
  rw [apply_ite AircraftState.mirror]
  rfl

variable [IsStrictOrderedRing K]

theorem clamp_neg_one_one (x : K) : clamp (-x) (-1) 1 = -clamp x (-1) 1 := by
  have hbounds : (-1 : K) ≤ 1 := by norm_num
  rw [clamp_eq_max_min hbounds, clamp_eq_max_min hbounds, ← min_neg_neg, ← max_neg_neg, neg_neg, max_min_distrib_left,
    max_eq_right hbounds]

theorem ControlInput.clampAll_mirror (input : ControlInput K) : input.mirror.clampAll = input.clampAll.mirror := by
  simp only [clampAll, mirror, clamp_neg_one_one]

namespace FlightDynamics

variable {state : AircraftState K} {params : AircraftParams K}

theorem thrust_mirror (thrust : K) : (⟨thrust, 0.0, 0.0⟩ : Vec3 K).mirror = ⟨thrust, 0.0, 0.0⟩ := by
  simp only [Vec3.mirror, zero_literal, neg_zero]

theorem gravity_mirror :
    state.mirror.orientation.inverseRotate ⟨0.0, 0.0, state.mirror.totalMass params * kGravity⟩ =
      (state.orientation.inverseRotate ⟨0.0, 0.0, state.totalMass params * kGravity⟩).mirror := by
  rw [← Quaternion.inverseRotate_mirror]
  simp only [Vec3.mirror, zero_literal, neg_zero]
  rfl

theorem groundContact_mirror : groundContact state.mirror = (groundContact state).mirror := by
  let raised (v : Vec3 K) : Vec3 K := if v.z > 0 then { v with z := 0 } else v
  let leveled (q : Quaternion K) (v : Vec3 K) : Vec3 K :=
    if (q.rotate v).z > 0 then q.inverseRotate { q.rotate v with z := 0 } else v
  have hground (s : AircraftState K) (h : -s.position.z < 0) : groundContact s = { s with
      position := { s.position with z := 0 }
      altitudeMsl := 0
      velocityBody := leveled s.orientation (raised s.velocityBody) } := groundContact_of_below h
  have hraised (v : Vec3 K) : raised v.mirror = (raised v).mirror := by
    simp only [raised]
    rw [apply_ite Vec3.mirror]
    rfl
  have hleveled (q : Quaternion K) (v : Vec3 K) : leveled q.mirror v.mirror = (leveled q v).mirror := by
    simp only [leveled]
    rw [apply_ite Vec3.mirror, Quaternion.rotate_mirror, ← Quaternion.inverseRotate_mirror]
    rfl
  have hvelocity : leveled state.mirror.orientation (raised state.mirror.velocityBody) =
      (leveled state.orientation (raised state.velocityBody)).mirror := by
    rw [← hleveled, ← hraised]
    rfl
  rcases lt_or_ge (-state.position.z) 0 with hbelow | habove
  · have hmirror : -state.mirror.position.z < 0 := hbelow
    rw [hground state hbelow, hground state.mirror hmirror, hvelocity]
    rfl
  · have hmirror : 0 ≤ -state.mirror.position.z := habove
    rw [groundContact_of_above habove, groundContact_of_above hmirror]
    rfl

end FlightDynamics

end Ordered

section Dynamics

variable {K : Type*} [Field K] [LinearOrder K] [Cmath K]

namespace FlightDynamics

variable {aero : AircraftState K → AircraftParams K → ControlInput K → K → ForcesAndMoments K}
  {state : AircraftState K} {params : AircraftParams K} {input : ControlInput K} {density : K} {wind : Vec3 K} {dt : K}

theorem applyStep_mirror (d : StateDerivatives K) (h : K) :
    applyStep state.mirror d.mirror h = (applyStep state d h).mirror := by
  simp only [applyStep, AircraftState.mirror, StateDerivatives.mirror, Vec3.mirror_add, Vec3.mirror_mul,
    Vec3.axialMirror_add, Vec3.axialMirror_mul, ← Quaternion.normalized_mirror, Quaternion.mirror_add,
    Quaternion.mirror_mul]

theorem omegaDot_eq (aero : AircraftState K → AircraftParams K → ControlInput K → K → ForcesAndMoments K)
    (params : AircraftParams K) (density : K) : ∃ scale : K, ∀ state input wind,
      (computeDerivatives aero state params input density wind).omegaDot =
        let rhs := (aero (aeroState state density wind) params input density).moment -
          state.angularVelocity.cross (params.inertia state.angularVelocity)
        { x := scale * (params.Izz * rhs.x + params.Ixz * rhs.z)
          y := rhs.y / params.Iyy
          z := scale * (params.Ixz * rhs.x + params.Ixx * rhs.z) } :=
  ⟨_, fun _ _ _ => rfl⟩

variable [IsStrictOrderedRing K] [CmathParity K]

theorem sideslip_mirror (v : Vec3 K) :
    asin (clamp (v.mirror.y / v.magnitude) (-1.0) 1.0) = -asin (clamp (v.y / v.magnitude) (-1.0) 1.0) := by
  have hone : (1.0 : K) = 1 := by norm_num
  rw [hone, Vec3.mirror, neg_div, clamp_neg_one_one, CmathParity.asin_neg]

theorem aeroState_mirror : aeroState state.mirror density wind.mirror = (aeroState state density wind).mirror := by
  simp only [aeroState, airVelocity_mirror, Vec3.magnitude_mirror, sideslip_mirror]
  split_ifs
  · rfl
  · simp only [AircraftState.mirror, zero_literal, neg_zero]

theorem computeDerivatives_mirror (h : Symmetric aero) :
    computeDerivatives aero state.mirror params input.mirror density wind.mirror =
      (computeDerivatives aero state params input density wind).mirror := by
  have haero := h (aeroState state density wind) params input density
  rw [← aeroState_mirror] at haero
  ext1
  · exact Quaternion.rotate_mirror ..
  · simp only [StateDerivatives.mirror]
    rw [velocityBodyDot_eq, velocityBodyDot_eq, haero, gravity_mirror, Vec3.mirror_sub, Vec3.mirror_div, Vec3.mirror_add,
      Vec3.mirror_add, thrust_mirror, Vec3.cross_mirror]
    rfl
  · exact Quaternion.derivative_mirror ..
  · let rhs := (aero (aeroState state density wind) params input density).moment -
      state.angularVelocity.cross (params.inertia state.angularVelocity)
    have hrhs : (aero (aeroState state.mirror density wind.mirror) params input.mirror density).moment -
        state.mirror.angularVelocity.cross (params.inertia state.mirror.angularVelocity) = rhs.axialMirror := by
      rw [haero, Vec3.axialMirror_sub, Vec3.cross_axialMirror, ← inertia_axialMirror]
      rfl
    obtain ⟨scale, hscale⟩ := omegaDot_eq aero params density
    simp only [StateDerivatives.mirror]
    rw [hscale, hscale, hrhs]
    ext
    · simp only [Vec3.axialMirror]
      ring
    · rfl
    · simp only [Vec3.axialMirror]
      ring

theorem integrate_mirror (h : Symmetric aero) :
    integrate aero state.mirror params input.mirror density wind.mirror dt =
      (integrate aero state params input density wind dt).mirror := by
  simp only [integrate, computeDerivatives_mirror h, applyStep_mirror, combine_mirror]

theorem deriveAirData_mirror :
    deriveAirData state.mirror density wind.mirror = (deriveAirData state density wind).mirror := by
  simp only [deriveAirData, airVelocity_mirror, Vec3.magnitude_mirror, sideslip_mirror]
  simp only [AircraftState.mirror, Vec3.mirror, zero_literal]
  split_ifs
  · rfl
  · simp only [neg_zero]

theorem update_mirror (h : Symmetric aero) :
    update aero state.mirror params input.mirror density wind.mirror dt =
      (update aero state params input density wind dt).mirror := by
  simp only [update, burn_mirror, integrate_mirror h, groundContact_mirror, deriveAirData_mirror]

end FlightDynamics

end Dynamics

section Wind

variable {K : Type*} [Field K] [LinearOrder K] {model : WindModel K} {config : Config K}

def WindModel.Calm (model : WindModel K) : Prop := ¬(model.gustsEnabled = true ∧ model.gustIntensity > 0.0)

theorem initialWind_calm (h : ¬config.gustIntensity > 0.0) : (initialWind config).Calm := by
  rw [initialWind, if_neg h]
  exact fun hgusts => absurd hgusts.1 Bool.false_ne_true

theorem initialWind_mirror (h : ¬config.gustIntensity > 0.0) :
    initialWind config.mirror = (initialWind config).mirror := by
  have hmirror : ¬config.mirror.gustIntensity > 0.0 := h
  rw [initialWind, initialWind, if_neg h, if_neg hmirror]
  rfl

theorem WindModel.compute_mirror [Cmath K] (h : model.Calm) (altitude time : K) :
    model.mirror.compute altitude time = (model.compute altitude time).mirror := by
  have hmirror : model.mirror.Calm := h
  rw [compute, compute, if_neg h, if_neg hmirror]
  rfl

end Wind

section Engine

variable {K : Type*} [Field K] [LinearOrder K] [Cmath K] [CmathParity K]

theorem checkStateValidity_mirror (state : AircraftState K) :
    checkStateValidity state.mirror = checkStateValidity state := by
  have hspeed : state.mirror.velocityBody.magnitudeSq = state.velocityBody.magnitudeSq := Vec3.magnitudeSq_mirror _
  have hnan (x : K) : Isnan.isnan (-x) = Isnan.isnan x := CmathParity.isnan_neg x
  simp only [checkStateValidity]
  rw [hspeed]
  simp only [AircraftState.mirror, Vec3.mirror, Vec3.axialMirror, Quaternion.mirror, hnan]

variable [IsStrictOrderedRing K]

theorem initialAircraft_mirror (config : Config K) : initialAircraft config.mirror = (initialAircraft config).mirror := by
  have hturn : Quaternion.fromEuler 0.0 0.0 (config.mirror.initialHeadingDeg * kDegToRad) =
      (Quaternion.fromEuler 0.0 0.0 (config.initialHeadingDeg * kDegToRad)).mirror := by
    rw [← Quaternion.fromEuler_mirror, zero_literal, neg_zero, Config.mirror, neg_mul]
  rw [initialAircraft, hturn]
  simp only [initialAircraft, AircraftState.mirror, Vec3.mirror, Vec3.axialMirror, Config.mirror, zero_literal, neg_zero]

omit [CmathParity K] in
theorem Aerodynamics.compute_mirror (aero : AeroParams K) : Symmetric (Aerodynamics.compute aero) := by
  intro state params input density
  by_cases hslow : state.airspeed < 1.0
  · have hmirror : state.mirror.airspeed < 1.0 := hslow
    simp only [compute, if_pos hslow, if_pos hmirror, ForcesAndMoments.mirror, Vec3.mirror, Vec3.axialMirror,
      zero_literal, neg_zero]
  · have hmirror : ¬state.mirror.airspeed < 1.0 := hslow
    simp only [compute, if_neg hslow, if_neg hmirror]
    simp only [ForcesAndMoments.mirror, Vec3.mirror, Vec3.axialMirror, AircraftState.mirror, ControlInput.mirror,
      ForcesAndMoments.mk.injEq, Vec3.mk.injEq, true_and, and_true]
    generalize 1.0 / (2.0 * state.airspeed) = inv2V
    refine ⟨?_, ?_, ?_⟩
    all_goals ring

namespace SimulationEngine

variable {aero : AircraftState K → AircraftParams K → ControlInput K → K → ForcesAndMoments K} {density : K → K}
  {engine : SimulationEngine (WindModel K) (AircraftState K) K K}

theorem step_mirror (haero : Symmetric aero) (hcalm : engine.windModel.Calm) :
    engine.mirror.step (flightPhysics aero density) = (engine.step (flightPhysics aero density)).mirror := by
  let P := flightPhysics aero density
  have hupdate : P.update engine.mirror.aircraftState engine.mirror.currentInput engine.mirror.windModel
      engine.mirror.simTime engine.mirror.timeStep =
      (P.update engine.aircraftState engine.currentInput engine.windModel engine.simTime engine.timeStep).mirror := by
    have hwind := WindModel.compute_mirror hcalm engine.aircraftState.altitudeMsl engine.simTime
    simp only [P, flightPhysics, ← FlightDynamics.update_mirror haero, ← hwind]
    rfl
  obtain ⟨hstate, hstep⟩ | ⟨aircraft, hrunning, haircraft, hstep⟩ := step_cases (P := P) engine
  · rw [hstep]
    exact step_of_not_running hstate
  · have hvalid : P.checkStateValidity aircraft.mirror = P.checkStateValidity aircraft := checkStateValidity_mirror _
    have hmirror : engine.mirror.step P =
        if P.checkStateValidity aircraft = true then { engine.mirror with
          aircraftState := P.clampState aircraft.mirror
          simTime := engine.simTime + engine.timeStep
          tickCount := engine.tickCount + 1 }
        else { engine.mirror with aircraftState := aircraft.mirror, state := .error } := by
      have hstate : engine.mirror.state = .running := hrunning
      rw [step, if_pos hstate]
      simp only [hupdate, ← haircraft, hvalid]
      rfl
    obtain ⟨hinvalid, hstep⟩ | ⟨hsound, hstep⟩ := hstep
    · rw [hmirror, hstep, if_neg (ne_true_of_eq_false hinvalid)]
      rfl
    · rw [hmirror, hstep, if_pos hsound]
      rfl

omit [CmathParity K] [IsStrictOrderedRing K] in
theorem step_calm (hcalm : engine.windModel.Calm) : (engine.step (flightPhysics aero density)).windModel.Calm := by
  obtain ⟨-, hstep⟩ | ⟨aircraft, -, -, ⟨-, hstep⟩ | ⟨-, hstep⟩⟩ :=
    step_cases (P := flightPhysics aero density) engine
  all_goals
    rw [hstep]
    exact hcalm

theorem initializeEngine_mirror {config : Config K} (h : ¬config.gustIntensity > 0.0) :
    initializeEngine (flightPhysics aero density) config.mirror =
      (initializeEngine (flightPhysics aero density) config).mirror := by
  have hneutral : (ControlInput.neutral : ControlInput K).mirror = ControlInput.neutral := by
    simp only [ControlInput.mirror, ControlInput.neutral, neg_zero]
  simp only [initializeEngine, mirror, flightPhysics, initialAircraft_mirror, initialWind_mirror h, hneutral]
  rfl

omit [LinearOrder K] [Cmath K] [CmathParity K] [IsStrictOrderedRing K] in
theorem transitionTo_mirror (target : SimState) :
    engine.mirror.transitionTo target = (engine.transitionTo target).mirror := by
  rw [transitionTo, transitionTo, apply_ite mirror]
  rfl

theorem call_mirror (haero : Symmetric aero) (hcalm : engine.windModel.Calm) {call : Call (Config K) K}
    (hreset : ∀ config, call = .reset config → ¬config.gustIntensity > 0.0) :
    engine.mirror.call (flightPhysics aero density) call.mirror =
        (engine.call (flightPhysics aero density) call).mirror ∧
      (engine.call (flightPhysics aero density) call).windModel.Calm := by
  cases call with
  | start => exact ⟨transitionTo_mirror _, by rw [SimulationEngine.call, start, transitionTo_eq]; exact hcalm⟩
  | pause => exact ⟨transitionTo_mirror _, by rw [SimulationEngine.call, pause, transitionTo_eq]; exact hcalm⟩
  | resume => exact ⟨transitionTo_mirror _, by rw [SimulationEngine.call, resume, transitionTo_eq]; exact hcalm⟩
  | stop =>
    constructor
    · simp only [SimulationEngine.call, Call.mirror, stop]
      rw [apply_ite mirror]
      rfl
    · rw [SimulationEngine.call, stop_eq]
      exact hcalm
  | reset config =>
    have hstill := hreset config rfl
    exact ⟨initializeEngine_mirror hstill, initialWind_calm hstill⟩
  | setControlInput input =>
    constructor
    · simp only [SimulationEngine.call, Call.mirror, setControlInput, ControlInput.clampAll_mirror]
      rfl
    · exact hcalm
  | step => exact ⟨step_mirror haero hcalm, step_calm hcalm⟩

theorem calls_mirror (haero : Symmetric aero) {calls : List (Call (Config K) K)}
    (hresets : ∀ config, .reset config ∈ calls → ¬config.gustIntensity > 0.0) (hcalm : engine.windModel.Calm) :
    (calls.map Call.mirror).foldl (fun engine call => engine.call (flightPhysics aero density) call) engine.mirror =
      (calls.foldl (fun engine call => engine.call (flightPhysics aero density) call) engine).mirror := by
  induction calls generalizing engine with
  | nil => rfl
  | cons call calls ih =>
    have hreset (config : Config K) (h : call = .reset config) : ¬config.gustIntensity > 0.0 := by
      apply hresets
      rw [h]
      exact List.mem_cons_self
    obtain ⟨hcall, hnext⟩ : engine.mirror.call (flightPhysics aero density) call.mirror =
        (engine.call (flightPhysics aero density) call).mirror ∧
        (engine.call (flightPhysics aero density) call).windModel.Calm := call_mirror haero hcalm hreset
    rw [List.map_cons, List.foldl_cons, List.foldl_cons, hcall]
    exact ih (fun config hmem => hresets config (List.mem_cons_of_mem _ hmem)) hnext

/-- Whatever the pilot does, the same done with left and right exchanged flies the mirror image. -/
theorem flight_mirror (coefficients : AeroParams K) (density : K → K) {config : Config K}
    (hcalm : ¬config.gustIntensity > 0.0) (calls : List (Call (Config K) K))
    (hresets : ∀ config, .reset config ∈ calls → ¬config.gustIntensity > 0.0) :
    let P := flightPhysics (Aerodynamics.compute coefficients) density
    let fly (config : Config K) (calls : List (Call (Config K) K)) :=
      calls.foldl (fun engine call => engine.call P call) (initializeEngine P config)
    fly config.mirror (calls.map Call.mirror) = (fly config calls).mirror := by
  intro P fly
  simp only [fly, P]
  rw [initializeEngine_mirror hcalm]
  exact calls_mirror (Aerodynamics.compute_mirror coefficients) hresets (initialWind_calm hcalm)

end SimulationEngine

end Engine

section Reals

open SimulationEngine

instance instCmathParityReal : CmathParity ℝ where
  sin_neg := Real.sin_neg
  cos_neg := Real.cos_neg
  asin_neg := Real.arcsin_neg
  isnan_neg _ := rfl

theorem flight_mirror_turning :
    let P := flightPhysics (Aerodynamics.compute AeroParams.default) fun _ => (1.225 : ℝ)
    let fly (config : Config ℝ) (calls : List (Call (Config ℝ) ℝ)) :=
      calls.foldl (fun engine call => engine.call P call) (initializeEngine P config)
    fly (configAt 1000).mirror [.start, .setControlInput ⟨0, -1, 0.5, 1, 0, 0⟩, .step, .step] =
      (fly (configAt 1000) [.start, .setControlInput ⟨0, 1, -0.5, 1, 0, 0⟩, .step, .step]).mirror := by
  have hcalm : ¬(configAt 1000).gustIntensity > 0.0 := by norm_num [configAt]
  have h := flight_mirror AeroParams.default (fun _ => (1.225 : ℝ)) hcalm
    [.start, .setControlInput ⟨0, 1, -0.5, 1, 0, 0⟩, .step, .step] (by simp)
  simpa only [List.map_cons, List.map_nil, Call.mirror, ControlInput.mirror, neg_neg] using h

end Reals

end Klett.Luft

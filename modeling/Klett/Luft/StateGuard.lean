import Klett.Lib.Machine
import Klett.Luft.FlightEngine

namespace Klett.Luft

open Klett.Lib Isnan SimulationEngine

section Check

variable {K : Type*} [OfScientific K] [Add K] [Mul K] [LT K] [DecidableLT K] [Isnan K] {state : AircraftState K}

theorem checkStateValidity_iff : checkStateValidity state = true ↔
    (isnan state.position.x = false ∧ isnan state.position.y = false ∧ isnan state.position.z = false) ∧
    (isnan state.velocityBody.x = false ∧ isnan state.velocityBody.y = false ∧ isnan state.velocityBody.z = false) ∧
    (isnan state.airspeed = false ∧ isnan state.alpha = false ∧ isnan state.beta = false) ∧
    (isnan state.orientation.w = false ∧ isnan state.orientation.x = false ∧ isnan state.orientation.y = false ∧
      isnan state.orientation.z = false) ∧
    (isnan state.angularVelocity.x = false ∧ isnan state.angularVelocity.y = false ∧
      isnan state.angularVelocity.z = false) ∧
    ¬state.velocityBody.magnitudeSq > (1000.0 : K) * 1000.0 := by
  simp [checkStateValidity, and_assoc]

variable [Neg K] [LawfulIsnan K]

omit [Add K] [Mul K] in
theorem isnan_clamp {lo hi : K} (hlo : isnan lo = false) (hhi : isnan hi = false) (x : K) :
    isnan (clamp x lo hi) = isnan x := by
  unfold clamp
  split_ifs with hbelow habove
  · rw [hlo]
    refine (Bool.eq_false_iff.mpr fun hx => ?_).symm
    exact (LawfulIsnan.not_lt_of_isnan x lo hx).1 hbelow
  · rw [hhi]
    refine (Bool.eq_false_iff.mpr fun hx => ?_).symm
    exact (LawfulIsnan.not_lt_of_isnan x hi hx).2 habove
  · rfl

/-- The altitude is copied into the position after the check, which has not looked at it. -/
theorem checkStateValidity_clampState (h : checkStateValidity state = true) :
    checkStateValidity (clampState state) = true ↔ isnan state.altitudeMsl = false := by
  have hposition : isnan (clampState state).position.z = isnan state.altitudeMsl := by
    simp only [clampState, LawfulIsnan.isnan_neg]
    apply isnan_clamp
    · rw [LawfulIsnan.isnan_neg, LawfulIsnan.isnan_literal]
    · rw [LawfulIsnan.isnan_literal]
  rw [checkStateValidity_iff] at h ⊢
  obtain ⟨⟨hx, hy, -⟩, hrest⟩ := h
  rw [hposition]
  exact ⟨fun hclamped => hclamped.1.2.2, fun haltitude => ⟨⟨hx, hy, haltitude⟩, hrest⟩⟩

end Check

section Runs

variable {Config Wind α T K : Type} [OfScientific K] [Add K] [Mul K] [Neg K] [LT K] [DecidableLT K] [Isnan K] [Add T]

/-- Any models, under the check and the clamps of the engine. -/
def guarded (P : Physics Config Wind (AircraftState K) α T) : Physics Config Wind (AircraftState K) α T :=
  { P with checkStateValidity := checkStateValidity, clampState := clampState }

def getState (engine : SimulationEngine Wind (AircraftState K) α T) : AircraftState K := engine.aircraftState

/-- A step passes the check and leaves no NaN in the altitude, and a reset starts from a valid state. -/
def SoundCall (P : Physics Config Wind (AircraftState K) α T) (engine : SimulationEngine Wind (AircraftState K) α T)
    (call : Call Config α) : Prop :=
  match call with
  | .step =>
    let aircraft := P.update engine.aircraftState engine.currentInput engine.windModel engine.simTime engine.timeStep
    engine.state = .running → checkStateValidity aircraft = true ∧ isnan aircraft.altitudeMsl = false
  | .reset config => checkStateValidity (P.initialAircraft config) = true
  | _ => True

variable [LawfulIsnan K] (P : Physics Config Wind (AircraftState K) α T)
  {engine : SimulationEngine Wind (AircraftState K) α T}

theorem valid_step_iff (h : checkStateValidity engine.aircraftState = true) :
    checkStateValidity (engine.step (guarded P)).aircraftState = true ↔ SoundCall P engine .step := by
  obtain ⟨hnot, hstep⟩ | ⟨aircraft, hrunning, haircraft, ⟨hinvalid, hstep⟩ | ⟨hvalid, hstep⟩⟩ :=
    step_cases (P := guarded P) engine
  · rw [hstep]
    exact iff_of_true h fun hrunning => absurd hrunning hnot
  · -- the failed state stays where the update has put it
    rw [hstep]
    change checkStateValidity aircraft = false at hinvalid
    have hcheck : ¬checkStateValidity aircraft = true := by rw [hinvalid]; exact Bool.false_ne_true
    refine iff_of_false hcheck fun hsound => hcheck ?_
    rw [haircraft]
    exact (hsound hrunning).1
  · rw [hstep]
    change checkStateValidity aircraft = true at hvalid
    change checkStateValidity (clampState aircraft) = true ↔ _
    rw [checkStateValidity_clampState hvalid]
    have haircraft : P.update engine.aircraftState engine.currentInput engine.windModel engine.simTime engine.timeStep =
      aircraft := haircraft.symm
    simp only [SoundCall, haircraft]
    exact ⟨fun haltitude _ => ⟨hvalid, haltitude⟩, fun hsound => (hsound hrunning).2⟩

variable [LT α] [DecidableLT α] [Zero α] [One α] [Neg α] [Zero T]

theorem valid_call_iff (h : checkStateValidity engine.aircraftState = true) (call : Call Config α) :
    checkStateValidity (engine.call (guarded P) call).aircraftState = true ↔ SoundCall P engine call := by
  cases call with
  | start => exact iff_of_true (by rwa [SimulationEngine.call, start, transitionTo_eq]) trivial
  | pause => exact iff_of_true (by rwa [SimulationEngine.call, pause, transitionTo_eq]) trivial
  | resume => exact iff_of_true (by rwa [SimulationEngine.call, resume, transitionTo_eq]) trivial
  | stop => exact iff_of_true (by rwa [SimulationEngine.call, stop_eq]) trivial
  | reset config => rfl
  | setControlInput input => exact iff_of_true h trivial
  | step => exact valid_step_iff P h

/-- The states that can be read are valid, all along a run, exactly if every call of the run is sound. -/
theorem valid_along_iff {config : Config} (hinitial : checkStateValidity (P.initialAircraft config) = true)
    (calls : List (Call Config α)) :
    let next (engine : SimulationEngine Wind (AircraftState K) α T) call := engine.call (guarded P) call
    let engine := initializeEngine (guarded P) config
    Along next (fun engine call => checkStateValidity (getState (next engine call)) = true) engine calls ↔
      Along next (SoundCall P) engine calls := by
  intro next engine
  apply Along.congr_keep (P := fun _ _ => True) (I := fun engine => checkStateValidity engine.aircraftState = true)
  · exact Along.of_forall fun _ _ => trivial
  · exact hinitial
  · exact fun engine call hvalid _ => valid_call_iff P hvalid call
  · exact fun _ _ _ _ hvalid => hvalid

end Runs

section Doubles

instance : Isnan Double := ⟨(· = .nan)⟩

instance : LawfulIsnan Double where
  not_lt_of_isnan x y hx := by
    obtain rfl : x = .nan := of_decide_eq_true hx
    exact ⟨Double.not_nan_lt y, Double.not_lt_nan y⟩
  isnan_neg x := by cases x <;> rfl
  isnan_literal _ _ _ := rfl

def stillAircraft : AircraftState Double where
  position := ⟨0, 0, .finite (-1000)⟩
  velocityBody := ⟨.finite 50, 0, 0⟩
  orientation := ⟨1, 0, 0, 0⟩
  angularVelocity := ⟨0, 0, 0⟩
  thrustCurrent := 0
  fuelMass := .finite 100
  airspeed := .finite 50
  alpha := 0
  beta := 0
  altitudeMsl := .finite 1000
  dynamicPressure := 0

def jumping (aircraft : AircraftState Double) : Physics Unit Unit (AircraftState Double) ℚ ℚ where
  timeStep _ := 1 / 100
  initialAircraft _ := stillAircraft
  windModel _ := ()
  update _ _ _ _ _ := aircraft
  checkStateValidity _ := true
  clampState aircraft := aircraft

theorem valid_along_still :
    let next (engine : SimulationEngine Unit (AircraftState Double) ℚ ℚ) call :=
      engine.call (guarded (jumping stillAircraft)) call
    let engine := initializeEngine (guarded (jumping stillAircraft)) ()
    Along next (fun engine call => checkStateValidity (getState (next engine call)) = true) engine [.start, .step] ↔
      Along next (SoundCall (jumping stillAircraft)) engine [.start, .step] :=
  valid_along_iff (jumping stillAircraft) (by decide +kernel) [.start, .step]

def lostAircraft : AircraftState Double := { stillAircraft with position := ⟨.nan, 0, 0⟩ }

/-- The failed step shows in the state that is read in `Error`. -/
theorem invalid_in_error :
    let P := guarded (jumping lostAircraft)
    let engine := ((initializeEngine P ()).start).step P
    checkStateValidity ((jumping lostAircraft).initialAircraft ()) = true ∧ engine.state = .error ∧
      checkStateValidity (getState engine) = false := by
  decide +kernel

end Doubles

end Klett.Luft

import Klett.Lib.Double

namespace Klett.Luft

open Klett.Lib

structure ControlInput (α : Type*) where
  elevator : α
  aileron : α
  rudder : α
  throttle : α
  flaps : α
  trim : α
deriving DecidableEq

namespace ControlInput

variable {α : Type*} [Zero α]

def neutral : ControlInput α := ⟨0, 0, 0, 0, 0, 0⟩

variable [LT α] [DecidableLT α] [One α] [Neg α]

def clampAll (input : ControlInput α) : ControlInput α where
  elevator := clamp input.elevator (-1) 1
  aileron := clamp input.aileron (-1) 1
  rudder := clamp input.rudder (-1) 1
  throttle := clamp input.throttle 0 1
  flaps := clamp input.flaps 0 1
  trim := clamp input.trim (-1) 1

end ControlInput

inductive SimState where
  | uninitialized
  | initialized
  | running
  | paused
  | stopped
  | error
deriving DecidableEq, Repr

/-- The models the engine owns: what a configuration makes of them, and what one time step does to the aircraft. -/
structure Physics (Config Wind Aircraft α T : Type*) where
  timeStep : Config → T
  initialAircraft : Config → Aircraft
  windModel : Config → Wind
  update : Aircraft → ControlInput α → Wind → T → T → Aircraft
  checkStateValidity : Aircraft → Bool
  clampState : Aircraft → Aircraft

structure SimulationEngine (Wind Aircraft α T : Type*) where
  aircraftState : Aircraft
  windModel : Wind
  currentInput : ControlInput α
  state : SimState
  simTime : T
  tickCount : ℕ
  timeStep : T

namespace SimulationEngine

section Operations

variable {Config Wind Aircraft α T : Type*} (P : Physics Config Wind Aircraft α T)
  (engine : SimulationEngine Wind Aircraft α T)

def isValidTransition (source target : SimState) : Bool :=
  match target with
  | .initialized => source = .uninitialized || source = .stopped
  | .running => source = .initialized || source = .paused
  | .paused => source = .running
  | .stopped => source = .initialized || source = .running || source = .paused || source = .error
  | .error => source = .running
  | .uninitialized => false

def transitionTo (target : SimState) : SimulationEngine Wind Aircraft α T :=
  if isValidTransition engine.state target then { engine with state := target } else engine

def initializeEngine [Zero α] [Zero T] (config : Config) : SimulationEngine Wind Aircraft α T where
  aircraftState := P.initialAircraft config
  windModel := P.windModel config
  currentInput := ControlInput.neutral
  state := .initialized
  simTime := 0
  tickCount := 0
  timeStep := P.timeStep config

def start : SimulationEngine Wind Aircraft α T := engine.transitionTo .running

def pause : SimulationEngine Wind Aircraft α T := engine.transitionTo .paused

def resume : SimulationEngine Wind Aircraft α T := engine.transitionTo .running

def stop : SimulationEngine Wind Aircraft α T :=
  if engine.state = .uninitialized then engine else { engine with state := .stopped }

def step [Add T] : SimulationEngine Wind Aircraft α T :=
  if engine.state = .running then
    let aircraft := P.update engine.aircraftState engine.currentInput engine.windModel engine.simTime engine.timeStep
    if P.checkStateValidity aircraft then
      { engine with
        aircraftState := P.clampState aircraft
        simTime := engine.simTime + engine.timeStep
        tickCount := engine.tickCount + 1 }
    else { engine with aircraftState := aircraft, state := .error }
  else engine

def setControlInput [LT α] [DecidableLT α] [Zero α] [One α] [Neg α] (input : ControlInput α) :
    SimulationEngine Wind Aircraft α T :=
  { engine with currentInput := input.clampAll }

inductive Call (Config α : Type*) where
  | start
  | pause
  | resume
  | stop
  | reset (config : Config)
  | setControlInput (input : ControlInput α)
  | step

variable [LT α] [DecidableLT α] [Zero α] [One α] [Neg α] [Add T] [Zero T]

def call : Call Config α → SimulationEngine Wind Aircraft α T
  | .start => engine.start
  | .pause => engine.pause
  | .resume => engine.resume
  | .stop => engine.stop
  | .reset config => initializeEngine P config
  | .setControlInput input => engine.setControlInput input
  | .step => engine.step P

end Operations

section Frame

variable {Config Wind Aircraft α T : Type*} {P : Physics Config Wind Aircraft α T}
  {engine : SimulationEngine Wind Aircraft α T}

theorem transitionTo_eq (target : SimState) : engine.transitionTo target =
    { engine with state := if isValidTransition engine.state target then target else engine.state } := by
  rw [transitionTo]
  split_ifs <;> rfl

theorem stop_eq : engine.stop =
    { engine with state := if engine.state = .uninitialized then .uninitialized else .stopped } := by
  rw [stop]
  split_ifs with h
  · rw [← h]
  · rfl

theorem call_time [LT α] [DecidableLT α] [Zero α] [One α] [Neg α] [Add T] [Zero T]
    (engine : SimulationEngine Wind Aircraft α T) {call : Call Config α} (hstep : call ≠ .step)
    (hreset : ∀ config, call ≠ .reset config) :
    (engine.call P call).simTime = engine.simTime ∧ (engine.call P call).timeStep = engine.timeStep := by
  cases call with
  | start => rw [SimulationEngine.call, start, transitionTo_eq]; exact ⟨rfl, rfl⟩
  | pause => rw [SimulationEngine.call, pause, transitionTo_eq]; exact ⟨rfl, rfl⟩
  | resume => rw [SimulationEngine.call, resume, transitionTo_eq]; exact ⟨rfl, rfl⟩
  | stop => rw [SimulationEngine.call, stop_eq]; exact ⟨rfl, rfl⟩
  | reset config => exact absurd rfl (hreset config)
  | setControlInput input => exact ⟨rfl, rfl⟩
  | step => exact absurd rfl hstep

theorem step_of_not_running [Add T] (h : engine.state ≠ .running) : engine.step P = engine :=
  if_neg h

theorem step_cases [Add T] (engine : SimulationEngine Wind Aircraft α T) :
    (engine.state ≠ .running ∧ engine.step P = engine) ∨
    ∃ aircraft, engine.state = .running ∧
      aircraft = P.update engine.aircraftState engine.currentInput engine.windModel engine.simTime engine.timeStep ∧
      ((P.checkStateValidity aircraft = false ∧
          engine.step P = { engine with aircraftState := aircraft, state := .error }) ∨
        (P.checkStateValidity aircraft = true ∧
          engine.step P =
            { engine with
              aircraftState := P.clampState aircraft
              simTime := engine.simTime + engine.timeStep
              tickCount := engine.tickCount + 1 })) := by
  by_cases h : engine.state = .running
  · refine .inr ⟨_, h, rfl, ?_⟩
    rw [step, if_pos h]
    dsimp only
    split_ifs with hvalid
    · exact .inr ⟨hvalid, rfl⟩
    · exact .inl ⟨eq_false_of_ne_true hvalid, rfl⟩
  · exact .inl ⟨h, step_of_not_running h⟩

theorem step_time [Add T] (engine : SimulationEngine Wind Aircraft α T) :
    (engine.step P).timeStep = engine.timeStep ∧
      ((engine.step P).simTime = engine.simTime ∨ (engine.step P).simTime = engine.simTime + engine.timeStep) := by
  obtain ⟨-, heq⟩ | ⟨aircraft, -, -, ⟨-, heq⟩ | ⟨-, heq⟩⟩ := step_cases (P := P) engine
  · rw [heq]
    exact ⟨rfl, .inl rfl⟩
  · rw [heq]
    exact ⟨rfl, .inl rfl⟩
  · rw [heq]
    exact ⟨rfl, .inr rfl⟩

end Frame

end SimulationEngine

end Klett.Luft

import Klett.Lib.Machine
import Klett.Luft.MessageCodec
import Klett.Luft.SimulationEngine

namespace Klett.Luft

open Klett.Lib

section Commands

variable {Config α : Type*}

def dispatchSimCommand (config : Config) : SimCommandType → List (SimulationEngine.Call Config α)
  | .start => [.start]
  | .pause => [.pause]
  | .resume => [.resume]
  | .reset => [.reset config, .start]
  | .stop => [.stop]

end Commands

namespace MainLoop

open SimulationEngine

section Model

variable {Config Wind Aircraft α : Type} (P : Physics Config Wind Aircraft α ℚ)

structure Settings (Config : Type) where
  config : Config
  maxSimTime : ℚ := 0
  telemetryRateHz : ℚ := 20

def Settings.telemetryInterval (settings : Settings Config) : ℚ :=
  if settings.telemetryRateHz > 0 then 1 / settings.telemetryRateHz else 1 / 20

def kMaxStepsPerFrame : ℕ := 20

structure Locals where
  simStart : ℚ
  nextTelemetry : ℚ := 0

/-- Where the main thread is: what it does next, with what it has read. -/
inductive Main where
  | start
  | readStart
  | readNow (l : Locals)
  | compareTime (l : Locals) (elapsed : ℚ) (steps : ℕ)
  | compareState (l : Locals) (elapsed : ℚ) (steps : ℕ)
  | step (l : Locals) (elapsed : ℚ) (steps : ℕ)
  | checkError (l : Locals)
  | checkMaxTime (l : Locals)
  | publish (l : Locals)
  | sleep (l : Locals)
  | stop
  | done

/-- The network thread has the calls of the callback it is in still to make. -/
structure World (Config Wind Aircraft α : Type) where
  engine : SimulationEngine Wind Aircraft α ℚ
  clock : ℚ
  main : Main := .start
  pending : List (Call Config α) := []

inductive Action (α : Type) where
  | tick (d : ℚ)
  | command (cmd : SimCommandType)
  | control (input : ControlInput α)
  | network
  | quit
  | main

variable (settings : Settings Config)

def mainStep (w : World Config Wind Aircraft α) : Option (World Config Wind Aircraft α) :=
  match w.main with
  | .start => some { w with engine := w.engine.start, main := .readStart }
  | .readStart => some { w with main := .readNow { simStart := w.clock } }
  | .readNow l => some { w with main := .compareTime l (w.clock - l.simStart) 0 }
  | .compareTime l elapsed steps =>
    if w.engine.simTime < elapsed then some { w with main := .compareState l elapsed steps }
    else some { w with main := .checkError l }
  | .compareState l elapsed steps =>
    if w.engine.state = .running ∧ steps < kMaxStepsPerFrame then some { w with main := .step l elapsed steps }
    else some { w with main := .checkError l }
  | .step l elapsed steps =>
    some { w with engine := w.engine.step P, main := .compareTime l elapsed (steps + 1) }
  | .checkError l =>
    if w.engine.state = .error then some { w with main := .stop } else some { w with main := .checkMaxTime l }
  | .checkMaxTime l =>
    if settings.maxSimTime > 0 ∧ w.engine.simTime ≥ settings.maxSimTime then some { w with main := .stop }
    else some { w with main := .publish l }
  | .publish l =>
    if w.engine.simTime ≥ l.nextTelemetry then
      some { w with main := .sleep { l with nextTelemetry := l.nextTelemetry + settings.telemetryInterval } }
    else some { w with main := .sleep l }
  | .sleep l => some { w with main := .readNow l }
  | .stop => some { w with engine := w.engine.stop, main := .done }
  | .done => none

def initial [Zero α] (clock : ℚ) : World Config Wind Aircraft α :=
  { engine := initializeEngine P settings.config, clock := clock }

/-- The time passed in state `Running` since the last time the engine was set up. -/
def runningTime (r : ℚ) (w : World Config Wind Aircraft α) (a : Action α) (_ : List Empty) : ℚ :=
  match a, w.pending with
  | .tick d, _ => if w.engine.state = .running then r + d else r
  | .network, .reset _ :: _ => 0
  | _, _ => r

def steppedFor : Action α → Main → Option ℚ
  | .main, .step _ elapsed _ => some elapsed
  | _, _ => none

/-- No step is taken for time the engine was not running. -/
def OnlyRunning (_ : Trace (Action α) Empty) (x : World Config Wind Aircraft α × ℚ) (a : Action α) : Prop :=
  ∀ elapsed ∈ steppedFor a x.1.main, elapsed ≤ x.2

instance decidableOnlyRunning (k : Trace (Action α) Empty) (x : World Config Wind Aircraft α × ℚ) (a : Action α) :
    Decidable (OnlyRunning k x a) :=
  inferInstanceAs (Decidable (∀ elapsed ∈ steppedFor a x.1.main, elapsed ≤ x.2))

variable [LT α] [DecidableLT α] [Zero α] [One α] [Neg α]

/-- The quit flag is looked at before the clock. -/
def worldStep (w : World Config Wind Aircraft α) : Action α → Option (World Config Wind Aircraft α)
  | .tick d => if 0 ≤ d then some { w with clock := w.clock + d } else none
  | .command cmd =>
    match w.pending with
    | [] => some { w with pending := dispatchSimCommand settings.config cmd }
    | _ => none
  | .control input =>
    match w.pending with
    | [] => some { w with pending := [.setControlInput input] }
    | _ => none
  | .network =>
    match w.pending with
    | [] => none
    | call :: rest => some { w with engine := w.engine.call P call, pending := rest }
  | .quit =>
    match w.main with
    | .readNow _ => some { w with main := .stop }
    | _ => none
  | .main => mainStep P settings w

def machine : Machine (World Config Wind Aircraft α) (Action α) Empty where
  step w a := (worldStep P settings w a).map (·, [])

end Model

end MainLoop

end Klett.Luft

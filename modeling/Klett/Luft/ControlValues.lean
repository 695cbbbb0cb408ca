import Klett.Luft.MainLoop
import Klett.Luft.NetworkService
import Mathlib.Tactic.IntervalCases

namespace Klett.Luft.ControlValues

open Klett.Lib SimulationEngine NetworkService

section Model

variable {Config Wind Aircraft T : Type} (P : Physics Config Wind Aircraft Double T) (config : Config)

def callsOf (msg : FramedMessage) : List (Call Config Double) :=
  match callbackOf msg with
  | some (.command cmd) => dispatchSimCommand config cmd
  | some (.control input) => [.setControlInput input]
  | none => []

/-- The network thread has the calls of the messages it is dispatching still to make. -/
structure Server (Config Wind Aircraft T : Type) where
  service : NetworkService := {}
  pending : List (FramedMessage × Call Config Double) := []
  engine : SimulationEngine Wind Aircraft Double T

inductive Action where
  | network (e : Event)
  | callback
  | start
  | step
  | stop

variable [Add T] [Zero T]

def initial : Server Config Wind Aircraft T := { engine := initializeEngine P config }

def act (server : Server Config Wind Aircraft T) : Action → Server Config Wind Aircraft T
  | .network e =>
    match server.pending with
    | [] =>
      let polled := server.service.handle e
      { server with
        service := polled.service
        pending := polled.dispatched.flatMap fun (_, msg) => (callsOf config msg).map (msg, ·) }
    | _ => server
  | .callback =>
    match server.pending with
    | [] => server
    | (_, call) :: rest => { server with pending := rest, engine := server.engine.call P call }
  | .start => { server with engine := server.engine.start }
  | .step => { server with engine := server.engine.step P }
  | .stop => { server with engine := server.engine.stop }

def run (server : Server Config Wind Aircraft T) (acts : List Action) : Server Config Wind Aircraft T :=
  acts.foldl (act P config) server

def setBy (server : Server Config Wind Aircraft T) (a : Action) : List FramedMessage :=
  match a, server.pending with
  | .callback, (msg, .setControlInput _) :: _ => [msg]
  | _, _ => []

def applied : Server Config Wind Aircraft T → List Action → List FramedMessage
  | _, [] => []
  | server, a :: acts => setBy server a ++ applied (act P config server a) acts

end Model

section Ranges

open MessageCodec

structure Valid (input : ControlInput Double) : Prop where
  elevator : Double.Inside (-1) 1 input.elevator
  aileron : Double.Inside (-1) 1 input.aileron
  rudder : Double.Inside (-1) 1 input.rudder
  throttle : Double.Inside 0 1 input.throttle
  flaps : Double.Inside 0 1 input.flaps
  trim : Double.Inside (-1) 1 input.trim

def Poisoned (msg : FramedMessage) : Prop := ∃ i < 6, Double.NanBits (wordAt msg.payload i)

theorem valid_neutral : Valid .neutral := by
  have hzero (lo : ℚ) (hlo : lo ≤ 0) : Double.Inside lo 1 (0 : Double) := ⟨0, rfl, hlo, zero_le_one⟩
  have hneg := hzero (-1) (by norm_num)
  exact ⟨hneg, hneg, hneg, hzero 0 le_rfl, hzero 0 le_rfl, hneg⟩

theorem valid_clampAll_iff {msg : FramedMessage} {input : ControlInput Double}
    (h : deserializeControlInput msg.payload = some input) : Valid input.clampAll ↔ ¬ Poisoned msg := by
  have hsigned (d : Double) : Double.Inside (-1) 1 (clamp d (-1) 1) ↔ d ≠ .nan :=
    Double.inside_clamp_iff (by norm_num) d
  have hunsigned (d : Double) : Double.Inside 0 1 (clamp d 0 1) ↔ d ≠ .nan := Double.inside_clamp_iff zero_le_one d
  rw [deserializeControlInput] at h
  split_ifs at h
  obtain rfl := Option.some.inj h
  have hread (i : ℕ) : readDouble msg.payload i ≠ .nan ↔ ¬ Double.NanBits (wordAt msg.payload i) :=
    not_congr (Double.ofBits_eq_nan_iff _)
  constructor
  · rintro ⟨h0, h1, h2, h3, h4, h5⟩ ⟨i, hi, hnan⟩
    have hall : ∀ i < 6, ¬ Double.NanBits (wordAt msg.payload i) := by
      intro i hi
      rw [← hread]
      interval_cases i
      · exact (hsigned _).mp h0
      · exact (hsigned _).mp h1
      · exact (hsigned _).mp h2
      · exact (hunsigned _).mp h3
      · exact (hunsigned _).mp h4
      · exact (hsigned _).mp h5
    exact hall i hi hnan
  · intro hclean
    have hall (i : ℕ) (hi : i < 6) : readDouble msg.payload i ≠ .nan :=
      (hread i).mpr fun hnan => hclean ⟨i, hi, hnan⟩
    exact ⟨(hsigned _).mpr (hall 0 (by decide)), (hsigned _).mpr (hall 1 (by decide)),
      (hsigned _).mpr (hall 2 (by decide)), (hunsigned _).mpr (hall 3 (by decide)),
      (hunsigned _).mpr (hall 4 (by decide)), (hsigned _).mpr (hall 5 (by decide))⟩

end Ranges

section Runs

variable {Config Wind Aircraft T : Type} {P : Physics Config Wind Aircraft Double T} {config : Config} [Add T] [Zero T]
  {server : Server Config Wind Aircraft T}

def Faithful (pending : List (FramedMessage × Call Config Double)) : Prop :=
  ∀ msg input, (msg, Call.setControlInput input) ∈ pending →
    MessageCodec.deserializeControlInput msg.payload = some input

theorem mem_callsOf {msg : FramedMessage} {input : ControlInput Double}
    (h : Call.setControlInput input ∈ callsOf config msg) :
    MessageCodec.deserializeControlInput msg.payload = some input := by
  rw [callsOf] at h
  split at h
  · rename_i cmd _
    cases cmd <;> simp [dispatchSimCommand] at h
  · rename_i input' hcallback
    rw [callbackOf] at hcallback
    split_ifs at hcallback
    · simp at hcallback
    · obtain ⟨input'', hinput, heq⟩ := Option.map_eq_some_iff.mp hcallback
      obtain rfl := Callback.control.inj heq
      obtain rfl := Call.setControlInput.inj (List.mem_singleton.mp h)
      exact hinput
  · exact nomatch h

theorem currentInput_call (engine : SimulationEngine Wind Aircraft Double T) (call : Call Config Double)
    (h : ∀ input, call ≠ .setControlInput input) :
    (engine.call P call).currentInput = engine.currentInput ∨ (engine.call P call).currentInput = .neutral := by
  cases call with
  | start => exact .inl (by rw [SimulationEngine.call, start, transitionTo_eq])
  | pause => exact .inl (by rw [SimulationEngine.call, pause, transitionTo_eq])
  | resume => exact .inl (by rw [SimulationEngine.call, resume, transitionTo_eq])
  | stop => exact .inl (by rw [SimulationEngine.call, stop_eq])
  | reset config => exact .inr rfl
  | setControlInput input => exact absurd rfl (h input)
  | step =>
    apply Or.inl
    rw [SimulationEngine.call]
    obtain ⟨-, heq⟩ | ⟨aircraft, -, -, ⟨-, heq⟩ | ⟨-, heq⟩⟩ := step_cases (P := P) engine <;> rw [heq]

theorem faithful_act (a : Action) (h : Faithful server.pending) : Faithful (act P config server a).pending := by
  cases a with
  | network e =>
    rw [act.eq_def]
    dsimp only
    split
    · intro msg input hmem
      obtain ⟨⟨fd, msg'⟩, -, hmem⟩ := List.mem_flatMap.mp hmem
      obtain ⟨call, hcall, heq⟩ := List.mem_map.mp hmem
      obtain ⟨rfl, rfl⟩ := Prod.mk.inj heq
      exact mem_callsOf hcall
    · exact h
  | callback =>
    rw [act.eq_def]
    dsimp only
    split
    · exact h
    · rename_i hpending
      intro msg input hmem
      rw [hpending] at h
      exact h msg input (List.mem_cons_of_mem _ hmem)
  | start | step | stop => exact h

/-- Only a poisoned message puts an invalid input where a valid one was. -/
theorem valid_act_iff (a : Action) (h : Faithful server.pending) (hvalid : Valid server.engine.currentInput) :
    Valid (act P config server a).engine.currentInput ↔ ∀ msg ∈ setBy server a, ¬ Poisoned msg := by
  have hkept (call : Call Config Double) (hcall : ∀ input, call ≠ .setControlInput input) :
      Valid (server.engine.call P call).currentInput := by
    obtain heq | heq := currentInput_call (P := P) server.engine call hcall
    · rwa [heq]
    · rw [heq]
      exact valid_neutral
  have hown (a : Action) (call : Call Config Double)
      (hengine : (act P config server a).engine = server.engine.call P call) (hset : setBy server a = [])
      (hcall : ∀ input, call ≠ .setControlInput input) :
      Valid (act P config server a).engine.currentInput ↔ ∀ msg ∈ setBy server a, ¬ Poisoned msg := by
    rw [hengine, hset]
    exact iff_of_true (hkept call hcall) (List.forall_mem_nil _)
  cases a with
  | network e =>
    rw [act.eq_def, setBy.eq_def]
    dsimp only
    split <;> simpa using hvalid
  | callback =>
    rw [act.eq_def, setBy.eq_def]
    dsimp only
    cases hpending : server.pending with
    | nil => simpa using hvalid
    | cons entry rest =>
      obtain ⟨msg, call⟩ := entry
      dsimp only
      rw [hpending] at h
      cases call with
      | setControlInput input =>
        rw [List.forall_mem_singleton]
        exact valid_clampAll_iff (h msg input List.mem_cons_self)
      | start | pause | resume | stop | reset | step =>
        apply iff_of_true (hkept _ _) (List.forall_mem_nil _)
        rintro input ⟨⟩
  | start => exact hown .start .start rfl rfl (by rintro input ⟨⟩)
  | step => exact hown .step .step rfl rfl (by rintro input ⟨⟩)
  | stop => exact hown .stop .stop rfl rfl (by rintro input ⟨⟩)

theorem forall_prefix_cons {α : Type} (Q : List α → Prop) (a : α) (as : List α) :
    (∀ pre, pre <+: a :: as → Q pre) ↔ Q [] ∧ ∀ pre, pre <+: as → Q (a :: pre) := by
  constructor
  · intro h
    exact ⟨h [] List.nil_prefix, fun pre hpre => h (a :: pre) ((List.prefix_cons_inj a).mpr hpre)⟩
  · rintro ⟨hnil, hcons⟩ pre hpre
    obtain rfl | ⟨pre', rfl, hpre'⟩ := List.prefix_cons_iff.mp hpre
    · exact hnil
    · exact hcons pre' hpre'

theorem valid_run_iff (acts : List Action) (h : Faithful server.pending) (hvalid : Valid server.engine.currentInput) :
    (∀ pre, pre <+: acts → Valid (run P config server pre).engine.currentInput) ↔
      ∀ msg ∈ applied P config server acts, ¬ Poisoned msg := by
  induction acts generalizing server with
  | nil =>
    apply iff_of_true _ nofun
    intro pre hpre
    obtain rfl := List.prefix_nil.mp hpre
    exact hvalid
  | cons a acts ih =>
    rw [forall_prefix_cons, applied, List.forall_mem_append, ← valid_act_iff a h hvalid]
    simp only [run, List.foldl_nil, List.foldl_cons, hvalid, true_and]
    constructor
    · intro hall
      have hact := hall [] List.nil_prefix
      exact ⟨hact, (ih (faithful_act a h) hact).mp hall⟩
    · rintro ⟨hact, hrest⟩
      exact (ih (faithful_act a h) hact).mpr hrest

/-- Everything stored stays in range exactly as long as no control input with a NaN among its six doubles is set. -/
theorem valid_iff_not_poisoned (P : Physics Config Wind Aircraft Double T) (config : Config) (acts : List Action) :
    (∀ pre, pre <+: acts → Valid (run P config (initial P config) pre).engine.currentInput) ↔
      ∀ msg ∈ applied P config (initial P config) acts, ¬ Poisoned msg :=
  valid_run_iff acts (fun _ _ hmem => nomatch hmem) valid_neutral

def still : Physics Unit Unit Unit Double ℚ where
  timeStep _ := 1 / 100
  initialAircraft _ := ()
  windModel _ := ()
  update _ _ _ _ _ := ()
  checkStateValidity _ := true
  clampState _ := ()

def nanElevator : FramedMessage where
  type := .controlInput
  sequence := 1
  payload := [0, 0, 0, 0, 0, 0, 0xF8, 0x7F] ++ List.replicate 40 0

theorem not_valid_nanElevator :
    ¬ Valid (run still () (initial still ())
      [.network (.accept .command 5), .network (.readable 5 [MessageCodec.frame nanElevator] .again),
        .callback]).engine.currentInput := by
  have hfeed : [MessageCodec.frame nanElevator].foldl MessageCodec.feed {} = { messages := [nanElevator] } :=
    MessageCodec.foldl_feed_frames (by decide) rfl
  obtain ⟨input, hread⟩ : ∃ input, MessageCodec.deserializeControlInput nanElevator.payload = some input :=
    ⟨_, if_neg (by decide)⟩
  have hcallback : callbackOf nanElevator = some (.control input) := by
    rw [callbackOf, if_neg (by decide), if_pos (by decide), hread, Option.map_some]
  have hcalls : callsOf () nanElevator = [.setControlInput input] := by
    rw [callsOf, hcallback]
  have hpoisoned : Poisoned nanElevator := ⟨0, by decide, by decide⟩
  simp [run, act, initial, handle, acceptClient, kMaxClients, handleReadable, readAll, dispatchMessages, hfeed,
    MessageCodec.popAll_eq, hcalls]
  exact mt (valid_clampAll_iff hread).mp (not_not.mpr hpoisoned)

end Runs

end Klett.Luft.ControlValues

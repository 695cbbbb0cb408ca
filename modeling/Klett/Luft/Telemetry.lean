import Klett.Luft.Pacing
import Mathlib.Tactic.GCongr
import Mathlib.Tactic.Linarith
import Mathlib.Tactic.NormNum

namespace Klett.Luft.MainLoop

open Klett.Lib SimulationEngine

section Specification

variable {Config Wind Aircraft α : Type}

def Main.locals : Main → Option Locals
  | .readNow l | .compareTime l _ _ | .compareState l _ _ | .step l _ _ | .checkError l | .checkMaxTime l | .publish l
  | .sleep l => some l
  | .start | .readStart | .stop | .done => none

/-- The simulated time of the last publication, or the start of simulated time if that is later. -/
def lastPublished (last : ℚ) (w : World Config Wind Aircraft α) (a : Action α) (_ : List Empty) : ℚ :=
  match a, w.main, w.pending with
  | .main, .publish l, _ => if w.engine.simTime ≥ l.nextTelemetry then w.engine.simTime else last
  | .network, _, .reset _ :: _ => 0
  | _, _, _ => last

def setsBack : Action α → List (Call Config α) → Bool
  | .network, .reset _ :: _ => true
  | _, _ => false

/-- A reset reaches the engine while the due time is at most one interval: before the second publication. -/
def EarlyReset (settings : Settings Config) (_ : Trace (Action α) Empty) (w : World Config Wind Aircraft α)
    (a : Action α) : Prop :=
  setsBack a w.pending = true → ∀ l ∈ w.main.locals, l.nextTelemetry ≤ settings.telemetryInterval

instance (settings : Settings Config) (h : Trace (Action α) Empty) (w : World Config Wind Aircraft α)
    (a : Action α) : Decidable (EarlyReset settings h w a) :=
  inferInstanceAs (Decidable (setsBack a w.pending = true →
    ∀ l ∈ w.main.locals, l.nextTelemetry ≤ settings.telemetryInterval))

/-- The telemetry check of an iteration leaves a due time of at most one interval from what it has read. -/
def DueSoon (P : Physics Config Wind Aircraft α ℚ) (settings : Settings Config) (w : World Config Wind Aircraft α) :
    Prop :=
  ∀ l w', w.main = .publish l → mainStep P settings w = some w' →
    ∃ l', w'.main = .sleep l' ∧ l'.nextTelemetry ≤ w.engine.simTime + settings.telemetryInterval

end Specification

section Invariant

variable {Config Wind Aircraft α : Type} {P : Physics Config Wind Aircraft α ℚ} {settings : Settings Config}
  {w w' : World Config Wind Aircraft α} {last : ℚ}

/-- The steps that may have been taken since the last telemetry check. -/
def Main.steps : Main → ℕ
  | .compareTime _ _ steps | .compareState _ _ steps | .step _ _ steps => steps
  | .checkError _ | .checkMaxTime _ | .publish _ | .stop | .done => kMaxStepsPerFrame
  | .start | .readStart | .readNow _ | .sleep _ => 0

def Main.mayStep : Main → Bool
  | .step _ _ steps => decide (steps < kMaxStepsPerFrame)
  | m => decide (m.steps ≤ kMaxStepsPerFrame)

structure Regular (P : Physics Config Wind Aircraft α ℚ) (settings : Settings Config)
    (w : World Config Wind Aircraft α) (last : ℚ) : Prop where
  timeStep : w.engine.timeStep = P.timeStep settings.config
  pending : ∀ call ∈ w.pending, call ≠ .step ∧ ∀ config, call = .reset config → config = settings.config
  nonneg : 0 ≤ last
  published : last ≤ w.engine.simTime
  next : ∀ l ∈ w.main.locals, l.nextTelemetry ≤ last + settings.telemetryInterval
  mayStep : w.main.mayStep = true
  simTime : w.engine.simTime ≤ last + settings.telemetryInterval + w.main.steps * P.timeStep settings.config

theorem telemetryInterval_pos (settings : Settings Config) : 0 < settings.telemetryInterval := by
  unfold Settings.telemetryInterval
  split_ifs with hrate
  · exact one_div_pos.mpr hrate
  · norm_num

theorem mayStep_steps {m : Main} (h : m.mayStep = true) : m.steps ≤ kMaxStepsPerFrame := by
  cases m with
  | step => exact (of_decide_eq_true h).le
  | _ => exact of_decide_eq_true h

theorem Regular.move {m m' : Main} (h : Regular P settings w last) (htimeStep : 0 ≤ P.timeStep settings.config)
    (hmain : w.main = m) (hlocals : ∀ l ∈ m'.locals, l ∈ m.locals) (hmay : m'.mayStep = true)
    (hsteps : m.steps ≤ m'.steps) : Regular P settings { w with main := m' } last where
  timeStep := h.timeStep
  pending := h.pending
  nonneg := h.nonneg
  published := h.published
  next l hl := h.next l (by rw [hmain]; exact hlocals l hl)
  mayStep := hmay
  simTime := by
    apply h.simTime.trans
    rw [hmain]
    gcongr

theorem Regular.withEngine {engine : SimulationEngine Wind Aircraft α ℚ} (h : Regular P settings w last)
    (htimeStep : engine.timeStep = w.engine.timeStep) (hsimTime : engine.simTime = w.engine.simTime) :
    Regular P settings { w with engine := engine } last where
  timeStep := htimeStep.trans h.timeStep
  pending := h.pending
  nonneg := h.nonneg
  published := by rw [hsimTime]; exact h.published
  next := h.next
  mayStep := h.mayStep
  simTime := by rw [hsimTime]; exact h.simTime

theorem Regular.step {l : Locals} {elapsed : ℚ} {steps : ℕ} (h : Regular P settings w last)
    (htimeStep : 0 ≤ P.timeStep settings.config) (hmain : w.main = .step l elapsed steps) :
    Regular P settings { w with engine := w.engine.step P, main := .compareTime l elapsed (steps + 1) } last := by
  have hmay : steps < kMaxStepsPerFrame := by
    have hmay := h.mayStep
    rw [hmain] at hmay
    exact of_decide_eq_true hmay
  have hleft : Regular P settings { w with main := .compareTime l elapsed (steps + 1) } last :=
    h.move htimeStep hmain (fun _ hl => hl) (decide_eq_true hmay) (Nat.le_succ steps)
  obtain ⟨hsteady, hsame | hlater⟩ := step_time (P := P) w.engine
  · exact hleft.withEngine hsteady hsame
  · have hsimTime := h.simTime
    rw [hmain] at hsimTime
    constructor
    case timeStep => exact hsteady.trans h.timeStep
    case pending => exact h.pending
    case nonneg => exact h.nonneg
    case published =>
      rw [hlater, h.timeStep]
      exact h.published.trans (le_add_of_nonneg_right htimeStep)
    case next => exact hleft.next
    case mayStep => exact hleft.mayStep
    case simTime =>
      dsimp only [Main.steps] at hsimTime ⊢
      rw [hlater, h.timeStep]
      push_cast
      linarith

/-- The check either publishes, and the due time moves on by one interval, or finds the due time ahead. -/
theorem Regular.publish {l : Locals} (h : Regular P settings w last) (hmain : w.main = .publish l) :
    (w.engine.simTime ≥ l.nextTelemetry →
      let sent := { l with nextTelemetry := l.nextTelemetry + settings.telemetryInterval }
      Regular P settings { w with main := .sleep sent } w.engine.simTime) ∧
      (¬w.engine.simTime ≥ l.nextTelemetry → Regular P settings { w with main := .sleep l } last) := by
  have hinterval := telemetryInterval_pos settings
  have hnext : l.nextTelemetry ≤ last + settings.telemetryInterval := h.next l (by rw [hmain]; rfl)
  constructor
  · intro hdue
    refine ⟨h.timeStep, h.pending, h.nonneg.trans h.published, le_rfl, ?_, rfl, ?_⟩
    · rintro _ ⟨⟩
      exact add_le_add_left hdue _
    · simp only [Main.steps, Nat.cast_zero, zero_mul, add_zero]
      exact le_add_of_nonneg_right hinterval.le
  · intro hahead
    refine ⟨h.timeStep, h.pending, h.nonneg, h.published, ?_, rfl, ?_⟩
    · rintro _ ⟨⟩
      exact hnext
    · simp only [Main.steps, Nat.cast_zero, zero_mul, add_zero]
      exact (not_le.mp hahead).le.trans hnext

theorem Regular.dueSoon (h : Regular P settings w last) : DueSoon P settings w := by
  intro l w' hmain hstep
  have hnext : l.nextTelemetry ≤ last + settings.telemetryInterval := h.next l (by rw [hmain]; rfl)
  simp only [mainStep, hmain] at hstep
  split_ifs at hstep with hdue
  · cases hstep
    exact ⟨_, rfl, add_le_add_left hdue _⟩
  · cases hstep
    exact ⟨_, rfl, hnext.trans (add_le_add_left h.published _)⟩

theorem Regular.mainStep (h : Regular P settings w last) (htimeStep : 0 ≤ P.timeStep settings.config)
    (hstep : mainStep P settings w = some w') : Regular P settings w' (lastPublished (α := α) last w .main []) := by
  have hcap := mayStep_steps h.mayStep
  have hinterval := telemetryInterval_pos settings
  cases hmain : w.main with
  | publish l =>
    obtain ⟨hdue, hahead⟩ := h.publish hmain
    simp only [MainLoop.mainStep, lastPublished, hmain] at hstep ⊢
    split_ifs at hstep ⊢ with hge
    · cases hstep
      exact hdue hge
    · cases hstep
      exact hahead hge
  | start =>
    simp only [MainLoop.mainStep, lastPublished, hmain, Option.some.injEq] at hstep ⊢
    subst hstep
    have hleft : Regular P settings { w with main := .readStart } last :=
      h.move htimeStep hmain (by simp [Main.locals]) rfl le_rfl
    apply hleft.withEngine <;> rw [start, transitionTo_eq]
  | readStart =>
    simp only [MainLoop.mainStep, lastPublished, hmain, Option.some.injEq] at hstep ⊢
    subst hstep
    refine ⟨h.timeStep, h.pending, h.nonneg, h.published, ?_, rfl, ?_⟩
    · rintro _ ⟨⟩
      exact add_nonneg h.nonneg hinterval.le
    · have hsimTime := h.simTime
      rwa [hmain] at hsimTime
  | readNow l | sleep l =>
    simp only [MainLoop.mainStep, lastPublished, hmain, Option.some.injEq] at hstep ⊢
    subst hstep
    exact h.move htimeStep hmain (fun _ hl => hl) rfl le_rfl
  | compareTime l elapsed steps =>
    rw [hmain] at hcap
    simp only [MainLoop.mainStep, lastPublished, hmain] at hstep ⊢
    split_ifs at hstep
    · cases hstep
      exact h.move htimeStep hmain (fun _ hl => hl) (decide_eq_true hcap) le_rfl
    · cases hstep
      exact h.move htimeStep hmain (fun _ hl => hl) rfl hcap
  | compareState l elapsed steps =>
    rw [hmain] at hcap
    simp only [MainLoop.mainStep, lastPublished, hmain] at hstep ⊢
    split_ifs at hstep with hgo
    · cases hstep
      exact h.move htimeStep hmain (fun _ hl => hl) (decide_eq_true hgo.2) le_rfl
    · cases hstep
      exact h.move htimeStep hmain (fun _ hl => hl) rfl hcap
  | step l elapsed steps =>
    simp only [MainLoop.mainStep, lastPublished, hmain, Option.some.injEq] at hstep ⊢
    subst hstep
    exact h.step htimeStep hmain
  | checkError l | checkMaxTime l =>
    simp only [MainLoop.mainStep, lastPublished, hmain] at hstep ⊢
    split_ifs at hstep
    · cases hstep
      exact h.move htimeStep hmain (by simp [Main.locals]) rfl le_rfl
    · cases hstep
      exact h.move htimeStep hmain (fun _ hl => hl) rfl le_rfl
  | stop =>
    simp only [MainLoop.mainStep, lastPublished, hmain, Option.some.injEq] at hstep ⊢
    subst hstep
    have hleft : Regular P settings { w with main := .done } last :=
      h.move htimeStep hmain (by simp [Main.locals]) rfl le_rfl
    apply hleft.withEngine <;> rw [SimulationEngine.stop_eq]
  | done => simp [MainLoop.mainStep, hmain] at hstep

end Invariant

section Runs

variable {Config Wind Aircraft α : Type} {P : Physics Config Wind Aircraft α ℚ} {settings : Settings Config}
  {w w' : World Config Wind Aircraft α} {last : ℚ} [LT α] [DecidableLT α] [Zero α] [One α] [Neg α]

theorem Regular.network {call : Call Config α} {rest : List (Call Config α)} (h : Regular P settings w last)
    (htimeStep : 0 ≤ P.timeStep settings.config) (hpending : w.pending = call :: rest)
    (hearly : EarlyReset settings [] w .network) :
    Regular P settings { w with engine := w.engine.call P call, pending := rest }
      (lastPublished last w .network []) := by
  have hcalls := h.pending
  rw [hpending] at hcalls
  obtain ⟨hnostep, hreset⟩ := hcalls call List.mem_cons_self
  have hpopped : Regular P settings { w with pending := rest } last :=
    ⟨h.timeStep, fun c hc => hcalls c (List.mem_cons_of_mem _ hc), h.nonneg, h.published, h.next, h.mayStep, h.simTime⟩
  cases call with
  | reset config =>
    obtain rfl := hreset config rfl
    simp only [lastPublished, hpending]
    refine ⟨rfl, hpopped.pending, le_rfl, le_rfl, fun l hl => ?_, h.mayStep, ?_⟩
    · rw [zero_add]
      exact hearly (by rw [hpending]; rfl) l hl
    · have hinterval := telemetryInterval_pos settings
      change (0 : ℚ) ≤ 0 + settings.telemetryInterval + w.main.steps * P.timeStep settings.config
      positivity
  | step => exact absurd rfl hnostep
  | start | pause | resume | stop | setControlInput =>
    obtain ⟨hsimTime, htimeStep⟩ := call_time (P := P) w.engine hnostep (by simp)
    simp only [lastPublished, hpending]
    exact hpopped.withEngine htimeStep hsimTime

theorem Regular.worldStep {a : Action α} (h : Regular P settings w last) (htimeStep : 0 ≤ P.timeStep settings.config)
    (hstep : worldStep P settings w a = some w') (hearly : EarlyReset settings [] w a) :
    Regular P settings w' (lastPublished last w a []) := by
  cases a with
  | tick d =>
    rw [MainLoop.worldStep] at hstep
    split_ifs at hstep with hd
    obtain rfl := Option.some.inj hstep
    exact ⟨h.timeStep, h.pending, h.nonneg, h.published, h.next, h.mayStep, h.simTime⟩
  | command cmd =>
    cases hpending : w.pending with
    | nil =>
      simp only [MainLoop.worldStep, hpending] at hstep
      obtain rfl := Option.some.inj hstep
      exact ⟨h.timeStep, dispatchSimCommand_calls cmd, h.nonneg, h.published, h.next, h.mayStep, h.simTime⟩
    | cons call rest => simp [MainLoop.worldStep, hpending] at hstep
  | control input =>
    cases hpending : w.pending with
    | nil =>
      simp only [MainLoop.worldStep, hpending] at hstep
      obtain rfl := Option.some.inj hstep
      refine ⟨h.timeStep, ?_, h.nonneg, h.published, h.next, h.mayStep, h.simTime⟩
      intro call hcall
      obtain rfl := List.mem_singleton.mp hcall
      simp
    | cons call rest => simp [MainLoop.worldStep, hpending] at hstep
  | network =>
    cases hpending : w.pending with
    | nil => simp [MainLoop.worldStep, hpending] at hstep
    | cons call rest =>
      simp only [MainLoop.worldStep, hpending] at hstep
      obtain rfl := Option.some.inj hstep
      exact h.network htimeStep hpending hearly
  | quit =>
    rw [MainLoop.worldStep.eq_def] at hstep
    dsimp only at hstep
    split at hstep
    next hmain =>
      obtain rfl := Option.some.inj hstep
      exact h.move htimeStep hmain (by simp [Main.locals]) rfl (Nat.zero_le _)
    · cases hstep
  | main => exact h.mainStep htimeStep hstep

/-- Telemetry is published at least once an interval and a frame, as long as simulated time is not set back later. -/
theorem telemetry_regular (P : Physics Config Wind Aircraft α ℚ) (settings : Settings Config) (clock : ℚ)
    (htimeStep : 0 < P.timeStep settings.config) (k : Trace (Action α) Empty) (w : World Config Wind Aircraft α)
    (last : ℚ) (hr : ((machine P settings).recording lastPublished).Reach (fun h x a => EarlyReset settings h x.1 a)
      (initial P settings clock, 0) k (w, last)) :
    DueSoon P settings w ∧
      w.engine.simTime ≤ last + settings.telemetryInterval + kMaxStepsPerFrame * P.timeStep settings.config := by
  have hregular : Regular P settings w last := by
    apply hr.invariant (I := fun _ x => Regular P settings x.1 x.2)
    · have hinterval := telemetryInterval_pos settings
      refine ⟨rfl, nofun, le_rfl, le_rfl, nofun, rfl, ?_⟩
      change (0 : ℚ) ≤ 0 + settings.telemetryInterval + (0 : ℕ) * P.timeStep settings.config
      positivity
    · rintro k x a y es h hearly hstep
      obtain ⟨hmain, hrecord⟩ := Machine.recording_step.mp hstep
      obtain ⟨w', hworld, heq⟩ := Option.map_eq_some_iff.mp hmain
      obtain ⟨rfl, rfl⟩ := Prod.mk.inj heq
      rw [hrecord]
      exact h.worldStep htimeStep.le hworld hearly
  refine ⟨hregular.dueSoon, hregular.simTime.trans ?_⟩
  have hcap := mayStep_steps hregular.mayStep
  gcongr

end Runs

section Silence

def Main.checked : Main → Option ℚ
  | .publish l => some l.nextTelemetry
  | _ => none

theorem not_dueSoon {Config Wind Aircraft α : Type} {P : Physics Config Wind Aircraft α ℚ}
    {settings : Settings Config} {w : World Config Wind Aircraft α} {due : ℚ} (hdue : w.main.checked = some due)
    (hahead : w.engine.simTime + settings.telemetryInterval < due) : ¬DueSoon P settings w := by
  cases hmain : w.main with
  | publish l =>
    rw [hmain] at hdue
    cases hdue
    intro h
    have hbefore : ¬w.engine.simTime ≥ l.nextTelemetry := by
      linarith [telemetryInterval_pos settings]
    obtain ⟨l', hsleep, hnext⟩ := h l { w with main := .sleep l } hmain (by simp only [mainStep, hmain, if_neg hbefore])
    cases hsleep
    exact hnext.not_gt hahead
  | _ =>
    rw [hmain] at hdue
    cases hdue

/-- A later reset, in front of a telemetry check, is such a case. -/
theorem not_dueSoon_of_reset {Config Wind Aircraft α : Type} [LT α] [DecidableLT α] [Zero α] [One α] [Neg α]
    {P : Physics Config Wind Aircraft α ℚ} {settings : Settings Config} {w w' : World Config Wind Aircraft α} {due : ℚ}
    (hdue : w.main.checked = some due) (hlate : settings.telemetryInterval < due)
    (hreset : setsBack (.network : Action α) w.pending = true) (hstep : worldStep P settings w .network = some w') :
    ¬DueSoon P settings w' := by
  unfold setsBack at hreset
  split at hreset
  next hpending =>
    simp only [worldStep, hpending, Option.some.injEq] at hstep
    subst hstep
    have hahead : (0 : ℚ) + settings.telemetryInterval < due := by rwa [zero_add]
    exact not_dueSoon (w := { w with engine := _, pending := _ }) hdue hahead
  · cases hreset

/-- From the start through an iteration that publishes at once and one that publishes after five steps, up to the
telemetry check of the third. -/
def toThirdCheck : List (Action ℚ) := List.replicate 8 .main ++ .tick (1 / 20) :: List.replicate 25 .main

theorem telemetry_regular_calm : ∃ k w last,
    ((machine calm { config := () }).recording lastPublished).Reach (fun h x a => EarlyReset { config := () } h x.1 a)
        (initial calm { config := () } 0, 0) k (w, last) ∧
      w.main.checked = some (1 / 10) ∧ DueSoon calm { config := () } w ∧
      w.engine.simTime ≤ last + 1 / 20 + kMaxStepsPerFrame * (1 / 100) := by
  obtain ⟨k, ⟨w, last⟩, hr, hdue⟩ := Machine.exists_reach ((machine calm { config := () }).recording lastPublished)
    (fun h x a => EarlyReset { config := () } h x.1 a) (initial calm { config := () } 0, 0)
    (fun _ x => x.1.main.checked = some (1 / 10)) toThirdCheck (by decide +kernel)
  have hregular := telemetry_regular calm { config := () } 0 (by decide +kernel) k w last hr
  have hinterval : ({ config := () } : Settings Unit).telemetryInterval = 1 / 20 := by decide +kernel
  rw [hinterval] at hregular
  exact ⟨k, w, last, hr, hdue, hregular⟩

/-- A reset sets simulated time back to 0 and leaves the due time at two intervals. -/
theorem telemetry_silent : ∃ k w, (machine calm { config := () }).Run (initial calm { config := () } 0) k w ∧
    ¬DueSoon calm { config := () } w := by
  obtain ⟨k, w, hr, hdue, hahead⟩ := Machine.exists_run (machine calm { config := () })
    (initial calm { config := () } 0)
    (fun _ w => w.main.checked = some (1 / 10) ∧
      w.engine.simTime + ({ config := () } : Settings Unit).telemetryInterval < 1 / 10)
    (toThirdCheck ++ [.command .reset, .network]) (by decide +kernel)
  exact ⟨k, w, hr, not_dueSoon hdue hahead⟩

end Silence

end Klett.Luft.MainLoop

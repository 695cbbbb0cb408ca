import Klett.Luft.MainLoop

namespace Klett.Luft.MainLoop

open Klett.Lib SimulationEngine

section Invariant

variable {Config Wind Aircraft α : Type} {P : Physics Config Wind Aircraft α ℚ} {settings : Settings Config}
  {w w' : World Config Wind Aircraft α} {r : ℚ}

def comparedWith : Main → Option ℚ
  | .compareState _ elapsed _ | .step _ elapsed _ => some elapsed
  | _ => none

/-- The time compared was below what was read, and still is unless a reset has put it back since. -/
structure Paced (P : Physics Config Wind Aircraft α ℚ) (settings : Settings Config)
    (w : World Config Wind Aircraft α) (r : ℚ) : Prop where
  timeStep : w.engine.timeStep = P.timeStep settings.config
  pending : ∀ call ∈ w.pending, call ≠ .step ∧ ∀ config, call = .reset config → config = settings.config
  nonneg : 0 ≤ r
  simTime : w.engine.simTime ≤ r + P.timeStep settings.config
  compared : ∀ elapsed, comparedWith w.main = some elapsed → w.engine.simTime < elapsed ∨ w.engine.simTime ≤ r

theorem dispatchSimCommand_calls (cmd : SimCommandType) (call : Call Config α)
    (h : call ∈ dispatchSimCommand settings.config cmd) :
    call ≠ .step ∧ ∀ config, call = .reset config → config = settings.config := by
  cases cmd with
  | start | pause | resume | stop =>
    obtain rfl := List.mem_singleton.mp h
    exact ⟨nofun, nofun⟩
  | reset =>
    obtain rfl | hmem := List.mem_cons.mp h
    · exact ⟨nofun, fun config heq => (Call.reset.inj heq).symm⟩
    · obtain rfl := List.mem_singleton.mp hmem
      exact ⟨nofun, nofun⟩

theorem Paced.move {m : Main} (h : Paced P settings w r)
    (hm : ∀ elapsed, comparedWith m = some elapsed → w.engine.simTime < elapsed ∨ w.engine.simTime ≤ r) :
    Paced P settings { w with main := m } r where
  timeStep := h.timeStep
  pending := h.pending
  nonneg := h.nonneg
  simTime := h.simTime
  compared := hm

theorem Paced.leave {m : Main} (h : Paced P settings w r) (hm : comparedWith m = none) :
    Paced P settings { w with main := m } r := by
  apply h.move
  intro elapsed heq
  exact nomatch hm.symm.trans heq

theorem Paced.withEngine {engine : SimulationEngine Wind Aircraft α ℚ} (h : Paced P settings w r)
    (htimeStep : engine.timeStep = w.engine.timeStep) (hsimTime : engine.simTime = w.engine.simTime) :
    Paced P settings { w with engine := engine } r where
  timeStep := htimeStep.trans h.timeStep
  pending := h.pending
  nonneg := h.nonneg
  simTime := by rw [hsimTime]; exact h.simTime
  compared := by rw [hsimTime]; exact h.compared

theorem Paced.wait {d : ℚ} {r' : ℚ} (h : Paced P settings w r) (hr : r ≤ r') :
    Paced P settings { w with clock := w.clock + d } r' where
  timeStep := h.timeStep
  pending := h.pending
  nonneg := h.nonneg.trans hr
  simTime := h.simTime.trans (add_le_add_left hr _)
  compared elapsed hmain := (h.compared elapsed hmain).imp_right (·.trans hr)

theorem Paced.step {m : Main} (h : Paced P settings w r) (hm : comparedWith m = none) (hr : w.engine.simTime ≤ r) :
    Paced P settings { w with engine := w.engine.step P, main := m } r := by
  obtain ⟨htimeStep, hsame | hlater⟩ := step_time (P := P) w.engine
  · exact (h.leave hm).withEngine htimeStep hsame
  · constructor
    case timeStep => exact htimeStep.trans h.timeStep
    case pending => exact h.pending
    case nonneg => exact h.nonneg
    case simTime =>
      rw [hlater, h.timeStep]
      exact add_le_add_left hr _
    case compared =>
      intro elapsed hcompared
      exact nomatch hm.symm.trans hcompared

theorem Paced.mainStep (h : Paced P settings w r) (hstep : mainStep P settings w = some w')
    (hrunning : ∀ l elapsed steps, w.main = .step l elapsed steps → elapsed ≤ r) : Paced P settings w' r := by
  rw [MainLoop.mainStep.eq_def] at hstep
  split at hstep
  · obtain rfl := Option.some.inj hstep
    apply (h.leave (m := .readStart) rfl).withEngine
    · rw [start, transitionTo_eq]
    · rw [start, transitionTo_eq]
  · obtain rfl := Option.some.inj hstep
    exact h.leave rfl
  · obtain rfl := Option.some.inj hstep
    exact h.leave rfl
  · rename_i l elapsed steps hmain
    split_ifs at hstep with hlt
    · obtain rfl := Option.some.inj hstep
      apply h.move
      rintro _ ⟨⟩
      exact .inl hlt
    · obtain rfl := Option.some.inj hstep
      exact h.leave rfl
  · rename_i l elapsed steps hmain
    split_ifs at hstep
    · obtain rfl := Option.some.inj hstep
      apply h.move
      rintro _ ⟨⟩
      exact h.compared elapsed (by rw [hmain, comparedWith])
    · obtain rfl := Option.some.inj hstep
      exact h.leave rfl
  · rename_i l elapsed steps hmain
    obtain rfl := Option.some.inj hstep
    apply h.step rfl
    obtain hlt | hle := h.compared elapsed (by rw [hmain, comparedWith])
    · exact hlt.le.trans (hrunning l elapsed steps hmain)
    · exact hle
  · split_ifs at hstep <;> obtain rfl := Option.some.inj hstep <;> exact h.leave rfl
  · split_ifs at hstep <;> obtain rfl := Option.some.inj hstep <;> exact h.leave rfl
  · split_ifs at hstep <;> obtain rfl := Option.some.inj hstep <;> exact h.leave rfl
  · obtain rfl := Option.some.inj hstep
    exact h.leave rfl
  · obtain rfl := Option.some.inj hstep
    apply (h.leave (m := .done) rfl).withEngine
    · rw [SimulationEngine.stop_eq]
    · rw [SimulationEngine.stop_eq]
  · cases hstep

end Invariant

section Runs

variable {Config Wind Aircraft α : Type} {P : Physics Config Wind Aircraft α ℚ} {settings : Settings Config}
  {w w' : World Config Wind Aircraft α} {r : ℚ} [LT α] [DecidableLT α] [Zero α] [One α] [Neg α]

theorem Paced.network {call : Call Config α} {rest : List (Call Config α)} (h : Paced P settings w r)
    (hstep : 0 ≤ P.timeStep settings.config) (hpending : w.pending = call :: rest) :
    Paced P settings { w with engine := w.engine.call P call, pending := rest }
      (runningTime r w .network []) := by
  have hcalls := h.pending
  rw [hpending] at hcalls
  obtain ⟨hnostep, hreset⟩ := hcalls call List.mem_cons_self
  have hpopped : Paced P settings { w with pending := rest } r :=
    ⟨h.timeStep, fun c hc => hcalls c (List.mem_cons_of_mem _ hc), h.nonneg, h.simTime, h.compared⟩
  cases call with
  | reset config =>
    obtain rfl := hreset config rfl
    simp only [runningTime, hpending]
    refine ⟨rfl, hpopped.pending, le_rfl, ?_, fun _ _ => .inr le_rfl⟩
    rw [zero_add]
    exact hstep
  | step => exact absurd rfl hnostep
  | start | pause | resume | stop | setControlInput =>
    obtain ⟨hsimTime, htimeStep⟩ := call_time (P := P) w.engine hnostep nofun
    simp only [runningTime, hpending]
    exact hpopped.withEngine htimeStep hsimTime

theorem Paced.worldStep {a : Action α} (h : Paced P settings w r) (htimeStep : 0 ≤ P.timeStep settings.config)
    (hstep : worldStep P settings w a = some w') (hrunning : OnlyRunning [] (w, r) a) :
    Paced P settings w' (runningTime r w a []) := by
  cases a with
  | tick d =>
    rw [MainLoop.worldStep] at hstep
    split_ifs at hstep with hd
    obtain rfl := Option.some.inj hstep
    rw [runningTime]
    apply h.wait
    split_ifs
    · exact le_add_of_nonneg_right hd
    · exact le_rfl
  | command cmd =>
    cases hpending : w.pending with
    | nil =>
      simp only [MainLoop.worldStep, hpending] at hstep
      obtain rfl := Option.some.inj hstep
      exact ⟨h.timeStep, dispatchSimCommand_calls cmd, h.nonneg, h.simTime, h.compared⟩
    | cons call rest =>
      simp only [MainLoop.worldStep, hpending] at hstep
      exact nomatch hstep
  | control input =>
    cases hpending : w.pending with
    | nil =>
      simp only [MainLoop.worldStep, hpending] at hstep
      obtain rfl := Option.some.inj hstep
      refine ⟨h.timeStep, ?_, h.nonneg, h.simTime, h.compared⟩
      intro call hcall
      obtain rfl := List.mem_singleton.mp hcall
      exact ⟨nofun, nofun⟩
    | cons call rest =>
      simp only [MainLoop.worldStep, hpending] at hstep
      exact nomatch hstep
  | network =>
    cases hpending : w.pending with
    | nil =>
      simp only [MainLoop.worldStep, hpending] at hstep
      exact nomatch hstep
    | cons call rest =>
      simp only [MainLoop.worldStep, hpending] at hstep
      obtain rfl := Option.some.inj hstep
      exact h.network htimeStep hpending
  | quit =>
    rw [MainLoop.worldStep.eq_def] at hstep
    dsimp only at hstep
    split at hstep
    · obtain rfl := Option.some.inj hstep
      exact h.leave rfl
    · exact nomatch hstep
  | main =>
    apply h.mainStep hstep
    intro l elapsed steps hmain
    exact hrunning elapsed (by rw [hmain]; rfl)

theorem paced_of_reach {clock : ℚ} {k : Trace (Action α) Empty} (htimeStep : 0 ≤ P.timeStep settings.config)
    {x : World Config Wind Aircraft α × ℚ}
    (hr : ((machine P settings).recording runningTime).Reach OnlyRunning (initial P settings clock, 0) k x) :
    Paced P settings x.1 x.2 := by
  apply hr.invariant (I := fun _ x => Paced P settings x.1 x.2)
  · refine ⟨rfl, nofun, le_rfl, ?_, nofun⟩
    rw [zero_add]
    exact htimeStep
  · rintro k x a y es h honly hstep
    obtain ⟨hmain, hrecord⟩ := Machine.recording_step.mp hstep
    obtain ⟨w', hworld, heq⟩ := Option.map_eq_some_iff.mp hmain
    obtain ⟨rfl, rfl⟩ := Prod.mk.inj heq
    rw [hrecord]
    exact h.worldStep htimeStep hworld honly

/-- As long as the loop steps for running time alone, simulated time stays within a step of it. -/
theorem simTime_le_runningTime (P : Physics Config Wind Aircraft α ℚ) (settings : Settings Config) (clock : ℚ)
    (htimeStep : 0 < P.timeStep settings.config) (k : Trace (Action α) Empty) (w : World Config Wind Aircraft α) (r : ℚ)
    (hr : ((machine P settings).recording runningTime).Reach OnlyRunning (initial P settings clock, 0) k (w, r)) :
    w.engine.simTime ≤ r + w.engine.timeStep := by
  have h := paced_of_reach htimeStep.le hr
  rw [h.timeStep]
  exact h.simTime

end Runs

section Resumed

def calm : Physics Unit Unit Unit ℚ ℚ where
  timeStep _ := 1 / 100
  initialAircraft _ := ()
  windModel _ := ()
  update _ _ _ _ _ := ()
  checkStateValidity _ := true
  clampState _ := ()

theorem simTime_le_runningTime_calm : ∃ k w r,
    ((machine calm { config := () }).recording runningTime).Reach OnlyRunning (initial calm { config := () } 0, 0) k
        (w, r) ∧
      w.engine.simTime = 1 / 50 ∧ w.engine.simTime ≤ r + w.engine.timeStep := by
  obtain ⟨k, ⟨w, r⟩, hr, hsimTime⟩ := Machine.exists_reach ((machine calm { config := () }).recording runningTime)
    OnlyRunning (initial calm { config := () } 0, 0) (fun _ x => x.1.engine.simTime = 1 / 50)
    [.main, .main, .tick (1 / 50), .main, .main, .main, .main, .main, .main, .main] (by decide +kernel)
  exact ⟨k, w, r, hr, hsimTime, simTime_le_runningTime calm { config := () } 0 (by decide +kernel) k w r hr⟩

/-- A second passes while the simulation is paused, and is made up for when it is resumed. -/
theorem runningTime_lt_simTime : ∃ k x,
    ((machine calm { config := () }).recording runningTime).Run (initial calm { config := () } 0, 0) k x ∧
      x.1.engine.simTime > x.2 + x.1.engine.timeStep :=
  Machine.exists_run _ _ _
    [.main, .main, .command .pause, .network, .tick 1, .command .resume, .network, .main, .main, .main, .main, .main,
      .main, .main] (by decide +kernel)

end Resumed

end Klett.Luft.MainLoop

import Klett.Lib.Retries
import Klett.Nash.PathFollower

namespace Klett.Nash.PathFollower

open Klett.Lib

section Termination

variable {n : ℕ} {numerics : Numerics n} {sys : HomotopySystem n} {cfg : PathFollowerConfig} {f next : Follower n}
  {result : PathResult n}

/-- The steps that are left, and the length of the next one. -/
def budget (cfg : PathFollowerConfig) (f : Follower n) : ℕ × ℚ := ((cfg.maxSteps - f.s).toNat, f.step)

theorem turn_spends (h : turn numerics sys cfg f = .inr next) :
    Spends cfg.stepDecrease cfg.minStep (budget cfg f) (budget cfg next) := by
  obtain ⟨hadvances, -, tangent, hpredicts⟩ := turn_inr h
  have hrunning := hpredicts.running
  unfold budget
  cases hadvances with
  | success hs hstep =>
    apply Spends.spend
    omega
  | failure hs hw hstep hmin =>
    rw [hs, hstep]
    rw [hstep] at hmin
    exact .retry hmin

def Ends (numerics : Numerics n) (sys : HomotopySystem n) (cfg : PathFollowerConfig) (f : Follower n) : Prop :=
  ∃ fuel result, ∀ more, loop numerics sys cfg (fuel + more) f = some result

theorem ends (hmin : 0 < cfg.minStep) (hdecrease : 0 ≤ cfg.stepDecrease) (hlt : cfg.stepDecrease < 1) (f : Follower n) :
    Ends numerics sys cfg f := by
  have hwf := InvImage.wf (budget (n := n) cfg) (Spends.wellFounded hmin hdecrease hlt)
  induction f using hwf.induction with
  | h f ih =>
    cases hturn : turn numerics sys cfg f with
    | inl result =>
      refine ⟨1, result, fun more => ?_⟩
      rw [Nat.add_comm]
      exact loop_inl hturn more
    | inr next =>
      obtain ⟨fuel, result, hloop⟩ := ih next (turn_spends hturn)
      refine ⟨fuel + 1, result, fun more => ?_⟩
      rw [Nat.add_right_comm, loop_inr hturn]
      exact hloop more

theorem loop_bounded (htotal : f.totalSteps ≤ cfg.maxSteps) {fuel : ℕ}
    (h : loop numerics sys cfg fuel f = some result) :
    result.totalSteps ≤ cfg.maxSteps ∧ (result.reachedTarget = true → cfg.targetT - 1 / 10 ^ 12 ≤ result.tFinal) := by
  induction fuel generalizing f with
  | zero => cases h
  | succ fuel ih =>
    cases hturn : turn numerics sys cfg f with
    | inl final =>
      rw [loop_inl hturn] at h
      obtain rfl := Option.some.inj h
      obtain ⟨hreached, hsame | ⟨hrunning, hnext⟩⟩ := turn_inl hturn
      · exact ⟨hsame.trans_le htotal, hreached⟩
      · exact ⟨hnext.trans_le hrunning, hreached⟩
    | inr next =>
      rw [loop_inr hturn] at h
      obtain ⟨-, hnext, tangent, hpredicts⟩ := turn_inr hturn
      exact ih (hnext.trans_le hpredicts.running) h

end Termination

section Results

variable {n : ℕ}

theorem follow_path_ends (numerics : Numerics n) (sys : HomotopySystem n) {cfg : PathFollowerConfig} (w0 : Vec (n + 1))
    (hmax : 0 ≤ cfg.maxSteps) (hmin : 0 < cfg.minStep) (hdecrease : 0 ≤ cfg.stepDecrease) (hlt : cfg.stepDecrease < 1) :
    ∃ fuel result, (∀ more, followPath numerics sys cfg w0 (fuel + more) = some result) ∧
      result.totalSteps ≤ cfg.maxSteps ∧ (result.reachedTarget = true → cfg.targetT - 1 / 10 ^ 12 ≤ result.tFinal) := by
  obtain ⟨fuel, result, hloop⟩ : Ends numerics sys cfg (start cfg w0) := ends hmin hdecrease hlt _
  exact ⟨fuel, result, hloop, loop_bounded hmax (hloop 0)⟩

theorem follow_path_ends_default : 0 ≤ ({} : PathFollowerConfig).maxSteps ∧ 0 < ({} : PathFollowerConfig).minStep ∧
    ∃ fuel result, (∀ more, followPath lineNumerics line {} 0 (fuel + more) = some result) ∧
      result.totalSteps ≤ 50000 ∧ (result.reachedTarget = true → 1 - 1 / 10 ^ 12 ≤ result.tFinal) := by
  have hmin : 0 < ({} : PathFollowerConfig).minStep := by norm_num
  have hdecrease : 0 ≤ ({} : PathFollowerConfig).stepDecrease := by norm_num
  have hlt : ({} : PathFollowerConfig).stepDecrease < 1 := by norm_num
  exact ⟨by decide, hmin, follow_path_ends lineNumerics line 0 (by decide) hmin hdecrease hlt⟩

end Results

end Klett.Nash.PathFollower

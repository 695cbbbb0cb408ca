import Klett.Lib.Search
import Klett.Nash.Homotopy

namespace Klett.Nash.HomotopySolver

open Matrix Klett.Lib

section Weights

variable {k m n : ℕ} {v : Fin k → ℚ}

end Weights

section Specification

variable {m n : ℕ} (tol : Tolerances) (game : BimatrixGame m n) (prior1 : Fin m → ℚ) (prior2 : Fin n → ℚ)
  (numerics : Numerics)

def regret (weights : StrategyProfile m n) : ℚ :=
  nashResidual game (normalised weights).strategy1 (normalised weights).strategy2

def Massive (weights : StrategyProfile m n) : Prop :=
  1 / 10 ^ 15 < ∑ i, weights.strategy1 i ∧ 1 / 10 ^ 15 < ∑ j, weights.strategy2 j

def perturbedWeights (l : List (ℚ × ℚ)) : List (StrategyProfile m n) :=
  l.filterMap fun pert => (retryWith tol game (retryPrior pert m) (retryPrior pert n) numerics).map Prod.fst

def uniformWeights : List (StrategyProfile m n) := ((retryUniform tol game numerics).map Prod.fst).toList

/-- No single action gains either player more than the bound, or as much, against weights scaled to one. -/
def Bounds (r : ℚ → ℚ → Prop) (bound : ℚ) (weights : StrategyProfile m n) : Prop :=
  let p := normalised weights
  r 0 bound ∧ (∀ i, r ((game.payoff1 *ᵥ p.strategy2) i - p.strategy1 ⬝ᵥ game.payoff1 *ᵥ p.strategy2) bound) ∧
    ∀ j, r ((game.payoff2ᵀ *ᵥ p.strategy1) j - p.strategy2 ⬝ᵥ game.payoff2ᵀ *ᵥ p.strategy1) bound

instance (r : ℚ → ℚ → Prop) [DecidableRel r] (bound : ℚ) (weights : StrategyProfile m n) :
    Decidable (Bounds game r bound weights) := inferInstanceAs (Decidable (_ ∧ _ ∧ _))

abbrev Settled (weights : StrategyProfile m n) : Prop := Bounds game (· ≤ ·) tol.convTol weights

/-- What comes of the first path: the weights at its end, moved to `t = 1` where it is accepted, and there those of
Newton's point if they are not settled and Newton's method succeeds. -/
def firstAttempt : StrategyProfile m n :=
  let start := computeStart tol game prior1 prior2
  let path := pathFrom tol game prior1 prior2 numerics
  if accepted path then
    let w := weightsAt (pinToTarget tol numerics (systemFor tol game prior1 prior2) path.wFinal)
      start.support1.get start.support2.get
    let newton := numerics.newtonSolve (complementarity game)
      (Sum.elim (normalised w).strategy1 (normalised w).strategy2) tol.convTol 50
    if ¬Settled tol game w ∧ newton.converged then
      ⟨fun i => max 0 (newton.x (.inl i)), fun j => max 0 (newton.x (.inr j))⟩
    else w
  else weightsAt path.wFinal start.support1.get start.support2.get

structure Holds (result : EquilibriumResult m n) (weights : StrategyProfile m n) : Prop where
  profile : result.profile = some (normalised weights)
  residual : result.residual = regret game weights

end Specification

section Stages

variable {m n : ℕ} {tol : Tolerances} {game : BimatrixGame m n} {prior1 : Fin m → ℚ} {prior2 : Fin n → ℚ}
  {numerics : Numerics} {result : EquilibriumResult m n} {weights : StrategyProfile m n}

end Stages

section Status

variable {m n : ℕ} (tol : Tolerances) (game : BimatrixGame m n) (prior1 : Fin m → ℚ) (prior2 : Fin n → ℚ)
  (numerics : Numerics)

/-- The weights at the end of the first path, repaired, and of every retry whose path is accepted. -/
def candidates : List (StrategyProfile m n) :=
  firstAttempt tol game prior1 prior2 numerics ::
    (perturbedWeights tol game numerics perturbations ++ uniformWeights tol game numerics)

variable {tol game prior1 prior2 numerics}

theorem massive_of_zero {k1 k2 : ℕ} {w : Point k1 k2} {s1 : Fin k1 → Fin m} {s2 : Fin k2 → Fin n}
    (hs1 : Function.Injective s1) (hs2 : Function.Injective s2)
    (hw : ∀ e, homotopyMap game prior1 prior2 s1 s2 w e = 0) : Massive (weightsAt w s1 s2) := by
  have hsum {k l : ℕ} {support : Fin k → Fin l} {weight : Fin k → ℚ} (hsupport : Function.Injective support)
      (hweight : ∑ i, weight i - 1 = 0) : 1 / 10 ^ 15 < ∑ j, fill support weight j := by
    calc (1 / 10 ^ 15 : ℚ) < 1 := by norm_num
      _ = ∑ i, weight i := (sub_eq_zero.mp hweight).symm
      _ ≤ ∑ i, max 0 (weight i) := Finset.sum_le_sum fun i _ => le_max_right _ _
      _ = ∑ j, fill support weight j := (plays_foldl_update ⟨support, hsupport⟩ fun i => max 0 (weight i)).sum.symm
  exact ⟨hsum hs1 (hw (.inr (.inr 0))), hsum hs2 (hw (.inr (.inr 1)))⟩

theorem massive_of_reached (hnumerics : numerics.Consistent)
    (h : (pathFrom tol game prior1 prior2 numerics).reachedTarget = true) :
    Massive (weightsAt (pathFrom tol game prior1 prior2 numerics).wFinal
      (computeStart tol game prior1 prior2).support1.get (computeStart tol game prior1 prior2).support2.get) := by
  have hnodup {k : ℕ} (p : Fin k → Bool) : ((List.finRange k).filter p).Nodup := (List.nodup_finRange k).filter p
  apply massive_of_zero (List.nodup_iff_injective_get.mp (hnodup _)) (List.nodup_iff_injective_get.mp (hnodup _))
  exact (hnumerics.reached _ _ h).2.2

section Outside

variable {k k1 k2 : ℕ} {e : Fin k ↪ Fin n} {z : Fin k → ℚ} {x u : Fin n → ℚ} {value c : ℚ}

theorem renormalise_of_sum (h : ∑ i, x i = 1) : renormalise x = x := by
  funext i
  rw [renormalise, h, if_pos (by norm_num)]
  exact div_one _

theorem fill_plays (hz : ∀ i, 0 ≤ z i) : Plays e z (fill e z) := by
  have hplays := plays_foldl_update e fun i => max 0 (z i)
  have hsame : (fun i => max 0 (z i)) = z := funext fun i => max_eq_right (hz i)
  unfold fill
  rwa [hsame] at hplays

/-- Where all actions of the support are worth the value, only actions outside it can gain anything. -/
theorem gains_le_iff (hx : Plays e z x) (hsum : ∑ i, z i = 1) (hu : ∀ i, u (e i) = value) (hc : 0 ≤ c) :
    (∀ i, u i - x ⬝ᵥ u ≤ c) ↔ ∀ i ∉ Set.range e, u i ≤ value + c := by
  have hvalue : x ⬝ᵥ u = value := by
    calc x ⬝ᵥ u = ∑ i, u i * x i := Finset.sum_congr rfl fun i _ => mul_comm _ _
      _ = ∑ s, u (e s) * z s := hx.sum_mul u
      _ = ∑ s, value * z s := Finset.sum_congr rfl fun s _ => by rw [hu]
      _ = value := by rw [← Finset.mul_sum, hsum, mul_one]
  simp only [hvalue, sub_le_iff_le_add']
  constructor
  · exact fun h i _ => h i
  · intro h i
    by_cases hi : i ∈ Set.range e
    · obtain ⟨s, rfl⟩ := hi
      rw [hu]
      exact le_add_of_nonneg_right hc
    · exact h i hi

theorem settled_of_zero_iff {w : Point k1 k2} {s1 : Fin k1 ↪ Fin m} {s2 : Fin k2 ↪ Fin n} (ht : back w = 1)
    (hw : ∀ e, homotopyMap game prior1 prior2 s1 s2 w e = 0) (h1 : ∀ i, 0 ≤ w (.inl i))
    (h2 : ∀ j, 0 ≤ w (.inr (.inl j))) :
    Settled tol game (weightsAt w s1 s2) ↔ 0 ≤ tol.convTol ∧
      (∀ i ∉ Set.range s1, (game.payoff1 *ᵥ (weightsAt w s1 s2).strategy2) i ≤ value1 w + tol.convTol) ∧
      ∀ j ∉ Set.range s2, (game.payoff2ᵀ *ᵥ (weightsAt w s1 s2).strategy1) j ≤ value2 w + tol.convTol := by
  have hplays1 : Plays s1 (fun i => w (.inl i)) (weightsAt w s1 s2).strategy1 := fill_plays h1
  have hplays2 : Plays s2 (fun j => w (.inr (.inl j))) (weightsAt w s1 s2).strategy2 := fill_plays h2
  have hsum1 : ∑ i, w (.inl i) = 1 := sub_eq_zero.mp (hw (.inr (.inr 0)))
  have hsum2 : ∑ j, w (.inr (.inl j)) = 1 := sub_eq_zero.mp (hw (.inr (.inr 1)))
  have hworth1 (i : Fin k1) : (game.payoff1 *ᵥ (weightsAt w s1 s2).strategy2) (s1 i) = value1 w := by
    have hzero := hw (.inl i)
    rw [homotopyMap, ht, one_mul, sub_self, zero_mul, add_zero, sub_eq_zero] at hzero
    rw [hplays2.mulVec]
    exact hzero
  have hworth2 (j : Fin k2) : (game.payoff2ᵀ *ᵥ (weightsAt w s1 s2).strategy1) (s2 j) = value2 w := by
    have hzero := hw (.inr (.inl j))
    rw [homotopyMap, ht, one_mul, sub_self, zero_mul, add_zero, sub_eq_zero] at hzero
    rw [hplays1.mulVec]
    exact hzero
  have hscaled : normalised (weightsAt w s1 s2) = weightsAt w s1 s2 := by
    rw [normalised, renormalise_of_sum (hplays1.sum.trans hsum1), renormalise_of_sum (hplays2.sum.trans hsum2)]
  unfold Settled Bounds
  simp only [hscaled]
  refine and_congr_right fun hc => and_congr ?_ ?_
  · exact gains_le_iff hplays1 hsum1 hworth1 hc
  · exact gains_le_iff hplays2 hsum2 hworth2 hc

/-- The end of a path that reached its target is settled unless an action outside the supports that the priors select
gains too much. Nothing on the path looks at those actions. -/
theorem settled_of_reached_iff (hnumerics : numerics.Consistent)
    (h : (pathFrom tol game prior1 prior2 numerics).reachedTarget = true)
    (h1 : ∀ i, 0 ≤ (pathFrom tol game prior1 prior2 numerics).wFinal (.inl i))
    (h2 : ∀ j, 0 ≤ (pathFrom tol game prior1 prior2 numerics).wFinal (.inr (.inl j))) :
    let start := computeStart tol game prior1 prior2
    let w := (pathFrom tol game prior1 prior2 numerics).wFinal
    let weights := weightsAt w start.support1.get start.support2.get
    Settled tol game weights ↔ 0 ≤ tol.convTol ∧
      (∀ i ∉ start.support1, (game.payoff1 *ᵥ weights.strategy2) i ≤ value1 w + tol.convTol) ∧
      ∀ j ∉ start.support2, (game.payoff2ᵀ *ᵥ weights.strategy1) j ≤ value2 w + tol.convTol := by
  intro start w weights
  obtain ⟨-, ht, hzero⟩ := hnumerics.reached _ _ h
  have hnodup {k : ℕ} (p : Fin k → Bool) : ((List.finRange k).filter p).Nodup := (List.nodup_finRange k).filter p
  let s1 : Fin start.support1.length ↪ Fin m := ⟨start.support1.get, List.nodup_iff_injective_get.mp (hnodup _)⟩
  let s2 : Fin start.support2.length ↪ Fin n := ⟨start.support2.get, List.nodup_iff_injective_get.mp (hnodup _)⟩
  have hiff : Settled tol game (weightsAt w s1 s2) ↔ _ := settled_of_zero_iff ht hzero h1 h2
  have hrange1 : Set.range s1 = {i | i ∈ start.support1} := Set.range_list_get _
  have hrange2 : Set.range s2 = {j | j ∈ start.support2} := Set.range_list_get _
  rw [hrange1, hrange2] at hiff
  exact hiff

end Outside

/-- Both players have a better reply to what the paths come to, whichever prior they start from. -/
def biasedPennies : BimatrixGame 2 2 where
  payoff1 := !![2, -1; -1, 1]
  payoff2 := !![-2, 1; 1, -1]
  rows_pos := Nat.two_pos
  cols_pos := Nat.two_pos

/-- Weights stay while `t` goes to one and the values follow; Newton's method accepts a start that will do as it is. -/
def straight : Numerics where
  followPath {k1 k2} sys w0 :=
    let w1 : Point k1 k2 := pinned (w0 ∘ embed) 1
    let z : Unknown k1 k2 → ℚ := Sum.elim (fun i => w0 (.inl i)) (Sum.elim (fun j => w0 (.inr (.inl j)))
      ![value1 w0 + ∑ i, sys.H w1 (.inl i), value2 w0 + ∑ j, sys.H w1 (.inr (.inl j))])
    if ∀ e, sys.H (pinned z 1) e = 0 then ⟨pinned z 1, 1, true, 1⟩ else ⟨w0, back w0, false, 0⟩
  newtonSolve F x0 tol _ := ⟨x0, normInf (F x0) < tol⟩

end Status

end Klett.Nash.HomotopySolver

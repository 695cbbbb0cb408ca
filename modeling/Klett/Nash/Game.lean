import Klett.Lib.Bimatrix
import Klett.Nash.LinearAlgebra

namespace Klett.Nash

open Matrix Klett.Lib

section Game

/-- Player 1 has `m` actions and player 2 has `n`; the constructor refuses a game with none. -/
structure BimatrixGame (m n : ℕ) where
  payoff1 : Matrix (Fin m) (Fin n) ℚ
  payoff2 : Matrix (Fin m) (Fin n) ℚ
  rows_pos : 0 < m
  cols_pos : 0 < n

structure StrategyProfile (m n : ℕ) where
  strategy1 : Fin m → ℚ
  strategy2 : Fin n → ℚ
  deriving DecidableEq

structure Tolerances where
  eps : ℚ := 1 / 10 ^ 10
  pivotTol : PivotTol := .below (1 / 10 ^ 12)
  convTol : ℚ := 1 / 10 ^ 9
  maxIter : ℤ := 10000

/-- No comparison tolerance, and only a pivot that is zero counts as singular. -/
def exactTolerances : Tolerances := { eps := 0, pivotTol := .exact }

def approxEq (a b tol : ℚ) : Bool := |a - b| < tol

inductive SolverStatus where
  | converged
  | maxIterations
  | numericalFailure
  | infeasible
  | notRun
  deriving DecidableEq

structure EquilibriumResult (m n : ℕ) where
  profile : Option (StrategyProfile m n) := none
  residual : ℚ := 0
  iterations : ℕ := 0
  status : SolverStatus := .notRun
  solverName : String := ""
  payoff1 : ℚ := 0
  payoff2 : ℚ := 0

structure MultiEquilibriumResult (m n : ℕ) where
  equilibria : List (EquilibriumResult m n) := []
  status : SolverStatus := .notRun
  solverName : String := ""
  totalIterations : ℕ := 0

variable {m n : ℕ} (game : BimatrixGame m n)

namespace BimatrixGame

def expectedPayoff1 (x : Fin m → ℚ) (y : Fin n → ℚ) : ℚ := ∑ i, ∑ j, x i * game.payoff1 i j * y j

def expectedPayoff2 (x : Fin m → ℚ) (y : Fin n → ℚ) : ℚ := ∑ i, ∑ j, x i * game.payoff2 i j * y j

theorem cells_nonempty (game : BimatrixGame m n) : (Finset.univ : Finset (Fin m × Fin n)).Nonempty :=
  ⟨(⟨0, game.rows_pos⟩, ⟨0, game.cols_pos⟩), Finset.mem_univ _⟩

def minPayoff : ℚ :=
  min (Finset.univ.inf' game.cells_nonempty fun p => game.payoff1 p.1 p.2)
    (Finset.univ.inf' game.cells_nonempty fun p => game.payoff2 p.1 p.2)

def shift : ℚ := if game.minPayoff ≤ 0 then -game.minPayoff + 1 else 0

def makePositive : BimatrixGame m n :=
  { game with
    payoff1 := Matrix.of fun i j => game.payoff1 i j + game.shift
    payoff2 := Matrix.of fun i j => game.payoff2 i j + game.shift }

end BimatrixGame

/-- The greatest gain from a single action of either player, and never less than zero. -/
def nashResidual (x : Fin m → ℚ) (y : Fin n → ℚ) : ℚ :=
  let payoffs1 := game.payoff1 *ᵥ y
  let v1 := x ⬝ᵥ payoffs1
  let maxRegret := (List.finRange m).foldl (fun r i => max r (payoffs1 i - v1)) 0
  let payoffs2 := game.payoff2ᵀ *ᵥ x
  let v2 := y ⬝ᵥ payoffs2
  (List.finRange n).foldl (fun r j => max r (payoffs2 j - v2)) maxRegret

def BimatrixGame.Equilibrium (x : Fin m → ℚ) (y : Fin n → ℚ) : Prop :=
  IsEquilibrium game.payoff1 game.payoff2 x y

end Game

section Residual

variable {m n : ℕ} {game : BimatrixGame m n} {x : Fin m → ℚ} {y : Fin n → ℚ} {c : ℚ}

theorem foldl_max_le_iff {l : List (Fin m)} {f : Fin m → ℚ} {r : ℚ} :
    l.foldl (fun r i => max r (f i)) r ≤ c ↔ r ≤ c ∧ ∀ i ∈ l, f i ≤ c := by
  induction l generalizing r with
  | nil => simp
  | cons a l ih =>
    rw [List.foldl_cons, ih, max_le_iff, List.forall_mem_cons]
    exact and_assoc

theorem nashResidual_le_iff : nashResidual game x y ≤ c ↔
    0 ≤ c ∧ (∀ i, (game.payoff1 *ᵥ y) i - x ⬝ᵥ game.payoff1 *ᵥ y ≤ c) ∧
      ∀ j, (game.payoff2ᵀ *ᵥ x) j - y ⬝ᵥ game.payoff2ᵀ *ᵥ x ≤ c := by
  simp only [nashResidual, foldl_max_le_iff, List.mem_finRange, true_implies, and_assoc]

theorem foldl_max_lt_iff {l : List (Fin m)} {f : Fin m → ℚ} {r : ℚ} :
    l.foldl (fun r i => max r (f i)) r < c ↔ r < c ∧ ∀ i ∈ l, f i < c := by
  induction l generalizing r with
  | nil => simp
  | cons a l ih =>
    rw [List.foldl_cons, ih, max_lt_iff, List.forall_mem_cons]
    exact and_assoc

theorem nashResidual_lt_iff : nashResidual game x y < c ↔
    0 < c ∧ (∀ i, (game.payoff1 *ᵥ y) i - x ⬝ᵥ game.payoff1 *ᵥ y < c) ∧
      ∀ j, (game.payoff2ᵀ *ᵥ x) j - y ⬝ᵥ game.payoff2ᵀ *ᵥ x < c := by
  simp only [nashResidual, foldl_max_lt_iff, List.mem_finRange, true_implies, and_assoc]

theorem nashResidual_nonneg : 0 ≤ nashResidual game x y :=
  (nashResidual_le_iff.mp le_rfl).1

theorem equilibrium_iff_residual :
    game.Equilibrium x y ↔ x ∈ stdSimplex ℚ (Fin m) ∧ y ∈ stdSimplex ℚ (Fin n) ∧ nashResidual game x y = 0 := by
  have hzero : nashResidual game x y = 0 ↔ nashResidual game x y ≤ 0 :=
    ⟨le_of_eq, fun h => le_antisymm h nashResidual_nonneg⟩
  rw [BimatrixGame.Equilibrium, IsEquilibrium, reply_iff_le, reply_iff_le, hzero, nashResidual_le_iff]
  simp only [sub_nonpos, le_refl, true_and]
  tauto

end Residual

section Filling

variable {k n : ℕ} (e : Fin k ↪ Fin n) (z : Fin k → ℚ)

theorem plays_foldl_update :
    Plays e z ((List.finRange k).foldl (fun strategy i => Function.update strategy (e i) (z i)) 0) := by
  let Filled (l : ℕ) (x : Fin n → ℚ) := (∀ i : Fin k, i.val < l → x (e i) = z i) ∧ ∀ j, j ∉ Set.range e → x j = 0
  have hfilled : Filled k ((List.finRange k).foldl (fun strategy i => Function.update strategy (e i) (z i)) 0) := by
    refine foldl_finRange Filled ⟨fun i hi => absurd hi (Nat.not_lt_zero _), fun j _ => rfl⟩ fun l x h => ⟨?_, ?_⟩
    · intro i hi
      rcases Nat.lt_succ_iff_lt_or_eq.mp hi with hi | hi
      · rw [Function.update_of_ne (e.injective.ne (Fin.lt_def.mpr hi).ne)]
        exact h.1 i hi
      · rw [Fin.ext hi, Function.update_self]
    · intro j hj
      rw [Function.update_of_ne fun heq => hj ⟨l, heq.symm⟩]
      exact h.2 j hj
  exact ⟨fun i => hfilled.1 i i.isLt, hfilled.2⟩

end Filling

section Small

theorem nondegenerate_single (A B : Matrix (Fin 1) (Fin 1) ℚ) : Nondegenerate A B := by
  have hcard {u x : Fin 1 → ℚ} (hx : x ∈ stdSimplex ℚ (Fin 1)) : (bestReplies u).card ≤ (support x).card :=
    (Finset.card_le_univ _).trans (support_nonempty hx).card_pos
  exact ⟨fun x hx => hcard hx, fun y hy => hcard hy⟩

theorem card_bestReplies_two {C : Matrix (Fin 2) (Fin 2) ℚ} (hC : ∀ j, C 0 j ≠ C 1 j) {x : Fin 2 → ℚ}
    (hx : x ∈ stdSimplex ℚ (Fin 2)) : (bestReplies (C *ᵥ x)).card ≤ (support x).card := by
  by_contra hlt
  have hpos := (support_nonempty hx).card_pos
  have hle := Finset.card_le_univ (bestReplies (C *ᵥ x))
  rw [Fintype.card_fin] at hle
  obtain ⟨j, hj⟩ := Finset.card_eq_one.mp (by omega : (support x).card = 1)
  have hall : bestReplies (C *ᵥ x) = Finset.univ := by
    apply Finset.eq_univ_of_card
    rw [Fintype.card_fin]
    omega
  have hother (j' : Fin 2) (hj' : j' ≠ j) : x j' = 0 := by
    by_contra hne
    exact hj' (Finset.mem_singleton.mp (hj ▸ mem_support.mpr hne))
  have hone : x j = 1 := by
    rw [← hx.2, Finset.sum_eq_single j (fun j' _ hj' => hother j' hj') fun h => absurd (Finset.mem_univ j) h]
  have hpay (i : Fin 2) : (C *ᵥ x) i = C i j := by
    rw [mulVec, dotProduct, Finset.sum_eq_single j (fun j' _ hj' => by rw [hother j' hj', mul_zero])
      fun h => absurd (Finset.mem_univ j) h, hone, mul_one]
  have hbest (i : Fin 2) : i ∈ bestReplies (C *ᵥ x) := hall ▸ Finset.mem_univ i
  have h0 := mem_bestReplies.mp (hbest 0) 1
  have h1 := mem_bestReplies.mp (hbest 1) 0
  rw [hpay, hpay] at h0 h1
  exact hC j (le_antisymm h1 h0)

theorem nondegenerate_two {A B : Matrix (Fin 2) (Fin 2) ℚ} (hA : ∀ j, A 0 j ≠ A 1 j) (hB : ∀ i, B i 0 ≠ B i 1) :
    Nondegenerate A B :=
  ⟨fun _ hx => card_bestReplies_two (C := Bᵀ) hB hx, fun _ hy => card_bestReplies_two hA hy⟩

/-- Two pure equilibria and a mixed one. -/
def coordination : BimatrixGame 2 2 where
  payoff1 := !![2, 0; 0, 1]
  payoff2 := !![1, 0; 0, 2]
  rows_pos := Nat.two_pos
  cols_pos := Nat.two_pos

theorem nondegenerate_coordination : Nondegenerate coordination.payoff1 coordination.payoff2 :=
  nondegenerate_two (by decide) (by decide)

end Small

end Klett.Nash

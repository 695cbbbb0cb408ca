import Klett.Lib.BestReplySystem
import Klett.Nash.Game

namespace Klett.Nash

open Matrix Klett.Lib

section Positive

variable {m n : ℕ} (game : BimatrixGame m n)

theorem minPayoff_le (i : Fin m) (j : Fin n) :
    game.minPayoff ≤ game.payoff1 i j ∧ game.minPayoff ≤ game.payoff2 i j := by
  have hcell : (i, j) ∈ (Finset.univ : Finset (Fin m × Fin n)) := Finset.mem_univ (i, j)
  constructor
  · exact (min_le_left _ _).trans (Finset.inf'_le (fun p : Fin m × Fin n => game.payoff1 p.1 p.2) hcell)
  · exact (min_le_right _ _).trans (Finset.inf'_le (fun p : Fin m × Fin n => game.payoff2 p.1 p.2) hcell)

theorem minPayoff_add_shift_pos : 0 < game.minPayoff + game.shift := by
  rw [BimatrixGame.shift]
  split_ifs with h
  · rw [add_neg_cancel_left]
    exact one_pos
  · rw [add_zero]
    exact not_le.mp h

theorem makePositive_pos (i : Fin m) (j : Fin n) :
    0 < game.makePositive.payoff1 i j ∧ 0 < game.makePositive.payoff2 i j := by
  have hpos := minPayoff_add_shift_pos game
  obtain ⟨h1, h2⟩ := minPayoff_le game i j
  constructor
  · exact hpos.trans_le (add_le_add_left h1 game.shift)
  · exact hpos.trans_le (add_le_add_left h2 game.shift)

variable {x : Fin m → ℚ} {y : Fin n → ℚ}

theorem makePositive_mulVec₁ (y : Fin n → ℚ) :
    game.makePositive.payoff1 *ᵥ y = fun i => (game.payoff1 *ᵥ y) i + game.shift * ∑ j, y j :=
  mulVec_add_const game.payoff1 game.shift y

theorem makePositive_mulVec₂ (x : Fin m → ℚ) :
    game.makePositive.payoff2ᵀ *ᵥ x = fun j => (game.payoff2ᵀ *ᵥ x) j + game.shift * ∑ i, x i :=
  mulVec_add_const game.payoff2ᵀ game.shift x

theorem makePositive_equilibrium : game.makePositive.Equilibrium x y ↔ game.Equilibrium x y := by
  rw [BimatrixGame.Equilibrium, BimatrixGame.Equilibrium, IsEquilibrium, IsEquilibrium, makePositive_mulVec₁,
    makePositive_mulVec₂]
  exact and_congr reply_add_const reply_add_const

theorem makePositive_nondegenerate : Nondegenerate game.makePositive.payoff1 game.makePositive.payoff2 ↔
    Nondegenerate game.payoff1 game.payoff2 := by
  simp only [Lib.Nondegenerate, makePositive_mulVec₁, makePositive_mulVec₂, bestReplies_add_const]

end Positive

section Complementary

variable {m n : ℕ} (game : BimatrixGame m n)

/-- Two tableaus in one: a row and two variables for every action of either player. -/
abbrev BestReplyTableau (m n : ℕ) := Tableau (Fin m ⊕ Fin n) ((Fin m ⊕ Fin n) × Bool) ℚ ℚ

/-- The weights of both players and the slacks of the positive game, with ones on the right. -/
def BimatrixGame.bestReplySystem : Matrix (Fin m ⊕ Fin n) (Fin m ⊕ Fin n) ℚ :=
  bestReplyMatrix game.makePositive.payoff1 game.makePositive.payoff2

theorem bounded_constraints : Bounded (constraints game.bestReplySystem) := by
  have : Nonempty (Fin m) := ⟨⟨0, game.rows_pos⟩⟩
  have : Nonempty (Fin n) := ⟨⟨0, game.cols_pos⟩⟩
  exact bounded_bestReplySystem (fun i j => (makePositive_pos game i j).1) fun i j => (makePositive_pos game i j).2

variable {game} {t : BestReplyTableau m n}

theorem equilibrium_of_complementary (ht : t.Feasible (constraints game.bestReplySystem) fun _ => 1)
    (hc : Complementary t) (hown : ∃ r, (t.basis r).2 = true) :
    game.Equilibrium (fun i => t.value (.inl i, true) / ∑ i, t.value (.inl i, true))
      fun j => t.value (.inr j, true) / ∑ j, t.value (.inr j, true) := by
  obtain ⟨hx, hy⟩ := ht.weights_ne_zero hc hown
  exact (makePositive_equilibrium game).mp ((ht.solution hc).equilibrium hx hy)

end Complementary

end Klett.Nash

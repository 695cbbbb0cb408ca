import Klett.Nash.LemkeHowsonSteps

namespace Klett.Nash.LemkeHowson

open Matrix Klett.Lib

section Extraction

variable {m n k : ℕ} {game : BimatrixGame m n} {dropped : Fin m ⊕ Fin n} {s s' : State m n}

theorem normalise_of_ne_zero {raw : Fin k → ℚ} (hraw : ∀ i, 0 ≤ raw i) (hne : raw ≠ 0) :
    normalise 0 raw = fun i => raw i / ∑ i, raw i :=
  funext fun _ => if_pos (sum_pos_of_ne_zero hraw hne)

theorem getValue_path₁ (hs : Function.Injective s.tab1.basis) (i : Fin m) :
    getValue s.tab1 (.inl i) = s.path.tableau.value (.inl i, true) := by
  rw [getValue_eq hs]
  exact ((value_rename labelled (.inr (.inl i))).trans (value_beside_inr (Sum.inl i))).symm

theorem getValue_path₂ (hs : Function.Injective s.tab2.basis) (j : Fin n) :
    getValue s.tab2 (.inl j) = s.path.tableau.value (.inr j, true) := by
  rw [getValue_eq hs]
  exact ((value_rename labelled (.inl (.inl j))).trans (value_beside_inl (Sum.inl j))).symm

theorem profile_equilibrium (hs : Invariant game dropped s) (h : s.pivot 0 = some (dropped, s')) :
    game.Equilibrium (s'.profile 0).strategy1 (s'.profile 0).strategy2 := by
  obtain ⟨htab1, htab2⟩ := hs.feasible h
  obtain ⟨hfeasible, hcomplementary, hown⟩ := hs.path.ends (State.ends h)
  obtain ⟨hx, hy⟩ := hfeasible.weights_ne_zero hcomplementary hown
  have hstrategy1 : (s'.profile 0).strategy1 =
      fun i => s'.path.tableau.value (.inl i, true) / ∑ i, s'.path.tableau.value (.inl i, true) := by
    rw [← normalise_of_ne_zero (fun i => hfeasible.value_nonneg _) hx]
    simp only [State.profile, getValue_path₁ htab1.basis_injective, max_eq_right (hfeasible.value_nonneg _)]
  have hstrategy2 : (s'.profile 0).strategy2 =
      fun j => s'.path.tableau.value (.inr j, true) / ∑ j, s'.path.tableau.value (.inr j, true) := by
    rw [← normalise_of_ne_zero (fun j => hfeasible.value_nonneg _) hy]
    simp only [State.profile, getValue_path₂ htab2.basis_injective, max_eq_right (hfeasible.value_nonneg _)]
  rw [hstrategy1, hstrategy2]
  exact equilibrium_of_complementary hfeasible hcomplementary hown

end Extraction

section Run

variable {m n : ℕ} {tol : Tolerances} {game : BimatrixGame m n} {dropped : Fin m ⊕ Fin n} {s : State m n}
  {result : EquilibriumResult m n}

theorem pivoting_converged (heps : tol.eps = 0) (limit : ℕ) (hs : Invariant game dropped s)
    (h : (pivoting tol game dropped limit s result).status = .converged) :
    ∃ p, pivoting tol game dropped limit s result =
      resultOf game { result with iterations := (pivoting tol game dropped limit s result).iterations } p ∧
        game.Equilibrium p.strategy1 p.strategy2 := by
  induction limit generalizing s result with
  | zero => cases h
  | succ limit ih =>
    rw [pivoting] at h ⊢
    rw [heps] at h ⊢
    cases hpivot : s.pivot 0 with
    | none =>
      rw [hpivot] at h
      cases h
    | some step =>
      obtain ⟨newLabel, s'⟩ := step
      simp only [hpivot] at h ⊢
      by_cases hlabel : newLabel = dropped
      · rw [if_pos hlabel]
        exact ⟨s'.profile 0, rfl, profile_equilibrium hs (hlabel ▸ hpivot)⟩
      · rw [if_neg hlabel] at h ⊢
        exact ih (hs.follow hpivot hlabel) h

/-- For every game, label and limit, a run that reports convergence returns an equilibrium of the game as given. -/
theorem runPivoting_sound (heps : tol.eps = 0) (label : Fin (m + n))
    (h : (runPivoting tol game label).status = .converged) : ∃ p, (runPivoting tol game label).profile = some p ∧
      game.Equilibrium p.strategy1 p.strategy2 := by
  obtain ⟨p, hresult, hp⟩ := pivoting_converged heps _ (invariant_start game _) h
  exact ⟨p, congrArg EquilibriumResult.profile hresult, hp⟩

end Run

/-- Rows tie in the first ratio test, and a payoff is negative. -/
def tiedGame : BimatrixGame 2 2 where
  payoff1 := !![1, 1; 1, -1]
  payoff2 := !![2, 2; 2, 2]
  rows_pos := Nat.two_pos
  cols_pos := Nat.two_pos

theorem runPivoting_sound_tied : ∃ p, (runPivoting exactTolerances tiedGame 1).profile = some p ∧
    tiedGame.Equilibrium p.strategy1 p.strategy2 :=
  runPivoting_sound rfl 1 (by decide +kernel)

end Klett.Nash.LemkeHowson

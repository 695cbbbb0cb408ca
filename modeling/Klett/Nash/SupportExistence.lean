import Klett.Lib.PivotPath
import Klett.Nash.PositiveGame
import Klett.Nash.SupportCompleteness

namespace Klett.Nash

open Matrix Klett.Lib SupportEnumeration

section Weights

variable {k m n : ℕ} {A : Matrix (Fin m) (Fin n) ℚ} {c : ℚ} {y : Fin n → ℚ} {s1 : Support k m} {s2 : Support k n}

structure RaisedWeights (A : Matrix (Fin m) (Fin n) ℚ) (c : ℚ) (s1 : Support k m) (s2 : Support k n)
    (y : Fin n → ℚ) : Prop where
  nonneg : ∀ j, 0 ≤ y j
  nonzero : y ≠ 0
  only : ∀ j, j ∉ Set.range s2 → y j = 0
  rows : ∀ s, ((Matrix.of fun i j => A i j + c) *ᵥ y) (s1 s) = 1

theorem RaisedWeights.equalizes (h : RaisedWeights A c s1 s2 y) :
    Equalizes A s1.toEmbedding s2.toEmbedding (fun j => y j / ∑ j, y j) (1 / ∑ j, y j - c) := by
  have hpos := sum_pos_of_ne_zero h.nonneg h.nonzero
  refine ⟨normalised_mem_stdSimplex h.nonneg h.nonzero, fun j hj => ?_, fun s => ?_⟩
  · rw [h.only j hj, zero_div]
  · have hrow := h.rows s
    rw [mulVec_add_const] at hrow
    calc (A *ᵥ fun j => y j / ∑ j, y j) (s1 s) = (1 - c * ∑ j, y j) / ∑ j, y j := by
          rw [mulVec_normalised, ← hrow, add_sub_cancel_right]
      _ = 1 / ∑ j, y j - c := by rw [sub_div, mul_div_cancel_right₀ _ hpos.ne']

/-- Where only the zero direction is invisible to the rows the system is regular: a direction on which they agree is a
multiple of the weights, and its sum is zero only for the multiple zero. -/
theorem RaisedWeights.accepted (h : RaisedWeights A c s1 s2 y) (hk : 0 < k)
    (hkernel : ∀ d : Fin n → ℚ, (∀ j, j ∉ Set.range s2 → d j = 0) →
      (∀ s, ((Matrix.of fun i j => A i j + c) *ᵥ d) (s1 s) = 0) → d = 0) : Accepted .exact (A.submatrix s1 s2) := by
  apply accepted_of_direction hk
  intro d w honly hvalue hsum
  have hd : d - w • y = 0 := by
    refine hkernel _ (fun j hj => ?_) fun s => ?_
    · simp [honly j hj, h.only j hj]
    · have hraised : ((Matrix.of fun i j => A i j + c) *ᵥ d) (s1 s) = w := by
        rw [mulVec_add_const, hsum]
        simp only [mul_zero, add_zero, hvalue]
      rw [mulVec_sub, mulVec_smul, Pi.sub_apply, Pi.smul_apply, hraised, h.rows, smul_eq_mul, mul_one, sub_self]
  have hmultiple : d = w • y := sub_eq_zero.mp hd
  have hw : w * ∑ j, y j = 0 := by
    rw [← hsum, hmultiple, Finset.mul_sum]
    rfl
  rcases mul_eq_zero.mp hw with hzero | hzero
  · rw [hmultiple, hzero, zero_smul]
  · exact absurd hzero (sum_pos_of_ne_zero h.nonneg h.nonzero).ne'

end Weights

section Existence

variable {m n : ℕ} {tol : Tolerances} {game : BimatrixGame m n} {t : BestReplyTableau m n}

theorem found_of_complementary (heps : tol.eps = 0) (hpivot : tol.pivotTol = .exact)
    (ht : t.Feasible (constraints game.bestReplySystem) fun _ => 1) (hc : Complementary t)
    (hown : ∃ r, (t.basis r).2 = true) :
    ∃ k, 0 < k ∧ ∃ (s1 : Support k m) (s2 : Support k n) (eq : EquilibriumResult m n),
      found tol game s1 s2 = some eq := by
  have hcard : t.actions₂.card = t.actions₁.card := (card_actions_eq hc ht.toRepresents).symm
  have hk : 0 < t.actions₁.card := by
    obtain ⟨r, hr⟩ := hown
    cases hbasis : (t.basis r).1 with
    | inl i => exact Finset.card_pos.mpr ⟨i, mem_actions₁.mpr ⟨r, Prod.ext hbasis hr⟩⟩
    | inr j => exact hcard ▸ Finset.card_pos.mpr ⟨j, mem_actions₂.mpr ⟨r, Prod.ext hbasis hr⟩⟩
  let s1 : Support t.actions₁.card m := t.actions₁.orderEmbOfFin rfl
  let s2 : Support t.actions₁.card n := t.actions₂.orderEmbOfFin hcard
  have hs1 (i : Fin m) : i ∈ Set.range s1 ↔ i ∈ t.actions₁ := by
    rw [Finset.range_orderEmbOfFin, Finset.mem_coe]
  have hs2 (j : Fin n) : j ∈ Set.range s2 ↔ j ∈ t.actions₂ := by
    rw [Finset.range_orderEmbOfFin, Finset.mem_coe]
  obtain ⟨hx, hy⟩ := ht.weights_ne_zero hc hown
  have hweights₂ : RaisedWeights game.payoff1 game.shift s1 s2 fun j => t.value (.inr j, true) :=
    ⟨fun j => ht.value_nonneg _, hy, fun j hj => not_mem_actions₂ fun hmem => hj ((hs2 j).mpr hmem),
      fun s => hc.row₁ ht ((hs1 _).mp ⟨s, rfl⟩)⟩
  have hweights₁ : RaisedWeights game.payoff2ᵀ game.shift s2 s1 fun i => t.value (.inl i, true) :=
    ⟨fun i => ht.value_nonneg _, hx, fun i hi => not_mem_actions₁ fun hmem => hi ((hs1 i).mpr hmem),
      fun s => hc.row₂ ht ((hs2 _).mp ⟨s, rfl⟩)⟩
  have haccept₁ := hweights₂.accepted hk fun d honly hrow =>
    kernel₂ hc ht.toRepresents (fun j hj => honly j fun hmem => hj ((hs2 j).mp hmem)) fun i hi => by
      obtain ⟨s, rfl⟩ := (hs1 i).mpr hi
      exact hrow s
  have haccept₂ := hweights₁.accepted hk fun d honly hrow =>
    kernel₁ hc ht.toRepresents (fun i hi => honly i fun hmem => hi ((hs1 i).mp hmem)) fun j hj => by
      obtain ⟨s, rfl⟩ := (hs2 j).mpr hj
      exact hrow s
  have hbalanced : Balanced game s1 s2 ⟨_, _⟩ _ _ := ⟨hweights₂.equalizes, hweights₁.equalizes⟩
  exact ⟨_, hk, s1, s2, _,
    found_of_balanced heps hpivot hk hbalanced (equilibrium_of_complementary ht hc hown) haccept₁ haccept₂⟩

theorem status_of_mem_solveAll (heps : tol.eps = 0) {eq : EquilibriumResult m n}
    (heq : eq ∈ (solveAll tol game).equilibria) : eq.status = .converged := by
  obtain ⟨k, -, s1, s2, hfound⟩ := (mem_solveAll heps).mp heq
  obtain ⟨p, -, rfl⟩ := Option.map_eq_some_iff.mp hfound
  rfl

/-- Every game has a complementary basis other than the slacks, and its supports are among those tried. -/
theorem solveAll_nonempty (heps : tol.eps = 0) (hpivot : tol.pivotTol = .exact) :
    (solveAll tol game).equilibria ≠ [] ∧ (solveAll tol game).status ≠ .infeasible ∧
      (solveOne tol game).status ≠ .infeasible := by
  obtain ⟨t, ht, hc, hown⟩ := exists_complementary_feasible (b := fun _ => 1) (fun _ => zero_le_one)
    (bounded_constraints game) (.inl ⟨0, game.rows_pos⟩)
  obtain ⟨k, hk, s1, s2, eq, hfound⟩ := found_of_complementary heps hpivot ht hc hown
  have hmem := (mem_solveAll heps).mpr ⟨k, hk, s1, s2, hfound⟩
  have hne : (solveAll tol game).equilibria ≠ [] := List.ne_nil_of_mem hmem
  refine ⟨hne, ?_, ?_⟩
  · have hstatus : (solveAll tol game).status =
        if (solveAll tol game).equilibria.isEmpty then .infeasible else .converged := rfl
    rw [hstatus, if_neg (by simpa using hne)]
    decide
  · rw [solveOne]
    cases hall : (solveAll tol game).equilibria with
    | nil => exact absurd hall hne
    | cons first rest =>
      have hfirst : first ∈ (solveAll tol game).equilibria := hall ▸ List.mem_cons_self
      rw [status_of_mem_solveAll heps hfirst]
      decide

/-- Every action ties with every other. -/
def allTied : BimatrixGame 2 3 where
  payoff1 := 0
  payoff2 := 0
  rows_pos := Nat.two_pos
  cols_pos := Nat.succ_pos 2

theorem solveAll_nonempty_allTied :
    (solveAll exactTolerances allTied).equilibria ≠ [] ∧ (solveAll exactTolerances allTied).status ≠ .infeasible ∧
      (solveOne exactTolerances allTied).status ≠ .infeasible :=
  solveAll_nonempty rfl rfl

end Existence

end Klett.Nash

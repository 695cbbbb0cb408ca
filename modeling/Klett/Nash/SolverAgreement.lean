import Klett.Nash.EquilibriumCount
import Klett.Nash.LemkeHowsonSoundness

namespace Klett.Nash

open Matrix Klett.Lib

section Model

variable {m n : ℕ}

def BimatrixGame.zeroSum (A : Matrix (Fin m) (Fin n) ℚ) (rows_pos : 0 < m) (cols_pos : 0 < n) : BimatrixGame m n where
  payoff1 := A
  payoff2 := Matrix.of fun i j => -A i j
  rows_pos := rows_pos
  cols_pos := cols_pos

namespace StrategyProfile

def check {k : ℕ} (tol : ℚ) (s : Fin k → ℚ) : Bool :=
  k ≠ 0 ∧ (∀ i, ¬s i < -tol) ∧ |∑ i, s i - 1| < tol

def isValid (tol : ℚ) (profile : StrategyProfile m n) : Bool :=
  check tol profile.strategy1 && check tol profile.strategy2

end StrategyProfile

def verifyEquilibrium (game : BimatrixGame m n) (profile : StrategyProfile m n) (epsilon : ℚ) : Bool :=
  profile.isValid epsilon && nashResidual game profile.strategy1 profile.strategy2 < epsilon

namespace LemkeHowson

variable (tol : Tolerances) (game : BimatrixGame m n)

def samePlay (profile existing : StrategyProfile m n) : Bool :=
  (∀ i, approxEq (profile.strategy1 i) (existing.strategy1 i) tol.eps) ∧
    ∀ j, approxEq (profile.strategy2 j) (existing.strategy2 j) tol.eps

def duplicate (eq existing : EquilibriumResult m n) : Bool :=
  eq.profile.any fun profile => existing.profile.any fun known => samePlay tol profile known

def addLabel (result : MultiEquilibriumResult m n) (label : Fin (m + n)) : MultiEquilibriumResult m n :=
  let eq := runPivoting tol game label
  let result := { result with totalIterations := result.totalIterations + eq.iterations }
  if eq.status = .converged then
    if result.equilibria.any fun existing => duplicate tol eq existing then result
    else { result with equilibria := result.equilibria ++ [eq] }
  else result

/-- One run for each label, and of those that converge the ones that come to a new profile. -/
def solveMultiple : MultiEquilibriumResult m n :=
  let result := (List.finRange (m + n)).foldl (addLabel tol game) { solverName := name }
  { result with status := if result.equilibria.isEmpty then .numericalFailure else .converged }

end LemkeHowson

end Model

section Labels

open LemkeHowson

variable {m n : ℕ} {tol : Tolerances} {game : BimatrixGame m n}

/-- The results after the runs of some labels. -/
structure Represents (tol : Tolerances) (game : BimatrixGame m n) (labels : List (Fin (m + n)))
    (result : MultiEquilibriumResult m n) : Prop where
  converged : ∀ eq ∈ result.equilibria, eq.status = .converged ∧ ∃ label ∈ labels, eq = runPivoting tol game label
  distinct : result.equilibria.Pairwise fun known eq => duplicate tol eq known = false
  covered : ∀ label ∈ labels, (runPivoting tol game label).status = .converged →
    runPivoting tol game label ∈ result.equilibria ∨
      ∃ eq ∈ result.equilibria, duplicate tol (runPivoting tol game label) eq = true
  iterations : result.totalIterations = (labels.map fun label => (runPivoting tol game label).iterations).sum

theorem Represents.addLabel {labels : List (Fin (m + n))} {result : MultiEquilibriumResult m n}
    (h : Represents tol game labels result) (label : Fin (m + n)) :
    Represents tol game (labels ++ [label]) (addLabel tol game result label) := by
  have hold {eq : EquilibriumResult m n} (heq : eq ∈ result.equilibria) :
      eq.status = .converged ∧ ∃ l ∈ labels ++ [label], eq = runPivoting tol game l := by
    obtain ⟨hstatus, l, hl, hrun⟩ := h.converged eq heq
    exact ⟨hstatus, l, List.mem_append_left _ hl, hrun⟩
  have hiterations : result.totalIterations + (runPivoting tol game label).iterations =
      ((labels ++ [label]).map fun label => (runPivoting tol game label).iterations).sum := by
    rw [h.iterations, List.map_append, List.sum_append, List.map_singleton, List.sum_singleton]
  rw [LemkeHowson.addLabel]
  by_cases hstatus : (runPivoting tol game label).status = .converged
  · rw [if_pos hstatus]
    cases hdup : result.equilibria.any fun existing => duplicate tol (runPivoting tol game label) existing with
    | true =>
      rw [if_pos rfl]
      refine ⟨fun eq heq => hold heq, h.distinct, fun l hl hconv => ?_, hiterations⟩
      rcases List.mem_append.mp hl with hl | hl
      · exact h.covered l hl hconv
      · rw [List.mem_singleton.mp hl]
        exact .inr (List.any_eq_true.mp hdup)
    | false =>
      rw [if_neg Bool.false_ne_true]
      refine ⟨fun eq heq => ?_, ?_, fun l hl hconv => ?_, hiterations⟩
      · rcases List.mem_append.mp heq with heq | heq
        · exact hold heq
        · rw [List.mem_singleton.mp heq]
          exact ⟨hstatus, label, by simp, rfl⟩
      · refine List.pairwise_append.mpr ⟨h.distinct, List.pairwise_singleton _ _, fun known hknown eq heq => ?_⟩
        rw [List.mem_singleton.mp heq]
        exact Bool.not_eq_true _ ▸ List.any_eq_false.mp hdup known hknown
      · rcases List.mem_append.mp hl with hl | hl
        · rcases h.covered l hl hconv with hmem | ⟨eq, heq, hsame⟩
          · exact .inl (List.mem_append_left _ hmem)
          · exact .inr ⟨eq, List.mem_append_left _ heq, hsame⟩
        · rw [List.mem_singleton.mp hl]
          exact .inl (List.mem_append_right _ (List.mem_singleton_self _))
  · rw [if_neg hstatus]
    refine ⟨fun eq heq => hold heq, h.distinct, fun l hl hconv => ?_, hiterations⟩
    rcases List.mem_append.mp hl with hl | hl
    · exact h.covered l hl hconv
    · rw [List.mem_singleton.mp hl] at hconv
      exact absurd hconv hstatus

theorem solveMultiple_represents (tol : Tolerances) (game : BimatrixGame m n) :
    Represents tol game (List.finRange (m + n)) (solveMultiple tol game) := by
  have hfold (labels rest : List (Fin (m + n))) (result : MultiEquilibriumResult m n)
      (h : Represents tol game labels result) :
      Represents tol game (labels ++ rest) (rest.foldl (LemkeHowson.addLabel tol game) result) := by
    induction rest generalizing labels result with
    | nil => simpa using h
    | cons label rest ih => simpa using ih _ _ (h.addLabel label)
  have hnil : Represents tol game [] { solverName := name } := ⟨by simp, by simp, by simp, rfl⟩
  obtain ⟨hconverged, hdistinct, hcovered, hiterations⟩ := hfold [] (List.finRange (m + n)) _ hnil
  exact ⟨hconverged, hdistinct, hcovered, hiterations⟩

end Labels

section Verification

variable {m n k : ℕ} {game : BimatrixGame m n} {p : StrategyProfile m n} {x : Fin m → ℚ} {y : Fin n → ℚ} {c ε : ℚ}

/-- If no single action gains as much as `c`, no mixture of them does. -/
theorem gains_lt_iff {u : Fin k → ℚ} {v : ℚ} :
    (∀ i, u i - v < c) ↔ ∀ x' ∈ stdSimplex ℚ (Fin k), x' ⬝ᵥ u - v < c := by
  constructor
  · intro h x' hx'
    obtain ⟨i, hi⟩ := support_nonempty hx'
    have hpos : 0 < x' i := lt_of_le_of_ne (hx'.1 i) (Ne.symm (mem_support.mp hi))
    have hlt : x' ⬝ᵥ u < ∑ i, x' i * (v + c) := by
      refine Finset.sum_lt_sum (fun i _ => ?_) ⟨i, Finset.mem_univ i, ?_⟩
      · exact mul_le_mul_of_nonneg_left (by linarith only [h i]) (hx'.1 i)
      · exact mul_lt_mul_of_pos_left (by linarith only [h i]) hpos
    rw [← Finset.sum_mul, hx'.2, one_mul] at hlt
    linarith only [hlt]
  · intro h i
    have hi := h (Pi.single i 1) (single_mem_stdSimplex ℚ i)
    rwa [single_one_dotProduct] at hi

/-- Weights that are those of a mixed strategy up to `ε`. -/
def NearlyMixed (ε : ℚ) (x : Fin k → ℚ) : Prop := (∀ i, -ε ≤ x i) ∧ |∑ i, x i - 1| < ε

theorem check_iff (hk : 0 < k) {x : Fin k → ℚ} : StrategyProfile.check ε x = true ↔ NearlyMixed ε x := by
  simp only [StrategyProfile.check, NearlyMixed, decide_eq_true_eq, not_lt]
  exact and_iff_right hk.ne'

/-- The verifier accepts just the profiles from which no mixed deviation gains as much as the tolerance. -/
theorem verifyEquilibrium_iff (hε : 0 < ε) : verifyEquilibrium game p ε = true ↔
    (NearlyMixed ε p.strategy1 ∧ NearlyMixed ε p.strategy2) ∧
      (∀ x' ∈ stdSimplex ℚ (Fin m),
        x' ⬝ᵥ game.payoff1 *ᵥ p.strategy2 - p.strategy1 ⬝ᵥ game.payoff1 *ᵥ p.strategy2 < ε) ∧
      ∀ y' ∈ stdSimplex ℚ (Fin n),
        y' ⬝ᵥ game.payoff2ᵀ *ᵥ p.strategy1 - p.strategy2 ⬝ᵥ game.payoff2ᵀ *ᵥ p.strategy1 < ε := by
  simp only [verifyEquilibrium, StrategyProfile.isValid, Bool.and_eq_true, decide_eq_true_eq, nashResidual_lt_iff,
    check_iff game.rows_pos, check_iff game.cols_pos]
  rw [gains_lt_iff, gains_lt_iff, and_iff_right hε]

theorem nearlyMixed_forall_iff {x : Fin k → ℚ} : (∀ ε, 0 < ε → NearlyMixed ε x) ↔ x ∈ stdSimplex ℚ (Fin k) := by
  constructor
  · intro h
    constructor
    · intro i
      refine le_of_forall_pos_lt_add fun ε hε => ?_
      linarith only [(h (ε / 2) (half_pos hε)).1 i, hε]
    · exact sub_eq_zero.mp (abs_eq_zero.mp (le_antisymm
        (le_of_forall_pos_lt_add fun ε hε => (zero_add ε).symm ▸ (h ε hε).2) (abs_nonneg _)))
  · intro h ε hε
    refine ⟨fun i => (neg_nonpos.mpr hε.le).trans (h.1 i), ?_⟩
    rw [h.2, sub_self, abs_zero]
    exact hε

theorem verifies_always_iff :
    (∀ ε, 0 < ε → verifyEquilibrium game p ε = true) ↔ game.Equilibrium p.strategy1 p.strategy2 := by
  constructor
  · intro h
    have hε (ε : ℚ) (hpos : 0 < ε) := (verifyEquilibrium_iff hpos).mp (h ε hpos)
    refine ⟨⟨nearlyMixed_forall_iff.mp fun ε hpos => (hε ε hpos).1.1, fun x' hx' => ?_⟩,
      ⟨nearlyMixed_forall_iff.mp fun ε hpos => (hε ε hpos).1.2, fun y' hy' => ?_⟩⟩
    · refine le_of_forall_pos_lt_add fun ε hpos => ?_
      linarith only [(hε ε hpos).2.1 x' hx']
    · refine le_of_forall_pos_lt_add fun ε hpos => ?_
      linarith only [(hε ε hpos).2.2 y' hy']
  · intro h ε hpos
    refine (verifyEquilibrium_iff hpos).mpr ⟨⟨nearlyMixed_forall_iff.mpr h.1.1 ε hpos,
      nearlyMixed_forall_iff.mpr h.2.1 ε hpos⟩, fun x' hx' => ?_, fun y' hy' => ?_⟩
    · linarith only [h.1.2 x' hx', hpos]
    · linarith only [h.2.2 y' hy', hpos]

/-- At one tolerance the verifier leaves out small gains. At all of them it leaves out nothing. -/
theorem verified_iff (hε : 0 < ε) :
    (verifyEquilibrium game p ε = true ↔
      (NearlyMixed ε p.strategy1 ∧ NearlyMixed ε p.strategy2) ∧
        (∀ x' ∈ stdSimplex ℚ (Fin m),
          x' ⬝ᵥ game.payoff1 *ᵥ p.strategy2 - p.strategy1 ⬝ᵥ game.payoff1 *ᵥ p.strategy2 < ε) ∧
        ∀ y' ∈ stdSimplex ℚ (Fin n),
          y' ⬝ᵥ game.payoff2ᵀ *ᵥ p.strategy1 - p.strategy2 ⬝ᵥ game.payoff2ᵀ *ᵥ p.strategy1 < ε) ∧
      ((∀ δ, 0 < δ → verifyEquilibrium game p δ = true) ↔ game.Equilibrium p.strategy1 p.strategy2) := by
  constructor
  · exact verifyEquilibrium_iff hε
  · exact verifies_always_iff

theorem verified_iff_coordination :
    (verifyEquilibrium coordination ⟨![1, 0], ![1, 0]⟩ (1 / 10) = true ↔
      (NearlyMixed (1 / 10) ![1, 0] ∧ NearlyMixed (1 / 10) ![1, 0]) ∧
        (∀ x' ∈ stdSimplex ℚ (Fin 2),
          x' ⬝ᵥ coordination.payoff1 *ᵥ ![1, 0] - ![1, 0] ⬝ᵥ coordination.payoff1 *ᵥ ![1, 0] < 1 / 10) ∧
        ∀ y' ∈ stdSimplex ℚ (Fin 2),
          y' ⬝ᵥ coordination.payoff2ᵀ *ᵥ ![1, 0] - ![1, 0] ⬝ᵥ coordination.payoff2ᵀ *ᵥ ![1, 0] < 1 / 10) ∧
      ((∀ δ, 0 < δ → verifyEquilibrium coordination ⟨![1, 0], ![1, 0]⟩ δ = true) ↔
        coordination.Equilibrium ![1, 0] ![1, 0]) :=
  verified_iff (by norm_num)

end Verification

section Agreement

open LemkeHowson

variable {m n : ℕ} {tol : Tolerances} {game : BimatrixGame m n} {eq : EquilibriumResult m n}

theorem duplicate_false (heps : tol.eps = 0) (game : BimatrixGame m n) (eq known : EquilibriumResult m n) :
    duplicate tol eq known = false := by
  have hsame (p q : StrategyProfile m n) : LemkeHowson.samePlay tol p q = false := by
    simp only [LemkeHowson.samePlay, approxEq, heps, Bool.decide_and, Bool.and_eq_false_imp, decide_eq_true_eq]
    intro h
    exact absurd (h ⟨0, game.rows_pos⟩) (abs_nonneg _).not_gt
  rw [duplicate]
  cases eq.profile <;> cases known.profile <;> simp [hsame]

/-- Without a tolerance no two strategies count as the same, so every label that converges is listed. -/
theorem solveMultiple_equilibria (heps : tol.eps = 0) : (solveMultiple tol game).equilibria =
    ((List.finRange (m + n)).map (runPivoting tol game)).filter fun eq => eq.status = .converged := by
  have hfold (labels : List (Fin (m + n))) (result : MultiEquilibriumResult m n) :
      (labels.foldl (addLabel tol game) result).equilibria =
        result.equilibria ++ (labels.map (runPivoting tol game)).filter fun eq => eq.status = .converged := by
    induction labels generalizing result with
    | nil => simp
    | cons label labels ih =>
      rw [List.foldl_cons, ih, List.map_cons, List.filter_cons, LemkeHowson.addLabel]
      by_cases hstatus : (runPivoting tol game label).status = .converged
      · simp [hstatus, duplicate_false heps game]
      · simp [hstatus]
  exact hfold _ _

theorem runPivoting_converges (hgame : Nondegenerate game.payoff1 game.payoff2)
    (hmin : game.minPayoff ≤ 0 ∨ 1 / maxDouble < game.minPayoff) (heps : tol.eps = 0)
    (hiter : (basisPairs game).ncard ≤ tol.maxIter) (label : Fin (m + n)) :
    (runPivoting tol game label).status = .converged := by
  have hsystem : NondegenerateSystem game.bestReplySystem fun _ => (1 : ℚ) :=
    nondegenerate_bestReplySystem ((makePositive_nondegenerate game).mpr hgame)
  have hbounded : (runPivoting tol game label).status ≠ .numericalFailure :=
    pivoting_in_range heps (entersInRange_of_minPayoff hmin _) _ (invariant_start game _) (path_start game _ ▸ .refl)
  rcases pivoting_status tol game (finSumFinEquiv.symm label) tol.maxIter.toNat (start game _) { solverName := name }
    with hstatus | hstatus | hstatus
  · exact hstatus
  · exact absurd hstatus hbounded
  · have hlength := visited_length heps _ hstatus
    have hle := hlength.symm.trans_le (visited_length_le hsystem tol.maxIter.toNat)
    omega

/-- What either solver lists: an equilibrium, with the payoffs computed from it. -/
structure Listed (game : BimatrixGame m n) (eq : EquilibriumResult m n) (p : StrategyProfile m n) : Prop where
  profile : eq.profile = some p
  equilibrium : game.Equilibrium p.strategy1 p.strategy2
  payoff1 : eq.payoff1 = game.expectedPayoff1 p.strategy1 p.strategy2
  payoff2 : eq.payoff2 = game.expectedPayoff2 p.strategy1 p.strategy2

theorem listed_of_converged (heps : tol.eps = 0) {label : Fin (m + n)}
    (h : (runPivoting tol game label).status = .converged) : ∃ p, Listed game (runPivoting tol game label) p := by
  obtain ⟨p, hresult, hp⟩ := pivoting_converged heps _ (invariant_start game _) h
  rw [runPivoting, hresult]
  exact ⟨p, rfl, hp, rfl, rfl⟩

theorem listed_of_mem_solveMultiple (heps : tol.eps = 0) (heq : eq ∈ (solveMultiple tol game).equilibria) :
    ∃ p, Listed game eq p := by
  obtain ⟨hmem, hstatus⟩ := List.mem_filter.mp (solveMultiple_equilibria heps ▸ heq)
  obtain ⟨label, -, rfl⟩ := List.mem_map.mp hmem
  exact listed_of_converged heps (of_decide_eq_true hstatus)

theorem listed_of_mem_solveAll (hrange : PayoffsInRange game) (heps : tol.eps = 0) (hpivot : tol.pivotTol.Singular 0)
    (heq : eq ∈ (SupportEnumeration.solveAll tol game).equilibria) : ∃ p, Listed game eq p := by
  obtain ⟨k, hk, s1, s2, hfound⟩ := (mem_solveAll heps).mp heq
  obtain ⟨p, hp, hequilibrium⟩ := found_sound hrange heps hpivot hk hfound
  obtain ⟨p', -, rfl⟩ := Option.map_eq_some_iff.mp hfound
  obtain rfl := Option.some.inj hp
  exact ⟨p', rfl, hequilibrium, rfl, rfl⟩

/-- In a nondegenerate game every label leads Lemke and Howson's method to a profile that support enumeration lists,
once. -/
theorem solvers_agree (hgame : Nondegenerate game.payoff1 game.payoff2) (hrange : PayoffsInRange game)
    (hmin : game.minPayoff ≤ 0 ∨ 1 / maxDouble < game.minPayoff) (heps : tol.eps = 0) (hpivot : tol.pivotTol = .exact)
    (hiter : (basisPairs game).ncard ≤ tol.maxIter) :
    (solveMultiple tol game).status = .converged ∧
      (solveMultiple tol game).equilibria = (List.finRange (m + n)).map (runPivoting tol game) ∧
        ∀ label, (profiles tol game).count (runPivoting tol game label).profile = 1 := by
  have hconverges := runPivoting_converges hgame hmin heps hiter
  have hall : (solveMultiple tol game).equilibria = (List.finRange (m + n)).map (runPivoting tol game) := by
    rw [solveMultiple_equilibria heps, List.filter_eq_self]
    intro eq heq
    obtain ⟨label, -, rfl⟩ := List.mem_map.mp heq
    exact decide_eq_true (hconverges label)
  refine ⟨?_, hall, fun label => ?_⟩
  · have hstatus : (solveMultiple tol game).status =
        if (solveMultiple tol game).equilibria.isEmpty then .numericalFailure else .converged := rfl
    have hne : (solveMultiple tol game).equilibria ≠ [] := by
      rw [hall]
      exact List.ne_nil_of_mem (List.mem_map_of_mem (List.mem_finRange ⟨0, Nat.add_pos_left game.rows_pos n⟩))
    rw [hstatus, if_neg (by simpa using hne)]
  · obtain ⟨p, hp⟩ := listed_of_converged heps (hconverges label)
    rw [hp.profile]
    exact List.count_eq_one_of_mem (profiles_nodup hgame hrange heps (hpivot ▸ rfl))
      (mem_profiles hgame hp.equilibrium heps hpivot)

theorem basisPairs_le (game : BimatrixGame m n) :
    (basisPairs game).ncard ≤ Fintype.card (Finset (Fin m ⊕ Fin n) × Finset (Fin n ⊕ Fin m)) := by
  rw [← Nat.card_eq_fintype_card, ← Set.ncard_univ]
  exact Set.ncard_le_ncard (Set.subset_univ _)

theorem solvers_agree_coordination : (solveMultiple exactTolerances coordination).status = .converged ∧
    (solveMultiple exactTolerances coordination).equilibria =
      (List.finRange (2 + 2)).map (runPivoting exactTolerances coordination) ∧
    ∀ label, (profiles exactTolerances coordination).count
      (runPivoting exactTolerances coordination label).profile = 1 :=
  solvers_agree nondegenerate_coordination payoffsInRange_coordination (.inl (by decide +kernel)) rfl rfl
    (le_trans (Nat.cast_le.mpr (basisPairs_le coordination)) (by decide +kernel))

end Agreement

section ZeroSum

open LemkeHowson

variable {m n : ℕ} {tol : Tolerances} {A : Matrix (Fin m) (Fin n) ℚ} {rows_pos : 0 < m} {cols_pos : 0 < n}
  {eq eq' : EquilibriumResult m n} {p p' : StrategyProfile m n}

theorem expectedPayoff1_eq (game : BimatrixGame m n) (x : Fin m → ℚ) (y : Fin n → ℚ) :
    game.expectedPayoff1 x y = x ⬝ᵥ game.payoff1 *ᵥ y := by
  simp only [BimatrixGame.expectedPayoff1, dotProduct, mulVec, Finset.mul_sum, mul_assoc]

theorem expectedPayoff2_zeroSum (x : Fin m → ℚ) (y : Fin n → ℚ) :
    (BimatrixGame.zeroSum A rows_pos cols_pos).expectedPayoff2 x y =
      -(BimatrixGame.zeroSum A rows_pos cols_pos).expectedPayoff1 x y := by
  simp [BimatrixGame.expectedPayoff1, BimatrixGame.expectedPayoff2, BimatrixGame.zeroSum]

/-- Whatever the solvers list for a zero-sum game has one value, and the strategies may be exchanged. -/
theorem zeroSum_exchange (hrange : PayoffsInRange (BimatrixGame.zeroSum A rows_pos cols_pos)) (heps : tol.eps = 0)
    (hpivot : tol.pivotTol.Singular 0)
    (heq : eq ∈ (SupportEnumeration.solveAll tol (BimatrixGame.zeroSum A rows_pos cols_pos)).equilibria ∨
      eq ∈ (solveMultiple tol (BimatrixGame.zeroSum A rows_pos cols_pos)).equilibria)
    (heq' : eq' ∈ (SupportEnumeration.solveAll tol (BimatrixGame.zeroSum A rows_pos cols_pos)).equilibria ∨
      eq' ∈ (solveMultiple tol (BimatrixGame.zeroSum A rows_pos cols_pos)).equilibria) :
    eq.payoff1 = eq'.payoff1 ∧ eq.payoff2 = -eq.payoff1 ∧ ∃ p p', eq.profile = some p ∧ eq'.profile = some p' ∧
      (BimatrixGame.zeroSum A rows_pos cols_pos).Equilibrium p.strategy1 p'.strategy2 := by
  have hlisted {eq : EquilibriumResult m n}
      (heq : eq ∈ (SupportEnumeration.solveAll tol (BimatrixGame.zeroSum A rows_pos cols_pos)).equilibria ∨
        eq ∈ (solveMultiple tol (BimatrixGame.zeroSum A rows_pos cols_pos)).equilibria) :
      ∃ p, Listed (BimatrixGame.zeroSum A rows_pos cols_pos) eq p :=
    heq.elim (listed_of_mem_solveAll hrange heps hpivot) (listed_of_mem_solveMultiple heps)
  obtain ⟨p, hp⟩ := hlisted heq
  obtain ⟨p', hp'⟩ := hlisted heq'
  have hzero : IsEquilibrium A (-A) p.strategy1 p.strategy2 := hp.equilibrium
  have hzero' : IsEquilibrium A (-A) p'.strategy1 p'.strategy2 := hp'.equilibrium
  refine ⟨?_, ?_, p, p', hp.profile, hp'.profile, hzero.exchange hzero'⟩
  · obtain ⟨hleft, hright⟩ := hzero.value_eq hzero'
    rw [hp.payoff1, hp'.payoff1, expectedPayoff1_eq, expectedPayoff1_eq]
    exact hleft.trans hright.symm
  · rw [hp.payoff1, hp.payoff2, expectedPayoff2_zeroSum]

theorem minPayoff_zeroSum : (BimatrixGame.zeroSum A rows_pos cols_pos).minPayoff ≤ 0 := by
  obtain ⟨h1, h2⟩ := minPayoff_le (BimatrixGame.zeroSum A rows_pos cols_pos) ⟨0, rows_pos⟩ ⟨0, cols_pos⟩
  have hneg : (BimatrixGame.zeroSum A rows_pos cols_pos).payoff2 ⟨0, rows_pos⟩ ⟨0, cols_pos⟩ =
      -(BimatrixGame.zeroSum A rows_pos cols_pos).payoff1 ⟨0, rows_pos⟩ ⟨0, cols_pos⟩ := rfl
  linarith only [h1, h2, hneg]

/-- A nondegenerate zero-sum game has one equilibrium, and both solvers find it, from whatever label. -/
theorem zeroSum_solved (hgame : Nondegenerate A (-A))
    (hrange : PayoffsInRange (BimatrixGame.zeroSum A rows_pos cols_pos)) (heps : tol.eps = 0)
    (hpivot : tol.pivotTol = .exact)
    (hiter : (basisPairs (BimatrixGame.zeroSum A rows_pos cols_pos)).ncard ≤ tol.maxIter) :
    ∃ p, profiles tol (BimatrixGame.zeroSum A rows_pos cols_pos) = [some p] ∧
      ∀ label, (runPivoting tol (BimatrixGame.zeroSum A rows_pos cols_pos) label).profile = some p := by
  have hgame' : Nondegenerate (BimatrixGame.zeroSum A rows_pos cols_pos).payoff1
      (BimatrixGame.zeroSum A rows_pos cols_pos).payoff2 := hgame
  have hzero : tol.pivotTol.Singular 0 := hpivot ▸ rfl
  have hconverges := runPivoting_converges hgame' (.inl minPayoff_zeroSum) heps hiter
  obtain ⟨p, hp⟩ := listed_of_converged heps (hconverges ⟨0, Nat.add_pos_left rows_pos n⟩)
  have hunique {q : StrategyProfile m n}
      (hq : (BimatrixGame.zeroSum A rows_pos cols_pos).Equilibrium q.strategy1 q.strategy2) : q = p := by
    have hequilibrium : IsEquilibrium A (-A) q.strategy1 q.strategy2 := hq
    obtain ⟨h1, h2⟩ := hequilibrium.unique hgame hp.equilibrium
    cases q
    cases p
    exact congrArg₂ StrategyProfile.mk h1 h2
  refine ⟨p, ?_, fun label => ?_⟩
  · have hmem := mem_profiles hgame' hp.equilibrium heps hpivot
    have hsingle : ∀ o ∈ profiles tol (BimatrixGame.zeroSum A rows_pos cols_pos), o = some p := by
      intro o ho
      obtain ⟨q, rfl, hq⟩ := mem_profiles_sound hrange heps hzero ho
      rw [hunique hq]
    have hnodup := profiles_nodup hgame' hrange heps hzero
    obtain ⟨o, rest, hlist⟩ := List.exists_cons_of_ne_nil (List.ne_nil_of_mem hmem)
    rw [hlist] at hsingle hnodup ⊢
    obtain ⟨ho, hrest⟩ := List.forall_mem_cons.mp hsingle
    have hnone : rest = [] := by
      apply List.eq_nil_iff_forall_not_mem.mpr
      intro o' ho'
      apply (List.nodup_cons.mp hnodup).1
      rwa [ho, ← hrest o' ho']
    rw [ho, hnone]
  · obtain ⟨q, hq⟩ := listed_of_converged heps (hconverges label)
    rw [hq.profile, hunique hq.equilibrium]

/-- Matching pennies, with a prize on one side. -/
def pennies : Matrix (Fin 2) (Fin 2) ℚ := !![1, -1; -1, 1 / 2]

theorem payoffsInRange_pennies : PayoffsInRange (BimatrixGame.zeroSum pennies Nat.two_pos Nat.two_pos) := by
  apply payoffsInRange_of_small <;> intro i j <;> fin_cases i <;> fin_cases j <;>
    norm_num [pennies, BimatrixGame.zeroSum]

theorem zeroSum_exchange_pennies : ∃ eq, eq ∈ (solveMultiple exactTolerances
    (BimatrixGame.zeroSum pennies Nat.two_pos Nat.two_pos)).equilibria ∧ eq.payoff2 = -eq.payoff1 := by
  let game := BimatrixGame.zeroSum pennies Nat.two_pos Nat.two_pos
  obtain ⟨eq, heq⟩ : ∃ eq, eq ∈ (solveMultiple exactTolerances game).equilibria := by
    refine List.exists_mem_of_ne_nil _ ?_
    have hlength : (solveMultiple exactTolerances game).equilibria.length ≠ 0 := by decide +kernel
    exact fun hnil => hlength (by rw [hnil]; rfl)
  have hexact : exactTolerances.pivotTol.Singular 0 := rfl
  exact ⟨eq, heq, (zeroSum_exchange payoffsInRange_pennies rfl hexact (.inr heq) (.inr heq)).2.1⟩

theorem zeroSum_solved_pennies : ∃ p,
    profiles exactTolerances (BimatrixGame.zeroSum pennies Nat.two_pos Nat.two_pos) = [some p] ∧
      ∀ label, (runPivoting exactTolerances
        (BimatrixGame.zeroSum pennies Nat.two_pos Nat.two_pos) label).profile = some p :=
  zeroSum_solved (nondegenerate_two (by decide +kernel) (by decide +kernel)) payoffsInRange_pennies rfl rfl
    (le_trans (Nat.cast_le.mpr (basisPairs_le _)) (by decide +kernel))

end ZeroSum

end Klett.Nash

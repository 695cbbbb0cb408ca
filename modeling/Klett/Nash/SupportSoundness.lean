import Klett.Nash.SupportEnumeration

namespace Klett.Nash

open Matrix Klett.Lib

section System

variable {k : ℕ} {P : Matrix (Fin k) (Fin k) ℚ}

theorem indifferenceSystem_castSucc (z : Fin (k + 1) → ℚ) (i : Fin k) :
    (indifferenceSystem P *ᵥ z) i.castSucc = (P *ᵥ fun j => z j.castSucc) i - z (Fin.last k) := by
  simp [indifferenceSystem, mulVec, dotProduct, Fin.sum_univ_castSucc, sub_eq_add_neg]

theorem indifferenceSystem_last (z : Fin (k + 1) → ℚ) :
    (indifferenceSystem P *ᵥ z) (Fin.last k) = ∑ j : Fin k, z j.castSucc := by
  simp [indifferenceSystem, mulVec, dotProduct, Fin.sum_univ_castSucc]

theorem indifferenceSystem_mulVec_iff {z : Fin (k + 1) → ℚ} : indifferenceSystem P *ᵥ z = indifferenceRhs k ↔
    (∀ i, (P *ᵥ fun j => z j.castSucc) i = z (Fin.last k)) ∧ ∑ j : Fin k, z j.castSucc = 1 := by
  have hrows (i : Fin k) : indifferenceRhs k i.castSucc = 0 :=
    Pi.single_eq_of_ne (Fin.castSucc_lt_last i).ne 1
  have hlast : indifferenceRhs k (Fin.last k) = 1 := Pi.single_eq_same _ _
  constructor
  · intro h
    refine ⟨fun i => ?_, ?_⟩
    · rw [← sub_eq_zero, ← indifferenceSystem_castSucc, h, hrows]
    · rw [← indifferenceSystem_last (P := P), h, hlast]
  · rintro ⟨hvalue, hsum⟩
    funext i
    refine Fin.lastCases ?_ (fun i => ?_) i
    · rw [indifferenceSystem_last, hlast, hsum]
    · rw [indifferenceSystem_castSucc, hrows, hvalue, sub_self]

end System

section Filled

variable {k n : ℕ} {supp : Support k n} {sol : Fin (k + 1) → ℚ}

theorem fillStrategy_plays :
    Plays supp.toEmbedding (fun i => max 0 (sol i.castSucc)) (fillStrategy supp sol) :=
  plays_foldl_update supp.toEmbedding fun i => max 0 (sol i.castSucc)

theorem foldl_max_const {c v : ℚ} {f : Fin k → ℚ} (hk : 0 < k) (hf : ∀ i, f i = v) :
    (List.finRange k).foldl (fun a i => max a (f i)) c = max c v := by
  apply eq_of_forall_ge_iff
  intro b
  rw [foldl_max_le_iff, max_le_iff]
  refine and_congr_right fun _ => ⟨fun h => ?_, fun h i _ => (hf i).trans_le h⟩
  exact hf ⟨0, hk⟩ ▸ h ⟨0, hk⟩ (List.mem_finRange _)

end Filled

section Candidates

variable {k m n : ℕ} {tol : Tolerances} {game : BimatrixGame m n} {s1 : Support k m} {s2 : Support k n}
  {p : StrategyProfile m n} {v1 v2 : ℚ}

/-- The elimination meets no pivot that counts as singular. -/
def Accepted (pivotTol : PivotTol) (P : Matrix (Fin k) (Fin k) ℚ) : Prop :=
  (luDecompose (indifferenceSystem P) pivotTol).singular = false

/-- The profile plays supports `s1` and `s2` alone, and on them each player is indifferent. -/
def Balanced (game : BimatrixGame m n) (s1 : Support k m) (s2 : Support k n) (p : StrategyProfile m n)
    (v1 v2 : ℚ) : Prop :=
  Equalizes game.payoff1 s1.toEmbedding s2.toEmbedding p.strategy2 v1 ∧
    Equalizes game.payoff2ᵀ s2.toEmbedding s1.toEmbedding p.strategy1 v2

theorem solve_indifference {P : Matrix (Fin k) (Fin k) ℚ} {z : Fin (k + 1) → ℚ} (hpivot : tol.pivotTol.Singular 0) :
    solve (indifferenceSystem P) (indifferenceRhs k) tol.pivotTol = some z ↔
      Accepted tol.pivotTol P ∧ (∀ i, (P *ᵥ fun j => z j.castSucc) i = z (Fin.last k)) ∧
        ∑ j : Fin k, z j.castSucc = 1 := by
  rw [← indifferenceSystem_mulVec_iff]
  constructor
  · exact fun h => ⟨solve_regular h, (solve_eq_some hpivot h).1⟩
  · exact fun h => solve_of_regular hpivot h.1 h.2

variable {A : Matrix (Fin m) (Fin n) ℚ}

theorem equalizes_fillStrategy {z : Fin (k + 1) → ℚ} (hz : ∀ j : Fin k, 0 ≤ z j.castSucc)
    (hvalue : ∀ i, (A.submatrix s1 s2 *ᵥ fun j => z j.castSucc) i = z (Fin.last k))
    (hsum : ∑ j : Fin k, z j.castSucc = 1) :
    Equalizes A s1.toEmbedding s2.toEmbedding (fillStrategy s2 z) (z (Fin.last k)) := by
  have hplays : Plays s2.toEmbedding (fun j => z j.castSucc) (fillStrategy s2 z) := by
    have hmax : (fun j : Fin k => max 0 (z j.castSucc)) = fun j => z j.castSucc := funext fun j => max_eq_right (hz j)
    exact hmax ▸ fillStrategy_plays
  exact ⟨hplays.mem_stdSimplex hz hsum, hplays.off, fun i => (hplays.mulVec A _).trans (hvalue i)⟩

theorem solution_of_equalizes {y : Fin n → ℚ} {v : ℚ} (h : Equalizes A s1.toEmbedding s2.toEmbedding y v) :
    ∃ z : Fin (k + 1) → ℚ, (∀ j : Fin k, 0 ≤ z j.castSucc) ∧
      (∀ i, (A.submatrix s1 s2 *ᵥ fun j => z j.castSucc) i = z (Fin.last k)) ∧
        (∑ j : Fin k, z j.castSucc = 1) ∧ fillStrategy s2 z = y := by
  have hplays := plays_self h.only
  let z : Fin (k + 1) → ℚ := Fin.snoc (fun j => y (s2 j)) v
  have hz (j : Fin k) : z j.castSucc = y (s2 j) := Fin.snoc_castSucc ..
  have hlast : z (Fin.last k) = v := Fin.snoc_last ..
  refine ⟨z, fun j => ?_, fun i => ?_, ?_, ?_⟩
  · exact hz j ▸ h.mixed.1 _
  · rw [hlast, ← h.value i]
    simp only [hz]
    exact (hplays.mulVec A _).symm
  · simp only [hz]
    exact hplays.sum.symm.trans h.mixed.2
  · refine Plays.unique fillStrategy_plays ⟨fun j => ?_, h.only⟩
    rw [hz, max_eq_right (h.mixed.1 _)]
    rfl

theorem trySquare_eq_some_iff (heps : tol.eps = 0) (hpivot : tol.pivotTol.Singular 0) :
    SupportEnumeration.trySquare tol game s1 s2 = some p ↔
      Accepted tol.pivotTol (game.payoff1.submatrix s1 s2) ∧ Accepted tol.pivotTol (game.payoff2.submatrix s1 s2)ᵀ ∧
        ∃ v1 v2, Balanced game s1 s2 p v1 v2 := by
  rw [SupportEnumeration.trySquare]
  rw [heps, neg_zero]
  constructor
  · intro h
    split at h
    · cases h
    next solY hY =>
      split_ifs at h with hnonneg1
      split at h
      · cases h
      next solX hX =>
        split_ifs at h with hnonneg2
        obtain ⟨haccept1, hvalue1, hsum1⟩ := (solve_indifference hpivot).mp hY
        obtain ⟨haccept2, hvalue2, hsum2⟩ := (solve_indifference hpivot).mp hX
        rw [← Option.some.inj h]
        refine ⟨haccept1, haccept2, _, _, equalizes_fillStrategy (fun j => ?_) hvalue1 hsum1,
          equalizes_fillStrategy (fun i => ?_) hvalue2 hsum2⟩
        · exact not_lt.mp fun hlt => hnonneg1 ⟨j, hlt⟩
        · exact not_lt.mp fun hlt => hnonneg2 ⟨i, hlt⟩
  · rintro ⟨haccept1, haccept2, v1, v2, hY, hX⟩
    obtain ⟨solY, hnonneg1, hvalue1, hsum1, hfill1⟩ := solution_of_equalizes hY
    obtain ⟨solX, hnonneg2, hvalue2, hsum2, hfill2⟩ := solution_of_equalizes hX
    rw [(solve_indifference hpivot).mpr ⟨haccept1, hvalue1, hsum1⟩]
    simp only
    rw [if_neg fun ⟨j, hj⟩ => absurd (hnonneg1 j) hj.not_ge]
    rw [transpose_submatrix] at haccept2 ⊢
    rw [(solve_indifference hpivot).mpr ⟨haccept2, hvalue2, hsum2⟩]
    simp only
    rw [if_neg fun ⟨j, hj⟩ => absurd (hnonneg2 j) hj.not_ge, hfill1, hfill2]

theorem trySupport_self (tol : Tolerances) (game : BimatrixGame m n) (s1 : Support k m) (s2 : Support k n) :
    SupportEnumeration.trySupport tol game s1 s2 = SupportEnumeration.trySquare tol game s1 s2 := by
  rw [SupportEnumeration.trySupport, dif_pos rfl]
  rfl

theorem checkBestResponse_iff (heps : tol.eps = 0) (hk : 0 < k) (h : Balanced game s1 s2 p v1 v2) :
    SupportEnumeration.checkBestResponse tol game p s1 s2 = true ↔
      (∀ i, (game.payoff1 *ᵥ p.strategy2) i ≤ max lowestPayoff v1) ∧
        ∀ j, (game.payoff2ᵀ *ᵥ p.strategy1) j ≤ max lowestPayoff v2 := by
  have hv1 (i : Fin k) : (game.payoff1 *ᵥ p.strategy2) (s1 i) = v1 := h.1.value i
  have hv2 (j : Fin k) : (game.payoff2ᵀ *ᵥ p.strategy1) (s2 j) = v2 := h.2.value j
  simp only [SupportEnumeration.checkBestResponse, heps, add_zero, decide_eq_true_eq, gt_iff_lt, not_lt]
  rw [foldl_max_const hk hv1, foldl_max_const hk hv2]

end Candidates

section Visits

open SupportEnumeration

variable {k m n : ℕ} {tol : Tolerances} {game : BimatrixGame m n}

def found (tol : Tolerances) (game : BimatrixGame m n) (s1 : Support k m) (s2 : Support k n) :
    Option (EquilibriumResult m n) :=
  ((trySquare tol game s1 s2).filter fun p => checkBestResponse tol game p s1 s2).map (resultOf game)

theorem samePlay_false (heps : tol.eps = 0) (game : BimatrixGame m n) (known p : StrategyProfile m n) :
    samePlay tol known p = false := by
  simp only [samePlay, approxEq, heps, Bool.decide_and, Bool.and_eq_false_imp, decide_eq_true_eq]
  intro h
  exact absurd (h ⟨0, game.rows_pos⟩) (abs_nonneg _).not_gt

theorem visit_equilibria (heps : tol.eps = 0) (result : MultiEquilibriumResult m n) (s1 : Support k m)
    (s2 : Support k n) :
    (visit tol game result s1 s2).equilibria = result.equilibria ++ (found tol game s1 s2).toList := by
  unfold visit found
  rw [trySupport_self]
  cases trySquare tol game s1 s2 with
  | none => simp
  | some p =>
    have hnever : (result.equilibria.any fun eq => eq.profile.any fun known => samePlay tol known p) = false := by
      simp only [List.any_eq_false]
      intro eq _
      cases eq.profile <;> simp [samePlay_false heps game]
    cases hcheck : checkBestResponse tol game p s1 s2 <;> simp [Option.filter_some, hcheck, hnever]

theorem foldl_equilibria {α : Type*} {f : MultiEquilibriumResult m n → α → MultiEquilibriumResult m n}
    {g : α → List (EquilibriumResult m n)} (hf : ∀ result a, (f result a).equilibria = result.equilibria ++ g a)
    (l : List α) (result : MultiEquilibriumResult m n) :
    (l.foldl f result).equilibria = result.equilibria ++ l.flatMap g := by
  induction l generalizing result with
  | nil => simp
  | cons a l ih => rw [List.foldl_cons, ih, hf, List.flatMap_cons, List.append_assoc]

theorem solveAll_equilibria (heps : tol.eps = 0) : (solveAll tol game).equilibria =
    (List.range' 1 (min m n)).flatMap fun k => (subsets k m).flatMap fun s1 => (subsets k n).flatMap fun s2 =>
      (found tol game s1 s2).toList := by
  have hinner (k : ℕ) (s1 : Support k m) (result : MultiEquilibriumResult m n) :
      ((subsets k n).foldl (fun result s2 => visit tol game result s1 s2) result).equilibria =
        result.equilibria ++ (subsets k n).flatMap fun s2 => (found tol game s1 s2).toList :=
    foldl_equilibria (fun result s2 => visit_equilibria heps result s1 s2) (subsets k n) result
  have hmiddle (k : ℕ) (result : MultiEquilibriumResult m n) :=
    foldl_equilibria (fun result s1 => hinner k s1 result) (subsets k m) result
  exact foldl_equilibria (fun result k => hmiddle k result) _ _

theorem mem_solveAll (heps : tol.eps = 0) {eq : EquilibriumResult m n} :
    eq ∈ (solveAll tol game).equilibria ↔
      ∃ k, 0 < k ∧ ∃ (s1 : Support k m) (s2 : Support k n), found tol game s1 s2 = some eq := by
  simp only [solveAll_equilibria heps, List.mem_flatMap, List.mem_range'_1, Option.mem_toList, mem_subsets, true_and]
  constructor
  · rintro ⟨k, hk, s1, s2, h⟩
    exact ⟨k, by omega, s1, s2, h⟩
  · rintro ⟨k, hk, s1, s2, h⟩
    have hm := s1.le
    have hn := s2.le
    exact ⟨k, by omega, s1, s2, h⟩

variable {s1 : Support k m} {s2 : Support k n} {eq : EquilibriumResult m n}

theorem found_eq_some_iff (heps : tol.eps = 0) (hpivot : tol.pivotTol.Singular 0) (hk : 0 < k) :
    found tol game s1 s2 = some eq ↔
      Accepted tol.pivotTol (game.payoff1.submatrix s1 s2) ∧ Accepted tol.pivotTol (game.payoff2.submatrix s1 s2)ᵀ ∧
        ∃ p v1 v2, Balanced game s1 s2 p v1 v2 ∧
          ((∀ i, (game.payoff1 *ᵥ p.strategy2) i ≤ max lowestPayoff v1) ∧
            ∀ j, (game.payoff2ᵀ *ᵥ p.strategy1) j ≤ max lowestPayoff v2) ∧ resultOf game p = eq := by
  simp only [found, Option.map_eq_some_iff, Option.filter_eq_some_iff, trySquare_eq_some_iff heps hpivot]
  constructor
  · rintro ⟨p, ⟨⟨haccept1, haccept2, v1, v2, hp⟩, hcheck⟩, heq⟩
    exact ⟨haccept1, haccept2, p, v1, v2, hp, (checkBestResponse_iff heps hk hp).mp hcheck, heq⟩
  · rintro ⟨haccept1, haccept2, p, v1, v2, hp, hcheck, heq⟩
    exact ⟨p, ⟨⟨haccept1, haccept2, v1, v2, hp⟩, (checkBestResponse_iff heps hk hp).mpr hcheck⟩, heq⟩

theorem found_of_balanced (heps : tol.eps = 0) (hpivot : tol.pivotTol = .exact) (hk : 0 < k) {p : StrategyProfile m n}
    {v1 v2 : ℚ} (hp : Balanced game s1 s2 p v1 v2) (h : game.Equilibrium p.strategy1 p.strategy2)
    (haccept1 : Accepted .exact (game.payoff1.submatrix s1 s2))
    (haccept2 : Accepted .exact (game.payoff2ᵀ.submatrix s2 s1)) :
    found tol game s1 s2 = some (resultOf game p) := by
  have hzero : tol.pivotTol.Singular 0 := hpivot ▸ rfl
  obtain ⟨hle1, hle2⟩ := (hp.1.equilibrium_iff hp.2).mp h
  rw [found_eq_some_iff heps hzero hk, hpivot, transpose_submatrix]
  refine ⟨haccept1, haccept2, p, v1, v2, hp, ⟨?_, ?_⟩, rfl⟩
  · intro i
    exact le_max_of_le_right (hle1 i)
  · intro j
    exact le_max_of_le_right (hle2 j)

end Visits

section Soundness

variable {m n : ℕ} {tol : Tolerances} {game : BimatrixGame m n}

/-- What a listed result promises: probability distributions, an equilibrium and a residual of zero. -/
def Sound (game : BimatrixGame m n) (eq : EquilibriumResult m n) : Prop :=
  ∃ p, eq.profile = some p ∧ game.Equilibrium p.strategy1 p.strategy2 ∧ eq.residual = 0

/-- Wherever balanced strategies on supports that the elimination accepts pass the test against the sentinel, no action
pays more than the supports do. -/
def NoDeepLoss (pivotTol : PivotTol) (game : BimatrixGame m n) : Prop :=
  ∀ k, 0 < k → ∀ (s1 : Support k m) (s2 : Support k n),
    Accepted pivotTol (game.payoff1.submatrix s1 s2) → Accepted pivotTol (game.payoff2.submatrix s1 s2)ᵀ →
      ∀ p v1 v2, Balanced game s1 s2 p v1 v2 →
        (∀ i, (game.payoff1 *ᵥ p.strategy2) i ≤ max lowestPayoff v1) →
          (∀ j, (game.payoff2ᵀ *ᵥ p.strategy1) j ≤ max lowestPayoff v2) →
            (∀ i, (game.payoff1 *ᵥ p.strategy2) i ≤ v1) ∧ ∀ j, (game.payoff2ᵀ *ᵥ p.strategy1) j ≤ v2

theorem le_value {k : ℕ} {A : Matrix (Fin m) (Fin n) ℚ} {s1 : Support k m} {s2 : Support k n} {y : Fin n → ℚ} {c v : ℚ}
    (hk : 0 < k) (hA : ∀ i j, c ≤ A i j) (h : Equalizes A s1.toEmbedding s2.toEmbedding y v) : c ≤ v := by
  calc c = ∑ j, c * y j := by rw [← Finset.mul_sum, h.mixed.2, mul_one]
    _ ≤ ∑ j, A (s1 ⟨0, hk⟩) j * y j :=
        Finset.sum_le_sum fun j _ => mul_le_mul_of_nonneg_right (hA _ j) (h.mixed.1 j)
    _ = v := h.value ⟨0, hk⟩

theorem noDeepLoss_of_payoffs {pivotTol : PivotTol} (h1 : ∀ i j, lowestPayoff ≤ game.payoff1 i j)
    (h2 : ∀ i j, lowestPayoff ≤ game.payoff2 i j) : NoDeepLoss pivotTol game := by
  intro k hk s1 s2 _ _ p v1 v2 hp hle1 hle2
  have hv1 : max lowestPayoff v1 = v1 := max_eq_right (le_value hk h1 hp.1)
  have hv2 : max lowestPayoff v2 = v2 := max_eq_right (le_value hk (fun j i => h2 i j) hp.2)
  rw [hv1] at hle1
  rw [hv2] at hle2
  exact ⟨hle1, hle2⟩

theorem sound_resultOf_iff {p : StrategyProfile m n} :
    Sound game (SupportEnumeration.resultOf game p) ↔ game.Equilibrium p.strategy1 p.strategy2 := by
  constructor
  · rintro ⟨p', hp', heq, -⟩
    cases hp'
    exact heq
  · exact fun heq => ⟨p, rfl, heq, (equilibrium_iff_residual.mp heq).2.2⟩

theorem solveAll_sound_iff (heps : tol.eps = 0) (hpivot : tol.pivotTol.Singular 0) :
    (∀ eq ∈ (SupportEnumeration.solveAll tol game).equilibria, Sound game eq) ↔ NoDeepLoss tol.pivotTol game := by
  constructor
  · intro hsound k hk s1 s2 haccept1 haccept2 p v1 v2 hp hle1 hle2
    have hfound := (found_eq_some_iff heps hpivot hk).mpr
      ⟨haccept1, haccept2, p, v1, v2, hp, ⟨hle1, hle2⟩, rfl⟩
    have hmem := (mem_solveAll heps).mpr ⟨k, hk, s1, s2, hfound⟩
    exact (hp.1.equilibrium_iff hp.2).mp (sound_resultOf_iff.mp (hsound _ hmem))
  · intro hgame eq heq
    obtain ⟨k, hk, s1, s2, hfound⟩ := (mem_solveAll heps).mp heq
    obtain ⟨haccept1, haccept2, p, v1, v2, hp, ⟨hle1, hle2⟩, rfl⟩ := (found_eq_some_iff heps hpivot hk).mp hfound
    exact sound_resultOf_iff.mpr
      ((hp.1.equilibrium_iff hp.2).mpr (hgame k hk s1 s2 haccept1 haccept2 p v1 v2 hp hle1 hle2))

/-- Both actions of player 1 lose more than the sentinel, and the worse one is listed. -/
def deepLoss : BimatrixGame 2 1 where
  payoff1 := !![-2 * 10 ^ 300; -(3 / 2) * 10 ^ 300]
  payoff2 := 0
  rows_pos := Nat.two_pos
  cols_pos := Nat.one_pos

def tinyPivot : Tolerances := { eps := 0, pivotTol := .below (1 / 10 ^ 301) }

theorem solveAll_sound_iff_deepLoss :
    (∀ eq ∈ (SupportEnumeration.solveAll tinyPivot deepLoss).equilibria, Sound deepLoss eq) ↔
      NoDeepLoss tinyPivot.pivotTol deepLoss :=
  solveAll_sound_iff rfl (by norm_num [tinyPivot, PivotTol.Singular])

theorem solveAll_unsound :
    ¬∀ eq ∈ (SupportEnumeration.solveAll tinyPivot deepLoss).equilibria, Sound deepLoss eq := by
  intro hsound
  have hbad : ((found tinyPivot deepLoss (firstSubset (by decide : 1 ≤ 2)) (firstSubset le_rfl)).any
      fun eq => eq.residual ≠ 0) = true := by decide +kernel
  obtain ⟨eq, hfound, hresidual⟩ := (Option.any_eq_true _ _).mp hbad
  have hmem := (mem_solveAll rfl).mpr ⟨1, Nat.one_pos, _, _, hfound⟩
  obtain ⟨p, -, -, hzero⟩ := hsound eq hmem
  exact of_decide_eq_true hresidual hzero

end Soundness

end Klett.Nash

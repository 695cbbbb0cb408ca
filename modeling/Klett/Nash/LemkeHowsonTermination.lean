import Klett.Lib.EquilibriumSet
import Klett.Nash.LemkeHowsonSteps
import Mathlib.Data.Set.Card

namespace Klett.Nash.LemkeHowson

open Matrix Klett.Lib

section Bases

variable {m n : ℕ}

def State.bases (s : State m n) : Finset (Fin m ⊕ Fin n) × Finset (Fin n ⊕ Fin m) :=
  (Finset.univ.image s.tab1.basis, Finset.univ.image s.tab2.basis)

/-- The pairs of bases that the loop goes through within a limit, the last one included. -/
def visited (tol : ℚ) (dropped : Fin m ⊕ Fin n) :
    ℕ → State m n → List (Finset (Fin m ⊕ Fin n) × Finset (Fin n ⊕ Fin m))
  | 0, s => [s.bases]
  | limit + 1, s =>
    s.bases ::
      match s.pivot tol with
      | none => []
      | some (newLabel, s') =>
        if newLabel = dropped then [s'.bases] else visited tol dropped limit (s'.follow newLabel)

def basisPairs (game : BimatrixGame m n) : Set (Finset (Fin m ⊕ Fin n) × Finset (Fin n ⊕ Fin m)) :=
  {β | (∃ t : Tableau (Fin n) (Fin m ⊕ Fin n) ℚ ℚ,
      t.Feasible (Matrix.fromCols game.makePositive.payoff2ᵀ 1) (fun _ => 1) ∧ Finset.univ.image t.basis = β.1) ∧
    ∃ t : Tableau (Fin m) (Fin n ⊕ Fin m) ℚ ℚ,
      t.Feasible (Matrix.fromCols game.makePositive.payoff1 1) (fun _ => 1) ∧ Finset.univ.image t.basis = β.2}

structure FindsEquilibrium (game : BimatrixGame m n) (label : Fin (m + n)) : Prop where
  unrepeated : ∀ limit, (visited 0 (finSumFinEquiv.symm label) limit (start game (finSumFinEquiv.symm label))).Nodup
  bounded : ∀ tol : Tolerances, tol.eps = 0 → (runPivoting tol game label).status ≠ .numericalFailure
  converges : ∀ tol : Tolerances, tol.eps = 0 → (basisPairs game).ncard ≤ tol.maxIter →
    (runPivoting tol game label).status = .converged

/-- Every variable that enters on the path of the dropped label does so at a value below the largest double. -/
def EntersInRange (game : BimatrixGame m n) (dropped : Fin m ⊕ Fin n) : Prop :=
  ∀ s, Relation.ReflTransGen (Next dropped) (PathState.start game.bestReplySystem (fun _ => (1 : ℚ)) dropped) s →
    ∀ r, s.tableau.Leaves s.entering r → s.tableau.rhs r / s.tableau.coeff r s.entering < maxDouble

end Bases

section Runs

variable {m n : ℕ} {tol : Tolerances} {game : BimatrixGame m n} {dropped l : Fin m ⊕ Fin n} {s s' : State m n}
  {result : EquilibriumResult m n} {limit : ℕ} {β : Finset (Fin m ⊕ Fin n) × Finset (Fin n ⊕ Fin m)}

def variablesOf (β : Finset (Fin m ⊕ Fin n) × Finset (Fin n ⊕ Fin m)) : Set ((Fin m ⊕ Fin n) × Bool) :=
  labelled '' (Sum.inl '' β.2 ∪ Sum.inr '' β.1)

theorem range_basis_path (s : State m n) : Set.range s.path.tableau.basis = variablesOf s.bases := by
  have hbeside : Set.range (s.tab2.beside s.tab1).basis =
      Sum.inl '' Set.range s.tab2.basis ∪ Sum.inr '' Set.range s.tab1.basis := range_basis_beside
  simp only [variablesOf, State.bases, Finset.coe_image, Finset.coe_univ, Set.image_univ]
  rw [← hbeside, ← Set.range_comp]
  rfl

theorem visited_eq_cons (tol : ℚ) (dropped : Fin m ⊕ Fin n) (limit : ℕ) (s : State m n) :
    visited tol dropped limit s = s.bases :: (visited tol dropped limit s).tail := by
  cases limit <;> rfl

section Nondegenerate

variable {path : ℕ → PathState (Fin m ⊕ Fin n) ℚ ℚ} {k : ℕ}

/-- Later pairs of bases differ from all those on the path so far; the induction carries the path along. -/
theorem visited_nodup (hgame : NondegenerateSystem game.bestReplySystem fun _ => (1 : ℚ)) (limit : ℕ)
    (hstart : path 0 = PathState.start game.bestReplySystem (fun _ => 1) dropped)
    (hpath : ∀ i < k, Next dropped (path i) (path (i + 1))) (hs : s.path = path k) :
    (visited 0 dropped limit s).Nodup ∧
      ∀ β ∈ (visited 0 dropped limit s).tail, ∀ i ≤ k, (path i).base ≠ variablesOf β := by
  have hone : ∀ _ : Fin m ⊕ Fin n, (0 : ℚ) ≤ 1 := fun _ => zero_le_one
  have hhead : (path k).base = variablesOf s.bases := by
    rw [← hs]
    exact range_basis_path s
  have hnodup (hlater : ∀ β ∈ (visited 0 dropped limit s).tail, ∀ i ≤ k, (path i).base ≠ variablesOf β) :
      s.bases ∉ (visited 0 dropped limit s).tail :=
    fun hmem => hlater _ hmem k le_rfl hhead
  induction limit generalizing s k path with
  | zero => exact ⟨List.nodup_singleton _, fun β hβ => absurd hβ List.not_mem_nil⟩
  | succ limit ih =>
    rw [visited] at hnodup ⊢
    rw [List.tail_cons] at hnodup ⊢
    rw [List.nodup_cons]
    cases hpivot : s.pivot 0 with
    | none => exact ⟨⟨List.not_mem_nil, List.nodup_nil⟩, fun β hβ => absurd hβ List.not_mem_nil⟩
    | some step =>
      obtain ⟨newLabel, s'⟩ := step
      simp only [hpivot] at hnodup ⊢
      by_cases hlabel : newLabel = dropped
      · rw [if_pos hlabel] at hnodup ⊢
        have hends : Ends dropped (path k) s'.path.tableau := hs ▸ State.ends (hlabel ▸ hpivot)
        have hlater : ∀ β ∈ [s'.bases], ∀ i ≤ k, (path i).base ≠ variablesOf β := by
          intro β hβ i hi
          rw [List.mem_singleton.mp hβ, ← range_basis_path]
          exact end_base_ne_run hone hstart hpath hi hends
        exact ⟨⟨hnodup hlater, List.nodup_singleton _⟩, hlater⟩
      · rw [if_neg hlabel] at hnodup ⊢
        obtain ⟨path', hold, hnew, hpath'⟩ := exists_extended_path hpath (hs ▸ State.next hpivot hlabel)
        have hstart' : path' 0 = PathState.start game.bestReplySystem (fun _ => 1) dropped :=
          (hold 0 (Nat.zero_le k)).trans hstart
        have hhead' : (path' (k + 1)).base = variablesOf (s'.follow newLabel).bases := by
          rw [hnew]
          exact range_basis_path _
        obtain ⟨hrest, htail⟩ := ih hstart' hpath' hnew.symm hhead'
          fun hlater hmem => hlater _ hmem (k + 1) le_rfl hhead'
        have hlater : ∀ β ∈ visited 0 dropped limit (s'.follow newLabel), ∀ i ≤ k, (path i).base ≠ variablesOf β := by
          intro β hβ i hi
          rw [visited_eq_cons] at hβ
          rw [← hold i hi]
          rcases List.mem_cons.mp hβ with rfl | hβ
          · rw [← hhead']
            exact base_ne_run hone hstart' hpath' hgame (by omega) le_rfl
          · exact htail β hβ i (by omega)
        exact ⟨⟨hnodup hlater, hrest⟩, hlater⟩

end Nondegenerate

theorem bases_mem_basisPairs
    (h1 : s.tab1.Feasible (Matrix.fromCols game.makePositive.payoff2ᵀ 1) fun _ => 1)
    (h2 : s.tab2.Feasible (Matrix.fromCols game.makePositive.payoff1 1) fun _ => 1) : s.bases ∈ basisPairs game :=
  ⟨⟨s.tab1, h1, rfl⟩, s.tab2, h2, rfl⟩

theorem visited_subset (limit : ℕ) (hs : Invariant game dropped s) : ∀ β ∈ visited 0 dropped limit s, β ∈ basisPairs game := by
  induction limit generalizing s with
  | zero =>
    intro β hβ
    rw [List.mem_singleton.mp hβ]
    exact bases_mem_basisPairs hs.tab1 hs.tab2
  | succ limit ih =>
    intro β hβ
    rw [visited] at hβ
    rcases List.mem_cons.mp hβ with rfl | hβ
    · exact bases_mem_basisPairs hs.tab1 hs.tab2
    · cases hpivot : s.pivot 0 with
      | none =>
        rw [hpivot] at hβ
        cases hβ
      | some step =>
        obtain ⟨newLabel, s'⟩ := step
        simp only [hpivot] at hβ
        by_cases hlabel : newLabel = dropped
        · rw [if_pos hlabel] at hβ
          obtain ⟨h1, h2⟩ := hs.feasible hpivot
          rw [List.mem_singleton.mp hβ]
          exact bases_mem_basisPairs h1 h2
        · rw [if_neg hlabel] at hβ
          exact ih (hs.follow hpivot hlabel) β hβ

theorem visited_length (heps : tol.eps = 0) (limit : ℕ)
    (h : (pivoting tol game dropped limit s result).status = .maxIterations) :
    (visited 0 dropped limit s).length = limit + 1 := by
  induction limit generalizing s result with
  | zero => rfl
  | succ limit ih =>
    rw [pivoting, heps] at h
    rw [visited]
    cases hpivot : s.pivot 0 with
    | none =>
      rw [hpivot] at h
      cases h
    | some step =>
      obtain ⟨newLabel, s'⟩ := step
      simp only [hpivot] at h ⊢
      by_cases hlabel : newLabel = dropped
      · rw [if_pos hlabel] at h
        cases h
      · rw [if_neg hlabel] at h ⊢
        rw [List.length_cons, ih h]

theorem pivoting_status (tol : Tolerances) (game : BimatrixGame m n) (dropped : Fin m ⊕ Fin n) (limit : ℕ)
    (s : State m n) (result : EquilibriumResult m n) :
    (pivoting tol game dropped limit s result).status = .converged ∨
      (pivoting tol game dropped limit s result).status = .numericalFailure ∨
        (pivoting tol game dropped limit s result).status = .maxIterations := by
  induction limit generalizing s result with
  | zero => exact .inr (.inr rfl)
  | succ limit ih =>
    rw [pivoting]
    split
    · exact .inr (.inl rfl)
    · split_ifs
      · exact .inl rfl
      · exact ih _ _

theorem pivoting_status_congr {tol tol' : Tolerances} (heps : tol.eps = tol'.eps) (limit : ℕ)
    (result' : EquilibriumResult m n) : (pivoting tol game dropped limit s result).status =
      (pivoting tol' game dropped limit s result').status := by
  induction limit generalizing s result result' with
  | zero => rfl
  | succ limit ih =>
    rw [pivoting, pivoting, heps]
    cases s.pivot tol'.eps with
    | none => rfl
    | some step =>
      simp only
      split_ifs
      · rfl
      · exact ih _

theorem Invariant.exists_leaves (hs : Invariant game dropped s) :
    ∃ r, s.path.tableau.Leaves s.path.entering r :=
  Tableau.exists_leaves (hs.path.feasible.exists_pos (bounded_constraints game) hs.path.entering_nonbasic)

theorem Invariant.pivot_ne_none (hs : Invariant game dropped s) (hrange : EntersInRange game dropped)
    (hreach : Relation.ReflTransGen (Next dropped) (PathState.start game.bestReplySystem (fun _ => 1) dropped) s.path) :
    s.pivot 0 ≠ none := by
  intro hnone
  obtain ⟨r, hr⟩ := hs.exists_leaves
  exact (hrange s.path hreach r hr).not_ge (State.pivot_refused hnone hr)

theorem pivoting_in_range (heps : tol.eps = 0) (hrange : EntersInRange game dropped) (limit : ℕ)
    (hs : Invariant game dropped s)
    (hreach : Relation.ReflTransGen (Next dropped) (PathState.start game.bestReplySystem (fun _ => 1) dropped) s.path) :
    (pivoting tol game dropped limit s result).status ≠ .numericalFailure := by
  induction limit generalizing s result with
  | zero =>
    intro h
    cases h
  | succ limit ih =>
    rw [pivoting, heps]
    cases hpivot : s.pivot 0 with
    | none => exact absurd hpivot (hs.pivot_ne_none hrange hreach)
    | some step =>
      obtain ⟨newLabel, s'⟩ := step
      simp only
      split_ifs with hlabel
      · intro h
        cases h
      · exact ih (hs.follow hpivot hlabel) (hreach.tail (State.next hpivot hlabel))

/-- Without degeneracy the path has no forks: the loop comes to every state on it, unless a pivot is refused. -/
theorem exists_pivoting_eq (hgame : NondegenerateSystem game.bestReplySystem fun _ => (1 : ℚ))
    (hbounded : ∀ tol : Tolerances, tol.eps = 0 → ∀ limit result,
      (pivoting tol game dropped limit (start game dropped) result).status ≠ .numericalFailure)
    {p : PathState (Fin m ⊕ Fin n) ℚ ℚ}
    (hreach : Relation.ReflTransGen (Next dropped) (PathState.start game.bestReplySystem (fun _ => 1) dropped) p) :
    ∃ s : State m n, s.path = p ∧ Invariant game dropped s ∧ s.pivot 0 ≠ none ∧
      ∃ k, ∀ tol : Tolerances, tol.eps = 0 → ∀ limit result, ∃ result',
        pivoting tol game dropped (limit + k) (start game dropped) result = pivoting tol game dropped limit s result' := by
  have hpivots {s : State m n} {k : ℕ} (hk : ∀ tol : Tolerances, tol.eps = 0 → ∀ limit result, ∃ result',
      pivoting tol game dropped (limit + k) (start game dropped) result = pivoting tol game dropped limit s result') :
      s.pivot 0 ≠ none := by
    intro hnone
    obtain ⟨result', hresult⟩ := hk exactTolerances rfl 1 {}
    apply hbounded exactTolerances rfl (1 + k) {}
    rw [hresult, pivoting]
    simp only [exactTolerances, hnone]
  induction hreach with
  | refl =>
    have hk : ∀ tol : Tolerances, tol.eps = 0 → ∀ limit result, ∃ result',
        pivoting tol game dropped (limit + 0) (start game dropped) result =
          pivoting tol game dropped limit (start game dropped) result' := fun _ _ _ result => ⟨result, rfl⟩
    exact ⟨_, path_start game dropped, invariant_start game dropped, hpivots hk, 0, hk⟩
  | @tail p p' _ hnext ih =>
    obtain ⟨s, rfl, hs, hpivot, k, hk⟩ := ih
    obtain ⟨r, hr, hlabel, rfl⟩ := hnext
    obtain ⟨⟨newLabel, s'⟩, hstep⟩ := Option.ne_none_iff_exists'.mp hpivot
    obtain ⟨r', hr', -, rfl, -, hpath⟩ := State.pivot_path hstep
    obtain rfl := hgame.leaves_unique hs.path.feasible hr hr'
    have hk' : ∀ tol : Tolerances, tol.eps = 0 → ∀ limit result, ∃ result',
        pivoting tol game dropped (limit + (k + 1)) (start game dropped) result =
          pivoting tol game dropped limit (s'.follow (s.path.tableau.basis r).1) result' := by
      intro tol heps limit result
      obtain ⟨result', hresult⟩ := hk tol heps (limit + 1) result
      refine ⟨{ result' with iterations := result'.iterations + 1 }, ?_⟩
      rw [Nat.add_comm k 1, ← Nat.add_assoc, hresult, pivoting, heps, hstep]
      simp only [if_neg hlabel]
    exact ⟨_, hpath, hs.follow hstep hlabel, hpivots hk', k + 1, hk'⟩

theorem visited_start_nodup (hgame : NondegenerateSystem game.bestReplySystem fun _ => (1 : ℚ)) (limit : ℕ) :
    (visited 0 dropped limit (start game dropped)).Nodup := by
  let path : ℕ → PathState (Fin m ⊕ Fin n) ℚ ℚ := fun _ => (start game dropped).path
  have hpath : ∀ i < 0, Next dropped (path i) (path (i + 1)) := fun i hi => absurd hi (Nat.not_lt_zero i)
  exact (visited_nodup hgame limit (path_start game dropped) hpath rfl).1

theorem visited_length_le (hgame : NondegenerateSystem game.bestReplySystem fun _ => (1 : ℚ)) (limit : ℕ) :
    (visited 0 dropped limit (start game dropped)).length ≤ (basisPairs game).ncard := by
  rw [← List.toFinset_card_of_nodup (visited_start_nodup hgame limit), ← Set.ncard_coe_finset]
  refine Set.ncard_le_ncard (fun β hβ => ?_) (Set.toFinite _)
  exact visited_subset limit (invariant_start game dropped) β (List.mem_toFinset.mp hβ)

end Runs

section Termination

variable {m n : ℕ} {game : BimatrixGame m n}

/-- In a nondegenerate game no basis pair comes twice, so that all that can fail is the first comparison of a ratio. -/
theorem findsEquilibrium_iff (hgame : Nondegenerate game.payoff1 game.payoff2) (label : Fin (m + n)) :
    FindsEquilibrium game label ↔ EntersInRange game (finSumFinEquiv.symm label) := by
  have hsystem : NondegenerateSystem game.bestReplySystem fun _ => (1 : ℚ) :=
    nondegenerate_bestReplySystem ((makePositive_nondegenerate game).mpr hgame)
  constructor
  · intro h p hreach r hr
    have hbounded (tol : Tolerances) (heps : tol.eps = 0) (limit : ℕ) (result : EquilibriumResult m n) :
        (pivoting tol game (finSumFinEquiv.symm label) limit (start game (finSumFinEquiv.symm label)) result).status ≠
          .numericalFailure := by
      let limited : Tolerances := { tol with maxIter := limit }
      have hsame : tol.eps = limited.eps := rfl
      rw [pivoting_status_congr hsame limit { solverName := name }]
      exact h.bounded limited heps
    obtain ⟨s, rfl, -, hpivot, -⟩ := exists_pivoting_eq hsystem hbounded hreach
    obtain ⟨⟨newLabel, s'⟩, hstep⟩ := Option.ne_none_iff_exists'.mp hpivot
    obtain ⟨r', hr', hratio, -⟩ := State.pivot_path hstep
    exact ((leaves_iff_ratio.mp hr).2 r' hr'.pos).trans_lt hratio
  · intro hrange
    have hstart := invariant_start game (finSumFinEquiv.symm label)
    have hbounded (tol : Tolerances) (heps : tol.eps = 0) :
        (runPivoting tol game label).status ≠ .numericalFailure :=
      pivoting_in_range heps hrange _ hstart (path_start game _ ▸ .refl)
    refine ⟨visited_start_nodup hsystem, hbounded, fun tol heps hlimit => ?_⟩
    rcases pivoting_status tol game (finSumFinEquiv.symm label) tol.maxIter.toNat (start game _) { solverName := name }
      with hstatus | hstatus | hstatus
    · exact hstatus
    · exact absurd hstatus (hbounded tol heps)
    · have hlength := visited_length heps _ hstatus
      have hle := hlength.symm.trans_le (visited_length_le hsystem tol.maxIter.toNat)
      omega

/-- The one pivot that there is has a ratio above the largest double. -/
def tinyPayoffs : BimatrixGame 1 1 where
  payoff1 := !![1 / 2 ^ 1030]
  payoff2 := !![1 / 2 ^ 1030]
  rows_pos := Nat.one_pos
  cols_pos := Nat.one_pos

theorem unbounded_tinyPayoffs :
    Nondegenerate tinyPayoffs.payoff1 tinyPayoffs.payoff2 ∧ ¬FindsEquilibrium tinyPayoffs 0 := by
  have hfailure : (runPivoting exactTolerances tinyPayoffs 0).status = .numericalFailure := by decide +kernel
  exact ⟨nondegenerate_single _ _, fun h => h.bounded exactTolerances rfl hfailure⟩

theorem one_lt_maxDouble : 1 < maxDouble := by decide +kernel

theorem lt_maxDouble_of_mul_le {a w : ℚ} (ha : 1 / maxDouble < a) (h : a * w ≤ 1) : w < maxDouble := by
  have hmax := zero_lt_one.trans one_lt_maxDouble
  by_contra hge
  have hbig : 1 < a * w := by
    calc 1 = 1 / maxDouble * maxDouble := (one_div_mul_cancel hmax.ne').symm
      _ < a * maxDouble := mul_lt_mul_of_pos_right ha hmax
      _ ≤ a * w := mul_le_mul_of_nonneg_left (not_lt.mp hge) ((one_div_pos.mpr hmax).trans ha).le
  exact hbig.not_ge h

variable {t : BestReplyTableau m n}

theorem value_lt_maxDouble (ht : t.Feasible (constraints game.bestReplySystem) fun _ => 1)
    (h1 : ∀ i j, 1 / maxDouble < game.makePositive.payoff1 i j)
    (h2 : ∀ i j, 1 / maxDouble < game.makePositive.payoff2 i j) (v : (Fin m ⊕ Fin n) × Bool) :
    t.value v < maxDouble := by
  let i₀ : Fin m := ⟨0, game.rows_pos⟩
  let j₀ : Fin n := ⟨0, game.cols_pos⟩
  have hA := ht.bounds₁ fun i j => (makePositive_pos game i j).1.le
  have hB := ht.bounds₂ fun i j => (makePositive_pos game i j).2.le
  rcases v with ⟨i | j, _ | _⟩
  · exact (hA i j₀).2.trans_lt one_lt_maxDouble
  · exact lt_maxDouble_of_mul_le (h2 i j₀) (hB i j₀).1
  · exact (hB i₀ j).2.trans_lt one_lt_maxDouble
  · exact lt_maxDouble_of_mul_le (h1 i₀ j) (hA i₀ j).1

theorem entersInRange_of_payoffs (h1 : ∀ i j, 1 / maxDouble < game.makePositive.payoff1 i j)
    (h2 : ∀ i j, 1 / maxDouble < game.makePositive.payoff2 i j) (dropped : Fin m ⊕ Fin n) :
    EntersInRange game dropped := by
  intro p hreach r hr
  have hpath := onPath_of_reachable (fun _ => zero_le_one) hreach
  have hpivot := hpath.feasible.pivotAt hr
  have hvalue := value_lt_maxDouble hpivot h1 h2 p.entering
  have hrow : (p.tableau.pivotAt r p.entering).value p.entering = p.tableau.rhs r / p.tableau.coeff r p.entering := by
    have hbasic := Tableau.value_basis hpivot.basis_injective r
    rw [basis_pivotAt_self] at hbasic
    rw [hbasic, div_eq_inv_mul]
    simp [Tableau.pivotAt]
  exact hrow ▸ hvalue

/-- A game with a payoff that is not positive is raised until all payoffs are at least one; only a game whose payoffs are
all positive can have one below the range. -/
theorem entersInRange_of_minPayoff (h : game.minPayoff ≤ 0 ∨ 1 / maxDouble < game.minPayoff)
    (dropped : Fin m ⊕ Fin n) : EntersInRange game dropped := by
  have hleast : 1 / maxDouble < game.minPayoff + game.shift := by
    rcases h with h | h
    · rw [BimatrixGame.shift, if_pos h, add_neg_cancel_left]
      exact (div_lt_one (zero_lt_one.trans one_lt_maxDouble)).mpr one_lt_maxDouble
    · have hpositive : ¬game.minPayoff ≤ 0 :=
        not_le.mpr ((one_div_pos.mpr (zero_lt_one.trans one_lt_maxDouble)).trans h)
      rwa [BimatrixGame.shift, if_neg hpositive, add_zero]
  refine entersInRange_of_payoffs (fun i j => hleast.trans_le ?_) (fun i j => hleast.trans_le ?_) dropped
  · exact add_le_add_left (minPayoff_le game i j).1 game.shift
  · exact add_le_add_left (minPayoff_le game i j).2 game.shift

theorem findsEquilibrium_coordination : FindsEquilibrium coordination 0 ∧ FindsEquilibrium coordination 3 := by
  have hrange (dropped : Fin 2 ⊕ Fin 2) : EntersInRange coordination dropped :=
    entersInRange_of_minPayoff (.inl (by decide +kernel)) dropped
  exact ⟨(findsEquilibrium_iff nondegenerate_coordination 0).mpr (hrange _),
    (findsEquilibrium_iff nondegenerate_coordination 3).mpr (hrange _)⟩

end Termination

end Klett.Nash.LemkeHowson

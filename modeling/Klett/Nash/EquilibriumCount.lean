import Klett.Lib.EquilibriumSet
import Klett.Nash.LemkeHowsonTermination
import Klett.Nash.SupportCompleteness

namespace Klett.Nash

open Matrix Klett.Lib SupportEnumeration

section Distinct

variable {α β : Type*} {l : List α} {f : α → List β}

theorem nodup_flatMap_of_key (hl : l.Nodup) (hf : ∀ a ∈ l, (f a).Nodup)
    (hkey : ∀ a ∈ l, ∀ a' ∈ l, ∀ b, b ∈ f a → b ∈ f a' → a = a') : (l.flatMap f).Nodup := by
  refine List.nodup_flatMap.mpr ⟨hf, hl.imp_of_mem fun {a a'} ha ha' hne => ?_⟩
  intro b hb hb'
  exact hne (hkey a ha a' ha' b hb hb')

end Distinct

section Listed

variable {k m n : ℕ} {tol : Tolerances} {game : BimatrixGame m n} {p : StrategyProfile m n} {s1 : Support k m}
  {s2 : Support k n} {eq : EquilibriumResult m n}

/-- No payoff lies below the value that the search for the greatest payoff starts from. -/
def PayoffsInRange (game : BimatrixGame m n) : Prop :=
  (∀ i j, lowestPayoff ≤ game.payoff1 i j) ∧ ∀ i j, lowestPayoff ≤ game.payoff2 i j

theorem found_sound (hrange : PayoffsInRange game) (heps : tol.eps = 0) (hpivot : tol.pivotTol.Singular 0) (hk : 0 < k)
    (hfound : found tol game s1 s2 = some eq) :
    ∃ p, eq.profile = some p ∧ game.Equilibrium p.strategy1 p.strategy2 := by
  obtain ⟨haccept1, haccept2, p, v1, v2, hp, ⟨hle1, hle2⟩, rfl⟩ := (found_eq_some_iff heps hpivot hk).mp hfound
  refine ⟨p, rfl, (hp.1.equilibrium_iff hp.2).mpr ?_⟩
  have hdeep : NoDeepLoss tol.pivotTol game := noDeepLoss_of_payoffs hrange.1 hrange.2
  exact hdeep k hk s1 s2 haccept1 haccept2 p v1 v2 hp hle1 hle2

def profiles (tol : Tolerances) (game : BimatrixGame m n) : List (Option (StrategyProfile m n)) :=
  (solveAll tol game).equilibria.map (·.profile)

theorem mem_profiles_sound {o : Option (StrategyProfile m n)} (hrange : PayoffsInRange game) (heps : tol.eps = 0)
    (hpivot : tol.pivotTol.Singular 0) (ho : o ∈ profiles tol game) :
    ∃ p, o = some p ∧ game.Equilibrium p.strategy1 p.strategy2 := by
  obtain ⟨eq, hmem, rfl⟩ := List.mem_map.mp ho
  obtain ⟨k, hk, s1, s2, hfound⟩ := (mem_solveAll heps).mp hmem
  exact found_sound hrange heps hpivot hk hfound

theorem profiles_eq (heps : tol.eps = 0) : profiles tol game =
    (List.range' 1 (min m n)).flatMap fun k => (subsets k m).flatMap fun s1 => (subsets k n).flatMap fun s2 =>
      (found tol game s1 s2).toList.map (·.profile) := by
  rw [profiles, solveAll_equilibria heps]
  simp only [List.map_flatMap]

theorem mem_profiles (hgame : Nondegenerate game.payoff1 game.payoff2)
    (h : game.Equilibrium p.strategy1 p.strategy2) (heps : tol.eps = 0) (hpivot : tol.pivotTol = .exact) :
    some p ∈ profiles tol game := by
  have hpos : 0 < (support p.strategy1).card := (support_nonempty h.1.1).card_pos
  have hfound := found_on_supports hgame h heps hpivot hpos (Finset.range_orderEmbOfFin (support p.strategy1) rfl)
    (Finset.range_orderEmbOfFin (support p.strategy2) (card_support_eq hgame h).symm)
  exact List.mem_map.mpr ⟨_, (mem_solveAll heps).mpr ⟨_, hpos, _, _, hfound⟩, rfl⟩

/-- In a nondegenerate game one pair of supports lists a profile: its own. -/
theorem profiles_nodup (hgame : Nondegenerate game.payoff1 game.payoff2) (hrange : PayoffsInRange game)
    (heps : tol.eps = 0) (hpivot : tol.pivotTol.Singular 0) : (profiles tol game).Nodup := by
  have hpos {k : ℕ} (hk : k ∈ List.range' 1 (min m n)) : 0 < k := by
    have hle := (List.mem_range'_1.mp hk).1
    omega
  have hranges {k : ℕ} (hk : k ∈ List.range' 1 (min m n)) {s1 : Support k m} {s2 : Support k n}
      {o : Option (StrategyProfile m n)} (ho : o ∈ (found tol game s1 s2).toList.map (·.profile)) :
      ∃ p, o = some p ∧ Set.range s1 = support p.strategy1 ∧ Set.range s2 = support p.strategy2 := by
    obtain ⟨eq, heq, rfl⟩ := List.mem_map.mp ho
    have hfound := Option.mem_toList.mp heq
    obtain ⟨p, hp, h⟩ := found_sound hrange heps hpivot (hpos hk) hfound
    exact ⟨p, hp, ranges_of_found hgame h heps hpivot (hpos hk) hfound hp⟩
  rw [profiles_eq heps]
  refine nodup_flatMap_of_key List.nodup_range' (fun k hk => ?_) ?_
  · refine nodup_flatMap_of_key subsets_nodup (fun s1 _ => ?_) ?_
    · refine nodup_flatMap_of_key subsets_nodup (fun s2 _ => ?_) ?_
      · cases found tol game s1 s2 with
        | none => exact List.nodup_nil
        | some eq => exact List.nodup_singleton _
      · intro s2 _ s2' _ o ho ho'
        obtain ⟨p, rfl, -, h2⟩ := hranges hk ho
        obtain ⟨p', hp', -, h2'⟩ := hranges hk ho'
        obtain rfl := Option.some.inj hp'
        exact Support.eq_of_range (h2.trans h2'.symm)
    · intro s1 _ s1' _ o ho ho'
      obtain ⟨s2, -, ho⟩ := List.mem_flatMap.mp ho
      obtain ⟨s2', -, ho'⟩ := List.mem_flatMap.mp ho'
      obtain ⟨p, rfl, h1, -⟩ := hranges hk ho
      obtain ⟨p', hp', h1', -⟩ := hranges hk ho'
      obtain rfl := Option.some.inj hp'
      exact Support.eq_of_range (h1.trans h1'.symm)
  · intro k hk k' hk' o ho ho'
    obtain ⟨s1, -, ho⟩ := List.mem_flatMap.mp ho
    obtain ⟨s2, -, ho⟩ := List.mem_flatMap.mp ho
    obtain ⟨s1', -, ho'⟩ := List.mem_flatMap.mp ho'
    obtain ⟨s2', -, ho'⟩ := List.mem_flatMap.mp ho'
    obtain ⟨p, rfl, h1, -⟩ := hranges hk ho
    obtain ⟨p', hp', h1', -⟩ := hranges hk' ho'
    obtain rfl := Option.some.inj hp'
    exact (Support.card_of_range h1).trans (Support.card_of_range h1').symm

theorem length_profiles (hgame : Nondegenerate game.payoff1 game.payoff2) (hrange : PayoffsInRange game)
    (heps : tol.eps = 0) (hpivot : tol.pivotTol = .exact) : (solveAll tol game).equilibria.length =
      {p : (Fin m → ℚ) × (Fin n → ℚ) | game.Equilibrium p.1 p.2}.ncard := by
  have hzero : tol.pivotTol.Singular 0 := hpivot ▸ rfl
  have hlength : (solveAll tol game).equilibria.length = (profiles tol game).toFinset.card := by
    rw [List.toFinset_card_of_nodup (profiles_nodup hgame hrange heps hzero), profiles, List.length_map]
  rw [hlength, ← Set.ncard_coe_finset]
  refine (Set.ncard_congr (fun p _ => some ⟨p.1, p.2⟩) (fun p hp => ?_) (fun p q _ _ heq => ?_) fun o ho => ?_).symm
  · rw [Finset.mem_coe, List.mem_toFinset]
    exact mem_profiles hgame hp heps hpivot
  · obtain ⟨h1, h2⟩ := StrategyProfile.mk.inj (Option.some.inj heq)
    exact Prod.ext h1 h2
  · rw [Finset.mem_coe, List.mem_toFinset] at ho
    obtain ⟨p, rfl, h⟩ := mem_profiles_sound hrange heps hzero ho
    exact ⟨(p.strategy1, p.strategy2), h, rfl⟩

/-- Support enumeration lists an odd number of equilibria of a nondegenerate game. -/
theorem solveAll_odd (hgame : Nondegenerate game.payoff1 game.payoff2) (hrange : PayoffsInRange game)
    (heps : tol.eps = 0) (hpivot : tol.pivotTol = .exact) : Odd (solveAll tol game).equilibria.length := by
  have : Nonempty (Fin m) := ⟨⟨0, game.rows_pos⟩⟩
  have : Nonempty (Fin n) := ⟨⟨0, game.cols_pos⟩⟩
  have hpositive : {p : (Fin m → ℚ) × (Fin n → ℚ) | game.Equilibrium p.1 p.2} =
      {p | IsEquilibrium game.makePositive.payoff1 game.makePositive.payoff2 p.1 p.2} :=
    Set.ext fun p => (makePositive_equilibrium game).symm
  rw [length_profiles hgame hrange heps hpivot, hpositive]
  exact odd_card_equilibria ((makePositive_nondegenerate game).mpr hgame) (fun i j => (makePositive_pos game i j).1)
    fun i j => (makePositive_pos game i j).2

end Listed

section Two

theorem payoffsInRange_of_small {m n : ℕ} {game : BimatrixGame m n} (h1 : ∀ i j, -1 ≤ game.payoff1 i j)
    (h2 : ∀ i j, -1 ≤ game.payoff2 i j) : PayoffsInRange game := by
  have hlowest : lowestPayoff ≤ -1 := neg_le_neg (one_le_pow₀ (by norm_num))
  exact ⟨fun i j => hlowest.trans (h1 i j), fun i j => hlowest.trans (h2 i j)⟩

theorem payoffsInRange_coordination : PayoffsInRange coordination := by
  apply payoffsInRange_of_small <;> intro i j <;> fin_cases i <;> fin_cases j <;> norm_num [coordination]

theorem solveAll_odd_coordination : Odd (solveAll exactTolerances coordination).equilibria.length :=
  solveAll_odd nondegenerate_coordination payoffsInRange_coordination rfl rfl

end Two

end Klett.Nash

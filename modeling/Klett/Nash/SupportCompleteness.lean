import Klett.Lib.Indifference
import Klett.Nash.SupportSoundness

namespace Klett.Nash

open Matrix Klett.Lib SupportEnumeration

section Counting

variable {α β : Type*} [BEq β] [LawfulBEq β] {l : List α} {a : α} {b : β}

theorem count_flatMap_single (hl : l.Nodup) (ha : a ∈ l) {f : α → List β} (hother : ∀ a' ∈ l, a' ≠ a → b ∉ f a') :
    (l.flatMap f).count b = (f a).count b := by
  induction l with
  | nil => cases ha
  | cons c l ih =>
    obtain ⟨hc, hl⟩ := List.nodup_cons.mp hl
    rw [List.flatMap_cons, List.count_append]
    by_cases hca : c = a
    · have hnone : b ∉ l.flatMap f := fun hmem => by
        obtain ⟨a', ha', hb⟩ := List.mem_flatMap.mp hmem
        exact hother a' (List.mem_cons_of_mem _ ha') (fun heq => hc (hca ▸ heq ▸ ha')) hb
      rw [hca, List.count_eq_zero.mpr hnone, add_zero]
    · have hmem : a ∈ l := (List.mem_cons.mp ha).resolve_left fun heq => hca heq.symm
      rw [List.count_eq_zero.mpr (hother c List.mem_cons_self hca), zero_add]
      exact ih hl hmem fun a' ha' => hother a' (List.mem_cons_of_mem _ ha')

end Counting

section Regular

variable {k m n : ℕ} {A B : Matrix (Fin m) (Fin n) ℚ} {x : Fin m → ℚ} {y : Fin n → ℚ}
  {s1 : Support k m} {s2 : Support k n}

theorem accepted_of_direction (hk : 0 < k) (htrivial : ∀ (d : Fin n → ℚ) (w : ℚ), (∀ j, j ∉ Set.range s2 → d j = 0) →
    (∀ s, (A *ᵥ d) (s1 s) = w) → ∑ j, d j = 0 → d = 0) : Accepted .exact (A.submatrix s1 s2) := by
  rw [Accepted, ← Bool.not_eq_true, luDecompose_exact_singular_iff, ← exists_mulVec_eq_zero_iff]
  rintro ⟨z, hz, hzero⟩
  let z' : Fin k → ℚ := fun j => z j.castSucc
  have hrow (i : Fin k) : (A.submatrix s1 s2 *ᵥ z') i = z (Fin.last k) := by
    rw [← sub_eq_zero, ← indifferenceSystem_castSucc, hzero, Pi.zero_apply]
  have hsum : ∑ j, z' j = 0 := by
    rw [← indifferenceSystem_last (P := A.submatrix s1 s2), hzero, Pi.zero_apply]
  obtain ⟨d, hd⟩ := exists_plays s2.toEmbedding z'
  have hd0 : d = 0 :=
    htrivial d _ hd.off (fun s => (hd.mulVec A _).trans (hrow s)) (hd.sum.trans hsum)
  have hz' : z' = 0 := funext fun j => by
    rw [← hd.on j, hd0]
    rfl
  have hlast : z (Fin.last k) = 0 := by
    rw [← hrow ⟨0, hk⟩, hz', mulVec_zero]
    rfl
  exact hz (funext fun i => Fin.lastCases hlast (congrFun hz') i)

theorem accepted_of_equilibrium (hk : 0 < k) (hgame : Nondegenerate A B) (h : IsEquilibrium A B x y)
    (hs1 : Set.range s1 = support x) (hs2 : Set.range s2 = support y) :
    Accepted .exact (A.submatrix s1 s2) := by
  apply accepted_of_direction hk
  intro d w honly hvalue hsum
  refine direction_eq_zero (w := w) hgame h (fun j hj => ?_) (fun i hi => ?_) hsum
  · exact honly j fun hmem => mem_support.mp (Finset.mem_coe.mp (hs2 ▸ hmem)) hj
  · obtain ⟨s, rfl⟩ : i ∈ Set.range s1 := hs1 ▸ Finset.mem_coe.mpr (mem_support.mpr hi)
    exact hvalue s

end Regular

section Completeness

variable {k m n : ℕ} {tol : Tolerances} {game : BimatrixGame m n} {p : StrategyProfile m n} {s1 : Support k m}
  {s2 : Support k n} {eq : EquilibriumResult m n}

theorem range_eq_support {x : Fin m → ℚ} (hcard : k ≤ (support x).card) (hx : ∀ i, i ∉ Set.range s1 → x i = 0) :
    Set.range s1 = support x := by
  have hsub : support x ⊆ Finset.univ.map s1.toEmbedding := fun i hi => by
    obtain ⟨s, hs⟩ := support_subset_range (f := s1.toEmbedding) hx hi
    exact Finset.mem_map.mpr ⟨s, Finset.mem_univ s, hs⟩
  have heq := Finset.eq_of_subset_of_card_le hsub (by simpa using hcard)
  rw [heq]
  simp

theorem ranges_of_found (hgame : Nondegenerate game.payoff1 game.payoff2)
    (h : game.Equilibrium p.strategy1 p.strategy2) (heps : tol.eps = 0) (hpivot : tol.pivotTol.Singular 0) (hk : 0 < k)
    (hfound : found tol game s1 s2 = some eq) (heq : eq.profile = some p) :
    Set.range s1 = support p.strategy1 ∧ Set.range s2 = support p.strategy2 := by
  obtain ⟨-, -, p', v1, v2, hp, -, rfl⟩ := (found_eq_some_iff heps hpivot hk).mp hfound
  obtain rfl := Option.some.inj heq
  have hcard := card_support_eq hgame h
  have h1 := hp.1.card_le hgame h hp.2.only
  rw [Fintype.card_fin] at h1
  exact ⟨range_eq_support (hcard ▸ h1) hp.2.only, range_eq_support h1 hp.1.only⟩

theorem found_on_supports (hgame : Nondegenerate game.payoff1 game.payoff2)
    (h : game.Equilibrium p.strategy1 p.strategy2) (heps : tol.eps = 0) (hpivot : tol.pivotTol = .exact) (hk : 0 < k)
    (hs1 : Set.range s1 = support p.strategy1) (hs2 : Set.range s2 = support p.strategy2) :
    found tol game s1 s2 = some (resultOf game p) := by
  have honly1 (i : Fin m) (hi : i ∉ Set.range s1) : p.strategy1 i = 0 := by
    by_contra hne
    exact hi (hs1 ▸ Finset.mem_coe.mpr (mem_support.mpr hne))
  have honly2 (j : Fin n) (hj : j ∉ Set.range s2) : p.strategy2 j = 0 := by
    by_contra hne
    exact hj (hs2 ▸ Finset.mem_coe.mpr (mem_support.mpr hne))
  have hplay1 (s : Fin k) : p.strategy1 (s1 s) ≠ 0 := by
    have hmem : s1 s ∈ Set.range s1 := ⟨s, rfl⟩
    rw [hs1] at hmem
    exact mem_support.mp (Finset.mem_coe.mp hmem)
  have hplay2 (s : Fin k) : p.strategy2 (s2 s) ≠ 0 := by
    have hmem : s2 s ∈ Set.range s2 := ⟨s, rfl⟩
    rw [hs2] at hmem
    exact mem_support.mp (Finset.mem_coe.mp hmem)
  have hbalanced : Balanced game s1 s2 p _ _ :=
    ⟨⟨h.2.1, honly2, fun s => h.1.value (hplay1 s)⟩, ⟨h.1.1, honly1, fun s => h.2.value (hplay2 s)⟩⟩
  apply found_of_balanced heps hpivot hk hbalanced h
  · exact accepted_of_equilibrium hk hgame h hs1 hs2
  · exact accepted_of_equilibrium hk hgame.transpose h.transpose hs2 hs1

theorem Support.card_of_range {S : Finset (Fin m)} (h : Set.range s1 = S) : k = S.card := by
  have hmap : Finset.univ.map s1.toEmbedding = S := by
    rw [← Finset.coe_inj, ← h]
    simp
  rw [← hmap, Finset.card_map, Finset.card_univ, Fintype.card_fin]

theorem Support.eq_of_range {s s' : Support k m} (h : Set.range s = Set.range s') : s = s' :=
  DFunLike.coe_injective ((s.strictMono.range_inj s'.strictMono).mp h)

theorem mem_found {l : List (Support k n)} :
    some p ∈ (l.flatMap fun s2 => (found tol game s1 s2).toList).map (·.profile) ↔
      ∃ s2 ∈ l, ∃ eq, found tol game s1 s2 = some eq ∧ eq.profile = some p := by
  simp only [List.mem_map, List.mem_flatMap, Option.mem_toList]
  constructor
  · rintro ⟨eq, ⟨s2, hs2, hfound⟩, heq⟩
    exact ⟨s2, hs2, eq, hfound, heq⟩
  · rintro ⟨s2, hs2, eq, hfound, heq⟩
    exact ⟨eq, ⟨s2, hs2, hfound⟩, heq⟩

/-- Every equilibrium of a nondegenerate game is listed once: on its supports, and on no others. -/
theorem solveAll_complete (hgame : Nondegenerate game.payoff1 game.payoff2)
    (h : game.Equilibrium p.strategy1 p.strategy2) (heps : tol.eps = 0) (hpivot : tol.pivotTol = .exact) :
    ((solveAll tol game).equilibria.map (·.profile)).count (some p) = 1 := by
  have hzero : tol.pivotTol.Singular 0 := hpivot ▸ rfl
  have hpos : 0 < (support p.strategy1).card := (support_nonempty h.1.1).card_pos
  let s1 : Support (support p.strategy1).card m := (support p.strategy1).orderEmbOfFin rfl
  let s2 : Support (support p.strategy1).card n :=
    (support p.strategy2).orderEmbOfFin (card_support_eq hgame h).symm
  have hs1 : Set.range s1 = support p.strategy1 := Finset.range_orderEmbOfFin _ rfl
  have hs2 : Set.range s2 = support p.strategy2 := Finset.range_orderEmbOfFin _ _
  have hm := Support.le s1
  have hn := Support.le s2
  rw [solveAll_equilibria heps, List.map_flatMap, count_flatMap_single (a := (support p.strategy1).card)
    List.nodup_range' (List.mem_range'_1.mpr (by omega)), List.map_flatMap,
    count_flatMap_single (a := s1) subsets_nodup (mem_subsets s1), List.map_flatMap,
    count_flatMap_single (a := s2) subsets_nodup (mem_subsets s2)]
  · rw [found_on_supports hgame h heps hpivot hpos hs1 hs2]
    exact List.count_singleton_self
  · intro s2' _ hne hmem
    obtain ⟨eq, hfound, heq⟩ := List.mem_map.mp hmem
    have hranges := ranges_of_found hgame h heps hzero hpos (Option.mem_toList.mp hfound) heq
    exact hne (Support.eq_of_range (hranges.2.trans hs2.symm))
  · intro s1' _ hne hmem
    obtain ⟨s2', -, eq, hfound, heq⟩ := mem_found.mp hmem
    have hranges := ranges_of_found hgame h heps hzero hpos hfound heq
    exact hne (Support.eq_of_range (hranges.1.trans hs1.symm))
  · intro k hk hne hmem
    rw [List.map_flatMap] at hmem
    obtain ⟨s1', -, hmem⟩ := List.mem_flatMap.mp hmem
    obtain ⟨s2', -, eq, hfound, heq⟩ := mem_found.mp hmem
    have hk0 : 0 < k := by
      have := (List.mem_range'_1.mp hk).1
      omega
    exact hne (Support.card_of_range (ranges_of_found hgame h heps hzero hk0 hfound heq).1)

theorem equilibrium_coordination : coordination.Equilibrium ![2 / 3, 1 / 3] ![1 / 3, 2 / 3] := by
  refine equilibrium_iff_residual.mpr ⟨⟨fun i => ?_, ?_⟩, ⟨fun j => ?_, ?_⟩, by decide +kernel⟩
  · fin_cases i <;> norm_num
  · norm_num [Fin.sum_univ_two]
  · fin_cases j <;> norm_num
  · norm_num [Fin.sum_univ_two]

/-- The mixed equilibrium, in which both play both of their actions. -/
theorem solveAll_complete_coordination :
    ((solveAll exactTolerances coordination).equilibria.map (·.profile)).count
      (some ⟨![2 / 3, 1 / 3], ![1 / 3, 2 / 3]⟩) = 1 :=
  solveAll_complete nondegenerate_coordination equilibrium_coordination rfl rfl

end Completeness

end Klett.Nash

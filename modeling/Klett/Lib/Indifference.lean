import Klett.Lib.Bimatrix

namespace Klett.Lib

open Matrix

section Line

variable {K C : Type*} [Field K] [LinearOrder K] [IsStrictOrderedRing K] [Fintype C]

theorem exists_first_zero {a b : C → K} (ha : ∀ c, 0 < a c) (hb : ∃ c, b c < 0) :
    ∃ t, (∀ c, 0 ≤ a c + t * b c) ∧ ∃ c, a c + t * b c = 0 := by
  have hnonempty : (Finset.univ.filter fun c => b c < 0).Nonempty := by
    obtain ⟨c, hc⟩ := hb
    exact ⟨c, by simpa using hc⟩
  obtain ⟨c, hc, hmin⟩ := Finset.exists_min_image _ (fun c => a c / -b c) hnonempty
  have hbc : b c < 0 := by simpa using hc
  have hpos : 0 < a c / -b c := div_pos (ha c) (neg_pos.mpr hbc)
  refine ⟨a c / -b c, fun c' => ?_, c, ?_⟩
  · rcases lt_or_ge (b c') 0 with hc' | hc'
    · have hle := hmin c' (by simpa using hc')
      have hmul := (le_div_iff₀ (neg_pos.mpr hc')).mp hle
      linarith
    · exact add_nonneg (ha c').le (mul_nonneg hpos.le hc')
  · have hne : -b c ≠ 0 := (neg_pos.mpr hbc).ne'
    have hcancel : a c / -b c * b c = -a c := by
      rw [← neg_neg (a c / -b c * b c), ← mul_neg, div_mul_cancel₀ _ hne]
    rw [hcancel, add_neg_cancel]

end Line

section Direction

variable {K : Type*} [Field K] [LinearOrder K] [IsStrictOrderedRing K] {ι κ : Type*} [Fintype ι] [Fintype κ]
  {A B : Matrix ι κ K} {x : ι → K} {y d : κ → K} {w : K}

theorem exists_neg_of_sum_zero (hd : d ≠ 0) (hsum : ∑ j, d j = 0) : ∃ j, d j < 0 := by
  by_contra hnone
  have hnonneg : ∀ j, 0 ≤ d j := fun j => not_lt.mp fun h => hnone ⟨j, h⟩
  have hzero := (Finset.sum_eq_zero_iff_of_nonneg fun j _ => hnonneg j).mp hsum
  exact hd (funext fun j => hzero j (Finset.mem_univ j))

theorem Reply.lt_value {u : ι → K} (h : Reply u x) {i : ι} (hi : i ∉ bestReplies u) : u i < x ⬝ᵥ u :=
  lt_of_le_of_ne ((reply_iff_le.mp h).2 i) fun heq => hi (h.mem_bestReplies_iff.mpr heq)

/-- Moving along `d` from an equilibrium, with the listed actions kept indifferent, one comes to a point where a weight
vanishes or a further action ties. -/
theorem exists_tie (h : IsEquilibrium A B x y) (hbest : bestReplies (A *ᵥ y) = support x)
    (honly : ∀ j, y j = 0 → d j = 0) (hvalue : ∀ i, x i ≠ 0 → (A *ᵥ d) i = w) (hsum : ∑ j, d j = 0) (hd : d ≠ 0) :
    ∃ y' ∈ stdSimplex K κ, ∃ v', (∀ j, y j = 0 → y' j = 0) ∧ (∀ i, (A *ᵥ y') i ≤ v') ∧
      (∀ i, x i ≠ 0 → (A *ᵥ y') i = v') ∧
        ((∃ j, y j ≠ 0 ∧ y' j = 0) ∨ ∃ i, x i = 0 ∧ (A *ᵥ y') i = v') := by
  let v := x ⬝ᵥ A *ᵥ y
  let a : κ ⊕ ι → K := Sum.elim (fun j => if y j = 0 then 1 else y j) (fun i => if x i = 0 then v - (A *ᵥ y) i else 1)
  let b : κ ⊕ ι → K := Sum.elim d (fun i => if x i = 0 then w - (A *ᵥ d) i else 0)
  have ha : ∀ c, 0 < a c := by
    rintro (j | i)
    · by_cases hj : y j = 0
      · simp [a, hj]
      · simpa [a, hj] using lt_of_le_of_ne (h.2.1.1 j) (Ne.symm hj)
    · by_cases hi : x i = 0
      · have hnot : i ∉ bestReplies (A *ᵥ y) := by
          rw [hbest, mem_support]
          exact not_not.mpr hi
        simpa [a, hi] using h.1.lt_value hnot
      · simp [a, hi]
  have hb : ∃ c, b c < 0 := by
    obtain ⟨j, hj⟩ := exists_neg_of_sum_zero hd hsum
    exact ⟨.inl j, hj⟩
  obtain ⟨t, hle, c, hc⟩ := exists_first_zero ha hb
  have hpay (i : ι) : (A *ᵥ (y + t • d)) i = (A *ᵥ y) i + t * (A *ᵥ d) i := by
    simp [mulVec_add, mulVec_smul]
  have hon (i : ι) (hi : x i ≠ 0) : (A *ᵥ (y + t • d)) i = v + t * w := by
    rw [hpay, h.1.value hi, hvalue i hi]
  refine ⟨y + t • d, ⟨fun j => ?_, ?_⟩, v + t * w, fun j hj => ?_, fun i => ?_, hon, ?_⟩
  · by_cases hj : y j = 0
    · simp [hj, honly j hj]
    · simpa [a, b, hj] using hle (.inl j)
  · simp [Finset.sum_add_distrib, ← Finset.mul_sum, hsum, h.2.1.2]
  · simp [hj, honly j hj]
  · by_cases hi : x i = 0
    · have hci := hle (.inr i)
      simp only [a, b, Sum.elim_inr, if_pos hi] at hci
      rw [hpay]
      linarith
    · exact (hon i hi).le
  · rcases c with j | i
    · have hj : y j ≠ 0 := fun hj => by simp [a, b, hj, honly j hj] at hc
      exact .inl ⟨j, hj, by simpa [a, b, hj] using hc⟩
    · have hi : x i = 0 := by
        by_contra hi
        simp [a, b, hi] at hc
      simp only [a, b, Sum.elim_inr, if_pos hi] at hc
      refine .inr ⟨i, hi, ?_⟩
      rw [hpay]
      linarith

/-- In a nondegenerate game the support of a strategy in equilibrium leaves no direction along which the other player
stays indifferent, since at the first tie there are too many best replies. -/
theorem direction_eq_zero (hgame : Nondegenerate A B) (h : IsEquilibrium A B x y)
    (honly : ∀ j, y j = 0 → d j = 0) (hvalue : ∀ i, x i ≠ 0 → (A *ᵥ d) i = w) (hsum : ∑ j, d j = 0) : d = 0 := by
  by_contra hd
  obtain ⟨y', hy', v', hzero, hle, hon, htie⟩ :=
    exists_tie h (bestReplies_eq_support hgame h) honly hvalue hsum hd
  have hbest {i : ι} (hi : (A *ᵥ y') i = v') : i ∈ bestReplies (A *ᵥ y') := mem_bestReplies.mpr fun i' => hi ▸ hle i'
  have hsupport : support x ⊆ bestReplies (A *ᵥ y') := fun i hi => hbest (hon i (mem_support.mp hi))
  have hshrink : support y' ⊆ support y := fun j hj => mem_support.mpr fun hj0 => mem_support.mp hj (hzero j hj0)
  have hcard := hgame.2 y' hy'
  have hequal := card_support_eq hgame h
  rcases htie with ⟨j, hj, hj'⟩ | ⟨i, hi, hi'⟩
  · have hnot : j ∉ support y' := fun hmem => mem_support.mp hmem hj'
    have hlt := Finset.card_lt_card ((Finset.ssubset_iff_of_subset hshrink).mpr ⟨j, mem_support.mpr hj, hnot⟩)
    have hleft := Finset.card_le_card hsupport
    omega
  · have hnot : i ∉ support x := fun hmem => mem_support.mp hmem hi
    have hlt := Finset.card_lt_card ((Finset.ssubset_iff_of_subset hsupport).mpr ⟨i, hbest hi', hnot⟩)
    have hright := Finset.card_le_card hshrink
    omega

end Direction

section Uniqueness

variable {K : Type*} [Field K] [LinearOrder K] {ι κ σ τ : Type*} [Fintype ι] [Fintype κ]
  {A B : Matrix ι κ K} {x : ι → K} {y : κ → K} {e : σ ↪ ι} {f : τ ↪ κ} {v w : K}

theorem support_subset_range (hy : ∀ j, j ∉ Set.range f → y j = 0) {j : κ} (hj : j ∈ support y) : ∃ t, f t = j := by
  by_contra hnone
  exact mem_support.mp hj (hy j hnone)

variable [IsStrictOrderedRing K] [Fintype σ]

theorem Equalizes.card_le (hgame : Nondegenerate A B) (h : IsEquilibrium A B x y) (hy : Equalizes A e f y v)
    (hx : ∀ i, i ∉ Set.range e → x i = 0) : Fintype.card σ ≤ (support y).card := by
  have hv : v = x ⬝ᵥ A *ᵥ y := by
    obtain ⟨i, hi⟩ := support_nonempty h.1.1
    obtain ⟨s, rfl⟩ := support_subset_range hx hi
    rw [← h.1.value (mem_support.mp hi), hy.value]
  have hsub : Finset.univ.map e ⊆ bestReplies (A *ᵥ y) := fun i hi => by
    obtain ⟨s, -, rfl⟩ := Finset.mem_map.mp hi
    rw [h.1.mem_bestReplies_iff, hy.value, hv]
  have hcard := (Finset.card_le_card hsub).trans (hgame.2 y h.2.1)
  simpa using hcard

end Uniqueness

end Klett.Lib

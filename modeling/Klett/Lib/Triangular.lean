import Mathlib.LinearAlgebra.FiniteDimensional.Lemmas
import Mathlib.LinearAlgebra.Matrix.Block
import Mathlib.LinearAlgebra.Matrix.ToLinearEquiv
import Mathlib.Order.Interval.Finset.Fin

namespace Klett.Lib

open Matrix

section Triangular

variable {K : Type*} [Field K] {n : ℕ}

/-- The multipliers stored below the diagonal in the first `k` columns of a partly reduced matrix. -/
def multipliers (k : ℕ) (M : Matrix (Fin n) (Fin n) K) : Matrix (Fin n) (Fin n) K :=
  Matrix.of fun i l => if l < i ∧ l.val < k then M i l else 0

def lower (k : ℕ) (M : Matrix (Fin n) (Fin n) K) : Matrix (Fin n) (Fin n) K := 1 + multipliers k M

def upper (k : ℕ) (M : Matrix (Fin n) (Fin n) K) : Matrix (Fin n) (Fin n) K := M - multipliers k M

variable {k : ℕ} {M : Matrix (Fin n) (Fin n) K}

theorem multipliers_apply (i l : Fin n) : multipliers k M i l = if l < i ∧ l.val < k then M i l else 0 := rfl

theorem upper_apply (i j : Fin n) : upper k M i j = if j < i ∧ j.val < k then 0 else M i j := by
  rw [upper, Matrix.sub_apply, multipliers_apply]
  split_ifs
  · exact sub_self _
  · exact sub_zero _

theorem multipliers_zero : multipliers 0 M = 0 := by
  ext i l
  simp [multipliers_apply]

theorem lower_mul_upper_zero : lower 0 M * upper 0 M = M := by
  simp [lower, upper, multipliers_zero]

theorem lower_isLowerTriangular : (lower k M).IsLowerTriangular := by
  intro i l hil
  have hlt : i < l := hil
  simp [lower, multipliers_apply, hlt.ne, hlt.not_gt]

theorem lower_diag (i : Fin n) : lower k M i i = 1 := by
  simp [lower, multipliers_apply]

theorem upper_isUpperTriangular : (upper n M).IsUpperTriangular := by
  intro i j hij
  rw [upper_apply, if_pos ⟨hij, j.isLt⟩]

theorem det_lower : (lower k M).det = 1 := by
  rw [det_of_isLowerTriangular _ lower_isLowerTriangular]
  apply Finset.prod_eq_one
  intro i _
  exact lower_diag i

theorem det_upper : (upper n M).det = ∏ i, M i i := by
  rw [det_of_isUpperTriangular upper_isUpperTriangular]
  apply Finset.prod_congr rfl
  intro i _
  rw [upper_apply, if_neg fun h => lt_irrefl _ h.1]

theorem det_upper_eq_zero (hk : k < n) (column : ∀ i : Fin n, k ≤ i → M i ⟨k, hk⟩ = 0) : (upper k M).det = 0 := by
  let extend : (Fin (k + 1) → K) →ₗ[K] (Fin n → K) :=
    LinearMap.pi fun j => if h : j.val < k + 1 then LinearMap.proj ⟨j, h⟩ else 0
  let restrict : (Fin n → K) →ₗ[K] (Fin k → K) := LinearMap.funLeft K K (fun i => ⟨i, i.isLt.trans hk⟩)
  let f := restrict ∘ₗ (upper k M).mulVecLin ∘ₗ extend
  have hker : LinearMap.ker f ≠ ⊥ := f.ker_ne_bot_of_finrank_lt (by simp)
  obtain ⟨z, hz, hz0⟩ := (Submodule.ne_bot_iff _).mp hker
  have extend_apply (j : Fin n) : extend z j = if h : j.val < k + 1 then z ⟨j, h⟩ else 0 := by
    rw [LinearMap.pi_apply]
    split_ifs
    · rfl
    · rfl
  refine exists_mulVec_eq_zero_iff.mp ⟨extend z, fun h0 => hz0 ?_, ?_⟩
  · ext j
    have := congrFun h0 ⟨j, by omega⟩
    simpa [extend_apply, j.isLt] using this
  · ext i
    rcases lt_or_ge i.val k with hi | hi
    · exact congrFun hz ⟨i, hi⟩
    · rw [mulVec, dotProduct, Pi.zero_apply]
      apply Finset.sum_eq_zero
      intro j _
      rcases lt_trichotomy j.val k with hj | hj | hj
      · have hji : j < i := Fin.lt_def.mpr (by omega)
        rw [upper_apply, if_pos ⟨hji, hj⟩, zero_mul]
      · have hjk : j = ⟨k, hk⟩ := Fin.ext hj
        rw [upper_apply, if_neg fun h => by omega, hjk, column i hi, zero_mul]
      · rw [extend_apply, dif_neg (by omega), mul_zero]

theorem multipliers_mulVec (k : ℕ) (z : Fin n → K) (i : Fin n) (hk : n ≤ k) :
    (multipliers k M *ᵥ z) i = ∑ j ∈ Finset.Iio i, M i j * z j := by
  rw [mulVec, dotProduct, ← Finset.sum_subset (Finset.subset_univ (Finset.Iio i))]
  · apply Finset.sum_congr rfl
    intro j hj
    rw [multipliers_apply, if_pos ⟨Finset.mem_Iio.mp hj, by omega⟩]
  · intro j _ hj
    rw [multipliers_apply, if_neg fun h => hj (Finset.mem_Iio.mpr h.1), zero_mul]

theorem lower_mulVec (z : Fin n → K) (i : Fin n) : (lower n M *ᵥ z) i = z i + ∑ j ∈ Finset.Iio i, M i j * z j := by
  rw [lower, add_mulVec, one_mulVec, Pi.add_apply, multipliers_mulVec n z i le_rfl]

theorem upper_mulVec (x : Fin n → K) (i : Fin n) :
    (upper n M *ᵥ x) i = M i i * x i + ∑ j ∈ Finset.Ioi i, M i j * x j := by
  have hsplit : (upper n M *ᵥ x) i = ∑ j ∈ Finset.Ici i, M i j * x j := by
    rw [mulVec, dotProduct, ← Finset.sum_subset (Finset.subset_univ (Finset.Ici i))]
    · apply Finset.sum_congr rfl
      intro j hj
      rw [upper_apply, if_neg fun h => absurd h.1 (Finset.mem_Ici.mp hj).not_gt]
    · intro j _ hj
      have hlt : j < i := by simpa using hj
      rw [upper_apply, if_pos ⟨hlt, j.isLt⟩, zero_mul]
  rw [hsplit, ← Finset.Ioi_insert i, Finset.sum_insert Finset.notMem_Ioi_self]

theorem lower_mul_upper_submatrix (σ : Equiv.Perm (Fin n)) (fixes : ∀ i : Fin n, i.val < k → σ i = i) :
    lower k (M.submatrix σ id) * upper k (M.submatrix σ id) = (lower k M * upper k M).submatrix σ id := by
  have keeps (i : Fin n) (hi : k ≤ i.val) : k ≤ (σ i).val := by
    by_contra hlt
    have hσ := σ.injective (fixes (σ i) (by omega))
    rw [hσ] at hlt
    exact hlt hi
  have moved : multipliers k (M.submatrix σ id) = (multipliers k M).submatrix σ id := by
    ext i l
    have hiff : (l < i ∧ l.val < k) ↔ (l < σ i ∧ l.val < k) := by
      apply and_congr_left
      intro hl
      rcases lt_or_ge i.val k with hi | hi
      · rw [fixes i hi]
      · have := keeps i hi
        constructor <;> intro <;> exact Fin.lt_def.mpr (by omega)
    simp only [multipliers_apply, submatrix_apply, id_eq, hiff]
  have stay : multipliers k M * (upper k M).submatrix σ id = multipliers k M * upper k M := by
    ext i j
    rw [mul_apply, mul_apply]
    apply Finset.sum_congr rfl
    intro l _
    by_cases hl : l.val < k
    · rw [submatrix_apply, fixes l hl, id]
    · rw [multipliers_apply, if_neg fun h => hl h.2, zero_mul, zero_mul]
  have hupper : upper k (M.submatrix σ id) = (upper k M).submatrix σ id := by
    rw [upper, moved, upper]
    rfl
  rw [hupper, lower, moved, lower, add_mul, add_mul, one_mul, one_mul, ← stay]
  rfl

/-- One elimination step: column `k` gains the multipliers `f`, the rows below lose `f` times row `k`. -/
theorem lower_mul_upper_succ (k : Fin n) (f : Fin n → K) {E : Matrix (Fin n) (Fin n) K}
    (above : ∀ i, i ≤ k → f i = 0)
    (hmultipliers : multipliers (k + 1) E = multipliers k M + vecMulVec f (Pi.single k 1))
    (hupper : upper (k + 1) E = upper k M - vecMulVec f (upper k M k)) :
    lower (k + 1) E * upper (k + 1) E = lower k M * upper k M := by
  have hzero : multipliers k M *ᵥ f = 0 := by
    ext i
    rw [mulVec, dotProduct, Pi.zero_apply]
    apply Finset.sum_eq_zero
    intro l _
    by_cases hl : l ≤ k
    · rw [above l hl, mul_zero]
    · rw [multipliers_apply, if_neg fun h => hl (Fin.le_def.mpr h.2.le), zero_mul]
  have hrow : (Pi.single k 1 : Fin n → K) ᵥ* upper k M = upper k M k := single_one_vecMul k _
  have hself : (Pi.single k 1 : Fin n → K) ᵥ* vecMulVec f (upper k M k) = 0 := by
    rw [single_one_vecMul]
    ext j
    simp [vecMulVec_apply, above k le_rfl]
  rw [lower, hmultipliers, hupper, lower, ← add_assoc, add_mul, mul_sub, vecMulVec_mul, vecMul_sub, hrow, hself,
    sub_zero, mul_vecMulVec, add_mulVec, one_mulVec, hzero, add_zero, sub_add_cancel]

end Triangular

end Klett.Lib

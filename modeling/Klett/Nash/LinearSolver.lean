import Klett.Nash.LinearAlgebra

namespace Klett.Nash

open Matrix Klett.Lib

section Determinant

variable {n : ℕ} {A : Matrix (Fin n) (Fin n) ℚ} {pivotTol : PivotTol} {lu : LU n}

def determinant (A : Matrix (Fin n) (Fin n) ℚ) (pivotTol : PivotTol) : ℚ :=
  let lu := luDecompose A pivotTol
  if lu.singular then 0 else (List.finRange n).foldl (fun det i => det * lu.combined i i) lu.sign

theorem foldl_mul_finRange (v : Fin n → ℚ) (c : ℚ) :
    (List.finRange n).foldl (fun det i => det * v i) c = c * ∏ i, v i := by
  induction n generalizing c with
  | zero => simp
  | succ n ih =>
    rw [List.finRange_succ, List.foldl_cons, List.foldl_map, ih, Fin.prod_univ_succ, mul_assoc]

theorem LU.column_sign (h : lu.sign = (Equiv.Perm.sign lu.perm : ℤ)) (k : Fin n) :
    (lu.column pivotTol k).sign = (Equiv.Perm.sign (lu.column pivotTol k).perm : ℤ) := by
  cases hs : lu.singular
  · obtain ⟨-, hcol⟩ | ⟨-, hcol⟩ := lu.column_cases pivotTol hs k
    · rw [hcol]
      exact h
    · rw [hcol]
      by_cases hp : pivotRow lu.combined k = k
      · simp [hp, h]
      · simp [hp, h, Equiv.Perm.sign_swap (Ne.symm hp)]
  · rw [LU.column_of_singular hs]
    exact h

theorem luDecompose_sign : (luDecompose A pivotTol).sign = (Equiv.Perm.sign (luDecompose A pivotTol).perm : ℤ) := by
  apply foldl_finRange fun _ (lu : LU n) => lu.sign = (Equiv.Perm.sign lu.perm : ℤ)
  · simp
  · intro k lu h
    exact LU.column_sign h k

/-- The row swaps turn the sign of the determinant as often as they turn the recorded sign. -/
theorem LU.Factors.det_eq (h : lu.Factors A n) (hsign : lu.sign = (Equiv.Perm.sign lu.perm : ℤ)) :
    A.det = lu.sign * ∏ i, lu.combined i i := by
  have hdet := congrArg det h.product
  rw [det_mul, det_lower, one_mul, det_upper, det_permute] at hdet
  rw [hdet, hsign, ← mul_assoc]
  rcases Int.units_eq_one_or (Equiv.Perm.sign lu.perm) with hs | hs <;> simp [hs]

theorem determinant_of_regular (hzero : pivotTol.Singular 0) (h : (luDecompose A pivotTol).singular = false) :
    determinant A pivotTol = A.det := by
  rw [(luDecompose_factors A hzero h).det_eq luDecompose_sign, determinant]
  simp only [h, Bool.false_eq_true, if_false, foldl_mul_finRange]

theorem determinant_exact : determinant A .exact = A.det := by
  cases hs : (luDecompose A .exact).singular
  · exact determinant_of_regular rfl hs
  · rw [luDecompose_exact_singular hs]
    simp [determinant, hs]

end Determinant

section Solver

variable {n : ℕ} {A : Matrix (Fin n) (Fin n) ℚ}

theorem LU.Factors.permuted {lu : LU n} (h : lu.Factors A n) :
    lower n lu.combined * upper n lu.combined = lu.perm.permMatrix ℚ * A := by
  rw [h.product, PEquiv.toMatrix_toPEquiv_mul]

theorem linear_solver_correct (A : Matrix (Fin n) (Fin n) ℚ) (b : Fin n → ℚ) :
    ((luDecompose A .exact).singular = false →
        let lu := luDecompose A .exact
        (lower n lu.combined).IsLowerTriangular ∧ (∀ i, lower n lu.combined i i = 1) ∧
          (upper n lu.combined).IsUpperTriangular ∧
          lower n lu.combined * upper n lu.combined = lu.perm.permMatrix ℚ * A) ∧
      (solve A b .exact = none ↔ A.det = 0) ∧
      (∀ x, solve A b .exact = some x → A *ᵥ x = b ∧ ∀ y, A *ᵥ y = b → y = x) ∧
      determinant A .exact = A.det := by
  have hzero : PivotTol.exact.Singular 0 := rfl
  refine ⟨fun hs => ⟨?_, ?_, ?_, ?_⟩, solve_exact_eq_none_iff, fun x hx => ⟨?_, fun y hy => ?_⟩, determinant_exact⟩
  · exact lower_isLowerTriangular
  · exact lower_diag
  · exact upper_isUpperTriangular
  · exact (luDecompose_factors A hzero hs).permuted
  · exact (solve_eq_some hzero hx).1
  · have hy' := solve_of_regular hzero (solve_regular hx) hy
    rw [hx] at hy'
    exact (Option.some.inj hy').symm

end Solver

end Klett.Nash

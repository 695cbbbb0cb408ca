import Klett.Lib.Loops
import Klett.Lib.Triangular
import Mathlib.Algebra.Order.Field.Rat
import Mathlib.LinearAlgebra.Matrix.Permutation

namespace Klett.Nash

open Matrix Klett.Lib

section Decomposition

/-- When a pivot counts as singular: exactly when it is zero, or when it is below a tolerance as in the source. -/
inductive PivotTol where
  | exact
  | below (tol : ℚ)

def PivotTol.Singular : PivotTol → ℚ → Prop
  | .exact, pivotVal => pivotVal = 0
  | .below tol, pivotVal => pivotVal < tol

instance (pivotTol : PivotTol) (pivotVal : ℚ) : Decidable (pivotTol.Singular pivotVal) :=
  match pivotTol with
  | .exact => inferInstanceAs (Decidable (pivotVal = 0))
  | .below tol => inferInstanceAs (Decidable (pivotVal < tol))

variable {n : ℕ}

structure LU (n : ℕ) where
  combined : Matrix (Fin n) (Fin n) ℚ
  perm : Equiv.Perm (Fin n)
  sign : ℤ
  singular : Bool

def pivotRow (M : Matrix (Fin n) (Fin n) ℚ) (k : Fin n) : Fin n :=
  (List.finRange n).foldl (fun pivotRow i => if k < i ∧ |M pivotRow k| < |M i k| then i else pivotRow) k

def eliminateBelow (M : Matrix (Fin n) (Fin n) ℚ) (k : Fin n) : Matrix (Fin n) (Fin n) ℚ :=
  Matrix.of fun i j =>
    if k < i then
      let factor := M i k / M k k
      if j = k then factor else if k < j then M i j - factor * M k j else M i j
    else M i j

/-- One turn of the loop over the columns; after `singular` is set the source has returned. -/
def LU.column (pivotTol : PivotTol) (lu : LU n) (k : Fin n) : LU n :=
  if lu.singular then lu
  else
    let p := pivotRow lu.combined k
    if pivotTol.Singular |lu.combined p k| then { lu with singular := true }
    else
      { combined := eliminateBelow (lu.combined.submatrix (Equiv.swap k p) id) k
        perm := lu.perm * Equiv.swap k p
        sign := if p = k then lu.sign else -lu.sign
        singular := false }

def luDecompose (A : Matrix (Fin n) (Fin n) ℚ) (pivotTol : PivotTol) : LU n :=
  (List.finRange n).foldl (LU.column pivotTol) ⟨A, 1, 1, false⟩

def forwardSubstitution (M : Matrix (Fin n) (Fin n) ℚ) (b : Fin n → ℚ) : Fin n → ℚ :=
  (List.finRange n).foldl (fun y i => Function.update y i (y i - ∑ j ∈ Finset.Iio i, M i j * y j)) b

def backSubstitution (M : Matrix (Fin n) (Fin n) ℚ) (y : Fin n → ℚ) : Fin n → ℚ :=
  (List.finRange n).foldr
    (fun i x => Function.update x i ((y i - ∑ j ∈ Finset.Ioi i, M i j * x j) / M i i)) 0

def luSolve (lu : LU n) (b : Fin n → ℚ) : Fin n → ℚ :=
  backSubstitution lu.combined (forwardSubstitution lu.combined fun i => b (lu.perm i))

def solve (A : Matrix (Fin n) (Fin n) ℚ) (b : Fin n → ℚ) (pivotTol : PivotTol) : Option (Fin n → ℚ) :=
  let lu := luDecompose A pivotTol
  if lu.singular then none else some (luSolve lu b)

end Decomposition

section Pivots

variable {n : ℕ} {M : Matrix (Fin n) (Fin n) ℚ} {k : Fin n}

theorem pivotRow_spec (M : Matrix (Fin n) (Fin n) ℚ) (k : Fin n) :
    k ≤ pivotRow M k ∧ ∀ i, k ≤ i → |M i k| ≤ |M (pivotRow M k) k| := by
  let Best (l : ℕ) (p : Fin n) := k ≤ p ∧ |M k k| ≤ |M p k| ∧ ∀ i : Fin n, k < i → i.val < l → |M i k| ≤ |M p k|
  have hbest : Best n (pivotRow M k) := by
    refine foldl_finRange Best ⟨le_rfl, le_rfl, fun i _ hi => absurd hi (Nat.not_lt_zero _)⟩ fun l p h => ?_
    obtain ⟨hkp, hk, hmax⟩ := h
    split_ifs with hl
    · refine ⟨hl.1.le, hk.trans hl.2.le, fun i hki hil => ?_⟩
      rcases Nat.lt_succ_iff_lt_or_eq.mp hil with hil | hil
      · exact (hmax i hki hil).trans hl.2.le
      · rw [Fin.ext hil]
    · refine ⟨hkp, hk, fun i hki hil => ?_⟩
      rcases Nat.lt_succ_iff_lt_or_eq.mp hil with hil | hil
      · exact hmax i hki hil
      · rw [Fin.ext hil] at hki ⊢
        exact not_lt.mp fun hlt => hl ⟨hki, hlt⟩
  refine ⟨hbest.1, fun i hi => ?_⟩
  rcases hi.lt_or_eq with hi | rfl
  · exact hbest.2.2 i hi i.isLt
  · exact hbest.2.1

theorem pivotRow_zero (h : M (pivotRow M k) k = 0) (i : Fin n) (hi : k ≤ i) : M i k = 0 := by
  have hle := (pivotRow_spec M k).2 i hi
  rw [h, abs_zero] at hle
  exact abs_nonpos_iff.mp hle

theorem swap_fixes_above {i p : Fin n} (hp : k ≤ p) (hi : i < k) : Equiv.swap k p i = i :=
  Equiv.swap_apply_of_ne_of_ne hi.ne (hi.trans_le hp).ne

theorem eliminateBelow_factors (hpivot : M k k ≠ 0) :
    lower (k + 1) (eliminateBelow M k) * upper (k + 1) (eliminateBelow M k) = lower k M * upper k M := by
  apply lower_mul_upper_succ k fun i => if k < i then M i k / M k k else 0
  · intro i hi
    rw [if_neg hi.not_gt]
  · ext i l
    rw [Matrix.add_apply, vecMulVec_apply, multipliers_apply, multipliers_apply, Pi.single_apply]
    rcases lt_trichotomy l k with hl | rfl | hl
    · have hlk : l.val < k + 1 := by omega
      simp [eliminateBelow, hl, hlk, hl.ne, hl.not_gt]
    · by_cases hi : l < i <;> simp [eliminateBelow, hi]
    · have hlk : ¬ l.val < k + 1 := by omega
      simp [hl.not_gt, hlk, hl.ne']
  · ext i j
    rw [Matrix.sub_apply, vecMulVec_apply, upper_apply, upper_apply, upper_apply]
    by_cases hi : k < i
    · rcases lt_trichotomy j k with hj | rfl | hj
      · have hjk : j.val < k + 1 := by omega
        simp [hj, hj.trans hi, hjk]
      · simp [hi, div_mul_cancel₀ _ hpivot]
      · have hjk : ¬ j.val < k + 1 := by omega
        simp [eliminateBelow, hi, hj, hj.ne', hj.not_gt, hjk]
    · have hrow : eliminateBelow M k i j = M i j := by simp [eliminateBelow, hi]
      have hiff : (j < i ∧ j.val < k + 1) ↔ (j < i ∧ j < k) :=
        and_congr_right fun hji => ⟨fun _ => hji.trans_le (not_lt.mp hi), fun h => by omega⟩
      rw [hrow, if_neg hi, zero_mul, sub_zero]
      exact if_congr hiff rfl rfl

end Pivots

section Correctness

variable {n : ℕ} {A : Matrix (Fin n) (Fin n) ℚ} {pivotTol : PivotTol} {lu : LU n}

/-- What holds before column `k`: the factors multiply to the permuted matrix and no pivot so far is zero. -/
structure LU.Factors (A : Matrix (Fin n) (Fin n) ℚ) (k : ℕ) (lu : LU n) : Prop where
  product : lower k lu.combined * upper k lu.combined = A.submatrix lu.perm id
  pivots : ∀ i : Fin n, i.val < k → lu.combined i i ≠ 0

theorem LU.Factors.det_eq_zero_iff {k : ℕ} (h : lu.Factors A k) : A.det = 0 ↔ (upper k lu.combined).det = 0 := by
  have hdet := congrArg det h.product
  rw [det_mul, det_lower, one_mul, det_permute] at hdet
  rw [hdet]
  rcases Int.units_eq_one_or (Equiv.Perm.sign lu.perm) with hs | hs <;> simp [hs]

theorem LU.column_of_singular (h : lu.singular = true) (k : Fin n) : lu.column pivotTol k = lu := by
  rw [LU.column, if_pos h]

theorem LU.column_cases (pivotTol : PivotTol) (h : lu.singular = false) (k : Fin n) :
    (pivotTol.Singular |lu.combined (pivotRow lu.combined k) k| ∧
        lu.column pivotTol k = { lu with singular := true }) ∨
      (¬pivotTol.Singular |lu.combined (pivotRow lu.combined k) k| ∧
        lu.column pivotTol k =
          { combined := eliminateBelow (lu.combined.submatrix (Equiv.swap k (pivotRow lu.combined k)) id) k
            perm := lu.perm * Equiv.swap k (pivotRow lu.combined k)
            sign := if pivotRow lu.combined k = k then lu.sign else -lu.sign
            singular := false }) := by
  rw [LU.column]
  rw [h, if_neg Bool.false_ne_true]
  by_cases hs : pivotTol.Singular |lu.combined (pivotRow lu.combined k) k|
  · exact .inl ⟨hs, if_pos hs⟩
  · exact .inr ⟨hs, if_neg hs⟩

theorem LU.Factors.column {k : Fin n} (h : lu.Factors A k) (hlu : lu.singular = false)
    (hzero : pivotTol.Singular 0) (hregular : (lu.column pivotTol k).singular = false) :
    (lu.column pivotTol k).Factors A (k + 1) := by
  obtain ⟨-, hcol⟩ | ⟨hpivot, hcol⟩ := lu.column_cases pivotTol hlu k
  · rw [hcol] at hregular
    cases hregular
  · have hle := (pivotRow_spec lu.combined k).1
    have hkk : lu.combined.submatrix (Equiv.swap k (pivotRow lu.combined k)) id k k ≠ 0 := by
      rw [submatrix_apply, Equiv.swap_apply_left, id]
      intro h0
      rw [h0, abs_zero] at hpivot
      exact hpivot hzero
    rw [hcol]
    constructor
    · rw [eliminateBelow_factors hkk, lower_mul_upper_submatrix _ fun i hi => swap_fixes_above hle hi, h.product]
      rfl
    · intro i hi
      simp only [eliminateBelow, of_apply]
      rcases Nat.lt_succ_iff_lt_or_eq.mp hi with hi | hi
      · have hik : i < k := hi
        rw [if_neg hik.not_gt, submatrix_apply, swap_fixes_above hle hik]
        exact h.pivots i hi
      · rw [Fin.ext hi, if_neg (lt_irrefl k)]
        exact hkk

theorem luDecompose_factors (A : Matrix (Fin n) (Fin n) ℚ) (hzero : pivotTol.Singular 0)
    (h : (luDecompose A pivotTol).singular = false) : (luDecompose A pivotTol).Factors A n := by
  let Kept (k : ℕ) (lu : LU n) := lu.singular = false → lu.Factors A k
  have hkept : Kept n (luDecompose A pivotTol) := by
    refine foldl_finRange Kept (fun _ => ⟨?_, fun i hi => absurd hi (Nat.not_lt_zero _)⟩) fun k lu hlu hsucc => ?_
    · rw [lower_mul_upper_zero]
      rfl
    · cases hs : lu.singular
      · exact (hlu hs).column hs hzero hsucc
      · rw [LU.column_of_singular hs, hs] at hsucc
        cases hsucc
  exact hkept h

theorem luDecompose_det_ne_zero (hzero : pivotTol.Singular 0) (h : (luDecompose A pivotTol).singular = false) :
    A.det ≠ 0 := by
  have hf := luDecompose_factors A hzero h
  rw [Ne, hf.det_eq_zero_iff, det_upper]
  exact Finset.prod_ne_zero_iff.mpr fun i _ => hf.pivots i i.isLt

theorem luDecompose_exact_singular (h : (luDecompose A .exact).singular = true) : A.det = 0 := by
  let Kept (k : ℕ) (lu : LU n) := (lu.singular = false → lu.Factors A k) ∧ (lu.singular = true → A.det = 0)
  have hkept : Kept n (luDecompose A .exact) := by
    refine foldl_finRange Kept ⟨fun _ => ⟨?_, fun i hi => absurd hi (Nat.not_lt_zero _)⟩, ?_⟩ fun k lu hlu => ?_
    · rw [lower_mul_upper_zero]
      rfl
    · exact fun hfalse => absurd hfalse Bool.false_ne_true
    · cases hs : lu.singular
      · have hf := hlu.1 hs
        refine ⟨fun hsucc => hf.column hs rfl hsucc, fun hsucc => ?_⟩
        obtain ⟨hpivot, -⟩ | ⟨-, hcol⟩ := lu.column_cases .exact hs k
        · have hzero : lu.combined (pivotRow lu.combined k) k = 0 := abs_eq_zero.mp hpivot
          exact hf.det_eq_zero_iff.mpr (det_upper_eq_zero k.isLt (pivotRow_zero hzero))
        · rw [hcol] at hsucc
          cases hsucc
      · rw [LU.column_of_singular hs]
        exact ⟨fun hfalse => absurd (hs.symm.trans hfalse) (by decide), fun _ => hlu.2 hs⟩
  exact hkept.2 h

theorem luDecompose_exact_singular_iff : (luDecompose A .exact).singular = true ↔ A.det = 0 := by
  constructor
  · exact luDecompose_exact_singular
  · intro hdet
    by_contra hregular
    have hzero : PivotTol.exact.Singular 0 := rfl
    exact luDecompose_det_ne_zero hzero (Bool.eq_false_iff.mpr hregular) hdet

theorem lower_forwardSubstitution (M : Matrix (Fin n) (Fin n) ℚ) (b : Fin n → ℚ) :
    lower n M *ᵥ forwardSubstitution M b = b := by
  let Done (k : ℕ) (y : Fin n → ℚ) :=
    (∀ i : Fin n, i.val < k → y i + ∑ j ∈ Finset.Iio i, M i j * y j = b i) ∧ ∀ i : Fin n, k ≤ i.val → y i = b i
  have hdone : Done n (forwardSubstitution M b) := by
    refine foldl_finRange Done ⟨fun i hi => absurd hi (Nat.not_lt_zero _), fun i _ => rfl⟩ fun k y h => ?_
    have hsum (i : Fin n) (hi : i ≤ k) (v : ℚ) :
        ∑ j ∈ Finset.Iio i, M i j * Function.update y k v j = ∑ j ∈ Finset.Iio i, M i j * y j := by
      apply Finset.sum_congr rfl
      intro j hj
      rw [Function.update_of_ne ((Finset.mem_Iio.mp hj).trans_le hi).ne]
    constructor
    · intro i hi
      rcases Nat.lt_succ_iff_lt_or_eq.mp hi with hi | hi
      · have hik : i < k := hi
        rw [Function.update_of_ne hik.ne, hsum i hik.le]
        exact h.1 i hi
      · rw [Fin.ext hi, Function.update_self, hsum k le_rfl, h.2 k le_rfl, sub_add_cancel]
    · intro i hi
      rw [Function.update_of_ne (Fin.lt_def.mpr hi).ne']
      exact h.2 i (by omega)
  ext i
  rw [lower_mulVec]
  exact hdone.1 i i.isLt

theorem upper_backSubstitution {M : Matrix (Fin n) (Fin n) ℚ} (hpivots : ∀ i, M i i ≠ 0) (y : Fin n → ℚ) :
    upper n M *ᵥ backSubstitution M y = y := by
  let Done (k : ℕ) (x : Fin n → ℚ) :=
    ∀ i : Fin n, k ≤ i.val → M i i * x i + ∑ j ∈ Finset.Ioi i, M i j * x j = y i
  have hdone : Done 0 (backSubstitution M y) := by
    apply foldr_finRange Done (fun i hi => absurd i.isLt (by omega))
    intro k x h i hi
    have hsum (v : ℚ) : ∑ j ∈ Finset.Ioi i, M i j * Function.update x k v j = ∑ j ∈ Finset.Ioi i, M i j * x j := by
      apply Finset.sum_congr rfl
      intro j hj
      rw [Function.update_of_ne ((Fin.le_def.mpr hi).trans_lt (Finset.mem_Ioi.mp hj)).ne']
    rcases hi.lt_or_eq with hi | hi
    · rw [Function.update_of_ne (Fin.lt_def.mpr hi).ne', hsum]
      exact h i hi
    · rw [hsum, ← Fin.ext hi, Function.update_self, mul_div_cancel₀ _ (hpivots k), sub_add_cancel]
  ext i
  rw [upper_mulVec]
  exact hdone i (Nat.zero_le _)

theorem mulVec_luSolve {b : Fin n → ℚ} (h : lu.Factors A n) : A *ᵥ luSolve lu b = b := by
  have hperm : A.submatrix lu.perm id *ᵥ luSolve lu b = fun i => b (lu.perm i) := by
    rw [← h.product, ← mulVec_mulVec, luSolve, upper_backSubstitution fun i => h.pivots i i.isLt,
      lower_forwardSubstitution]
  ext i
  have hi := congrFun hperm (lu.perm.symm i)
  rw [lu.perm.apply_symm_apply] at hi
  rw [← hi, mulVec, mulVec, dotProduct, dotProduct]
  simp only [submatrix_apply, lu.perm.apply_symm_apply, id_eq]

variable {b x : Fin n → ℚ}

theorem solve_regular (h : solve A b pivotTol = some x) : (luDecompose A pivotTol).singular = false := by
  cases hs : (luDecompose A pivotTol).singular
  · rfl
  · simp [solve, hs] at h

theorem solve_eq_some (hzero : pivotTol.Singular 0) (h : solve A b pivotTol = some x) :
    A *ᵥ x = b ∧ A.det ≠ 0 := by
  have hs := solve_regular h
  simp only [solve, hs, Bool.false_eq_true, if_false, Option.some.injEq] at h
  rw [← h]
  exact ⟨mulVec_luSolve (luDecompose_factors A hzero hs), luDecompose_det_ne_zero hzero hs⟩

theorem solve_of_regular (hzero : pivotTol.Singular 0) (h : (luDecompose A pivotTol).singular = false)
    (hx : A *ᵥ x = b) : solve A b pivotTol = some x := by
  have hsolve : solve A b pivotTol = some (luSolve (luDecompose A pivotTol) b) := by
    simp only [solve, h, Bool.false_eq_true, if_false]
  obtain ⟨hsol, hdet⟩ := solve_eq_some hzero hsolve
  have hunit : IsUnit A := (isUnit_iff_isUnit_det A).mpr (isUnit_iff_ne_zero.mpr hdet)
  rw [hsolve, mulVec_injective_of_isUnit hunit (hsol.trans hx.symm)]

theorem solve_exact_eq_none_iff : solve A b .exact = none ↔ A.det = 0 := by
  rw [← luDecompose_exact_singular_iff, solve]
  cases (luDecompose A .exact).singular <;> simp

end Correctness

end Klett.Nash

import Klett.Nash.EquilibriumCount
import Klett.Nash.HomotopyJacobian
import Klett.Nash.LinearSolver
import Mathlib.Algebra.Order.BigOperators.Ring.Finset
import Mathlib.Tactic.Linarith
import Mathlib.Tactic.Positivity

namespace Klett.Nash.NewtonSolver

open Matrix Klett.Lib HomotopySolver

section Model

variable {m n : ℕ}

/-- Central differences, with a step that grows with the coordinate. -/
def numericalJacobian (F : (Fin n → ℚ) → Fin m → ℚ) (x : Fin n → ℚ) (h : ℚ) : Matrix (Fin m) (Fin n) ℚ :=
  Matrix.of fun i j =>
    let hj := max h (h * |x j|)
    (F (Function.update x j (x j + hj)) i - F (Function.update x j (x j - hj)) i) / (2 * hj)

structure NonlinearSystem (n : ℕ) where
  F : (Fin n → ℚ) → Fin n → ℚ
  J : Option ((Fin n → ℚ) → Matrix (Fin n) (Fin n) ℚ) := none

structure NewtonResult (n : ℕ) where
  x : Fin n → ℚ
  residual : ℚ := 0
  iterations : ℕ := 0
  converged : Bool := false

variable (sys : NonlinearSystem n) (tol : ℚ)

def jacobian (x : Fin n → ℚ) : Matrix (Fin n) (Fin n) ℚ :=
  match sys.J with
  | some J => J x
  | none => numericalJacobian sys.F x (1 / 10 ^ 7)

def damped (J : Matrix (Fin n) (Fin n) ℚ) (Fx : Fin n → ℚ) : Matrix (Fin n) (Fin n) ℚ :=
  Jᵀ * J + (1 / 10 ^ 6 * (normInf Fx + 1)) • (1 : Matrix (Fin n) (Fin n) ℚ)

/-- The Newton step, or where the Jacobian counts as singular the damped step. -/
def direction (J : Matrix (Fin n) (Fin n) ℚ) (Fx : Fin n → ℚ) : Option (Fin n → ℚ) :=
  match solve J (-Fx) (.below (1 / 10 ^ 14)) with
  | some dx => some dx
  | none => solve (damped J Fx) (Jᵀ *ᵥ -Fx) (.below (1 / 10 ^ 12))

def axpy (alpha : ℚ) (b a : Fin n → ℚ) : Fin n → ℚ := fun i => a i + alpha * b i

/-- The backtracking, with some trials left; the step that is left after the last one is taken anyway. -/
def lineSearch (x dx : Fin n → ℚ) (norm : ℚ) : ℕ → ℚ → Fin n → ℚ
  | 0, alpha => axpy alpha dx x
  | trials + 1, alpha =>
    let xNew := axpy alpha dx x
    let newNorm := normInf (sys.F xNew)
    if newNorm < norm * (1 - 1 / 10 ^ 4 * alpha) ∨ newNorm < tol then xNew
    else lineSearch x dx norm trials (alpha * (1 / 2))

def newtonLoop : ℕ → (Fin n → ℚ) → ℕ → NewtonResult n
  | 0, x, iterations =>
    { x := x, residual := normInf (sys.F x), iterations := iterations, converged := normInf (sys.F x) < tol }
  | turns + 1, x, iterations =>
    let residual := normInf (sys.F x)
    if residual < tol then { x := x, residual := residual, iterations := iterations + 1, converged := true }
    else
      match direction (jacobian sys x) (sys.F x) with
      | none => { x := x, residual := residual, iterations := iterations + 1 }
      | some dx => newtonLoop turns (lineSearch sys tol x dx residual 20 1) (iterations + 1)

def newtonSolve (x0 : Fin n → ℚ) (maxIter : ℤ) : NewtonResult n := newtonLoop sys tol maxIter.toNat x0 0

end Model

section Pivots

variable {n : ℕ} {A M : Matrix (Fin n) (Fin n) ℚ} {k : Fin n} {c δ : ℚ} {lu : LU n}

/-- A combination of the first columns that adds to column `k` what clears it above row `k`. -/
theorem exists_cleared (hpivots : ∀ i : Fin n, i < k → M i i ≠ 0) :
    ∃ z : Fin n → ℚ, z k = 1 ∧ (∀ i, i < k → (upper k M *ᵥ z) i = 0) ∧ ∀ i, k ≤ i → (upper k M *ᵥ z) i = M i k := by
  let T : Matrix (Fin n) (Fin n) ℚ := Matrix.of fun i j => if i < k then upper k M i j else (1 : Matrix _ _ ℚ) i j
  have hupper : T.IsUpperTriangular := by
    intro i j hij
    have hlt : j < i := hij
    by_cases hi : i < k
    · simp only [T, of_apply, if_pos hi]
      rw [upper_apply, if_pos ⟨hlt, Fin.lt_def.mp (hlt.trans hi)⟩]
    · simp only [T, of_apply, if_neg hi, one_apply_ne hlt.ne']
  have hdet : T.det ≠ 0 := by
    rw [det_of_isUpperTriangular hupper]
    refine Finset.prod_ne_zero_iff.mpr fun i _ => ?_
    by_cases hi : i < k
    · simp only [T, of_apply, if_pos hi]
      rw [upper_apply, if_neg fun h => lt_irrefl i h.1]
      exact hpivots i hi
    · simp only [T, of_apply, if_neg hi, one_apply_eq]
      exact one_ne_zero
  let z := T⁻¹ *ᵥ Pi.single k 1
  have hz : T *ᵥ z = Pi.single k 1 := by
    rw [mulVec_mulVec, mul_nonsing_inv T (isUnit_iff_ne_zero.mpr hdet), one_mulVec]
  have hbelow (i : Fin n) (hi : k ≤ i) : z i = (Pi.single k 1 : Fin n → ℚ) i := by
    have hrow : T i = (1 : Matrix _ _ ℚ) i := funext fun j => by simp only [T, of_apply, if_neg hi.not_gt]
    rw [← hz, mulVec, hrow, ← mulVec, one_mulVec]
  refine ⟨z, by rw [hbelow k le_rfl, Pi.single_eq_same], fun i hi => ?_, fun i hi => ?_⟩
  · have hrow : T i = upper k M i := funext fun j => by simp only [T, of_apply, if_pos hi]
    rw [mulVec, ← hrow, ← mulVec, hz, Pi.single_eq_of_ne hi.ne]
  · rw [mulVec, dotProduct, Finset.sum_eq_single k (fun j _ hj => ?_) fun h => absurd (Finset.mem_univ k) h,
      hbelow k le_rfl, Pi.single_eq_same, mul_one, upper_apply, if_neg fun h => lt_irrefl _ h.2]
    rcases lt_or_gt_of_ne hj with hlt | hgt
    · rw [upper_apply, if_pos ⟨hlt.trans_le hi, hlt⟩, zero_mul]
    · rw [hbelow j hgt.le, Pi.single_eq_of_ne hgt.ne', mul_zero]

theorem multipliers_mulVec_of_zero {r : Fin n → ℚ} (hr : ∀ i, i < k → r i = 0) : lower k M *ᵥ r = r := by
  have hzero : multipliers k M *ᵥ r = 0 := by
    funext i
    rw [mulVec, dotProduct, Pi.zero_apply]
    apply Finset.sum_eq_zero
    intro l _
    rw [multipliers_apply]
    split_ifs with hl
    · rw [hr l hl.2, mul_zero]
    · rw [zero_mul]
  rw [lower, add_mulVec, one_mulVec, hzero, add_zero]

theorem dotProduct_sq_le (u v : Fin n → ℚ) : (u ⬝ᵥ v) ^ 2 ≤ (u ⬝ᵥ u) * (v ⬝ᵥ v) := by
  simpa only [dotProduct, sq] using Finset.sum_mul_sq_le_sq_mul_sq Finset.univ u v

/-- A matrix that stretches every vector by `c` at least meets no pivot below `δ`. -/
structure Stretches (A : Matrix (Fin n) (Fin n) ℚ) (c : ℚ) : Prop where
  pos : 0 < c
  form : ∀ z : Fin n → ℚ, c * (z ⬝ᵥ z) ≤ z ⬝ᵥ A *ᵥ z

theorem Stretches.exists_large (h : Stretches A c) (hδ : n * δ ^ 2 < c ^ 2) {z : Fin n → ℚ} (hz : 1 ≤ z ⬝ᵥ z) :
    ∃ i, δ ≤ |(A *ᵥ z) i| := by
  by_contra hsmall
  have hlt (i : Fin n) : |(A *ᵥ z) i| < δ := not_le.mp fun hle => hsmall ⟨i, hle⟩
  have himage : (A *ᵥ z) ⬝ᵥ (A *ᵥ z) ≤ n * δ ^ 2 := by
    calc (A *ᵥ z) ⬝ᵥ (A *ᵥ z) ≤ ∑ _i : Fin n, δ ^ 2 := by
          refine Finset.sum_le_sum fun i _ => ?_
          rw [← sq, ← sq_abs]
          exact pow_le_pow_left₀ (abs_nonneg _) (hlt i).le 2
      _ = n * δ ^ 2 := by rw [Finset.sum_const, Finset.card_univ, Fintype.card_fin, nsmul_eq_mul]
  have hpos : 0 < z ⬝ᵥ z := one_pos.trans_le hz
  have hform : (c * (z ⬝ᵥ z)) ^ 2 ≤ (z ⬝ᵥ z) * (n * δ ^ 2) := by
    calc (c * (z ⬝ᵥ z)) ^ 2 ≤ (z ⬝ᵥ A *ᵥ z) ^ 2 :=
          pow_le_pow_left₀ (mul_pos h.pos hpos).le (h.form z) 2
      _ ≤ (z ⬝ᵥ z) * ((A *ᵥ z) ⬝ᵥ (A *ᵥ z)) := dotProduct_sq_le _ _
      _ ≤ (z ⬝ᵥ z) * (n * δ ^ 2) := mul_le_mul_of_nonneg_left himage hpos.le
  have hscaled : c ^ 2 * (z ⬝ᵥ z) ≤ n * δ ^ 2 := by
    refine le_of_mul_le_mul_left ?_ hpos
    calc (z ⬝ᵥ z) * (c ^ 2 * (z ⬝ᵥ z)) = (c * (z ⬝ᵥ z)) ^ 2 := by ring
      _ ≤ (z ⬝ᵥ z) * (n * δ ^ 2) := hform
  have hc : c ^ 2 ≤ c ^ 2 * (z ⬝ᵥ z) := le_mul_of_one_le_right (sq_nonneg c) hz
  linarith

theorem Stretches.pivot_large (h : Stretches A c) (hδ : n * δ ^ 2 < c ^ 2) (hlu : lu.Factors A k) :
    δ ≤ |lu.combined (pivotRow lu.combined k) k| := by
  obtain ⟨z, hz, hzero, hcolumn⟩ := exists_cleared fun i hi => hlu.pivots i hi
  have hone : 1 ≤ z ⬝ᵥ z := by
    calc (1 : ℚ) = z k * z k := by rw [hz, mul_one]
      _ ≤ z ⬝ᵥ z := Finset.single_le_sum (f := fun i => z i * z i) (fun i _ => mul_self_nonneg _) (Finset.mem_univ k)
  obtain ⟨i, hi⟩ := h.exists_large hδ hone
  have himage : A.submatrix lu.perm id *ᵥ z = upper k lu.combined *ᵥ z := by
    rw [← hlu.product, ← mulVec_mulVec, multipliers_mulVec_of_zero hzero]
  have hrow : (A *ᵥ z) i = (upper k lu.combined *ᵥ z) (lu.perm.symm i) := by
    rw [← himage, mulVec, mulVec]
    simp only [submatrix, of_apply, lu.perm.apply_symm_apply, id_eq]
  have hpos : 0 < δ ∨ δ ≤ 0 := lt_or_ge 0 δ
  rcases hpos with hpos | hpos
  · rcases lt_or_ge (lu.perm.symm i) k with hlt | hge
    · rw [hrow, hzero _ hlt, abs_zero] at hi
      exact absurd hi hpos.not_ge
    · rw [hrow, hcolumn _ hge] at hi
      exact hi.trans ((pivotRow_spec lu.combined k).2 _ hge)
  · exact hpos.trans (abs_nonneg _)

theorem Stretches.regular (h : Stretches A c) (hpos : 0 < δ) (hδ : n * δ ^ 2 < c ^ 2) :
    (luDecompose A (.below δ)).singular = false := by
  have hzero : (PivotTol.below δ).Singular 0 := hpos
  let Kept (k : ℕ) (lu : LU n) := lu.singular = false ∧ lu.Factors A k
  have hkept : Kept n (luDecompose A (.below δ)) := by
    refine foldl_finRange Kept ⟨rfl, ?_, fun i hi => absurd hi (Nat.not_lt_zero _)⟩ fun k lu hlu => ?_
    · rw [lower_mul_upper_zero]
      rfl
    · have hregular : (lu.column (.below δ) k).singular = false := by
        obtain ⟨hsmall, -⟩ | ⟨-, hcol⟩ := lu.column_cases (.below δ) hlu.1 k
        · exact absurd hsmall (h.pivot_large hδ hlu.2).not_gt
        · rw [hcol]
      exact ⟨hregular, hlu.2.column hlu.1 hzero hregular⟩
  exact hkept.1

end Pivots

section Report

variable {n : ℕ} {sys : NonlinearSystem n} {tol : ℚ} {x : Fin n → ℚ}

theorem normInf_nonneg {ι : Type} [Fintype ι] (v : ι → ℚ) : 0 ≤ normInf v :=
  (Finset.le_fold_max 0).mpr (.inl le_rfl)

theorem stretches_damped (J : Matrix (Fin n) (Fin n) ℚ) (Fx : Fin n → ℚ) : Stretches (damped J Fx) (1 / 10 ^ 6) := by
  refine ⟨by positivity, fun z => ?_⟩
  have hsplit : z ⬝ᵥ damped J Fx *ᵥ z = (J *ᵥ z) ⬝ᵥ (J *ᵥ z) + 1 / 10 ^ 6 * (normInf Fx + 1) * (z ⬝ᵥ z) := by
    rw [damped, add_mulVec, dotProduct_add, ← mulVec_mulVec, dotProduct_mulVec, vecMul_transpose, smul_mulVec,
      one_mulVec, dotProduct_smul, smul_eq_mul]
  have hJ : 0 ≤ (J *ᵥ z) ⬝ᵥ (J *ᵥ z) := Finset.sum_nonneg fun i _ => mul_self_nonneg _
  have hz : 0 ≤ z ⬝ᵥ z := Finset.sum_nonneg fun i _ => mul_self_nonneg _
  have hnorm : 0 ≤ 1 / 10 ^ 6 * normInf Fx * (z ⬝ᵥ z) :=
    mul_nonneg (mul_nonneg (by positivity) (normInf_nonneg Fx)) hz
  rw [hsplit]
  linarith

/-- The damped system is regular even to the tolerance, so there is always a step to take. -/
theorem direction_ne_none (hn : n < 10 ^ 12) (J : Matrix (Fin n) (Fin n) ℚ) (Fx : Fin n → ℚ) : direction J Fx ≠ none := by
  have hsize : (n : ℚ) * (1 / 10 ^ 12) ^ 2 < (1 / 10 ^ 6) ^ 2 := by
    have hcast : (n : ℚ) < 10 ^ 12 := by exact_mod_cast hn
    calc (n : ℚ) * (1 / 10 ^ 12) ^ 2 < 10 ^ 12 * (1 / 10 ^ 12) ^ 2 := mul_lt_mul_of_pos_right hcast (by positivity)
      _ = (1 / 10 ^ 6) ^ 2 := by norm_num
  have hregular := (stretches_damped J Fx).regular (by positivity) hsize
  rw [direction]
  cases solve J (-Fx) (.below (1 / 10 ^ 14)) with
  | some dx => exact Option.some_ne_none dx
  | none =>
    rw [solve, if_neg (Bool.eq_false_iff.mp hregular)]
    exact Option.some_ne_none _

/-- What a report says of its point. -/
structure Truthful (sys : NonlinearSystem n) (tol : ℚ) (result : NewtonResult n) : Prop where
  residual : result.residual = normInf (sys.F result.x)
  converged : result.converged = true ↔ result.residual < tol

theorem newtonLoop_truthful (turns : ℕ) (x : Fin n → ℚ) (iterations : ℕ) :
    Truthful sys tol (newtonLoop sys tol turns x iterations) := by
  induction turns generalizing x iterations with
  | zero => exact ⟨rfl, by simp [newtonLoop]⟩
  | succ turns ih =>
    rw [newtonLoop]
    by_cases hdone : normInf (sys.F x) < tol
    · rw [if_pos hdone]
      exact ⟨rfl, by simpa using hdone⟩
    · rw [if_neg hdone]
      cases direction (jacobian sys x) (sys.F x) with
      | none => exact ⟨rfl, by simpa using hdone⟩
      | some dx => exact ih _ _

theorem newtonLoop_iterations (turns : ℕ) (x : Fin n → ℚ) (iterations : ℕ) :
    (newtonLoop sys tol turns x iterations).iterations ≤ iterations + turns ∧
      (n < 10 ^ 12 → (newtonLoop sys tol turns x iterations).converged = false →
        (newtonLoop sys tol turns x iterations).iterations = iterations + turns) := by
  induction turns generalizing x iterations with
  | zero => exact ⟨le_rfl, fun _ _ => rfl⟩
  | succ turns ih =>
    rw [newtonLoop]
    by_cases hdone : normInf (sys.F x) < tol
    · rw [if_pos hdone]
      refine ⟨by simp only; omega, fun _ h => ?_⟩
      cases h
    · rw [if_neg hdone]
      cases hdirection : direction (jacobian sys x) (sys.F x) with
      | none =>
        refine ⟨by simp only; omega, fun hn _ => absurd hdirection (direction_ne_none hn _ _)⟩
      | some dx =>
        obtain ⟨hle, hall⟩ := ih (lineSearch sys tol x dx (normInf (sys.F x)) 20 1) (iterations + 1)
        refine ⟨by simp only at hle ⊢; omega, fun hn h => ?_⟩
        have heq := hall hn h
        simp only at heq ⊢
        omega

/-- The report is true of the point it returns, and without convergence all the turns were taken: the total failure
that the source provides for does not occur. -/
theorem newtonSolve_report (sys : NonlinearSystem n) (tol : ℚ) (x0 : Fin n → ℚ) (maxIter : ℤ) :
    Truthful sys tol (newtonSolve sys tol x0 maxIter) ∧
      (newtonSolve sys tol x0 maxIter).iterations ≤ maxIter.toNat ∧
        (n < 10 ^ 12 → (newtonSolve sys tol x0 maxIter).converged = false →
          (newtonSolve sys tol x0 maxIter).iterations = maxIter.toNat) := by
  obtain ⟨hle, hall⟩ := @newtonLoop_iterations _ sys tol maxIter.toNat x0 0
  rw [Nat.zero_add] at hle hall
  exact ⟨newtonLoop_truthful _ _ _, hle, hall⟩

theorem normInf_lt_iff {ι : Type} [Fintype ι] {v : ι → ℚ} : normInf v < tol ↔ 0 < tol ∧ ∀ i, |v i| < tol := by
  rw [normInf, Finset.fold_max_lt]
  simp

/-- The method on unknowns with names of their own, in the order that `e` gives them. -/
def newtonOn {ι : Type} [Fintype ι] (e : ι ≃ Fin n) (F : (ι → ℚ) → ι → ℚ) (x0 : ι → ℚ) (tol : ℚ) (maxIter : ℕ) :
    HomotopySolver.NewtonResult ι :=
  let result := newtonSolve { F := fun z i => F (z ∘ e) (e.symm i) } tol (x0 ∘ e.symm) maxIter
  ⟨result.x ∘ e, result.converged⟩

/-- What the solver above relies on. -/
theorem newtonOn_consistent {ι : Type} [Fintype ι] (e : ι ≃ Fin n) (F : (ι → ℚ) → ι → ℚ) (x0 : ι → ℚ) (maxIter : ℕ)
    (h : (newtonOn e F x0 tol maxIter).converged = true) : normInf (F (newtonOn e F x0 tol maxIter).x) < tol := by
  let named : NonlinearSystem n := { F := fun z i => F (z ∘ e) (e.symm i) }
  obtain ⟨hresidual, hconverged⟩ := @newtonLoop_truthful _ named tol maxIter (x0 ∘ e.symm) 0
  have hlt := hconverged.mp h
  rw [hresidual, normInf_lt_iff] at hlt
  refine normInf_lt_iff.mpr ⟨hlt.1, fun i => ?_⟩
  have hi := hlt.2 (e i)
  simp only [named, Equiv.symm_apply_apply] at hi
  exact hi

end Report

section Affine

variable {n : ℕ} {sys : NonlinearSystem n} {M : Matrix (Fin n) (Fin n) ℚ} {tol h : ℚ} {x x0 : Fin n → ℚ}

/-- A map with one and the same Jacobian everywhere. -/
def AffineWith (F : (Fin n → ℚ) → Fin n → ℚ) (M : Matrix (Fin n) (Fin n) ℚ) : Prop :=
  ∀ z d, F (z + d) = F z + M *ᵥ d

theorem update_add_eq (x : Fin n → ℚ) (j : Fin n) (c : ℚ) :
    Function.update x j (x j + c) = x + Pi.single j c := by
  funext i
  by_cases hi : i = j
  · rw [hi, Function.update_self, Pi.add_apply, Pi.single_eq_same]
  · rw [Function.update_of_ne hi, Pi.add_apply, Pi.single_eq_of_ne hi, add_zero]

theorem numericalJacobian_affine {F : (Fin n → ℚ) → Fin n → ℚ} (hF : AffineWith F M) (hh : 0 < h) :
    numericalJacobian F x h = M := by
  ext i j
  have hstep : 0 < max h (h * |x j|) := hh.trans_le (le_max_left _ _)
  have hup : F (Function.update x j (x j + max h (h * |x j|))) i = F x i + M i j * max h (h * |x j|) := by
    rw [update_add_eq, hF, Pi.add_apply, mulVec_single]
    simp
  have hdown : F (Function.update x j (x j - max h (h * |x j|))) i = F x i - M i j * max h (h * |x j|) := by
    rw [sub_eq_add_neg, update_add_eq, hF, Pi.add_apply, mulVec_single]
    simp [sub_eq_add_neg]
  simp only [numericalJacobian, of_apply, hup, hdown]
  field_simp
  ring

theorem jacobian_affine (hF : AffineWith sys.F M) (hJ : sys.J = none) : jacobian sys x = M := by
  rw [jacobian, hJ]
  exact numericalJacobian_affine hF (by positivity)

theorem normInf_zero {ι : Type} [Fintype ι] : normInf (0 : ι → ℚ) = 0 :=
  le_antisymm ((Finset.fold_max_le 0).mpr ⟨le_rfl, fun i _ => by rw [Pi.zero_apply, abs_zero]⟩) (normInf_nonneg _)

theorem newtonLoop_at_zero (turns : ℕ) (iterations : ℕ) (htol : 0 < tol) (hx : sys.F x = 0) :
    (newtonLoop sys tol turns x iterations).x = x ∧ (newtonLoop sys tol turns x iterations).converged = true ∧
      (newtonLoop sys tol turns x iterations).iterations ≤ iterations + 1 := by
  have hdone : normInf (sys.F x) < tol := by
    rw [hx, normInf_zero]
    exact htol
  cases turns with
  | zero => exact ⟨rfl, by simpa [newtonLoop] using hdone, Nat.le_succ _⟩
  | succ turns =>
    rw [newtonLoop, if_pos hdone]
    exact ⟨rfl, rfl, le_rfl⟩

/-- On an affine system with a regular matrix the first full step is exact. -/
theorem newtonSolve_affine (hF : AffineWith sys.F M) (hJ : sys.J = none)
    (hM : (luDecompose M (.below (1 / 10 ^ 14))).singular = false) (htol : 0 < tol) {maxIter : ℤ} (hiter : 1 ≤ maxIter) :
    (newtonSolve sys tol x0 maxIter).converged = true ∧ (newtonSolve sys tol x0 maxIter).iterations ≤ 2 ∧
      (normInf (sys.F x0) < tol ∧ (newtonSolve sys tol x0 maxIter).x = x0 ∨
        sys.F (newtonSolve sys tol x0 maxIter).x = 0 ∧
          ∀ y, sys.F y = 0 → y = (newtonSolve sys tol x0 maxIter).x) := by
  have hzero : (PivotTol.below (1 / 10 ^ 14)).Singular 0 := by
    simp only [PivotTol.Singular]
    positivity
  obtain ⟨turns, hturns⟩ : ∃ turns, maxIter.toNat = turns + 1 := ⟨maxIter.toNat - 1, by omega⟩
  rw [newtonSolve, hturns, newtonLoop]
  by_cases hdone : normInf (sys.F x0) < tol
  · rw [if_pos hdone]
    exact ⟨rfl, by simp, .inl ⟨hdone, rfl⟩⟩
  · rw [if_neg hdone, direction, jacobian_affine hF hJ]
    obtain ⟨dx, hdx⟩ : ∃ dx, solve M (-sys.F x0) (.below (1 / 10 ^ 14)) = some dx :=
      ⟨_, by rw [solve, if_neg (Bool.eq_false_iff.mp hM)]⟩
    obtain ⟨hstep, hdet⟩ := solve_eq_some hzero hdx
    have hnew : sys.F (axpy 1 dx x0) = 0 := by
      have haxpy : axpy 1 dx x0 = x0 + dx := funext fun i => by rw [axpy, one_mul, Pi.add_apply]
      rw [haxpy, hF, hstep, add_neg_cancel]
    have hsearch : lineSearch sys tol x0 dx (normInf (sys.F x0)) 20 1 = axpy 1 dx x0 := by
      rw [lineSearch, if_pos]
      right
      rw [hnew, normInf_zero]
      exact htol
    simp only [hdx, hsearch]
    obtain ⟨hx, hconverged, hle⟩ := newtonLoop_at_zero turns 1 htol hnew
    refine ⟨hconverged, hle, .inr ⟨by rw [hx, hnew], fun y hy => ?_⟩⟩
    rw [hx]
    have hdiff : M *ᵥ (y - axpy 1 dx x0) = 0 := by
      have hsum := hF (axpy 1 dx x0) (y - axpy 1 dx x0)
      rw [add_sub_cancel, hy, hnew, zero_add] at hsum
      exact hsum.symm
    exact sub_eq_zero.mp (eq_zero_of_mulVec_eq_zero hdet hdiff)

end Affine

section Pinned

variable {m n k1 k2 : ℕ} (game : BimatrixGame m n) (prior1 : Fin m → ℚ) (prior2 : Fin n → ℚ)
  (s1 : Fin k1 → Fin m) (s2 : Fin k2 → Fin n)

/-- The order of the unknowns in the vector: both players' weights, then the two values. -/
def layout : Unknown k1 k2 ≃ Fin (k1 + (k2 + 2)) :=
  (Equiv.sumCongr (Equiv.refl _) finSumFinEquiv).trans finSumFinEquiv

/-- The homotopy with `t` held at one, and no Jacobian given. -/
def pinSystem : NonlinearSystem (k1 + (k2 + 2)) where
  F z e := homotopyMap game prior1 prior2 s1 s2 (pinned (z ∘ layout) 1) (layout.symm e)

/-- The derivatives by the weights and the values at `t = 1`. -/
def pinJacobian : Matrix (Fin (k1 + (k2 + 2))) (Fin (k1 + (k2 + 2))) ℚ :=
  (homotopyJacobian game prior1 prior2 s1 s2 (pinned 0 1)).submatrix layout.symm (embed ∘ layout.symm)

theorem pinned_embed (z : Unknown k1 k2 → ℚ) (t : ℚ) (u : Unknown k1 k2) : pinned z t (embed u) = z u := by
  match u with
  | .inl _ => rfl
  | .inr (.inl _) => rfl
  | .inr (.inr 0) => rfl
  | .inr (.inr 1) => rfl

theorem back_pinned (z : Unknown k1 k2 → ℚ) (t : ℚ) : back (pinned z t) = t := rfl

theorem pinned_add (z d : Unknown k1 k2 → ℚ) (t : ℚ) : pinned (z + d) t = pinned z t + pinned d 0 := by
  funext c
  match c with
  | .inl _ => rfl
  | .inr (.inl _) => rfl
  | .inr (.inr 0) => rfl
  | .inr (.inr 1) => rfl
  | .inr (.inr 2) => exact (add_zero t).symm

theorem sum_embed (f : Fin k1 ⊕ Fin k2 ⊕ Fin 3 → ℚ) (hback : f (.inr (.inr 2)) = 0) : ∑ c, f c = ∑ u, f (embed u) := by
  simp only [Fintype.sum_sum_type, Fin.sum_univ_three, Fin.sum_univ_two, hback, add_zero]
  rfl

theorem homotopyJacobian_embed (w w' : Point k1 k2) (hback : back w = back w') (e u : Unknown k1 k2) :
    homotopyJacobian game prior1 prior2 s1 s2 w e (embed u) = homotopyJacobian game prior1 prior2 s1 s2 w' e (embed u) := by
  match e, u with
  | .inl _, .inr (.inl _) => simp [homotopyJacobian, embed, hback]
  | .inr (.inl _), .inl _ => simp [homotopyJacobian, embed, hback]
  | .inl _, .inl _ | .inl _, .inr (.inr 0) | .inl _, .inr (.inr 1) => rfl
  | .inr (.inl _), .inr (.inl _) | .inr (.inl _), .inr (.inr 0) | .inr (.inl _), .inr (.inr 1) => rfl
  | .inr (.inr 0), .inl _ | .inr (.inr 0), .inr (.inl _) | .inr (.inr 0), .inr (.inr 0) => rfl
  | .inr (.inr 0), .inr (.inr 1) | .inr (.inr 1), .inl _ | .inr (.inr 1), .inr (.inl _) => rfl
  | .inr (.inr 1), .inr (.inr 0) | .inr (.inr 1), .inr (.inr 1) => rfl

theorem pinSystem_affine :
    AffineWith (pinSystem game prior1 prior2 s1 s2).F (pinJacobian game prior1 prior2 s1 s2) := by
  intro z d
  funext e
  have hsecond : secondOrder game s1 s2 (pinned (d ∘ layout) 0) = 0 := by
    funext e
    match e with
    | .inl _ => exact zero_mul _
    | .inr (.inl _) => exact zero_mul _
    | .inr (.inr _) => rfl
  have hcolumns : (homotopyJacobian game prior1 prior2 s1 s2 (pinned (z ∘ layout) 1) *ᵥ pinned (d ∘ layout) 0)
      (layout.symm e) = (pinJacobian game prior1 prior2 s1 s2 *ᵥ d) e := by
    rw [mulVec, dotProduct, sum_embed _ (mul_zero _), mulVec, dotProduct, ← Equiv.sum_comp layout]
    apply Finset.sum_congr rfl
    intro u _
    have hentry := homotopyJacobian_embed game prior1 prior2 s1 s2 (pinned (z ∘ layout) 1) (pinned 0 1) rfl
      (layout.symm e) u
    have hcell : pinJacobian game prior1 prior2 s1 s2 e (layout u) =
        homotopyJacobian game prior1 prior2 s1 s2 (pinned 0 1) (layout.symm e) (embed u) := by simp [pinJacobian]
    rw [pinned_embed, hcell]
    exact congrArg (· * d (layout u)) hentry
  have hsum : (z + d) ∘ layout = z ∘ (layout : Unknown k1 k2 ≃ _) + d ∘ layout := rfl
  simp only [pinSystem, Pi.add_apply]
  rw [hsum, pinned_add, homotopyMap_add, hsecond, add_zero, Pi.add_apply, hcolumns]

/-- Where the indifference equations on the supports are regular, the correction at `t = 1` solves them exactly unless
the point it starts from is within the tolerance already. -/
theorem pinned_correction (hM : (luDecompose (pinJacobian game prior1 prior2 s1 s2) (.below (1 / 10 ^ 14))).singular = false)
    {tol : ℚ} (htol : 0 < tol) (z0 : Fin (k1 + (k2 + 2)) → ℚ) :
    (newtonSolve (pinSystem game prior1 prior2 s1 s2) tol z0 50).converged = true ∧
      (newtonSolve (pinSystem game prior1 prior2 s1 s2) tol z0 50).iterations ≤ 2 ∧
      (normInf ((pinSystem game prior1 prior2 s1 s2).F z0) < tol ∧
          (newtonSolve (pinSystem game prior1 prior2 s1 s2) tol z0 50).x = z0 ∨
        (∀ e, homotopyMap game prior1 prior2 s1 s2
          (pinned ((newtonSolve (pinSystem game prior1 prior2 s1 s2) tol z0 50).x ∘ layout) 1) e = 0) ∧
        ∀ y, (pinSystem game prior1 prior2 s1 s2).F y = 0 →
          y = (newtonSolve (pinSystem game prior1 prior2 s1 s2) tol z0 50).x) := by
  obtain ⟨hconverged, hle, hcases⟩ := @newtonSolve_affine _ _ _ _ z0 (pinSystem_affine game prior1 prior2 s1 s2) rfl hM
    htol 50 (by norm_num)
  refine ⟨hconverged, hle, hcases.imp_right fun ⟨hzero, hunique⟩ => ⟨fun e => ?_, hunique⟩⟩
  have he := congrFun hzero (layout e)
  simp only [pinSystem, Equiv.symm_apply_apply] at he
  exact he

theorem pinned_correction_coordination :
    (newtonSolve (pinSystem coordination (uniformPrior 2) (uniformPrior 2) id id) (1 / 10 ^ 9) 0 50).converged = true :=
  (pinned_correction coordination (uniformPrior 2) (uniformPrior 2) id id (by decide +kernel) (by norm_num) 0).1

end Pinned

end Klett.Nash.NewtonSolver

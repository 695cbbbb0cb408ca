import Mathlib.Algebra.Order.Module.Defs
import Mathlib.Data.Matrix.Block
import Mathlib.LinearAlgebra.Matrix.NonsingularInverse

set_option linter.unusedSectionVars false

namespace Klett.Lib

open Matrix

section Systems

variable {ρ ν K V : Type*} [Fintype ν] [Field K] [AddCommGroup V] [Module K V]

def act (T : Matrix ρ ν K) (b : ν → V) : ρ → V := fun r => ∑ s, T r s • b s

def Solves (C : Matrix ρ ν K) (b : ρ → V) (z : ν → V) : Prop := act C z = b

theorem act_apply (T : Matrix ρ ν K) (b : ν → V) (r : ρ) : act T b r = ∑ s, T r s • b s := rfl

theorem mul_eq_act {σ : Type*} (T : Matrix ρ ν K) (C : Matrix ν σ K) (i : ρ) (j : σ) :
    (T * C) i j = act T (fun s => C s j) i := by
  simp only [mul_apply, act_apply, smul_eq_mul]

theorem act_mul [Fintype ρ] {σ : Type*} (T : Matrix σ ρ K) (C : Matrix ρ ν K) (z : ν → V) : act (T * C) z = act T (act C z) := by
  funext r
  simp only [act, mul_apply, Finset.sum_smul, Finset.smul_sum, mul_smul]
  exact Finset.sum_comm

theorem mulVec_eq_act (C : Matrix ρ ν K) (z : ν → K) : C *ᵥ z = act C z := by
  funext r
  simp only [mulVec, dotProduct, act_apply, smul_eq_mul]

theorem act_zero (C : Matrix ρ ν K) : act C (0 : ν → V) = 0 := by
  funext r
  simp [act_apply]

theorem act_one [DecidableEq ν] (z : ν → V) : act (1 : Matrix ν ν K) z = z := by
  funext r
  rw [act_apply, Finset.sum_eq_single r (fun s _ hs => by rw [one_apply_ne' hs, zero_smul])
    fun h => absurd (Finset.mem_univ r) h, one_apply_eq, one_smul]

end Systems

section Tableau

/-- A system of equations in solved form: each row expresses its basic variable by the others. -/
structure Tableau (ρ ν K V : Type*) where
  coeff : Matrix ρ ν K
  rhs : ρ → V
  basis : ρ → ν

variable {ρ ν K V : Type*} [DecidableEq ρ] [Field K] [AddCommGroup V] [Module K V]

def Tableau.pivotAt (t : Tableau ρ ν K V) (r : ρ) (v : ν) : Tableau ρ ν K V where
  coeff := Matrix.of fun i j =>
    if i = r then (t.coeff r v)⁻¹ * t.coeff r j else t.coeff i j - t.coeff i v * ((t.coeff r v)⁻¹ * t.coeff r j)
  rhs i := if i = r then (t.coeff r v)⁻¹ • t.rhs r else t.rhs i - t.coeff i v • (t.coeff r v)⁻¹ • t.rhs r
  basis := Function.update t.basis r v

@[simp]
theorem basis_pivotAt_self (t : Tableau ρ ν K V) (r : ρ) (v : ν) : (t.pivotAt r v).basis r = v := by
  simp [Tableau.pivotAt]

theorem basis_pivotAt_of_ne (t : Tableau ρ ν K V) {r r' : ρ} (v : ν) (h : r' ≠ r) :
    (t.pivotAt r v).basis r' = t.basis r' := by
  simp [Tableau.pivotAt, h]

def pivotMatrix (r : ρ) (c : ρ → K) : Matrix ρ ρ K :=
  (1 : Matrix ρ ρ K).updateCol r fun i => if i = r then (c r)⁻¹ else -(c i * (c r)⁻¹)

variable [Fintype ρ]

theorem act_pivotMatrix (r : ρ) (c : ρ → K) (b : ρ → V) (i : ρ) :
    act (pivotMatrix r c) b i = if i = r then (c r)⁻¹ • b r else b i - c i • (c r)⁻¹ • b r := by
  have hsplit : act (pivotMatrix r c) b i =
      (pivotMatrix r c i r) • b r + ∑ s ∈ Finset.univ.erase r, (1 : Matrix ρ ρ K) i s • b s := by
    rw [act_apply, ← Finset.add_sum_erase _ _ (Finset.mem_univ r)]
    refine congrArg _ (Finset.sum_congr rfl fun s hs => ?_)
    rw [pivotMatrix, updateCol_ne (Finset.ne_of_mem_erase hs)]
  rw [hsplit, pivotMatrix, updateCol_self]
  split_ifs with hi
  · rw [Finset.sum_eq_zero fun s hs => ?_, add_zero]
    rw [one_apply_ne (hi ▸ (Finset.ne_of_mem_erase hs).symm), zero_smul]
  · rw [Finset.sum_eq_single i (fun s _ hs => by rw [one_apply_ne' hs, zero_smul])
      fun h => absurd (Finset.mem_erase.mpr ⟨hi, Finset.mem_univ i⟩) h, one_apply_eq, one_smul, neg_smul, mul_smul,
      neg_add_eq_sub]

theorem coeff_pivotAt (t : Tableau ρ ν K V) (r : ρ) (v : ν) :
    (t.pivotAt r v).coeff = pivotMatrix r (fun i => t.coeff i v) * t.coeff := by
  ext i j
  rw [mul_eq_act, act_pivotMatrix]
  rfl

theorem rhs_pivotAt (t : Tableau ρ ν K V) (r : ρ) (v : ν) :
    (t.pivotAt r v).rhs = act (pivotMatrix r fun i => t.coeff i v) t.rhs := by
  funext i
  rw [act_pivotMatrix]
  rfl

end Tableau

section Represents

variable {ρ ν K V : Type*} [DecidableEq ρ] [Fintype ρ] [Field K] [AddCommGroup V] [Module K V]

/-- `t` is the system `C z = b` solved for its basic variables. -/
structure Tableau.Represents (C : Matrix ρ ν K) (b : ρ → V) (t : Tableau ρ ν K V) : Prop where
  unit : ∀ i r, t.coeff i (t.basis r) = (1 : Matrix ρ ρ K) i r
  rows : ∃ T : Matrix ρ ρ K, t.coeff = T * C ∧ t.rhs = act T b

variable {C : Matrix ρ ν K} {b : ρ → V} {t : Tableau ρ ν K V} {r : ρ} {v : ν}

theorem Tableau.Represents.basis_injective (h : t.Represents C b) : Function.Injective t.basis := by
  intro r r' heq
  by_contra hne
  have hunit := h.unit r r
  rw [heq, h.unit, one_apply_ne hne, one_apply_eq] at hunit
  exact zero_ne_one hunit

theorem Tableau.Represents.restore (h : t.Represents C b) :
    C = C.submatrix id t.basis * t.coeff ∧ b = act (C.submatrix id t.basis) t.rhs := by
  obtain ⟨T, hcoeff, hrhs⟩ := h.rows
  have hleft : T * C.submatrix id t.basis = 1 := by
    ext i r
    rw [← h.unit, hcoeff]
    rfl
  have hright : C.submatrix id t.basis * T = 1 := mul_eq_one_comm.mp hleft
  constructor
  · rw [hcoeff, ← Matrix.mul_assoc, hright, Matrix.one_mul]
  · rw [hrhs, ← act_mul, hright, act_one]

theorem Tableau.Represents.solves_iff [Fintype ν] (h : t.Represents C b) {z : ν → V} : Solves C b z ↔ act t.coeff z = t.rhs := by
  constructor
  · intro hz
    obtain ⟨T, hcoeff, hrhs⟩ := h.rows
    rw [hcoeff, act_mul, hz, hrhs]
  · intro hz
    rw [Solves, h.restore.1, act_mul, hz]
    exact h.restore.2.symm

theorem Tableau.Represents.eq_zero_of_basic [Fintype ν] (h : t.Represents C b) {z : ν → K} (hz : C *ᵥ z = 0)
    (hbasic : ∀ v, v ∉ Set.range t.basis → z v = 0) : z = 0 := by
  obtain ⟨T, hcoeff, -⟩ := h.rows
  have hrow (r : ρ) : z (t.basis r) = 0 := by
    have hzero : (t.coeff *ᵥ z) r = 0 := by
      rw [hcoeff, ← mulVec_mulVec, hz, mulVec_zero, Pi.zero_apply]
    rw [← hzero, mulVec, dotProduct, Finset.sum_eq_single (t.basis r) (fun v _ hv => ?_)
      fun hmem => absurd (Finset.mem_univ _) hmem, h.unit, one_apply_eq, one_mul]
    by_cases hv' : v ∈ Set.range t.basis
    · obtain ⟨r', rfl⟩ := hv'
      rw [h.unit, one_apply_ne' fun heq => hv (congrArg t.basis heq), zero_mul]
    · rw [hbasic v hv', mul_zero]
  funext v
  by_cases hv : v ∈ Set.range t.basis
  · obtain ⟨r, rfl⟩ := hv
    exact hrow r
  · exact hbasic v hv

theorem Tableau.Represents.pivotAt (h : t.Represents C b) (hpivot : t.coeff r v ≠ 0) :
    (t.pivotAt r v).Represents C b := by
  constructor
  · intro i r'
    by_cases hr : r' = r
    · rw [hr, one_apply]
      simp only [Tableau.pivotAt, of_apply, Function.update_self, inv_mul_cancel₀ hpivot, mul_one, sub_self]
    · have hzero : t.coeff r (t.basis r') = 0 := by rw [h.unit, one_apply_ne' hr]
      simp only [Tableau.pivotAt, of_apply, Function.update_of_ne hr, hzero, mul_zero, sub_zero, h.unit]
      split_ifs with hi
      · rw [hi, one_apply_ne' hr]
      · rfl
  · obtain ⟨T, hcoeff, hrhs⟩ := h.rows
    refine ⟨pivotMatrix r (fun i => t.coeff i v) * T, ?_, ?_⟩
    · rw [coeff_pivotAt, hcoeff, Matrix.mul_assoc]
    · rw [rhs_pivotAt, hrhs, act_mul]

theorem det_updateCol_mulVec (A : Matrix ρ ρ K) (r : ρ) (c : ρ → K) :
    (A.updateCol r (A *ᵥ c)).det = c r * A.det := by
  have hmul : A.updateCol r (A *ᵥ c) = A * (1 : Matrix ρ ρ K).updateCol r c := by
    rw [mul_updateCol, Matrix.mul_one]
  rw [hmul, det_mul, ← cramer_apply, cramer_one, mul_comm]
  rfl

theorem Tableau.Represents.det_pivotAt (h : t.Represents C b) :
    (C.submatrix id (t.pivotAt r v).basis).det = t.coeff r v * (C.submatrix id t.basis).det := by
  have hcol : C.submatrix id (t.pivotAt r v).basis =
      (C.submatrix id t.basis).updateCol r (C.submatrix id t.basis *ᵥ fun i => t.coeff i v) := by
    ext i r'
    by_cases hr : r' = r
    · rw [hr, updateCol_self]
      have hiv := congrFun (congrFun h.restore.1 i) v
      simp only [submatrix_apply, Tableau.pivotAt, Function.update_self, id_eq]
      exact hiv
    · rw [updateCol_ne hr]
      simp only [submatrix_apply, Tableau.pivotAt, Function.update_of_ne hr]
  rw [hcol, det_updateCol_mulVec]

end Represents

section Vertices

variable {ρ ν K V : Type*} [DecidableEq ρ] [Fintype ρ] [DecidableEq ν] [Fintype ν] [Field K] [LinearOrder K]
  [AddCommGroup V] [LinearOrder V] [Module K V] {C : Matrix ρ ν K} {b : ρ → V} {t : Tableau ρ ν K V} {r : ρ} {v : ν}

structure Tableau.Feasible (C : Matrix ρ ν K) (b : ρ → V) (t : Tableau ρ ν K V) : Prop extends
    Tableau.Represents C b t where
  nonneg : ∀ r, 0 ≤ t.rhs r

/-- Row `r` has the least ratio among those whose entry in the entering column is positive. -/
structure Tableau.Leaves (t : Tableau ρ ν K V) (v : ν) (r : ρ) : Prop where
  pos : 0 < t.coeff r v
  least : ∀ i, 0 < t.coeff i v → (t.coeff r v)⁻¹ • t.rhs r ≤ (t.coeff i v)⁻¹ • t.rhs i

def Tableau.value (t : Tableau ρ ν K V) (v : ν) : V := ∑ r, if t.basis r = v then t.rhs r else 0

theorem Tableau.value_basis (h : Function.Injective t.basis) (r : ρ) : t.value (t.basis r) = t.rhs r := by
  rw [Tableau.value, Finset.sum_eq_single r (fun r' _ hr => if_neg fun heq => hr (h heq))
    fun hr => absurd (Finset.mem_univ r) hr, if_pos rfl]

theorem Tableau.value_of_nonbasic (hv : v ∉ Set.range t.basis) : t.value v = 0 :=
  Finset.sum_eq_zero fun r _ => if_neg fun heq => hv ⟨r, heq⟩

theorem Tableau.Represents.act_apply {W : Type*} [AddCommGroup W] [Module K W] (h : t.Represents C b) {z : ν → W} (hv : v ∉ Set.range t.basis)
    (hz : ∀ j, j ∉ Set.range t.basis → j ≠ v → z j = 0) (r : ρ) :
    act t.coeff z r = z (t.basis r) + t.coeff r v • z v := by
  have hne : t.basis r ≠ v := fun heq => hv ⟨r, heq⟩
  rw [Lib.act_apply, Finset.sum_eq_add (t.basis r) v hne (fun j _ hj => ?_)
    (fun hmem => absurd (Finset.mem_univ _) hmem) (fun hmem => absurd (Finset.mem_univ _) hmem), h.unit, one_apply_eq,
    one_smul]
  by_cases hj' : j ∈ Set.range t.basis
  · obtain ⟨r', rfl⟩ := hj'
    rw [h.unit, one_apply_ne' fun heq => hj.1 (congrArg t.basis heq), zero_smul]
  · rw [hz j hj' hj.2, smul_zero]

theorem Tableau.Represents.value_solves (h : t.Represents C b) : Solves C b t.value := by
  rw [h.solves_iff]
  funext r
  rw [Lib.act_apply, Finset.sum_eq_single (t.basis r) (fun j _ hj => ?_) fun hmem => absurd (Finset.mem_univ _) hmem,
    h.unit, one_apply_eq, one_smul, Tableau.value_basis h.basis_injective]
  by_cases hj' : j ∈ Set.range t.basis
  · obtain ⟨r', rfl⟩ := hj'
    rw [h.unit, one_apply_ne' fun heq => hj (congrArg t.basis heq), zero_smul]
  · rw [Tableau.value_of_nonbasic hj', smul_zero]

variable [IsOrderedAddMonoid V]

theorem Tableau.Feasible.value_nonneg (h : t.Feasible C b) (v : ν) : 0 ≤ t.value v := by
  apply Finset.sum_nonneg
  intro r _
  split_ifs
  · exact h.nonneg r
  · exact le_rfl

variable [IsStrictOrderedRing K] [PosSMulStrictMono K V]

theorem Tableau.Feasible.pivotAt (h : t.Feasible C b) (hr : t.Leaves v r) : (t.pivotAt r v).Feasible C b := by
  refine ⟨h.toRepresents.pivotAt hr.pos.ne', fun i => ?_⟩
  have hratio : 0 ≤ (t.coeff r v)⁻¹ • t.rhs r := smul_nonneg (inv_pos.mpr hr.pos).le (h.nonneg r)
  simp only [Tableau.pivotAt]
  split_ifs with hi
  · exact hratio
  · rcases le_or_gt (t.coeff i v) 0 with hneg | hpos
    · exact sub_nonneg.mpr ((smul_nonpos_of_nonpos_of_nonneg hneg hratio).trans (h.nonneg i))
    · have hle := smul_le_smul_of_nonneg_left (hr.least i hpos) hpos.le
      rw [smul_inv_smul₀ hpos.ne'] at hle
      exact sub_nonneg.mpr hle

theorem Tableau.exists_leaves (hpos : ∃ r, 0 < t.coeff r v) : ∃ r, t.Leaves v r := by
  obtain ⟨r₀, hr₀⟩ := hpos
  have hnonempty : (Finset.univ.filter fun r => 0 < t.coeff r v).Nonempty := ⟨r₀, by simpa using hr₀⟩
  obtain ⟨r, hr, hmin⟩ := Finset.exists_min_image _ (fun r => (t.coeff r v)⁻¹ • t.rhs r) hnonempty
  exact ⟨r, by simpa using hr, fun i hi => hmin i (by simpa using hi)⟩

/-- No nonzero nonnegative combination of the columns vanishes, so every column that enters is bounded. -/
def Bounded (C : Matrix ρ ν K) : Prop := ∀ z : ν → K, (∀ j, 0 ≤ z j) → C *ᵥ z = 0 → z = 0

theorem Tableau.Represents.exists_pos (h : t.Represents C b) (hC : Bounded C) (hv : v ∉ Set.range t.basis) :
    ∃ r, 0 < t.coeff r v := by
  by_contra hnone
  have hnonpos (r : ρ) : t.coeff r v ≤ 0 := not_lt.mp fun hlt => hnone ⟨r, hlt⟩
  -- the ray along which `v` grows and the basic variables do not fall
  let ray : Tableau ρ ν K K := ⟨t.coeff, fun r => -t.coeff r v, t.basis⟩
  let z : ν → K := ray.value + Pi.single v 1
  have hz (j : ν) : z j = ray.value j + Pi.single (M := fun _ => K) v 1 j := rfl
  have hzv : z v = 1 := by
    rw [hz, Tableau.value_of_nonbasic (t := ray) hv, Pi.single_eq_same, zero_add]
  have hbasic (r : ρ) : z (t.basis r) = -t.coeff r v := by
    have hne : t.basis r ≠ v := fun heq => hv ⟨r, heq⟩
    rw [hz, Pi.single_eq_of_ne hne, add_zero]
    exact Tableau.value_basis (t := ray) h.basis_injective r
  have hother (j : ν) (hj : j ∉ Set.range t.basis) (hjv : j ≠ v) : z j = 0 := by
    rw [hz, Tableau.value_of_nonbasic (t := ray) hj, Pi.single_eq_of_ne hjv, zero_add]
  have hnonneg (j : ν) : 0 ≤ z j := by
    by_cases hj : j ∈ Set.range t.basis
    · obtain ⟨r, rfl⟩ := hj
      rw [hbasic]
      exact neg_nonneg.mpr (hnonpos r)
    · by_cases hjv : j = v
      · rw [hjv, hzv]
        exact zero_le_one
      · exact (hother j hj hjv).ge
  have hcoeff : act t.coeff z = 0 := by
    funext r
    rw [h.act_apply hv hother, hbasic, hzv, smul_eq_mul, mul_one, neg_add_cancel]
    rfl
  have hzero : C *ᵥ z = 0 := by
    rw [mulVec_eq_act, h.restore.1, act_mul, hcoeff, act_zero]
  rw [hC z hnonneg hzero] at hzv
  exact zero_ne_one hzv

/-- A nonnegative solution that is positive exactly on the columns of `β`. -/
structure IsVertex (C : Matrix ρ ν K) (b : ρ → V) (β : Set ν) (z : ν → V) : Prop where
  solves : Solves C b z
  pos : ∀ j ∈ β, 0 < z j
  zero : ∀ j, j ∉ β → z j = 0

section Edge

variable {r₁ r₂ : ρ} {z₁ z₂ : ν → V}

theorem IsVertex.entering_pos (h : IsVertex C b (insert v (Set.range t.basis) \ {t.basis r}) z₁)
    (hv : v ∉ Set.range t.basis) : 0 < z₁ v :=
  h.pos v ⟨Set.mem_insert v _, fun heq => hv ⟨r, heq.symm⟩⟩

theorem IsVertex.edge (ht : t.Represents C b) (hv : v ∉ Set.range t.basis)
    (h : IsVertex C b (insert v (Set.range t.basis) \ {t.basis r₁}) z₁) (r : ρ) :
    z₁ (t.basis r) + t.coeff r v • z₁ v = t.rhs r := by
  rw [← ht.act_apply hv fun j hj hjv => h.zero j fun hmem => ?_]
  · exact congrFun (ht.solves_iff.mp h.solves) r
  · exact (Set.mem_insert_iff.mp hmem.1).elim hjv hj

theorem IsVertex.entering_lt (ht : t.Represents C b) (hv : v ∉ Set.range t.basis) (hrhs : 0 < t.rhs r₁)
    (h₁ : IsVertex C b (insert v (Set.range t.basis) \ {t.basis r₁}) z₁)
    (h₂ : IsVertex C b (insert v (Set.range t.basis) \ {t.basis r₂}) z₂) (hne : r₁ ≠ r₂) : z₂ v < z₁ v := by
  have hzero : z₁ (t.basis r₁) = 0 := h₁.zero _ fun hmem => hmem.2 rfl
  have hpos : 0 < z₂ (t.basis r₁) :=
    h₂.pos _ ⟨Set.mem_insert_of_mem _ ⟨r₁, rfl⟩, fun heq => hne (ht.basis_injective heq)⟩
  have hedge₁ := h₁.edge ht hv r₁
  have hedge₂ := h₂.edge ht hv r₁
  rw [hzero, zero_add] at hedge₁
  have hcoeff : 0 < t.coeff r₁ v := by
    by_contra hneg
    have hle := smul_nonpos_of_nonpos_of_nonneg (not_lt.mp hneg) (h₁.entering_pos hv).le
    rw [hedge₁] at hle
    exact hrhs.not_ge hle
  refine lt_of_smul_lt_smul_left ?_ hcoeff.le
  rw [hedge₁, ← hedge₂]
  exact lt_add_of_pos_left _ hpos

theorem Tableau.Represents.leaves_unique (ht : t.Represents C b) (hv : v ∉ Set.range t.basis)
    (hrhs : ∀ r, 0 < t.rhs r) (h₁ : IsVertex C b (insert v (Set.range t.basis) \ {t.basis r₁}) z₁)
    (h₂ : IsVertex C b (insert v (Set.range t.basis) \ {t.basis r₂}) z₂) : r₁ = r₂ := by
  by_contra hne
  exact lt_asymm (h₁.entering_lt ht hv (hrhs r₁) h₂ hne) (h₂.entering_lt ht hv (hrhs r₂) h₁ (Ne.symm hne))

end Edge

end Vertices

end Klett.Lib

namespace Klett.Lib

open Matrix

section Blocks

variable {ρ₁ ρ₂ ν₁ ν₂ ρ ν μ K V : Type*} [DecidableEq ρ₁] [DecidableEq ρ₂] [DecidableEq ρ] [Field K] [AddCommGroup V]
  [Module K V]

/-- Two systems side by side, without a variable in common. -/
def Tableau.beside (t₁ : Tableau ρ₁ ν₁ K V) (t₂ : Tableau ρ₂ ν₂ K V) : Tableau (ρ₁ ⊕ ρ₂) (ν₁ ⊕ ν₂) K V where
  coeff := Matrix.fromBlocks t₁.coeff 0 0 t₂.coeff
  rhs := Sum.elim t₁.rhs t₂.rhs
  basis := Sum.map t₁.basis t₂.basis

def Tableau.rename (e : ν ≃ μ) (t : Tableau ρ ν K V) : Tableau ρ μ K V where
  coeff := t.coeff.submatrix id e.symm
  rhs := t.rhs
  basis r := e (t.basis r)

variable {t₁ : Tableau ρ₁ ν₁ K V} {t₂ : Tableau ρ₂ ν₂ K V} {t : Tableau ρ ν K V}

theorem pivotAt_beside_inl (r : ρ₁) (v : ν₁) :
    (t₁.beside t₂).pivotAt (.inl r) (.inl v) = (t₁.pivotAt r v).beside t₂ := by
  rw [Tableau.beside, Tableau.beside, Tableau.pivotAt, Tableau.mk.injEq]
  refine ⟨?_, ?_, ?_⟩
  · ext (i | i) (j | j) <;> simp [Tableau.pivotAt]
  · funext i
    cases i <;> simp [Tableau.pivotAt]
  · funext i
    rcases i with i | i
    · by_cases hi : i = r <;> simp [Tableau.pivotAt, hi]
    · simp

theorem pivotAt_beside_inr (r : ρ₂) (v : ν₂) :
    (t₁.beside t₂).pivotAt (.inr r) (.inr v) = t₁.beside (t₂.pivotAt r v) := by
  rw [Tableau.beside, Tableau.beside, Tableau.pivotAt, Tableau.mk.injEq]
  refine ⟨?_, ?_, ?_⟩
  · ext (i | i) (j | j) <;> simp [Tableau.pivotAt]
  · funext i
    cases i <;> simp [Tableau.pivotAt]
  · funext i
    rcases i with i | i
    · simp
    · by_cases hi : i = r <;> simp [Tableau.pivotAt, hi]

theorem pivotAt_rename (e : ν ≃ μ) (r : ρ) (v : ν) : (t.rename e).pivotAt r (e v) = (t.pivotAt r v).rename e := by
  rw [Tableau.rename, Tableau.rename, Tableau.pivotAt, Tableau.mk.injEq]
  refine ⟨?_, ?_, ?_⟩
  · ext i j
    simp [Tableau.pivotAt]
  · funext i
    simp [Tableau.pivotAt]
  · funext i
    by_cases hi : i = r <;> simp [Tableau.pivotAt, hi]

section Values

variable [Fintype ρ₁] [Fintype ρ₂] [Fintype ρ] [DecidableEq ν₁] [DecidableEq ν₂] [DecidableEq ν] [DecidableEq μ]

theorem value_beside_inl (v : ν₁) : (t₁.beside t₂).value (.inl v) = t₁.value v := by
  simp [Tableau.value, Tableau.beside]

theorem value_beside_inr (v : ν₂) : (t₁.beside t₂).value (.inr v) = t₂.value v := by
  simp [Tableau.value, Tableau.beside]

theorem value_rename (e : ν ≃ μ) (v : ν) : (t.rename e).value (e v) = t.value v := by
  simp [Tableau.value, Tableau.rename]

theorem range_basis_beside : Set.range (t₁.beside t₂).basis =
    Sum.inl '' Set.range t₁.basis ∪ Sum.inr '' Set.range t₂.basis := by
  ext v
  constructor
  · rintro ⟨r | r, rfl⟩
    · exact .inl ⟨_, ⟨r, rfl⟩, rfl⟩
    · exact .inr ⟨_, ⟨r, rfl⟩, rfl⟩
  · rintro (⟨_, ⟨r, rfl⟩, rfl⟩ | ⟨_, ⟨r, rfl⟩, rfl⟩)
    · exact ⟨.inl r, rfl⟩
    · exact ⟨.inr r, rfl⟩

end Values

variable [LinearOrder K] [LinearOrder V]

theorem leaves_beside_inl {r : ρ₁ ⊕ ρ₂} {v : ν₁} :
    (t₁.beside t₂).Leaves (.inl v) r ↔ ∃ r', r = .inl r' ∧ t₁.Leaves v r' := by
  constructor
  · intro h
    cases r with
    | inl r => exact ⟨r, rfl, h.pos, fun i hi => h.least (.inl i) hi⟩
    | inr r => exact absurd h.pos (lt_irrefl 0)
  · rintro ⟨r, rfl, h⟩
    refine ⟨h.pos, fun i hi => ?_⟩
    cases i with
    | inl i => exact h.least i hi
    | inr i => exact absurd hi (lt_irrefl 0)

theorem leaves_beside_inr {r : ρ₁ ⊕ ρ₂} {v : ν₂} :
    (t₁.beside t₂).Leaves (.inr v) r ↔ ∃ r', r = .inr r' ∧ t₂.Leaves v r' := by
  constructor
  · intro h
    cases r with
    | inl r => exact absurd h.pos (lt_irrefl 0)
    | inr r => exact ⟨r, rfl, h.pos, fun i hi => h.least (.inr i) hi⟩
  · rintro ⟨r, rfl, h⟩
    refine ⟨h.pos, fun i hi => ?_⟩
    cases i with
    | inl i => exact absurd hi (lt_irrefl 0)
    | inr i => exact h.least i hi

theorem leaves_rename (e : ν ≃ μ) {r : ρ} {v : ν} : (t.rename e).Leaves (e v) r ↔ t.Leaves v r := by
  have hcolumn (i : ρ) : (t.rename e).coeff i (e v) = t.coeff i v :=
    congrArg (t.coeff i) (e.symm_apply_apply v)
  constructor
  · intro h
    refine ⟨hcolumn r ▸ h.pos, fun i hi => ?_⟩
    rw [← hcolumn] at hi ⊢
    rw [← hcolumn]
    exact h.least i hi
  · intro h
    refine ⟨(hcolumn r).symm ▸ h.pos, fun i hi => ?_⟩
    rw [hcolumn] at hi ⊢
    rw [hcolumn]
    exact h.least i hi

end Blocks

end Klett.Lib

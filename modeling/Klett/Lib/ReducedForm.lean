import Mathlib.Algebra.BigOperators.Field
import Mathlib.LinearAlgebra.Matrix.Rank

namespace Klett.Lib

open Matrix

section Coordinates

variable {K ι φ : Type*} [Field K] [Fintype φ] [DecidableEq φ] {V : Submodule K (ι → K)} {w : φ → ι → K} {p : φ → ι}
  {c : φ → K}

/-- A vector of `V` is known by its coordinates `p`, and each `w f` has exactly one of them. -/
structure FreeCoordinates (V : Submodule K (ι → K)) (w : φ → ι → K) (p : φ → ι) (c : φ → K) : Prop where
  mem : ∀ f, w f ∈ V
  coordinate : ∀ f g, w f (p g) = if g = f then c f else 0
  determined : ∀ x ∈ V, (∀ f, x (p f) = 0) → x = 0

theorem FreeCoordinates.sum_apply (h : FreeCoordinates V w p c) (a : φ → K) (g : φ) :
    (∑ f, a f • w f) (p g) = a g * c g := by
  simp [Finset.sum_apply, h.coordinate]

theorem FreeCoordinates.linearIndependent (h : FreeCoordinates V w p c) (hc : ∀ f, c f ≠ 0) :
    LinearIndependent K w := by
  apply Fintype.linearIndependent_iff.mpr
  intro a ha g
  have hg := congrFun ha (p g)
  rw [h.sum_apply] at hg
  exact (mul_eq_zero.mp hg).resolve_right (hc g)

theorem FreeCoordinates.span_eq (h : FreeCoordinates V w p c) (hc : ∀ f, c f ≠ 0) :
    Submodule.span K (Set.range w) = V := by
  apply le_antisymm
  · apply Submodule.span_le.mpr
    rintro _ ⟨f, rfl⟩
    exact h.mem f
  · intro x hx
    have hsum : ∑ f, (x (p f) / c f) • w f ∈ V := V.sum_mem fun f _ => V.smul_mem _ (h.mem f)
    have hzero : x - ∑ f, (x (p f) / c f) • w f = 0 := by
      apply h.determined _ (V.sub_mem hx hsum)
      intro g
      rw [Pi.sub_apply, h.sum_apply, div_mul_cancel₀ _ (hc g), sub_self]
    rw [sub_eq_zero.mp hzero]
    exact Submodule.sum_mem _ fun f _ => Submodule.smul_mem _ _ (Submodule.subset_span ⟨f, rfl⟩)

theorem FreeCoordinates.finrank_eq (h : FreeCoordinates V w p c) (hc : ∀ f, c f ≠ 0) :
    Module.finrank K V = Fintype.card φ := by
  rw [← h.span_eq hc]
  exact finrank_span_eq_card (h.linearIndependent hc)

end Coordinates

section Pivoting

variable {K : Type*} [Field K] {m n r : ℕ} {R : Matrix (Fin m) (Fin n) K}

/-- The first `r` columns are unit vectors. -/
def Leading (r : ℕ) (R : Matrix (Fin m) (Fin n) K) : Prop :=
  ∀ i (l : Fin n), l.val < r → R i l = if i.val = l.val then 1 else 0

def pivotOn (R : Matrix (Fin m) (Fin n) K) (p : Fin m) (q : Fin n) : Matrix (Fin m) (Fin n) K :=
  Matrix.of fun i j => if i = p then R p j / R p q else R i j - R i q / R p q * R p j

variable {p : Fin m} {q : Fin n}

theorem pivotOn_mulVec (z : Fin n → K) (i : Fin m) :
    (pivotOn R p q *ᵥ z) i =
      if i = p then (R *ᵥ z) p / R p q else (R *ᵥ z) i - R i q / R p q * (R *ᵥ z) p := by
  simp only [mulVec, dotProduct, pivotOn, of_apply]
  split_ifs
  · simp only [Finset.sum_div, div_mul_eq_mul_div]
  · simp only [sub_mul, Finset.sum_sub_distrib, Finset.mul_sum, mul_assoc]

theorem pivotOn_mulVec_eq_zero_iff (hpivot : R p q ≠ 0) (z : Fin n → K) : pivotOn R p q *ᵥ z = 0 ↔ R *ᵥ z = 0 := by
  constructor
  · intro h
    have hp : (R *ᵥ z) p = 0 := by
      have hrow := congrFun h p
      rw [pivotOn_mulVec, if_pos rfl] at hrow
      exact (div_eq_zero_iff.mp hrow).resolve_right hpivot
    ext i
    have hrow := congrFun h i
    rw [pivotOn_mulVec, hp, mul_zero, sub_zero] at hrow
    split_ifs at hrow with hi
    · rw [hi]
      exact hp
    · exact hrow
  · intro h
    ext i
    rw [pivotOn_mulVec, h]
    simp

theorem Leading.pivotOn (h : Leading r R) (hp : p.val = r) (hq : q.val = r) (hpivot : R p q ≠ 0) :
    Leading (r + 1) (pivotOn R p q) := by
  intro i l hl
  rw [Lib.pivotOn, of_apply]
  rcases Nat.lt_succ_iff_lt_or_eq.mp hl with hl | hl
  · have hpl : R p l = 0 := by
      rw [h p l hl, if_neg (by omega)]
    rw [hpl, zero_div, mul_zero, sub_zero]
    split_ifs with hi hil hil
    · omega
    · rfl
    · rw [h i l hl, if_pos hil]
    · rw [h i l hl, if_neg hil]
  · have hlq : l = q := Fin.ext (hl.trans hq.symm)
    rw [hlq]
    split_ifs with hi hiq hiq
    · exact div_self hpivot
    · exact absurd (congrArg Fin.val hi) (by omega)
    · exact absurd (Fin.ext (by omega)) hi
    · rw [div_mul_cancel₀ _ hpivot, sub_self]

theorem Leading.submatrix (h : Leading r R) {σ : Equiv.Perm (Fin m)} {τ : Equiv.Perm (Fin n)}
    (hσ : ∀ i : Fin m, i.val < r → σ i = i) (hτ : ∀ l : Fin n, l.val < r → τ l = l) :
    Leading r (R.submatrix σ τ) := by
  intro i l hl
  rw [submatrix_apply, hτ l hl, h _ l hl]
  apply if_congr _ rfl rfl
  constructor
  · intro hi
    have hfix : σ (σ i) = σ i := hσ _ (by omega)
    rw [σ.injective hfix] at hi
    exact hi
  · intro hi
    rw [hσ i (by omega)]
    exact hi

end Pivoting

section Kernel

variable {K : Type*} [Field K] {m n r : ℕ} {R : Matrix (Fin m) (Fin n) K}

/-- All pivots are taken: what remains beside the unit columns is zero. -/
structure Reduced (r : ℕ) (R : Matrix (Fin m) (Fin n) K) : Prop where
  rows : r ≤ m
  cols : r ≤ n
  leading : Leading r R
  trailing : ∀ (i : Fin m) (j : Fin n), r ≤ i.val → r ≤ j.val → R i j = 0

def freeColumn (r : ℕ) (f : Fin (n - r)) : Fin n := ⟨r + f, by omega⟩

theorem freeColumn_injective : (freeColumn (n := n) r).Injective := fun f g h => by
  have := congrArg Fin.val h
  simp only [freeColumn] at this
  omega

theorem exists_freeColumn {l : Fin n} (hl : r ≤ l.val) : ∃ f : Fin (n - r), freeColumn r f = l :=
  ⟨⟨l.val - r, by omega⟩, Fin.ext (Nat.add_sub_cancel' hl)⟩

/-- What solves the first `r` equations with one free variable set to one. -/
structure IsFreeVector (R : Matrix (Fin m) (Fin n) K) (r : ℕ) (f : Fin (n - r)) (v : Fin n → K) : Prop where
  free : ∀ g, v (freeColumn r g) = if g = f then 1 else 0
  bound : ∀ (i : Fin m) (l : Fin n), i.val = l.val → l.val < r → v l = -R i (freeColumn r f)

theorem Reduced.mulVec_apply (h : Reduced r R) (z : Fin n → K) {i : Fin m} {l : Fin n} (hil : i.val = l.val)
    (hl : l.val < r) : (R *ᵥ z) i = z l + ∑ f, R i (freeColumn r f) * z (freeColumn r f) := by
  have himage : ∑ f, R i (freeColumn r f) * z (freeColumn r f) =
      ∑ j ∈ Finset.univ.image (freeColumn (n := n) r), R i j * z j := by
    rw [Finset.sum_image freeColumn_injective.injOn]
  rw [mulVec, dotProduct, ← Finset.add_sum_erase _ _ (Finset.mem_univ l), h.leading i l hl, if_pos hil, one_mul, himage]
  congr 1
  symm
  apply Finset.sum_subset
  · intro j hj
    obtain ⟨f, -, rfl⟩ := Finset.mem_image.mp hj
    apply Finset.mem_erase.mpr ⟨_, Finset.mem_univ _⟩
    intro heq
    have := congrArg Fin.val heq
    simp only [freeColumn] at this
    omega
  · intro j hj hfree
    have hjr : j.val < r := by
      by_contra hjr
      obtain ⟨f, hf⟩ := exists_freeColumn (not_lt.mp hjr)
      exact hfree (Finset.mem_image.mpr ⟨f, Finset.mem_univ f, hf⟩)
    have hjl := Finset.ne_of_mem_erase hj
    rw [h.leading i j hjr, if_neg fun hij => hjl (Fin.ext (hij.symm.trans hil)), zero_mul]

theorem Reduced.mulVec_trailing (h : Reduced r R) (z : Fin n → K) {i : Fin m} (hi : r ≤ i.val) : (R *ᵥ z) i = 0 := by
  rw [mulVec, dotProduct]
  apply Finset.sum_eq_zero
  intro j _
  rcases lt_or_ge j.val r with hj | hj
  · rw [h.leading i j hj, if_neg (by omega), zero_mul]
  · rw [h.trailing i j hi hj, zero_mul]

theorem Reduced.mulVec_freeVector (h : Reduced r R) {f : Fin (n - r)} {v : Fin n → K} (hv : IsFreeVector R r f v) :
    R *ᵥ v = 0 := by
  ext i
  rcases lt_or_ge i.val r with hi | hi
  · have hin : i.val < n := hi.trans_le h.cols
    rw [h.mulVec_apply v (l := ⟨i, hin⟩) rfl hi, hv.bound i ⟨i, hin⟩ rfl hi]
    simp only [hv.free, mul_ite, mul_one, mul_zero, Finset.sum_ite_eq', Finset.mem_univ, if_true, neg_add_cancel,
      Pi.zero_apply]
  · exact h.mulVec_trailing v hi

theorem Reduced.eq_zero (h : Reduced r R) {z : Fin n → K} (hz : R *ᵥ z = 0) (hfree : ∀ f, z (freeColumn r f) = 0) :
    z = 0 := by
  ext l
  rcases lt_or_ge l.val r with hl | hl
  · have hlm : l.val < m := hl.trans_le h.rows
    have hrow := h.mulVec_apply z (i := ⟨l, hlm⟩) rfl hl
    rw [hz] at hrow
    simpa [hfree] using hrow.symm
  · obtain ⟨f, rfl⟩ := exists_freeColumn hl
    exact hfree f

/-- The vectors read off a reduced matrix through the order of its columns describe the kernel it came from. -/
theorem Reduced.freeCoordinates {A : Matrix (Fin m) (Fin n) K} (h : Reduced r R) (e : Equiv.Perm (Fin n))
    (hkernel : ∀ x, R *ᵥ (x ∘ e) = 0 ↔ A *ᵥ x = 0) {v : Fin (n - r) → Fin n → K} (c : Fin (n - r) → K)
    (hv : ∀ f, IsFreeVector R r f (v f ∘ e)) :
    FreeCoordinates (LinearMap.ker A.mulVecLin) (fun f => c f • v f) (fun f => e (freeColumn r f)) c where
  mem f := by
    apply LinearMap.mem_ker.mpr
    rw [mulVecLin_apply, mulVec_smul, (hkernel (v f)).mp (h.mulVec_freeVector (hv f)), smul_zero]
  coordinate f g := by
    have hfree := (hv f).free g
    rw [Function.comp_apply] at hfree
    rw [Pi.smul_apply, hfree, smul_eq_mul, mul_ite, mul_one, mul_zero]
  determined x hx hfree := by
    have hz : R *ᵥ (x ∘ e) = 0 := (hkernel x).mpr (LinearMap.mem_ker.mp hx)
    have hzero := h.eq_zero hz hfree
    ext j
    rw [← e.apply_symm_apply j]
    exact congrFun hzero (e.symm j)

end Kernel

end Klett.Lib

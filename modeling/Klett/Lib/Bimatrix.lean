import Mathlib.Analysis.Convex.StdSimplex
import Mathlib.LinearAlgebra.Matrix.DotProduct

namespace Klett.Lib

open Matrix

section Actions

variable {K ι : Type*} [Fintype ι]

def bestReplies [LinearOrder K] (u : ι → K) : Finset ι := {i | ∀ i', u i' ≤ u i}

def support [Zero K] [DecidableEq K] (x : ι → K) : Finset ι := {i | x i ≠ 0}

theorem mem_bestReplies [LinearOrder K] {u : ι → K} {i : ι} : i ∈ bestReplies u ↔ ∀ i', u i' ≤ u i := by
  simp [bestReplies]

theorem mem_support [Zero K] [DecidableEq K] {x : ι → K} {i : ι} : i ∈ support x ↔ x i ≠ 0 := by
  simp [support]

theorem dotProduct_eq_of_support [Semiring K] {x u : ι → K} {v : K} (hx : ∑ i, x i = 1)
    (hu : ∀ i, x i ≠ 0 → u i = v) : x ⬝ᵥ u = v := by
  calc x ⬝ᵥ u = ∑ i, x i * v := by
        apply Finset.sum_congr rfl
        intro i _
        by_cases hi : x i = 0
        · rw [hi, zero_mul, zero_mul]
        · rw [hu i hi]
    _ = v := by rw [← Finset.sum_mul, hx, one_mul]

end Actions

section Plays

variable {K ι σ : Type*} [Semiring K]

/-- `x` gives the actions that `e` lists the weights `z`, and the others nothing. -/
structure Plays (e : σ ↪ ι) (z : σ → K) (x : ι → K) : Prop where
  on : ∀ s, x (e s) = z s
  off : ∀ i, i ∉ Set.range e → x i = 0

variable {e : σ ↪ ι} {z : σ → K} {x : ι → K}

theorem plays_self (hx : ∀ i, i ∉ Set.range e → x i = 0) : Plays e (fun s => x (e s)) x := ⟨fun _ => rfl, hx⟩

theorem exists_plays (e : σ ↪ ι) (z : σ → K) : ∃ x, Plays e z x :=
  ⟨Function.extend e z 0, fun s => e.injective.extend_apply z (0 : ι → K) s,
    fun i hi => Function.extend_apply' z (0 : ι → K) i hi⟩

theorem Plays.unique {x' : ι → K} (h : Plays e z x) (h' : Plays e z x') : x = x' := by
  funext i
  by_cases hi : i ∈ Set.range e
  · obtain ⟨s, rfl⟩ := hi
    rw [h.on, h'.on]
  · rw [h.off i hi, h'.off i hi]

variable [Fintype ι] [Fintype σ]

theorem Plays.sum_mul (h : Plays e z x) (f : ι → K) : ∑ i, f i * x i = ∑ s, f (e s) * z s := by
  refine (Fintype.sum_of_injective e e.injective _ _ (fun i hi => ?_) fun s => ?_).symm
  · rw [h.off i hi, mul_zero]
  · rw [h.on]

theorem Plays.sum (h : Plays e z x) : ∑ i, x i = ∑ s, z s := by
  simpa only [one_mul] using h.sum_mul fun _ => 1

theorem Plays.mulVec (h : Plays e z x) {κ : Type*} (A : Matrix κ ι K) (i : κ) :
    (A *ᵥ x) i = (A.submatrix id e *ᵥ z) i :=
  h.sum_mul (A i)

theorem Plays.mem_stdSimplex [PartialOrder K] (h : Plays e z x) (hz : ∀ s, 0 ≤ z s)
    (hsum : ∑ s, z s = 1) : x ∈ stdSimplex K ι := by
  refine ⟨fun i => ?_, h.sum.trans hsum⟩
  by_cases hi : i ∈ Set.range e
  · obtain ⟨s, rfl⟩ := hi
    rw [h.on]
    exact hz s
  · exact (h.off i hi).ge

end Plays

section Replies

variable {K : Type*} [Field K] [LinearOrder K] {ι κ : Type*} [Fintype ι] [Fintype κ]

/-- Against payoffs `u` for the pure actions, `x` is a mixed strategy that no mixed strategy beats. -/
def Reply (u x : ι → K) : Prop := x ∈ stdSimplex K ι ∧ ∀ x' ∈ stdSimplex K ι, x' ⬝ᵥ u ≤ x ⬝ᵥ u

def IsEquilibrium (A B : Matrix ι κ K) (x : ι → K) (y : κ → K) : Prop := Reply (A *ᵥ y) x ∧ Reply (Bᵀ *ᵥ x) y

/-- No mixed strategy has more pure best responses than actions in its support. -/
def Nondegenerate (A B : Matrix ι κ K) : Prop :=
  (∀ x ∈ stdSimplex K ι, (bestReplies (Bᵀ *ᵥ x)).card ≤ (support x).card) ∧
    ∀ y ∈ stdSimplex K κ, (bestReplies (A *ᵥ y)).card ≤ (support y).card

variable {A B : Matrix ι κ K} {u x : ι → K} {y : κ → K} {v : K}

theorem Nondegenerate.transpose (h : Nondegenerate A B) : Nondegenerate Bᵀ Aᵀ := by
  rw [Nondegenerate, transpose_transpose]
  exact ⟨h.2, h.1⟩

theorem IsEquilibrium.transpose (h : IsEquilibrium A B x y) : IsEquilibrium Bᵀ Aᵀ y x := by
  rw [IsEquilibrium, transpose_transpose]
  exact ⟨h.2, h.1⟩

variable [IsStrictOrderedRing K]

theorem dotProduct_le_of_le (hx : x ∈ stdSimplex K ι) (hu : ∀ i, u i ≤ v) : x ⬝ᵥ u ≤ v := by
  calc x ⬝ᵥ u ≤ ∑ i, x i * v := Finset.sum_le_sum fun i _ => mul_le_mul_of_nonneg_left (hu i) (hx.1 i)
    _ = v := by rw [← Finset.sum_mul, hx.2, one_mul]

theorem reply_iff_le : Reply u x ↔ x ∈ stdSimplex K ι ∧ ∀ i, u i ≤ x ⬝ᵥ u := by
  classical
  refine and_congr_right fun _ => ⟨fun h i => ?_, fun h x' hx' => dotProduct_le_of_le hx' h⟩
  have hi := h (Pi.single i 1) (single_mem_stdSimplex K i)
  rwa [single_one_dotProduct] at hi

theorem reply_of_value (hx : x ∈ stdSimplex K ι) (hu : ∀ i, u i ≤ v) (hsupport : ∀ i, x i ≠ 0 → u i = v) :
    Reply u x := by
  refine reply_iff_le.mpr ⟨hx, fun i => ?_⟩
  rw [dotProduct_eq_of_support hx.2 hsupport]
  exact hu i

theorem Reply.value (h : Reply u x) {i : ι} (hi : x i ≠ 0) : u i = x ⬝ᵥ u := by
  obtain ⟨hx, hle⟩ := reply_iff_le.mp h
  have hzero : ∑ i, x i * (x ⬝ᵥ u - u i) = 0 := by
    simp only [mul_sub, Finset.sum_sub_distrib]
    rw [← Finset.sum_mul, hx.2, one_mul]
    exact sub_self _
  have hterm := (Finset.sum_eq_zero_iff_of_nonneg fun i _ =>
    mul_nonneg (hx.1 i) (sub_nonneg.mpr (hle i))).mp hzero i (Finset.mem_univ i)
  rcases mul_eq_zero.mp hterm with h0 | h0
  · exact absurd h0 hi
  · exact (sub_eq_zero.mp h0).symm

theorem Reply.support_subset (h : Reply u x) : support x ⊆ bestReplies u := by
  intro i hi
  rw [mem_bestReplies, h.value (mem_support.mp hi)]
  exact (reply_iff_le.mp h).2

theorem Reply.mem_bestReplies_iff (h : Reply u x) {i : ι} : i ∈ bestReplies u ↔ u i = x ⬝ᵥ u := by
  obtain ⟨hx, hle⟩ := reply_iff_le.mp h
  rw [mem_bestReplies]
  constructor
  · exact fun hi => le_antisymm (hle i) (dotProduct_le_of_le hx hi)
  · exact fun hi i' => hi ▸ hle i'

theorem support_nonempty (hx : x ∈ stdSimplex K ι) : (support x).Nonempty := by
  by_contra hempty
  have hzero : ∀ i, x i = 0 := fun i => by
    by_contra hi
    exact hempty ⟨i, mem_support.mpr hi⟩
  have hsum := hx.2
  simp [hzero] at hsum

section Nondegenerate

variable (hgame : Nondegenerate A B) (h : IsEquilibrium A B x y)

include hgame h

theorem card_support_eq : (support x).card = (support y).card := by
  have hx := (Finset.card_le_card h.1.support_subset).trans (hgame.2 y h.2.1)
  have hy := (Finset.card_le_card h.2.support_subset).trans (hgame.1 x h.1.1)
  omega

theorem bestReplies_eq_support : bestReplies (A *ᵥ y) = support x := by
  refine (Finset.eq_of_subset_of_card_le h.1.support_subset ?_).symm
  rw [card_support_eq hgame h]
  exact hgame.2 y h.2.1

end Nondegenerate

section Equalizes

variable {σ τ : Type*} {e : σ ↪ ι} {f : τ ↪ κ} {w : K}

/-- A mixed strategy on the actions `f` lists that makes every action `e` lists pay `v`. -/
structure Equalizes (A : Matrix ι κ K) (e : σ ↪ ι) (f : τ ↪ κ) (y : κ → K) (v : K) : Prop where
  mixed : y ∈ stdSimplex K κ
  only : ∀ j, j ∉ Set.range f → y j = 0
  value : ∀ s, (A *ᵥ y) (e s) = v

theorem reply_iff_of_value (hx : x ∈ stdSimplex K ι) (honly : ∀ i, i ∉ Set.range e → x i = 0)
    (hu : ∀ s, u (e s) = v) : Reply u x ↔ ∀ i, u i ≤ v := by
  have hsupport (i : ι) (hi : x i ≠ 0) : u i = v := by
    by_contra hne
    refine hi (honly i fun hmem => ?_)
    obtain ⟨s, rfl⟩ := hmem
    exact hne (hu s)
  constructor
  · intro hreply i
    rw [← dotProduct_eq_of_support hx.2 hsupport]
    exact (reply_iff_le.mp hreply).2 i
  · exact fun hle => reply_of_value hx hle hsupport

theorem Equalizes.equilibrium_iff (hy : Equalizes A e f y v) (hx : Equalizes Bᵀ f e x w) :
    IsEquilibrium A B x y ↔ (∀ i, (A *ᵥ y) i ≤ v) ∧ ∀ j, (Bᵀ *ᵥ x) j ≤ w :=
  and_congr (reply_iff_of_value hx.mixed hx.only hy.value) (reply_iff_of_value hy.mixed hy.only hx.value)

end Equalizes

end Replies

end Klett.Lib

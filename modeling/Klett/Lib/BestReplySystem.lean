import Klett.Lib.Bimatrix
import Klett.Lib.Complementary
import Mathlib.Algebra.BigOperators.Field
import Mathlib.Data.Matrix.Block
import Mathlib.Tactic.Linarith

set_option linter.unusedSectionVars false

namespace Klett.Lib

open Matrix

section Shift

variable {K : Type*} [Field K] [LinearOrder K] [IsStrictOrderedRing K] {ι κ : Type*} [Fintype ι] [Fintype κ]
  {A B : Matrix ι κ K} {u x : ι → K} {y : κ → K} {c : K}

theorem reply_add_const : Reply (fun i => u i + c) x ↔ Reply u x := by
  rw [reply_iff_le, reply_iff_le]
  apply and_congr_right
  intro hx
  apply forall_congr'
  intro i
  have hdot : x ⬝ᵥ (fun i => u i + c) = x ⬝ᵥ u + c := by
    simp only [dotProduct, mul_add, Finset.sum_add_distrib]
    rw [← Finset.sum_mul, hx.2, one_mul]
  rw [hdot, add_le_add_iff_right]

theorem bestReplies_add_const : bestReplies (fun i => u i + c) = bestReplies u := by
  ext i
  simp only [mem_bestReplies, add_le_add_iff_right]

theorem mulVec_add_const (A : Matrix ι κ K) (c : K) (y : κ → K) :
    (Matrix.of fun i j => A i j + c) *ᵥ y = fun i => (A *ᵥ y) i + c * ∑ j, y j := by
  funext i
  simp [mulVec, dotProduct, add_mul, Finset.sum_add_distrib, Finset.mul_sum]

theorem mulVec_normalised (A : Matrix ι κ K) (y : κ → K) (i : ι) :
    (A *ᵥ fun j => y j / ∑ j, y j) i = (A *ᵥ y) i / ∑ j, y j := by
  simp only [mulVec, dotProduct, Finset.sum_div, mul_div_assoc]

theorem sum_pos_of_ne_zero (hx : ∀ i, 0 ≤ x i) (hne : x ≠ 0) : 0 < ∑ i, x i := by
  obtain ⟨i, hi⟩ := Function.ne_iff.mp hne
  exact Finset.sum_pos' (fun i _ => hx i) ⟨i, Finset.mem_univ i, lt_of_le_of_ne (hx i) (Ne.symm hi)⟩

theorem normalised_mem_stdSimplex (hx : ∀ i, 0 ≤ x i) (hne : x ≠ 0) : (fun i => x i / ∑ i, x i) ∈ stdSimplex K ι := by
  have hpos := sum_pos_of_ne_zero hx hne
  refine ⟨fun i => div_nonneg (hx i) hpos.le, ?_⟩
  rw [← Finset.sum_div, div_self hpos.ne']

theorem support_normalised (hx : ∀ i, 0 ≤ x i) (hne : x ≠ 0) : support (fun i => x i / ∑ i, x i) = support x := by
  have hpos := sum_pos_of_ne_zero hx hne
  ext i
  rw [mem_support, mem_support, div_ne_zero_iff]
  exact and_iff_left hpos.ne'

end Shift

section System

variable {K : Type*} [Field K] {ι κ : Type*} [DecidableEq ι] [DecidableEq κ] [Fintype ι] [Fintype κ]

/-- The labels are the actions of both players: each has a weight and, as slack, what it falls short of the best. -/
def bestReplyMatrix (A B : Matrix ι κ K) : Matrix (ι ⊕ κ) (ι ⊕ κ) K := Matrix.fromBlocks 0 A Bᵀ 0

theorem act_bestReplyMatrix_inl {V : Type*} [AddCommGroup V] [Module K V] (A B : Matrix ι κ K) (z : ι ⊕ κ → V) (i : ι) :
    act (bestReplyMatrix A B) z (.inl i) = act A (fun j => z (.inr j)) i := by
  simp [act_apply, bestReplyMatrix]

theorem act_bestReplyMatrix_inr {V : Type*} [AddCommGroup V] [Module K V] (A B : Matrix ι κ K) (z : ι ⊕ κ → V) (j : κ) :
    act (bestReplyMatrix A B) z (.inr j) = act Bᵀ (fun i => z (.inl i)) j := by
  simp [act_apply, bestReplyMatrix]

end System

section Solutions

variable {K : Type*} [Field K] [LinearOrder K] [IsStrictOrderedRing K] {ι κ : Type*} [DecidableEq ι] [DecidableEq κ]
  [Fintype ι] [Fintype κ] {A B : Matrix ι κ K}

/-- Weights and slacks of both players that satisfy the constraints, with one of the two zero for every action. -/
structure BestReplySolution (A B : Matrix ι κ K) (x : ι → K) (y : κ → K) (r : ι → K) (s : κ → K) : Prop where
  weight₁ : ∀ i, 0 ≤ x i
  weight₂ : ∀ j, 0 ≤ y j
  slack₁ : ∀ i, 0 ≤ r i
  slack₂ : ∀ j, 0 ≤ s j
  rows₁ : ∀ i, (A *ᵥ y) i + r i = 1
  rows₂ : ∀ j, (Bᵀ *ᵥ x) j + s j = 1
  complementary₁ : ∀ i, x i = 0 ∨ r i = 0
  complementary₂ : ∀ j, y j = 0 ∨ s j = 0

variable {x : ι → K} {y : κ → K} {r : ι → K} {s : κ → K}

theorem BestReplySolution.reply (h : BestReplySolution A B x y r s) (hx : x ≠ 0) (hy : y ≠ 0) :
    Reply (A *ᵥ fun j => y j / ∑ j, y j) fun i => x i / ∑ i, x i := by
  have hpos := sum_pos_of_ne_zero h.weight₂ hy
  have hpay (i : ι) : (A *ᵥ fun j => y j / ∑ j, y j) i = (1 - r i) / ∑ j, y j := by
    rw [← h.rows₁ i, add_sub_cancel_right, mulVec_normalised]
  refine reply_of_value (normalised_mem_stdSimplex h.weight₁ hx) (v := 1 / ∑ j, y j) (fun i => ?_) fun i hi => ?_
  · rw [hpay]
    exact div_le_div_of_nonneg_right (sub_le_self _ (h.slack₁ i)) hpos.le
  · have hxi : x i ≠ 0 := fun h0 => hi (by rw [h0, zero_div])
    rw [hpay, (h.complementary₁ i).resolve_left hxi, sub_zero]

theorem BestReplySolution.transpose (h : BestReplySolution A B x y r s) : BestReplySolution Bᵀ Aᵀ y x s r :=
  ⟨h.weight₂, h.weight₁, h.slack₂, h.slack₁, h.rows₂, h.rows₁, h.complementary₂, h.complementary₁⟩

theorem BestReplySolution.equilibrium (h : BestReplySolution A B x y r s) (hx : x ≠ 0) (hy : y ≠ 0) :
    IsEquilibrium A B (fun i => x i / ∑ i, x i) fun j => y j / ∑ j, y j :=
  ⟨h.reply hx hy, h.transpose.reply hy hx⟩

theorem BestReplySolution.eq_zero (h : BestReplySolution A B x y r s) (hx : x = 0) : y = 0 := by
  funext j
  have hrow := h.rows₂ j
  rw [hx, mulVec_zero, Pi.zero_apply, zero_add] at hrow
  exact (h.complementary₂ j).resolve_right (hrow ▸ one_ne_zero)

variable {t : Tableau (ι ⊕ κ) ((ι ⊕ κ) × Bool) K K}

theorem Tableau.basic_of_value_ne_zero {v : (ι ⊕ κ) × Bool} (hv : t.value v ≠ 0) : v ∈ Set.range t.basis := by
  by_contra hnot
  exact hv (Tableau.value_of_nonbasic hnot)

theorem Complementary.value_eq_zero (hc : Complementary t) (l : ι ⊕ κ) : t.value (l, true) = 0 ∨ t.value (l, false) = 0 := by
  by_contra hnone
  obtain ⟨h₁, h₂⟩ := not_or.mp hnone
  obtain ⟨r₁, hr₁⟩ := Tableau.basic_of_value_ne_zero h₁
  obtain ⟨r₂, hr₂⟩ := Tableau.basic_of_value_ne_zero h₂
  have hrow : r₁ = r₂ := hc.1 ((congrArg Prod.fst hr₁).trans (congrArg Prod.fst hr₂).symm)
  rw [hrow, hr₂] at hr₁
  cases hr₁

theorem Tableau.Feasible.rows₁ (ht : t.Feasible (constraints (bestReplyMatrix A B)) fun _ => 1) (i : ι) :
    (A *ᵥ fun j => t.value (.inr j, true)) i + t.value (.inl i, false) = 1 := by
  have hrow := congrFun ht.value_solves (.inl i)
  rw [← hrow, act_constraints, act_bestReplyMatrix_inl, mulVec_eq_act]

theorem Tableau.Feasible.rows₂ (ht : t.Feasible (constraints (bestReplyMatrix A B)) fun _ => 1) (j : κ) :
    (Bᵀ *ᵥ fun i => t.value (.inl i, true)) j + t.value (.inr j, false) = 1 := by
  have hrow := congrFun ht.value_solves (.inr j)
  rw [← hrow, act_constraints, act_bestReplyMatrix_inr, mulVec_eq_act]

theorem le_of_row {a w : κ → K} {c : K} (ha : ∀ j, 0 ≤ a j) (hw : ∀ j, 0 ≤ w j) (hc : 0 ≤ c)
    (h : ∑ j, a j * w j + c = 1) (j : κ) : a j * w j ≤ 1 ∧ c ≤ 1 := by
  have hterms : ∀ j ∈ Finset.univ, 0 ≤ a j * w j := fun j _ => mul_nonneg (ha j) (hw j)
  have hterm := Finset.single_le_sum hterms (Finset.mem_univ j)
  have hsum := Finset.sum_nonneg hterms
  constructor <;> linarith

theorem Tableau.Feasible.bounds₁ (ht : t.Feasible (constraints (bestReplyMatrix A B)) fun _ => 1)
    (hA : ∀ i j, 0 ≤ A i j) (i : ι) (j : κ) : A i j * t.value (.inr j, true) ≤ 1 ∧ t.value (.inl i, false) ≤ 1 :=
  le_of_row (hA i) (fun _ => ht.value_nonneg _) (ht.value_nonneg _) (ht.rows₁ i) j

theorem Tableau.Feasible.bounds₂ (ht : t.Feasible (constraints (bestReplyMatrix A B)) fun _ => 1)
    (hB : ∀ i j, 0 ≤ B i j) (i : ι) (j : κ) : B i j * t.value (.inl i, true) ≤ 1 ∧ t.value (.inr j, false) ≤ 1 :=
  le_of_row (fun i => hB i j) (fun _ => ht.value_nonneg _) (ht.value_nonneg _) (ht.rows₂ j) i

theorem Tableau.Feasible.solution (ht : t.Feasible (constraints (bestReplyMatrix A B)) fun _ => 1)
    (hc : Complementary t) : BestReplySolution A B (fun i => t.value (.inl i, true)) (fun j => t.value (.inr j, true))
      (fun i => t.value (.inl i, false)) (fun j => t.value (.inr j, false)) :=
  ⟨fun _ => ht.value_nonneg _, fun _ => ht.value_nonneg _, fun _ => ht.value_nonneg _, fun _ => ht.value_nonneg _,
    ht.rows₁, ht.rows₂, fun _ => hc.value_eq_zero _, fun _ => hc.value_eq_zero _⟩

theorem Tableau.Feasible.weights_ne_zero (ht : t.Feasible (constraints (bestReplyMatrix A B)) fun _ => 1)
    (hc : Complementary t) (hown : ∃ r, (t.basis r).2 = true) :
    (fun i => t.value (.inl i, true)) ≠ 0 ∧ (fun j => t.value (.inr j, true)) ≠ 0 := by
  have hsol := ht.solution hc
  have hboth (hx : (fun i => t.value (Sum.inl i, true)) = 0) (hy : (fun j => t.value (Sum.inr j, true)) = 0) : False := by
    have hslack (l : ι ⊕ κ) : t.value (l, false) = 1 := by
      cases l with
      | inl i =>
        have hrow := hsol.rows₁ i
        rwa [hy, mulVec_zero, Pi.zero_apply, zero_add] at hrow
      | inr j =>
        have hrow := hsol.rows₂ j
        rwa [hx, mulVec_zero, Pi.zero_apply, zero_add] at hrow
    obtain ⟨r, hr⟩ := hown
    obtain ⟨r', hr'⟩ := Tableau.basic_of_value_ne_zero (hslack (t.basis r).1 ▸ one_ne_zero)
    have hlabel : (t.basis r').1 = (t.basis r).1 := by rw [hr']
    rw [hc.1 hlabel] at hr'
    rw [hr'] at hr
    cases hr
  exact ⟨fun hx => hboth hx (hsol.eq_zero hx), fun hy => hboth (hsol.transpose.eq_zero hy) hy⟩

theorem eq_zero_of_sum_add_eq_zero {a w : κ → K} {c : K} (ha : ∀ j, 0 < a j) (hw : ∀ j, 0 ≤ w j) (hc : 0 ≤ c)
    (h : ∑ j, a j * w j + c = 0) : (∀ j, w j = 0) ∧ c = 0 := by
  have hterms : ∀ j ∈ Finset.univ, 0 ≤ a j * w j := fun j _ => mul_nonneg (ha j).le (hw j)
  obtain ⟨hleft, hright⟩ := (add_eq_zero_iff_of_nonneg (Finset.sum_nonneg hterms) hc).mp h
  refine ⟨fun j => ?_, hright⟩
  have hj := (Finset.sum_eq_zero_iff_of_nonneg hterms).mp hleft j (Finset.mem_univ j)
  exact (mul_eq_zero.mp hj).resolve_left (ha j).ne'

section Supports

def Tableau.actions₁ (t : Tableau (ι ⊕ κ) ((ι ⊕ κ) × Bool) K K) : Finset ι := {i | ∃ r, t.basis r = (.inl i, true)}

def Tableau.actions₂ (t : Tableau (ι ⊕ κ) ((ι ⊕ κ) × Bool) K K) : Finset κ := {j | ∃ r, t.basis r = (.inr j, true)}

variable {b : ι ⊕ κ → K}

theorem mem_actions₁ {i : ι} : i ∈ t.actions₁ ↔ (.inl i, true) ∈ Set.range t.basis := by
  simp only [Tableau.actions₁, Finset.mem_filter, Finset.mem_univ, true_and, Set.mem_range]

theorem mem_actions₂ {j : κ} : j ∈ t.actions₂ ↔ (.inr j, true) ∈ Set.range t.basis := by
  simp only [Tableau.actions₂, Finset.mem_filter, Finset.mem_univ, true_and, Set.mem_range]

theorem kernel₂ (hc : Complementary t) (ht : t.Represents (constraints (bestReplyMatrix A B)) b) {d : κ → K}
    (hd : ∀ j, j ∉ t.actions₂ → d j = 0) (hrow : ∀ i ∈ t.actions₁, (A *ᵥ d) i = 0) : d = 0 := by
  have hz : Sum.elim (0 : ι → K) d = 0 := by
    refine hc.kernel ht (fun l hl => ?_) fun l hl => ?_
    · cases l with
      | inl i => rfl
      | inr j => exact hd j fun hj => hl (mem_actions₂.mp hj)
    · rw [mulVec_eq_act]
      cases l with
      | inl i =>
        rw [act_bestReplyMatrix_inl, ← mulVec_eq_act]
        exact hrow i (mem_actions₁.mpr hl)
      | inr j =>
        rw [act_bestReplyMatrix_inr]
        exact congrFun (act_zero Bᵀ) j
  exact funext fun j => congrFun hz (.inr j)

theorem kernel₁ (hc : Complementary t) (ht : t.Represents (constraints (bestReplyMatrix A B)) b) {d : ι → K}
    (hd : ∀ i, i ∉ t.actions₁ → d i = 0) (hrow : ∀ j ∈ t.actions₂, (Bᵀ *ᵥ d) j = 0) : d = 0 := by
  have hz : Sum.elim d (0 : κ → K) = 0 := by
    refine hc.kernel ht (fun l hl => ?_) fun l hl => ?_
    · cases l with
      | inl i => exact hd i fun hi => hl (mem_actions₁.mp hi)
      | inr j => rfl
    · rw [mulVec_eq_act]
      cases l with
      | inl i =>
        rw [act_bestReplyMatrix_inl]
        exact congrFun (act_zero A) i
      | inr j =>
        rw [act_bestReplyMatrix_inr, ← mulVec_eq_act]
        exact hrow j (mem_actions₂.mpr hl)
  exact funext fun i => congrFun hz (.inl i)

theorem not_mem_actions₁ {i : ι} (hi : i ∉ t.actions₁) : t.value (.inl i, true) = 0 :=
  Tableau.value_of_nonbasic fun hmem => hi (mem_actions₁.mpr hmem)

theorem not_mem_actions₂ {j : κ} (hj : j ∉ t.actions₂) : t.value (.inr j, true) = 0 :=
  Tableau.value_of_nonbasic fun hmem => hj (mem_actions₂.mpr hmem)

theorem Complementary.row₁ (hc : Complementary t) (ht : t.Feasible (constraints (bestReplyMatrix A B)) fun _ => 1)
    {i : ι} (hi : i ∈ t.actions₁) : (A *ᵥ fun j => t.value (.inr j, true)) i = 1 := by
  have hslack : t.value (.inl i, false) = 0 :=
    Tableau.value_of_nonbasic (hc.slack_nonbasic (mem_actions₁.mp hi))
  rw [← (ht.solution hc).rows₁ i, hslack, add_zero]

theorem Complementary.row₂ (hc : Complementary t) (ht : t.Feasible (constraints (bestReplyMatrix A B)) fun _ => 1)
    {j : κ} (hj : j ∈ t.actions₂) : (Bᵀ *ᵥ fun i => t.value (.inl i, true)) j = 1 := by
  have hslack : t.value (.inr j, false) = 0 :=
    Tableau.value_of_nonbasic (hc.slack_nonbasic (mem_actions₂.mp hj))
  rw [← (ht.solution hc).rows₂ j, hslack, add_zero]

theorem card_le_of_kernel {I : Finset ι} {J : Finset κ} (hkernel : ∀ d : κ → K, (∀ j, j ∉ J → d j = 0) →
    (∀ i ∈ I, (A *ᵥ d) i = 0) → d = 0) : J.card ≤ I.card := by
  let f := (A.submatrix (Subtype.val : I → ι) (Subtype.val : J → κ)).mulVecLin
  have hinjective : Function.Injective f := by
    apply (injective_iff_map_eq_zero f).mpr
    intro z hz
    obtain ⟨d, hd⟩ := exists_plays (Function.Embedding.subtype (· ∈ J)) z
    have hd0 : d = 0 := by
      refine hkernel d (fun j hj => hd.off j fun ⟨j', hj'⟩ => hj (hj' ▸ j'.2)) fun i hi => ?_
      rw [hd.mulVec A i]
      exact congrFun hz ⟨i, hi⟩
    funext j
    rw [← hd.on j, hd0]
    rfl
  simpa using LinearMap.finrank_le_finrank_of_injective hinjective

theorem card_actions_eq (hc : Complementary t) (ht : t.Represents (constraints (bestReplyMatrix A B)) b) :
    t.actions₁.card = t.actions₂.card :=
  le_antisymm (card_le_of_kernel fun _ hd hrow => kernel₁ hc ht hd hrow)
    (card_le_of_kernel fun _ hd hrow => kernel₂ hc ht hd hrow)

end Supports

theorem bounded_bestReplySystem [Nonempty ι] [Nonempty κ] (hA : ∀ i j, 0 < A i j) (hB : ∀ i j, 0 < B i j) :
    Bounded (constraints (bestReplyMatrix A B)) := by
  intro z hz hzero
  have hrow (l : ι ⊕ κ) : act (bestReplyMatrix A B) (fun l => z (l, true)) l + z (l, false) = 0 := by
    rw [← act_constraints, ← mulVec_eq_act, hzero, Pi.zero_apply]
  have hrow₁ (i : ι) : (∀ j, z (.inr j, true) = 0) ∧ z (.inl i, false) = 0 := by
    have h := hrow (.inl i)
    rw [act_bestReplyMatrix_inl] at h
    exact eq_zero_of_sum_add_eq_zero (hA i) (fun j => hz _) (hz _) h
  have hrow₂ (j : κ) : (∀ i, z (.inl i, true) = 0) ∧ z (.inr j, false) = 0 := by
    have h := hrow (.inr j)
    rw [act_bestReplyMatrix_inr] at h
    exact eq_zero_of_sum_add_eq_zero (fun i => hB i j) (fun i => hz _) (hz _) h
  obtain ⟨i₀⟩ := ‹Nonempty ι›
  obtain ⟨j₀⟩ := ‹Nonempty κ›
  funext ⟨l, side⟩
  cases l with
  | inl i =>
    cases side with
    | true => exact (hrow₂ j₀).1 i
    | false => exact (hrow₁ i).2
  | inr j =>
    cases side with
    | true => exact (hrow₁ i₀).1 j
    | false => exact (hrow₂ j).2

end Solutions

end Klett.Lib

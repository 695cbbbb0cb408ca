import Klett.Lib.Tableau
import Mathlib.GroupTheory.Perm.Option

set_option linter.unusedSectionVars false

namespace Klett.Lib

open Matrix

section Orientation

variable {L : Type*} [DecidableEq L]

/-- Each label has a variable of its own and a slack; the other one of the two. -/
def partner (v : L × Bool) : L × Bool := (v.1, !v.2)

/-- Where a variable stands: by its label, but apart for the own variable of the dropped label. -/
def slot (d : L) (v : L × Bool) : Option L := if v = (d, true) then none else some v.1

def sideSign (v : L × Bool) : ℤˣ := if v.2 then -1 else 1

variable {d : L} {v : L × Bool}

theorem slot_eq_none_iff : slot d v = none ↔ v = (d, true) := by
  rw [slot]
  split_ifs with h <;> simp [h]

theorem slot_of_ne (h : v.1 ≠ d) : slot d v = some v.1 := if_neg fun heq => h (congrArg Prod.fst heq)

theorem slot_slack (l : L) : slot d (l, false) = some l := if_neg fun heq => by cases congrArg Prod.snd heq

theorem fst_of_slot {l : L} (h : slot d v = some l) : v.1 = l := by
  rw [slot] at h
  split_ifs at h
  exact Option.some.inj h

theorem slot_partner (h : v.1 ≠ d) : slot d (partner v) = slot d v := by
  rw [slot_of_ne h, slot_of_ne (v := partner v) h]
  rfl

theorem sideSign_partner (v : L × Bool) : sideSign (partner v) = -sideSign v := by
  obtain ⟨l, side⟩ := v
  cases side <;> simp [sideSign, partner]

variable [Fintype L]

/-- The variables `g` lists, those of the basis and the one that enters, fill every slot once; `s` is the sign of their
order, counted with the sides they stand on. -/
def Oriented (d : L) (g : Option L → L × Bool) (s : ℤˣ) : Prop :=
  ∃ π : Equiv.Perm (Option L), (∀ o, slot d (g o) = π o) ∧ Equiv.Perm.sign π * ∏ o, sideSign (g o) = s

variable {g : Option L → L × Bool} {s : ℤˣ}

theorem Oriented.slot_injective (h : Oriented d g s) {o o' : Option L} (heq : slot d (g o) = slot d (g o')) : o = o' := by
  obtain ⟨π, hπ, -⟩ := h
  rw [hπ, hπ] at heq
  exact π.injective heq

theorem Oriented.slot_surjective (h : Oriented d g s) (x : Option L) : ∃ o, slot d (g o) = x := by
  obtain ⟨π, hπ, -⟩ := h
  exact ⟨π.symm x, by rw [hπ, π.apply_symm_apply]⟩

theorem oriented_start (d : L) : Oriented d (fun o => o.elim (d, true) fun l => (l, false)) (-1) := by
  refine ⟨1, fun o => ?_, ?_⟩
  · cases o with
    | none => exact slot_eq_none_iff.mpr rfl
    | some l => exact slot_slack l
  · simp [Fintype.prod_option, sideSign]

theorem Oriented.swap (h : Oriented d g s) (r : L) : Oriented d (g ∘ Equiv.swap none (some r)) (-s) := by
  obtain ⟨π, hπ, hs⟩ := h
  refine ⟨π * Equiv.swap none (some r), fun o => hπ _, ?_⟩
  have hprod : ∏ o, sideSign ((g ∘ Equiv.swap none (some r)) o) = ∏ o, sideSign (g o) :=
    Equiv.prod_comp (Equiv.swap none (some r)) fun o => sideSign (g o)
  rw [hprod, Equiv.Perm.sign_mul, Equiv.Perm.sign_swap (Option.some_ne_none r).symm, mul_neg_one, neg_mul, hs]

theorem Oriented.follow (h : Oriented d g s) (hd : (g none).1 ≠ d) :
    Oriented d (Function.update g none (partner (g none))) (-s) := by
  obtain ⟨π, hπ, hs⟩ := h
  refine ⟨π, fun o => ?_, ?_⟩
  · cases o with
    | none => rw [Function.update_self, slot_partner hd, hπ]
    | some l => rw [Function.update_of_ne (Option.some_ne_none l), hπ]
  · rw [Fintype.prod_option] at hs ⊢
    rw [Function.update_self, sideSign_partner, neg_mul, mul_neg, ← hs]
    simp only [Function.update_of_ne (Option.some_ne_none _)]

theorem Oriented.labels_bijective (h : Oriented d g s) (hd : (g none).1 = d) :
    Function.Bijective fun r => (g (some r)).1 := by
  have hsurj : Function.Surjective fun r => (g (some r)).1 := by
    intro l
    obtain ⟨o, ho⟩ := h.slot_surjective (some l)
    cases o with
    | some r => exact ⟨r, fst_of_slot ho⟩
    | none =>
      have hl : l = d := (fst_of_slot ho).symm.trans hd
      obtain ⟨o', ho'⟩ := h.slot_surjective none
      cases o' with
      | none =>
        rw [ho] at ho'
        cases ho'
      | some r => exact ⟨r, (congrArg Prod.fst (slot_eq_none_iff.mp ho')).trans hl.symm⟩
  exact ⟨Finite.injective_iff_surjective.mpr hsurj, hsurj⟩

theorem Oriented.sign_of_slacks (h : Oriented d g s) (σ : Equiv.Perm L)
    (hg : ∀ r, g (some r) = (σ r, false)) : s = -Equiv.Perm.sign σ := by
  have hnone : g none = (d, true) := by
    obtain ⟨o, ho⟩ := h.slot_surjective none
    cases o with
    | none => exact slot_eq_none_iff.mp ho
    | some r =>
      rw [hg, slot_slack] at ho
      cases ho
  obtain ⟨π, hπ, rfl⟩ := h
  have hσ : π = Equiv.optionCongr σ := by
    ext1 o
    rw [← hπ]
    cases o with
    | none => rw [slot_eq_none_iff.mpr hnone, Equiv.optionCongr_apply, Option.map_none]
    | some r => rw [hg, slot_slack, Equiv.optionCongr_apply, Option.map_some]
  have hprod : ∏ o, sideSign (g o) = -1 := by
    rw [Fintype.prod_option, hnone, Finset.prod_eq_one fun r _ => by rw [hg]; rfl, mul_one]
    rfl
  rw [hprod, hσ, Equiv.optionCongr_sign, mul_neg_one]

end Orientation

section Pivoting

variable {L K V : Type*} [DecidableEq L] [Fintype L] [Field K] [LinearOrder K] [AddCommGroup V] [LinearOrder V]
  [Module K V]

/-- The constraint matrix of a linear complementarity problem: `M` for the variables of the labels, then their slacks. -/
def constraints (M : Matrix L L K) : Matrix L (L × Bool) K :=
  Matrix.of fun i v => if v.2 then M i v.1 else (1 : Matrix L L K) i v.1

def slackTableau (M : Matrix L L K) (b : L → V) : Tableau L (L × Bool) K V where
  coeff := constraints M
  rhs := b
  basis l := (l, false)

/-- A tableau and the variable that enters it next. -/
structure PathState (L K V : Type*) where
  tableau : Tableau L (L × Bool) K V
  entering : L × Bool

def PathState.slots (s : PathState L K V) : Option L → L × Bool := fun o => o.elim s.entering s.tableau.basis

def PathState.start (M : Matrix L L K) (b : L → V) (d : L) : PathState L K V := ⟨slackTableau M b, (d, true)⟩

def Next (d : L) (s s' : PathState L K V) : Prop :=
  ∃ r, s.tableau.Leaves s.entering r ∧ (s.tableau.basis r).1 ≠ d ∧
    s' = ⟨s.tableau.pivotAt r s.entering, partner (s.tableau.basis r)⟩

def Ends (d : L) (s : PathState L K V) (t : Tableau L (L × Bool) K V) : Prop :=
  ∃ r, s.tableau.Leaves s.entering r ∧ (s.tableau.basis r).1 = d ∧ t = s.tableau.pivotAt r s.entering

/-- What every state on the path keeps; the sign never changes. -/
structure OnPath (M : Matrix L L K) (b : L → V) (d : L) (s : PathState L K V) : Prop where
  feasible : s.tableau.Feasible (constraints M) b
  det_pos : 0 < ((constraints M).submatrix id s.tableau.basis).det
  oriented : Oriented d s.slots (-1)

variable {M : Matrix L L K} {b : L → V} {d : L} {s s' : PathState L K V} {t : Tableau L (L × Bool) K V} {r : L} {v : L × Bool}

theorem constraints_own (i l : L) : constraints M i (l, true) = M i l := by simp [constraints]

theorem constraints_slack (i l : L) : constraints M i (l, false) = (1 : Matrix L L K) i l := by simp [constraints]

theorem act_constraints (M : Matrix L L K) (z : L × Bool → V) (i : L) :
    act (constraints M) z i = act M (fun l => z (l, true)) i + z (i, false) := by
  have hslack : ∑ l, constraints M i (l, false) • z (l, false) = z (i, false) := by
    simp only [constraints_slack]
    exact congrFun (act_one fun l => z (l, false)) i
  rw [act_apply, Fintype.sum_prod_type]
  simp only [Fintype.sum_bool, Finset.sum_add_distrib, constraints_own]
  rw [hslack, act_apply]

theorem submatrix_slack (M : Matrix L L K) (σ : L → L) :
    (constraints M).submatrix id (fun l => (σ l, false)) = (1 : Matrix L L K).submatrix id σ := by
  ext i l
  rw [submatrix_apply, submatrix_apply, constraints_slack]

theorem slots_pivot : (⟨s.tableau.pivotAt r s.entering, v⟩ : PathState L K V).slots =
    Function.update (s.slots ∘ Equiv.swap none (some r)) none v := by
  funext o
  cases o with
  | none => simp [PathState.slots]
  | some l =>
    rw [Function.update_of_ne (Option.some_ne_none l)]
    by_cases hl : l = r
    · simp [PathState.slots, Tableau.pivotAt, hl]
    · have hne : some l ≠ some r := fun heq => hl (Option.some.inj heq)
      simp [PathState.slots, Tableau.pivotAt, hl, Equiv.swap_apply_of_ne_of_ne (Option.some_ne_none l) hne]

theorem slackTableau_represents : (slackTableau M b).Represents (constraints M) b := by
  exact ⟨fun i r => constraints_slack i r, 1, (Matrix.one_mul _).symm, (act_one b).symm⟩

def Complementary (t : Tableau L (L × Bool) K V) : Prop := Function.Bijective fun r => (t.basis r).1

theorem Complementary.slack_basic (hc : Complementary t) {l : L} (hl : (l, true) ∉ Set.range t.basis) :
    (l, false) ∈ Set.range t.basis := by
  obtain ⟨r, hr⟩ := hc.2 l
  refine ⟨r, Prod.ext hr (Bool.eq_false_iff.mpr fun htrue => hl ⟨r, Prod.ext hr htrue⟩)⟩

theorem Complementary.slack_nonbasic (hc : Complementary t) {l : L} (hl : (l, true) ∈ Set.range t.basis) :
    (l, false) ∉ Set.range t.basis := by
  rintro ⟨r', hr'⟩
  obtain ⟨r, hr⟩ := hl
  have hrow : r' = r := hc.1 (by simp only [hr, hr'])
  rw [hrow, hr] at hr'
  cases hr'

theorem Complementary.kernel (hc : Complementary t) (ht : t.Represents (constraints M) b) {z : L → K}
    (hz : ∀ l, (l, true) ∉ Set.range t.basis → z l = 0)
    (hrow : ∀ l, (l, true) ∈ Set.range t.basis → (M *ᵥ z) l = 0) : z = 0 := by
  let z' : L × Bool → K := fun v => if v.2 then z v.1 else -(M *ᵥ z) v.1
  have hzero : constraints M *ᵥ z' = 0 := by
    rw [mulVec_eq_act]
    funext l
    rw [act_constraints, ← mulVec_eq_act]
    exact add_neg_cancel _
  have hz' : z' = 0 := ht.eq_zero_of_basic hzero fun v hv => by
    obtain ⟨l, side⟩ := v
    cases side with
    | true => exact hz l hv
    | false =>
      have hl : (l, true) ∈ Set.range t.basis := by
        by_contra hl
        exact hv (hc.slack_basic hl)
      exact neg_eq_zero.mpr (hrow l hl)
  exact funext fun l => congrFun hz' (l, true)

section Ordered

variable [IsStrictOrderedRing K] [IsOrderedAddMonoid V] [PosSMulStrictMono K V]

theorem OnPath.start (hb : ∀ l, 0 ≤ b l) (d : L) : OnPath M b d (PathState.start M b d) := by
  refine ⟨⟨slackTableau_represents, hb⟩, ?_, oriented_start d⟩
  have hone : (constraints M).submatrix id (slackTableau M b).basis = 1 := submatrix_slack M id
  simp only [PathState.start, hone, det_one]
  exact one_pos

theorem OnPath.pivotAt (h : OnPath M b d s) (hr : s.tableau.Leaves s.entering r) :
    (s.tableau.pivotAt r s.entering).Feasible (constraints M) b ∧
      0 < ((constraints M).submatrix id (s.tableau.pivotAt r s.entering).basis).det := by
  refine ⟨h.feasible.pivotAt hr, ?_⟩
  rw [h.feasible.det_pivotAt]
  exact mul_pos hr.pos h.det_pos

theorem OnPath.next (h : OnPath M b d s) (hs : Next d s s') : OnPath M b d s' := by
  obtain ⟨r, hr, hd, rfl⟩ := hs
  obtain ⟨hfeasible, hdet⟩ := h.pivotAt hr
  refine ⟨hfeasible, hdet, ?_⟩
  have hfollow := (h.oriented.swap r).follow (by simpa [PathState.slots] using hd)
  rw [slots_pivot]
  simpa [PathState.slots] using hfollow

theorem OnPath.entering_nonbasic (h : OnPath M b d s) : s.entering ∉ Set.range s.tableau.basis := by
  rintro ⟨r, hr⟩
  exact Option.some_ne_none r (h.oriented.slot_injective (congrArg (slot d) hr))

/-- The last pivot leaves one variable of every label, and not the slacks alone: their order would have the wrong
sign for a basis whose determinant stays positive. -/
theorem OnPath.ends (h : OnPath M b d s) (ht : Ends d s t) :
    t.Feasible (constraints M) b ∧ Complementary t ∧ ∃ r, (t.basis r).2 = true := by
  obtain ⟨r, hr, hd, rfl⟩ := ht
  obtain ⟨hfeasible, hdet⟩ := h.pivotAt hr
  let t := s.tableau.pivotAt r s.entering
  let final : PathState L K V := ⟨t, s.tableau.basis r⟩
  have hslots : final.slots = s.slots ∘ Equiv.swap none (some r) := by
    rw [slots_pivot, Function.update_eq_self_iff]
    simp [PathState.slots]
  have horiented : Oriented d final.slots 1 := by
    rw [hslots, ← neg_neg (1 : ℤˣ)]
    exact h.oriented.swap r
  have hbijective : Complementary t := horiented.labels_bijective hd
  refine ⟨hfeasible, hbijective, ?_⟩
  by_contra hnone
  let σ : Equiv.Perm L := Equiv.ofBijective _ hbijective
  have hslack (r' : L) : t.basis r' = (σ r', false) :=
    Prod.ext rfl (Bool.eq_false_iff.mpr fun htrue => hnone ⟨r', htrue⟩)
  have hsign : Equiv.Perm.sign σ = -1 := by
    rw [horiented.sign_of_slacks σ hslack, neg_neg]
  have hdet' : ((constraints M).submatrix id t.basis).det = -1 := by
    rw [show t.basis = fun r' => (σ r', false) from funext hslack, submatrix_slack, det_permute', hsign, det_one]
    simp
  rw [hdet'] at hdet
  exact absurd hdet (by simp)

end Ordered

end Pivoting

end Klett.Lib

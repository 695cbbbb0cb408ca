import Klett.Lib.Complementary
import Mathlib.Algebra.Order.Group.PiLex
import Mathlib.Algebra.Order.Module.Synonym
import Mathlib.Data.Fintype.EquivFin
import Mathlib.Logic.Relation

set_option linter.unusedSectionVars false

namespace Klett.Lib

open Matrix

section Path

variable {L K V : Type*} [DecidableEq L] [Fintype L] [Field K] [LinearOrder K] [AddCommGroup V] [LinearOrder V]
  [Module K V] [IsStrictOrderedRing K] [IsOrderedAddMonoid V] [PosSMulStrictMono K V]
  {M : Matrix L L K} {b : L → V} {d : L} {s s' s₁ s₂ s₁' s₂' : PathState L K V} {t : Tableau L (L × Bool) K V}

def PathState.base (s : PathState L K V) : Set (L × Bool) := Set.range s.tableau.basis

theorem OnPath.slot_entering_eq (h : OnPath M b d s) (h' : OnPath M b d s') (hbase : s.base = s'.base) :
    slot d s.entering = slot d s'.entering := by
  obtain ⟨o, ho⟩ := h'.oriented.slot_surjective (slot d s.entering)
  cases o with
  | none => exact ho.symm
  | some r =>
    have hmem : s'.tableau.basis r ∈ s.base := hbase ▸ ⟨r, rfl⟩
    obtain ⟨r', hr'⟩ := hmem
    have hslot : slot d (s.slots (some r')) = slot d (s.slots none) := (congrArg (slot d) hr').trans ho
    exact absurd (h.oriented.slot_injective hslot) (Option.some_ne_none r')

theorem exists_perm_of_base (h : OnPath M b d s) (h' : OnPath M b d s') (hbase : s.base = s'.base) :
    ∃ σ : Equiv.Perm L, ∀ r, s'.tableau.basis r = s.tableau.basis (σ r) := by
  have hinj := h.feasible.basis_injective
  have hinj' := h'.feasible.basis_injective
  have hmem (r : L) : ∃ r', s.tableau.basis r' = s'.tableau.basis r := by
    have hr : s'.tableau.basis r ∈ s.base := hbase ▸ ⟨r, rfl⟩
    exact hr
  choose f hf using hmem
  have hf_inj : Function.Injective f := fun r₁ r₂ heq => hinj' (by rw [← hf, ← hf, heq])
  exact ⟨Equiv.ofBijective f ⟨hf_inj, Finite.injective_iff_surjective.mp hf_inj⟩, fun r => (hf r).symm⟩

theorem eq_of_slot_of_sideSign {v w : L × Bool} (hslot : slot d v = slot d w) (hside : sideSign v = sideSign w) :
    v = w := by
  have hsnd : v.2 = w.2 := by
    obtain ⟨l, side⟩ := v
    obtain ⟨l', side'⟩ := w
    cases side <;> cases side' <;> simp_all [sideSign]
  cases hv : slot d v with
  | none => exact (slot_eq_none_iff.mp hv).trans (slot_eq_none_iff.mp (hslot.symm.trans hv)).symm
  | some l => exact Prod.ext ((fst_of_slot hv).trans (fst_of_slot (hslot.symm.trans hv)).symm) hsnd

/-- Two states with one basis let the same variable enter: its partner would turn the orientation round. -/
theorem OnPath.entering_unique (h : OnPath M b d s) (h' : OnPath M b d s') (hbase : s.base = s'.base) :
    s.entering = s'.entering := by
  have hslot := h.slot_entering_eq h' hbase
  obtain ⟨σ, hσ⟩ := exists_perm_of_base h h' hbase
  obtain ⟨π, hπ, hs⟩ := h.oriented
  obtain ⟨π', hπ', hs'⟩ := h'.oriented
  have hsign : Equiv.Perm.sign σ = 1 := by
    have hdet' := h'.det_pos
    rw [show s'.tableau.basis = s.tableau.basis ∘ σ from funext hσ,
      show (constraints M).submatrix id (s.tableau.basis ∘ σ) =
        ((constraints M).submatrix id s.tableau.basis).submatrix id σ from rfl, det_permute'] at hdet'
    rcases Int.units_eq_one_or (Equiv.Perm.sign σ) with hone | hneg
    · exact hone
    · rw [hneg] at hdet'
      have := h.det_pos
      simp only [Units.val_neg, Units.val_one, Int.cast_neg, Int.cast_one, neg_mul, one_mul] at hdet'
      exact absurd this (neg_pos.mp hdet').not_gt
  have hππ' : π' = π * Equiv.optionCongr σ := by
    ext1 o
    rw [← hπ', Equiv.Perm.mul_apply]
    cases o with
    | none =>
      rw [Equiv.optionCongr_apply, Option.map_none, ← hπ]
      exact hslot.symm
    | some r =>
      rw [Equiv.optionCongr_apply, Option.map_some, ← hπ]
      exact congrArg (slot d) (hσ r)
  rw [Fintype.prod_option] at hs hs'
  have hbasic : ∏ r, sideSign (s'.slots (some r)) = ∏ r, sideSign (s.slots (some r)) := by
    have hcomp := Equiv.prod_comp σ fun r => sideSign (s.slots (some r))
    rw [← hcomp]
    exact Finset.prod_congr rfl fun r _ => congrArg sideSign (hσ r)
  rw [hππ', Equiv.Perm.sign_mul, Equiv.optionCongr_sign, hsign, mul_one, hbasic] at hs'
  have hside : sideSign s.entering = sideSign s'.entering := mul_right_cancel (mul_left_cancel (hs.trans hs'.symm))
  exact eq_of_slot_of_sideSign hslot hside

/-- Every feasible basis has all its variables positive. -/
def NondegenerateSystem (M : Matrix L L K) (b : L → V) : Prop :=
  ∀ t : Tableau L (L × Bool) K V, t.Feasible (constraints M) b → ∀ r, 0 < t.rhs r

theorem NondegenerateSystem.leaves_unique (hnondeg : NondegenerateSystem M b) (ht : t.Feasible (constraints M) b)
    {v : L × Bool} {r r' : L} (hr : t.Leaves v r) (hr' : t.Leaves v r') : r = r' := by
  by_contra hne
  have hratio := le_antisymm (hr.least r' hr'.pos) (hr'.least r hr.pos)
  have hzero : (t.pivotAt r v).rhs r' = 0 := by
    simp only [Tableau.pivotAt, if_neg (Ne.symm hne), hratio, smul_inv_smul₀ hr'.pos.ne', sub_self]
  exact (hnondeg _ (ht.pivotAt hr) r').ne' hzero

theorem OnPath.isVertex (h : OnPath M b d s) (hnondeg : NondegenerateSystem M b) :
    IsVertex (constraints M) b s.base s.tableau.value := by
  refine ⟨h.feasible.value_solves, ?_, fun v hv => Tableau.value_of_nonbasic hv⟩
  rintro _ ⟨r, rfl⟩
  rw [Tableau.value_basis h.feasible.basis_injective]
  exact hnondeg s.tableau h.feasible r

theorem OnPath.base_pivotAt (h : OnPath M b d s) (r : L) :
    Set.range (s.tableau.pivotAt r s.entering).basis = insert s.entering s.base \ {s.tableau.basis r} := by
  ext v
  constructor
  · rintro ⟨r', rfl⟩
    by_cases hr : r' = r
    · rw [hr, basis_pivotAt_self]
      exact ⟨Set.mem_insert _ _, fun heq => h.entering_nonbasic ⟨r, heq.symm⟩⟩
    · rw [basis_pivotAt_of_ne _ _ hr]
      exact ⟨Set.mem_insert_of_mem _ ⟨r', rfl⟩, fun heq => hr (h.feasible.basis_injective heq)⟩
  · rintro ⟨hmem, hne⟩
    rcases Set.mem_insert_iff.mp hmem with rfl | ⟨r', rfl⟩
    · exact ⟨r, basis_pivotAt_self _ _ _⟩
    · exact ⟨r', basis_pivotAt_of_ne _ _ fun heq => hne (congrArg s.tableau.basis heq)⟩

theorem Next.base_eq (h : OnPath M b d s) (hs : Next d s s') :
    s.base = insert (partner s'.entering) s'.base \ {s.entering} := by
  obtain ⟨r, -, -, rfl⟩ := hs
  have hpartner : partner (partner (s.tableau.basis r)) = s.tableau.basis r := by simp [partner]
  rw [PathState.base, PathState.base, h.base_pivotAt r, hpartner]
  ext v
  have hnonbasic := h.entering_nonbasic
  constructor
  · intro hv
    refine ⟨?_, fun heq => hnonbasic (heq ▸ hv)⟩
    by_cases hr : v = s.tableau.basis r
    · exact Set.mem_insert_iff.mpr (.inl hr)
    · exact Set.mem_insert_of_mem _ ⟨Set.mem_insert_of_mem _ hv, hr⟩
  · rintro ⟨hmem, hne⟩
    rcases Set.mem_insert_iff.mp hmem with rfl | ⟨hmem, -⟩
    · exact ⟨r, rfl⟩
    · exact (Set.mem_insert_iff.mp hmem).resolve_left hne

theorem Next.entering_mem (hs : Next d s s') : s.entering ∈ s'.base := by
  obtain ⟨r, -, -, rfl⟩ := hs
  exact ⟨r, basis_pivotAt_self _ _ _⟩

theorem Next.leaving_notMem (h : OnPath M b d s) (hs : Next d s s') : partner s'.entering ∉ s'.base := by
  obtain ⟨r, -, -, rfl⟩ := hs
  have hpartner : partner (partner (s.tableau.basis r)) = s.tableau.basis r := by simp [partner]
  rw [PathState.base, h.base_pivotAt r, hpartner]
  exact fun hmem => hmem.2 rfl

theorem Next.base_unique (hnondeg : NondegenerateSystem M b) (h₁ : OnPath M b d s₁) (h₂ : OnPath M b d s₂)
    (hs₁ : Next d s₁ s₁') (hs₂ : Next d s₂ s₂') (hbase : s₁'.base = s₂'.base) : s₁.base = s₂.base := by
  have hentering := (h₁.next hs₁).entering_unique (h₂.next hs₂) hbase
  have h₁' := h₁.next hs₁
  have hbase₁ := hs₁.base_eq h₁
  have hbase₂ := hs₂.base_eq h₂
  rw [← hbase, ← hentering] at hbase₂
  obtain ⟨r₁, hr₁⟩ := hs₁.entering_mem
  obtain ⟨r₂, hr₂⟩ : s₂.entering ∈ s₁'.base := hbase ▸ hs₂.entering_mem
  have hvertex₁ := h₁.isVertex hnondeg
  have hvertex₂ := h₂.isVertex hnondeg
  rw [hbase₁, ← hr₁] at hvertex₁
  rw [hbase₂, ← hr₂] at hvertex₂
  have hrow : r₁ = r₂ := h₁'.feasible.leaves_unique (hs₁.leaving_notMem h₁)
    (hnondeg s₁'.tableau h₁'.feasible) hvertex₁ hvertex₂
  rw [hbase₁, hbase₂, ← hr₁, ← hr₂, hrow]

theorem Next.entering_ne (hs : Next d s s') : s'.entering.1 ≠ d := by
  obtain ⟨r, -, hd, rfl⟩ := hs
  exact hd

theorem OnPath.dropped_mem_base (h : OnPath M b d s) (hd : s.entering.1 ≠ d) (side : Bool) : (d, side) ∈ s.base := by
  obtain ⟨o, ho⟩ := h.oriented.slot_surjective (slot d (d, side))
  have hlabel : (s.slots o).1 = d ∧ s.slots o = (d, side) := by
    cases side with
    | true =>
      have heq := slot_eq_none_iff.mp (ho.trans (slot_eq_none_iff.mpr rfl))
      exact ⟨congrArg Prod.fst heq, heq⟩
    | false =>
      rw [slot_slack] at ho
      have hfst := fst_of_slot ho
      refine ⟨hfst, Prod.ext hfst (Bool.eq_false_iff.mpr fun htrue => ?_)⟩
      rw [slot_eq_none_iff.mpr (Prod.ext hfst htrue)] at ho
      cases ho
  cases o with
  | none => exact absurd hlabel.1 hd
  | some r => exact ⟨r, hlabel.2⟩

theorem start_base_slack {v : L × Bool} (hv : v ∈ (PathState.start M b d).base) : v.2 = false := by
  obtain ⟨l, rfl⟩ := hv
  rfl

theorem Complementary.base_ne (ht : Complementary t) (h : OnPath M b d s) (hd : s.entering.1 ≠ d) :
    s.base ≠ Set.range t.basis := by
  intro hbase
  obtain ⟨r, hr⟩ : (d, true) ∈ Set.range t.basis := hbase ▸ h.dropped_mem_base hd true
  obtain ⟨r', hr'⟩ : (d, false) ∈ Set.range t.basis := hbase ▸ h.dropped_mem_base hd false
  have hrow : r = r' := ht.1 ((congrArg Prod.fst hr).trans (congrArg Prod.fst hr').symm)
  rw [hrow, hr'] at hr
  cases hr

theorem onPath_of_reachable (hb : ∀ l, 0 ≤ b l) (h : Relation.ReflTransGen (Next d) (PathState.start M b d) s) :
    OnPath M b d s := by
  induction h with
  | refl => exact OnPath.start hb d
  | tail _ hnext ih => exact ih.next hnext

theorem exists_extended_path {α : Type*} {r : α → α → Prop} {path : ℕ → α} {k : ℕ} {a : α}
    (hpath : ∀ i < k, r (path i) (path (i + 1))) (ha : r (path k) a) :
    ∃ path' : ℕ → α, (∀ i ≤ k, path' i = path i) ∧ path' (k + 1) = a ∧ ∀ i < k + 1, r (path' i) (path' (i + 1)) := by
  have hold {i : ℕ} (hi : i ≤ k) : Function.update path (k + 1) a i = path i := Function.update_of_ne (by omega) _ _
  have hnew : Function.update path (k + 1) a (k + 1) = a := Function.update_self _ _ _
  refine ⟨_, fun i hi => hold hi, hnew, fun i hi => ?_⟩
  rcases Nat.lt_succ_iff_lt_or_eq.mp hi with hi | rfl
  · rw [hold hi.le, hold hi]
    exact hpath i hi
  · rw [hold le_rfl, hnew]
    exact ha

section Run

variable {path : ℕ → PathState L K V} {k : ℕ} (hb : ∀ l, 0 ≤ b l) (hstart : path 0 = PathState.start M b d)
  (hpath : ∀ i < k, Next d (path i) (path (i + 1)))

include hb hstart hpath

theorem onPath_run {i : ℕ} (hi : i ≤ k) : OnPath M b d (path i) := by
  induction i with
  | zero => exact hstart ▸ OnPath.start hb d
  | succ i ih => exact (ih (by omega)).next (hpath i (by omega))

/-- No basis is met twice: the states before two equal ones would be equal too, back to the start, which has none of
the variables that the later ones have. -/
theorem base_ne_run (hnondeg : NondegenerateSystem M b) {i j : ℕ} (hij : i < j) (hj : j ≤ k) :
    (path i).base ≠ (path j).base := by
  induction i generalizing j with
  | zero =>
    obtain ⟨j, rfl⟩ : ∃ j', j = j' + 1 := ⟨j - 1, by omega⟩
    intro hbase
    have hmem := (onPath_run hb hstart hpath hj).dropped_mem_base (hpath j (by omega)).entering_ne true
    rw [← hbase, hstart] at hmem
    cases start_base_slack hmem
  | succ i ih =>
    obtain ⟨j, rfl⟩ : ∃ j', j = j' + 1 := ⟨j - 1, by omega⟩
    intro hbase
    have hi := onPath_run hb hstart hpath (i := i) (by omega)
    have hj' := onPath_run hb hstart hpath (i := j) (by omega)
    exact ih (by omega) (by omega)
      (Next.base_unique hnondeg hi hj' (hpath i (by omega)) (hpath j (by omega)) hbase)

theorem end_base_ne_run {i : ℕ} (hi : i ≤ k) (ht : Ends d (path k) t) : (path i).base ≠ Set.range t.basis := by
  obtain ⟨-, hcomplementary, r, hr⟩ := (onPath_run hb hstart hpath le_rfl).ends ht
  cases i with
  | zero =>
    intro hbase
    have hmem : t.basis r ∈ (path 0).base := hbase ▸ ⟨r, rfl⟩
    rw [hstart] at hmem
    rw [start_base_slack hmem] at hr
    cases hr
  | succ i => exact hcomplementary.base_ne (onPath_run hb hstart hpath hi) (hpath i (by omega)).entering_ne

end Run

theorem OnPath.next_or_ends (h : OnPath M b d s) (hbounded : Bounded (constraints M)) :
    (∃ s', Next d s s') ∨ ∃ t, Ends d s t := by
  obtain ⟨r, hr⟩ := Tableau.exists_leaves (h.feasible.exists_pos hbounded h.entering_nonbasic)
  by_cases hd : (s.tableau.basis r).1 = d
  · exact .inr ⟨_, r, hr, hd, rfl⟩
  · exact .inl ⟨_, r, hr, hd, rfl⟩

/-- Without degeneracy and unbounded columns the path ends, in a complementary basis other than the slacks. -/
theorem exists_complementary (hb : ∀ l, 0 ≤ b l) (hnondeg : NondegenerateSystem M b)
    (hbounded : Bounded (constraints M)) (d : L) :
    ∃ t : Tableau L (L × Bool) K V, t.Feasible (constraints M) b ∧ Complementary t ∧ ∃ r, (t.basis r).2 = true := by
  by_contra hnone
  have hnext (s : {s : PathState L K V // OnPath M b d s}) : ∃ s' : {s : PathState L K V // OnPath M b d s},
      Next d s.1 s'.1 := by
    rcases s.2.next_or_ends hbounded with ⟨s', hs'⟩ | ⟨t, ht⟩
    · exact ⟨⟨s', s.2.next hs'⟩, hs'⟩
    · exact absurd ⟨t, s.2.ends ht⟩ hnone
  choose next hnext using hnext
  let path (i : ℕ) : {s : PathState L K V // OnPath M b d s} :=
    i.rec ⟨PathState.start M b d, OnPath.start hb d⟩ fun _ s => next s
  have hinjective : Function.Injective fun i => (path i).1.base := by
    apply Function.Injective.of_lt_imp_ne
    intro i j hij
    exact base_ne_run hb rfl (fun i _ => hnext (path i)) hnondeg hij le_rfl
  exact not_injective_infinite_finite _ hinjective

end Path

section Order

variable {K : Type*} [Field K] [LinearOrder K] {N : ℕ}

instance posSMulStrictMonoLex [IsStrictOrderedRing K] : PosSMulStrictMono K (Lex (Fin N → K)) where
  smul_lt_smul_of_pos_left := by
    rintro a ha f g ⟨i, hsame, hlt⟩
    exact ⟨i, fun j hj => congrArg (a * ·) (hsame j hj), mul_lt_mul_of_pos_left hlt ha⟩

theorem head_nonneg {f : Lex (Fin (N + 1) → K)} (h : 0 ≤ f) : 0 ≤ ofLex f 0 := by
  rcases h.eq_or_lt with heq | ⟨i, hsame, hlt⟩
  · rw [← heq]
    exact le_rfl
  · rcases (Fin.zero_le i).eq_or_lt with hi | hi
    · exact hi ▸ hlt.le
    · exact (hsame 0 hi).le

end Order

section Perturbed

variable {L K : Type*} [DecidableEq L] [Fintype L] [Field K] [LinearOrder K] [IsStrictOrderedRing K]

/-- The right-hand side with a perturbation of its own for every row, smaller than anything before it. -/
noncomputable def perturbed (b : L → K) (l : L) : Lex (Fin (Fintype.card L + 1) → K) :=
  toLex (Fin.cons (b l) (Pi.single (Fintype.equivFin L l) 1))

variable {M : Matrix L L K} {b : L → K}

theorem perturbed_nonneg (hb : ∀ l, 0 ≤ b l) (l : L) : 0 ≤ perturbed b l := by
  apply Pi.toLex_monotone
  intro i
  refine Fin.cases ?_ (fun i => ?_) i
  · exact hb l
  · rw [Fin.cons_succ, Pi.single_apply]
    split_ifs
    · exact zero_le_one
    · exact le_rfl

theorem act_ofLex {N : ℕ} (T : Matrix L L K) (b : L → Lex (Fin N → K)) (l : L) (i : Fin N) :
    ofLex (act T b l) i = act T (fun s => ofLex (b s) i) l :=
  Finset.sum_apply i Finset.univ fun s => T l s • ofLex (b s)

theorem act_perturbed_head (T : Matrix L L K) (l : L) : ofLex (act T (perturbed b) l) 0 = act T b l :=
  act_ofLex T (perturbed b) l 0

theorem act_perturbed_succ (T : Matrix L L K) (l s : L) :
    ofLex (act T (perturbed b) l) (Fintype.equivFin L s).succ = T l s := by
  have hentry (s' : L) : ofLex (perturbed b s') (Fintype.equivFin L s).succ = if s' = s then 1 else 0 := by
    simp [perturbed, Pi.single_apply, eq_comm]
  rw [act_ofLex, act_apply]
  simp only [hentry, smul_eq_mul, mul_ite, mul_one, mul_zero, Finset.sum_ite_eq', Finset.mem_univ, if_true]

theorem nondegenerate_perturbed (M : Matrix L L K) (b : L → K) : NondegenerateSystem M (perturbed b) := by
  intro t ht r
  apply lt_of_le_of_ne (ht.nonneg r)
  intro hzero
  obtain ⟨T, hcoeff, hrhs⟩ := ht.rows
  have hrow (s : L) : T r s = 0 := by
    rw [← act_perturbed_succ (b := b) T r s, ← hrhs, ← hzero]
    rfl
  have hunit := ht.unit r r
  rw [hcoeff, one_apply_eq, mul_apply, Finset.sum_eq_zero fun s _ => by rw [hrow s, zero_mul]] at hunit
  exact zero_ne_one hunit

/-- Every bounded problem with a nonnegative right-hand side has a complementary feasible basis other than the slacks. -/
theorem exists_complementary_feasible (hb : ∀ l, 0 ≤ b l) (hbounded : Bounded (constraints M)) (d : L) :
    ∃ t : Tableau L (L × Bool) K K, t.Feasible (constraints M) b ∧ Complementary t ∧ ∃ r, (t.basis r).2 = true := by
  obtain ⟨t, ht, hcomplementary, hown⟩ :=
    exists_complementary (perturbed_nonneg hb) (nondegenerate_perturbed M b) hbounded d
  obtain ⟨T, hcoeff, hrhs⟩ := ht.rows
  refine ⟨⟨t.coeff, fun r => ofLex (t.rhs r) 0, t.basis⟩, ⟨⟨ht.unit, T, hcoeff, ?_⟩, fun r => ?_⟩, hcomplementary, hown⟩
  · funext r
    rw [← act_perturbed_head, ← hrhs]
  · exact head_nonneg (ht.nonneg r)

end Perturbed

end Klett.Lib

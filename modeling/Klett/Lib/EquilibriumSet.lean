import Klett.Lib.BestReplySystem
import Klett.Lib.Indifference
import Klett.Lib.PivotPath
import Mathlib.Combinatorics.SimpleGraph.DegreeSum
import Mathlib.Data.Set.Card
import Mathlib.LinearAlgebra.Matrix.ToLinearEquiv

set_option linter.unusedSectionVars false

namespace Klett.Lib

open Matrix

section Counting

variable {K : Type*} [Field K] [LinearOrder K] [IsStrictOrderedRing K] {ι κ : Type*} [Fintype ι] [Fintype κ]
  {C : Matrix κ ι K} {x : ι → K} {s : κ → K}

theorem card_le_support_add (hC : ∀ x ∈ stdSimplex K ι, (bestReplies (C *ᵥ x)).card ≤ (support x).card)
    (hx : ∀ i, 0 ≤ x i) (hs : ∀ j, 0 ≤ s j) (hrow : ∀ j, (C *ᵥ x) j + s j = 1) :
    Fintype.card κ ≤ (support x).card + (support s).card := by
  by_cases hne : x = 0
  · have hslack (j : κ) : s j = 1 := by
      rw [← hrow j, hne, mulVec_zero, Pi.zero_apply, zero_add]
    have hall : support s = Finset.univ := Finset.eq_univ_iff_forall.mpr fun j => by
      rw [mem_support, hslack]
      exact one_ne_zero
    rw [hall, Finset.card_univ]
    exact Nat.le_add_left _ _
  · have hpos := sum_pos_of_ne_zero hx hne
    have hpay (j : κ) : (C *ᵥ fun i => x i / ∑ i, x i) j = (1 - s j) / ∑ i, x i := by
      rw [← hrow j, add_sub_cancel_right, mulVec_normalised]
    have hbest : (Finset.univ.filter fun j => s j = 0) ⊆ bestReplies (C *ᵥ fun i => x i / ∑ i, x i) := by
      intro j hj
      rw [mem_bestReplies]
      intro j'
      rw [hpay, hpay, (Finset.mem_filter.mp hj).2, sub_zero]
      exact div_le_div_of_nonneg_right (sub_le_self 1 (hs j')) hpos.le
    have hcard := (Finset.card_le_card hbest).trans (hC _ (normalised_mem_stdSimplex hx hne))
    rw [support_normalised hx hne] at hcard
    have hsplit := Finset.card_filter_add_card_filter_not (s := (Finset.univ : Finset κ)) fun j => s j = 0
    rw [Finset.card_univ] at hsplit
    have hsupport : support s = Finset.univ.filter fun j => ¬s j = 0 := rfl
    rw [hsupport]
    omega

end Counting

section System

variable {K : Type*} [Field K] [LinearOrder K] [IsStrictOrderedRing K] {ι κ : Type*} [DecidableEq ι] [DecidableEq κ]
  [Fintype ι] [Fintype κ] {A B : Matrix ι κ K}

theorem card_support_variables (z : (ι ⊕ κ) × Bool → K) : (support z).card =
    (support fun i => z (.inl i, true)).card + (support fun i => z (.inl i, false)).card +
      ((support fun j => z (.inr j, true)).card + (support fun j => z (.inr j, false)).card) := by
  simp only [support, Finset.card_filter, Fintype.sum_prod_type, Fintype.sum_sum_type, Fintype.sum_bool,
    Finset.sum_add_distrib]
  exact add_add_add_comm _ _ _ _

theorem Tableau.card_support_value_le {t : Tableau (ι ⊕ κ) ((ι ⊕ κ) × Bool) K K} :
    (support t.value).card ≤ (support t.rhs).card := by
  have hsub : support t.value ⊆ (support t.rhs).image t.basis := by
    intro v hv
    by_contra hnot
    refine mem_support.mp hv (Finset.sum_eq_zero fun r _ => ?_)
    split_ifs with hr
    · by_contra hne
      exact hnot (Finset.mem_image.mpr ⟨r, mem_support.mpr hne, hr⟩)
    · rfl
  exact (Finset.card_le_card hsub).trans Finset.card_image_le

/-- A nondegenerate game has nondegenerate constraints: a basic solution has as many nonzero values as there are rows. -/
theorem nondegenerate_bestReplySystem (h : Nondegenerate A B) :
    NondegenerateSystem (bestReplyMatrix A B) fun _ => (1 : K) := by
  intro t ht r
  have hcard₁ := card_le_support_add h.2 (fun j => ht.value_nonneg _) (fun i => ht.value_nonneg _) ht.rows₁
  have hcard₂ := card_le_support_add h.1 (fun i => ht.value_nonneg _) (fun j => ht.value_nonneg _) ht.rows₂
  have hvalues := card_support_variables t.value
  have hle := Tableau.card_support_value_le (t := t)
  apply lt_of_le_of_ne (ht.nonneg r)
  intro hzero
  have hlt : (support t.rhs).card < Fintype.card (ι ⊕ κ) := by
    apply Finset.card_lt_univ_of_notMem (x := r)
    intro hmem
    exact mem_support.mp hmem hzero.symm
  rw [Fintype.card_sum] at hlt
  omega

end System

section Bases

variable {L : Type*} [DecidableEq L] [Fintype L]

/-- No label but `d` has both of its variables among those of `S`. -/
def AlmostComplementary (d : L) (S : Finset (L × Bool)) : Prop := ∀ l, l ≠ d → (l, true) ∉ S ∨ (l, false) ∉ S

instance (d : L) (S : Finset (L × Bool)) : Decidable (AlmostComplementary d S) :=
  inferInstanceAs (Decidable (∀ l, l ≠ d → (l, true) ∉ S ∨ (l, false) ∉ S))

def OnePerLabel (S : Finset (L × Bool)) : Prop := Set.InjOn Prod.fst (S : Set (L × Bool))

/-- The variables that may enter `S` when the label `d` is dropped. -/
def entering (d : L) (S : Finset (L × Bool)) : Finset (L × Bool) := {v | v ∉ S ∧ AlmostComplementary d (insert v S)}

variable {d : L} {S S' : Finset (L × Bool)} {v w : L × Bool}

theorem mem_entering : v ∈ entering d S ↔ v ∉ S ∧ AlmostComplementary d (insert v S) := by simp [entering]

theorem AlmostComplementary.mono (h : AlmostComplementary d S') (hsub : S ⊆ S') : AlmostComplementary d S := by
  intro l hl
  exact (h l hl).imp (fun hnot hmem => hnot (hsub hmem)) fun hnot hmem => hnot (hsub hmem)

theorem AlmostComplementary.eq_of_fst (h : AlmostComplementary d S) (hv : v ∈ S) (hw : w ∈ S) (hfst : v.1 = w.1)
    (hd : v.1 ≠ d) : v = w := by
  obtain ⟨l, side⟩ := v
  obtain ⟨l', side'⟩ := w
  obtain rfl : l = l' := hfst
  have hl := h l hd
  cases side <;> cases side' <;> simp_all

theorem OnePerLabel.almostComplementary (h : OnePerLabel S) (d : L) : AlmostComplementary d S := by
  intro l _
  by_contra hboth
  obtain ⟨htrue, hfalse⟩ := not_or.mp hboth
  have heq := h (Finset.mem_coe.mpr (not_not.mp htrue)) (Finset.mem_coe.mpr (not_not.mp hfalse)) rfl
  cases congrArg Prod.snd heq

theorem OnePerLabel.exists_mem (h : OnePerLabel S) (hcard : S.card = Fintype.card L) (l : L) : ∃ side, (l, side) ∈ S := by
  have himage : S.image Prod.fst = Finset.univ := by
    apply Finset.eq_univ_of_card
    rw [Finset.card_image_of_injOn h, hcard]
  obtain ⟨⟨l', side⟩, hmem, rfl⟩ := Finset.mem_image.mp (himage ▸ Finset.mem_univ l)
  exact ⟨side, hmem⟩

theorem AlmostComplementary.both_of_not (h : AlmostComplementary d S) (hnot : ¬OnePerLabel S) (side : Bool) :
    (d, side) ∈ S := by
  by_contra hside
  refine hnot fun v hv w hw hfst => ?_
  by_cases hd : v.1 = d
  · have hother {u : L × Bool} (hu : u ∈ S) (hud : u.1 = d) : u = (d, !side) := by
      obtain ⟨l, side'⟩ := u
      obtain rfl : l = d := hud
      cases side <;> cases side' <;> simp_all
    rw [hother hv hd, hother hw (hfst.symm.trans hd)]
  · exact h.eq_of_fst hv hw hfst hd

/-- A basis with one variable of each label lets only the other variable of the dropped label enter. -/
theorem OnePerLabel.card_entering (h : OnePerLabel S) (hcard : S.card = Fintype.card L) : (entering d S).card = 1 := by
  obtain ⟨side, hside⟩ := h.exists_mem hcard d
  refine Finset.card_eq_one.mpr ⟨(d, !side), Finset.ext fun v => ?_⟩
  rw [mem_entering, Finset.mem_singleton]
  constructor
  · rintro ⟨hv, halmost⟩
    obtain ⟨side', hside'⟩ := h.exists_mem hcard v.1
    have hd : v.1 = d := by
      by_contra hd
      have heq := halmost.eq_of_fst (Finset.mem_insert_self v S) (Finset.mem_insert_of_mem hside') rfl hd
      exact hv (heq ▸ hside')
    obtain ⟨l, side'⟩ := v
    obtain rfl : l = d := hd
    cases side <;> cases side' <;> simp_all
  · rintro rfl
    refine ⟨fun hmem => ?_, fun l hl => ?_⟩
    · have heq := h (Finset.mem_coe.mpr hmem) (Finset.mem_coe.mpr hside) rfl
      cases side <;> cases congrArg Prod.snd heq
    · have hl' := h.almostComplementary d l hl
      simpa [hl] using hl'

/-- A basis with both variables of the dropped label lacks one other label, and either variable of it may enter. -/
theorem AlmostComplementary.card_entering (h : AlmostComplementary d S) (hcard : S.card = Fintype.card L)
    (hnot : ¬OnePerLabel S) : (entering d S).card = 2 := by
  have hboth := h.both_of_not hnot
  have hinj : Set.InjOn Prod.fst (S.erase (d, true) : Set (L × Bool)) := by
    intro v hv w hw hfst
    obtain ⟨hvne, hv⟩ := Finset.mem_erase.mp (Finset.mem_coe.mp hv)
    obtain ⟨hwne, hw⟩ := Finset.mem_erase.mp (Finset.mem_coe.mp hw)
    by_cases hd : v.1 = d
    · obtain ⟨l, side⟩ := v
      obtain ⟨l', side'⟩ := w
      obtain rfl : l = d := hd
      obtain rfl : l = l' := hfst
      cases side <;> cases side' <;> simp_all
    · exact h.eq_of_fst hv hw hfst hd
  have hmissing : ((S.erase (d, true)).image Prod.fst)ᶜ.card = 1 := by
    have hpos : 0 < S.card := Finset.card_pos.mpr ⟨_, hboth true⟩
    rw [Finset.card_compl, Finset.card_image_of_injOn hinj, Finset.card_erase_of_mem (hboth true)]
    omega
  obtain ⟨e, he⟩ := Finset.card_eq_one.mp hmissing
  have hmem_e (l : L) : l = e ↔ ∀ side, (l, side) ∈ S → (l, side) = (d, true) := by
    have hl : l ∈ ((S.erase (d, true)).image Prod.fst)ᶜ ↔ l = e := by rw [he, Finset.mem_singleton]
    rw [← hl, Finset.mem_compl, Finset.mem_image]
    constructor
    · intro hnone side hside
      by_contra hne
      exact hnone ⟨(l, side), Finset.mem_erase.mpr ⟨hne, hside⟩, rfl⟩
    · rintro hall ⟨⟨l', side⟩, hmem, rfl⟩
      exact (Finset.mem_erase.mp hmem).1 (hall side (Finset.mem_erase.mp hmem).2)
  have hed : e ≠ d := by
    rintro rfl
    cases congrArg Prod.snd ((hmem_e e).mp rfl false (hboth false))
  have hfree (side : Bool) : (e, side) ∉ S := fun hmem =>
    hed (congrArg Prod.fst ((hmem_e e).mp rfl side hmem))
  have heq : entering d S = {(e, true), (e, false)} := by
    ext v
    rw [mem_entering, Finset.mem_insert, Finset.mem_singleton]
    constructor
    · rintro ⟨hv, halmost⟩
      have hve : v.1 = e := by
        refine (hmem_e v.1).mpr fun side hside => ?_
        by_contra hne
        by_cases hd : v.1 = d
        · exact hv (by rw [show v = (d, v.2) from Prod.ext hd rfl]; exact hboth v.2)
        · exact hv (halmost.eq_of_fst (Finset.mem_insert_self v S) (Finset.mem_insert_of_mem hside) rfl hd ▸ hside)
      obtain ⟨l, side⟩ := v
      obtain rfl : l = e := hve
      cases side <;> simp
    · intro hv
      have hv1 : v.1 = e := by rcases hv with rfl | rfl <;> rfl
      refine ⟨fun hmem => hfree v.2 (hv1 ▸ hmem), fun l hl => ?_⟩
      by_cases hle : l = e
      · rcases hv with rfl | rfl <;> simp [hle, hfree]
      · have hne (side : Bool) : (l, side) ≠ v := fun heq => hle (congrArg Prod.fst heq |>.trans hv1)
        simpa [hne] using h l hl
  rw [heq]
  exact Finset.card_pair fun hsame => by cases congrArg Prod.snd hsame

end Bases

section Graph

variable {L K V : Type*} [DecidableEq L] [Fintype L] [Field K] [LinearOrder K] [AddCommGroup V] [LinearOrder V]
  [Module K V] [IsStrictOrderedRing K] [IsOrderedAddMonoid V] [PosSMulStrictMono K V] {M : Matrix L L K} {b : L → V}
  {d : L} {S S' : Finset (L × Bool)} {v : L × Bool}

/-- The sets of variables that the constraints can be solved for with nothing negative on the right. -/
def IsBase (M : Matrix L L K) (b : L → V) (S : Finset (L × Bool)) : Prop :=
  ∃ t : Tableau L (L × Bool) K V, t.Feasible (constraints M) b ∧ (S : Set (L × Bool)) = Set.range t.basis

theorem IsBase.card_eq (h : IsBase M b S) : S.card = Fintype.card L := by
  obtain ⟨t, ht, hS⟩ := h
  have himage : S = Finset.univ.image t.basis := by
    rw [← Finset.coe_inj, hS, Finset.coe_image, Finset.coe_univ, Set.image_univ]
  rw [himage, Finset.card_image_of_injective _ ht.basis_injective, Finset.card_univ]

theorem coe_insert_sdiff {t : Tableau L (L × Bool) K V} {r : L} (hS : (S : Set (L × Bool)) = Set.range t.basis)
    (ht : Function.Injective t.basis) (hv : v ∉ S) :
    ((insert v (S.erase (t.basis r)) : Finset (L × Bool)) : Set (L × Bool)) = Set.range (t.pivotAt r v).basis := by
  have hmem (w : L × Bool) : w ∈ S ↔ ∃ r, t.basis r = w := by rw [← Finset.mem_coe, hS, Set.mem_range]
  ext w
  rw [Finset.mem_coe, Finset.mem_insert, Finset.mem_erase, hmem, Set.mem_range]
  constructor
  · rintro (rfl | ⟨hne, r', rfl⟩)
    · exact ⟨r, basis_pivotAt_self _ _ _⟩
    · exact ⟨r', basis_pivotAt_of_ne _ _ fun heq => hne (congrArg t.basis heq)⟩
  · rintro ⟨r', rfl⟩
    by_cases hr : r' = r
    · exact .inl (hr ▸ basis_pivotAt_self _ _ _)
    · rw [basis_pivotAt_of_ne _ _ hr]
      exact .inr ⟨fun heq => hr (ht heq), r', rfl⟩

theorem Tableau.Feasible.isVertex {t : Tableau L (L × Bool) K V} (hnondeg : NondegenerateSystem M b)
    (ht : t.Feasible (constraints M) b) : IsVertex (constraints M) b (Set.range t.basis) t.value := by
  refine ⟨ht.value_solves, ?_, fun v hv => Tableau.value_of_nonbasic hv⟩
  rintro _ ⟨r, rfl⟩
  rw [Tableau.value_basis ht.basis_injective]
  exact hnondeg t ht r

/-- Whatever enters, one variable leaves: none is bounded away, and no two are tied. -/
theorem IsBase.existsUnique_pivot (h : IsBase M b S) (hnondeg : NondegenerateSystem M b)
    (hbounded : Bounded (constraints M)) (hv : v ∉ S) : ∃! S', IsBase M b S' ∧ S ∪ S' = insert v S := by
  obtain ⟨t, ht, hS⟩ := h
  have hcard : S.card = Fintype.card L := IsBase.card_eq ⟨t, ht, hS⟩
  have hv' : v ∉ Set.range t.basis := hS ▸ fun hmem => hv (Finset.mem_coe.mp hmem)
  obtain ⟨r, hr⟩ := Tableau.exists_leaves (ht.exists_pos hbounded hv')
  have hleaves : t.basis r ∈ S := Finset.mem_coe.mp (hS ▸ ⟨r, rfl⟩)
  have hpivot := coe_insert_sdiff (r := r) hS ht.basis_injective hv
  refine ⟨insert v (S.erase (t.basis r)), ⟨⟨t.pivotAt r v, ht.pivotAt hr, hpivot⟩, ?_⟩, ?_⟩
  · rw [Finset.union_insert, Finset.union_eq_left.mpr (Finset.erase_subset _ _)]
  · rintro S' ⟨⟨t', ht', hS'⟩, hunion⟩
    have hcard' : S'.card = Fintype.card L := IsBase.card_eq ⟨t', ht', hS'⟩
    have hsub : S' ⊆ insert v S := hunion ▸ Finset.subset_union_right
    have hvS' : v ∈ S' := by
      have hmem : v ∈ S ∪ S' := hunion ▸ Finset.mem_insert_self v S
      exact (Finset.mem_union.mp hmem).resolve_left hv
    obtain ⟨w, hw, rfl⟩ : ∃ w ∈ S, S' = insert v (S.erase w) := by
      have hlt : S'.card < (insert v S).card := by
        rw [Finset.card_insert_of_notMem hv, hcard, hcard']
        exact Nat.lt_succ_self _
      obtain ⟨w, hw, hnot⟩ := Finset.exists_mem_notMem_of_card_lt_card hlt
      have hwv : w ≠ v := fun heq => hnot (heq ▸ hvS')
      refine ⟨w, (Finset.mem_insert.mp hw).resolve_left hwv, ?_⟩
      apply Finset.eq_of_subset_of_card_le
      · intro u hu
        rcases Finset.mem_insert.mp (hsub hu) with rfl | hmem
        · exact Finset.mem_insert_self _ _
        · exact Finset.mem_insert_of_mem (Finset.mem_erase.mpr ⟨fun heq => hnot (heq ▸ hu), hmem⟩)
      · have hnot' : v ∉ S.erase w := fun hmem => hv (Finset.mem_of_mem_erase hmem)
        rw [Finset.card_insert_of_notMem hnot',
          Finset.card_erase_add_one ((Finset.mem_insert.mp hw).resolve_left hwv), hcard, hcard']
    obtain ⟨r', rfl⟩ : w ∈ Set.range t.basis := hS ▸ Finset.mem_coe.mpr hw
    -- both bases lie on the edge along which `v` grows
    have hvertex := (ht.pivotAt hr).isVertex hnondeg
    have hvertex' := ht'.isVertex hnondeg
    have hedge (r : L) : Set.range (t.pivotAt r v).basis = insert v (Set.range t.basis) \ {t.basis r} := by
      rw [← coe_insert_sdiff hS ht.basis_injective hv, ← hS, Finset.coe_insert, Finset.coe_erase,
        Set.insert_sdiff_of_notMem _ fun heq => hv' ⟨r, heq.symm⟩]
    rw [hedge] at hvertex
    rw [← hS', coe_insert_sdiff hS ht.basis_injective hv, hedge] at hvertex'
    rw [ht.toRepresents.leaves_unique hv' (hnondeg t ht) hvertex hvertex']

/-- The bases that keep every label but `d`, joined where one pivot leads from one to the other. -/
def pivotGraph (M : Matrix L L K) (b : L → V) (d : L) :
    SimpleGraph {S : Finset (L × Bool) // IsBase M b S ∧ AlmostComplementary d S} where
  Adj S S' := S ≠ S' ∧ (S.1 ∪ S'.1).card = Fintype.card L + 1 ∧ AlmostComplementary d (S.1 ∪ S'.1)
  symm := ⟨fun S S' h => by rwa [ne_comm, Finset.union_comm]⟩
  loopless := ⟨fun _ h => h.1 rfl⟩

theorem adj_iff {S S' : {S : Finset (L × Bool) // IsBase M b S ∧ AlmostComplementary d S}} :
    (pivotGraph M b d).Adj S S' ↔ ∃ v ∈ entering d S.1, S.1 ∪ S'.1 = insert v S.1 := by
  constructor
  · rintro ⟨-, hcard, halmost⟩
    have hsub : S.1 ⊆ S.1 ∪ S'.1 := Finset.subset_union_left
    obtain ⟨v, hv, hunion⟩ := Finset.exists_eq_insert_iff.mpr ⟨hsub, by rw [hcard, S.2.1.card_eq]⟩
    exact ⟨v, mem_entering.mpr ⟨hv, hunion ▸ halmost⟩, hunion.symm⟩
  · rintro ⟨v, hv, hunion⟩
    obtain ⟨hnot, halmost⟩ := mem_entering.mp hv
    refine ⟨fun heq => ?_, ?_, hunion ▸ halmost⟩
    · rw [← heq, Finset.union_self] at hunion
      exact hnot (hunion ▸ Finset.mem_insert_self v S.1)
    · rw [hunion, Finset.card_insert_of_notMem hnot, S.2.1.card_eq]

theorem card_neighbors (hnondeg : NondegenerateSystem M b) (hbounded : Bounded (constraints M))
    (S : {S : Finset (L × Bool) // IsBase M b S ∧ AlmostComplementary d S})
    [Fintype ((pivotGraph M b d).neighborSet S)] : (pivotGraph M b d).degree S = (entering d S.1).card := by
  have hpivot (v : L × Bool) (hv : v ∈ entering d S.1) :=
    S.2.1.existsUnique_pivot hnondeg hbounded (mem_entering.mp hv).1
  choose next hnext hunique using fun v hv => (hpivot v hv)
  have halmost (v : L × Bool) (hv : v ∈ entering d S.1) : AlmostComplementary d (next v hv) :=
    (mem_entering.mp hv).2.mono ((hnext v hv).2 ▸ Finset.subset_union_right)
  refine (Finset.card_bij (fun v hv => ⟨next v hv, (hnext v hv).1, halmost v hv⟩) (fun v hv => ?_)
    (fun v hv w hw heq => ?_) fun S' hS' => ?_).symm
  · rw [SimpleGraph.mem_neighborFinset, adj_iff]
    exact ⟨v, hv, (hnext v hv).2⟩
  · have hinsert : insert v S.1 = insert w S.1 := by
      rw [← (hnext v hv).2, ← (hnext w hw).2]
      exact congrArg (S.1 ∪ ·) (congrArg Subtype.val heq)
    have hmem : v ∈ insert w S.1 := hinsert ▸ Finset.mem_insert_self v S.1
    exact (Finset.mem_insert.mp hmem).resolve_right (mem_entering.mp hv).1
  · obtain ⟨v, hv, hunion⟩ := adj_iff.mp ((SimpleGraph.mem_neighborFinset _ _ _).mp hS')
    exact ⟨v, hv, Subtype.ext (hunique v hv S'.1 ⟨S'.2.1, hunion⟩).symm⟩

/-- The bases with one variable of each label are the ends of the paths. -/
theorem even_card_onePerLabel (hnondeg : NondegenerateSystem M b) (hbounded : Bounded (constraints M)) (d : L) :
    Even {S : Finset (L × Bool) | IsBase M b S ∧ OnePerLabel S}.ncard := by
  classical
  have hodd (S : {S : Finset (L × Bool) // IsBase M b S ∧ AlmostComplementary d S}) :
      Odd ((pivotGraph M b d).degree S) ↔ OnePerLabel S.1 := by
    rw [card_neighbors hnondeg hbounded]
    by_cases hS : OnePerLabel S.1
    · rw [hS.card_entering S.2.1.card_eq]
      exact iff_of_true odd_one hS
    · rw [S.2.2.card_entering S.2.1.card_eq hS]
      exact iff_of_false (by decide) hS
  have himage : {S : Finset (L × Bool) | IsBase M b S ∧ OnePerLabel S} =
      Subtype.val '' ((Finset.univ.filter fun S => Odd ((pivotGraph M b d).degree S) : Finset _) :
        Set {S : Finset (L × Bool) // IsBase M b S ∧ AlmostComplementary d S}) := by
    ext S
    simp only [Set.mem_ofPred_eq, Set.mem_image, Finset.mem_coe, Finset.mem_filter, Finset.mem_univ, true_and, hodd]
    constructor
    · exact fun h => ⟨⟨S, h.1, h.2.almostComplementary d⟩, h.2, rfl⟩
    · rintro ⟨S', hS', rfl⟩
      exact ⟨S'.2.1, hS'⟩
  rw [himage, Set.ncard_image_of_injective _ Subtype.val_injective, Set.ncard_coe_finset]
  exact (pivotGraph M b d).even_card_odd_degree_vertices

def slackBase (L : Type*) [DecidableEq L] [Fintype L] : Finset (L × Bool) := Finset.univ.image fun l => (l, false)

theorem mem_slackBase {v : L × Bool} : v ∈ slackBase L ↔ v.2 = false := by
  rw [slackBase, Finset.mem_image]
  constructor
  · rintro ⟨l, -, rfl⟩
    rfl
  · exact fun h => ⟨v.1, Finset.mem_univ _, Prod.ext rfl h.symm⟩

theorem isBase_slackBase (hb : ∀ l, 0 ≤ b l) : IsBase M b (slackBase L) := by
  refine ⟨slackTableau M b, ⟨slackTableau_represents, hb⟩, ?_⟩
  rw [slackBase, Finset.coe_image, Finset.coe_univ, Set.image_univ]
  rfl

theorem onePerLabel_slackBase : OnePerLabel (slackBase L) := by
  intro v hv w hw hfst
  rw [Finset.mem_coe, mem_slackBase] at hv hw
  exact Prod.ext hfst (hv.trans hw.symm)

/-- The slacks are one of the ends, so the others are odd in number. -/
theorem odd_card_onePerLabel (hb : ∀ l, 0 ≤ b l) (hnondeg : NondegenerateSystem M b)
    (hbounded : Bounded (constraints M)) (d : L) :
    Odd {S : Finset (L × Bool) | IsBase M b S ∧ OnePerLabel S ∧ ∃ l, (l, true) ∈ S}.ncard := by
  have hinsert : {S : Finset (L × Bool) | IsBase M b S ∧ OnePerLabel S} =
      insert (slackBase L) {S | IsBase M b S ∧ OnePerLabel S ∧ ∃ l, (l, true) ∈ S} := by
    ext S
    constructor
    · rintro ⟨hbase, hone⟩
      by_cases hown : ∃ l, (l, true) ∈ S
      · exact .inr ⟨hbase, hone, hown⟩
      · left
        apply Finset.eq_of_subset_of_card_le
        · intro v hv
          refine mem_slackBase.mpr (Bool.eq_false_iff.mpr fun htrue => hown ⟨v.1, ?_⟩)
          rwa [show (v.1, true) = v from Prod.ext rfl htrue.symm]
        · rw [hbase.card_eq, (isBase_slackBase hb : IsBase M b _).card_eq]
    · rintro (rfl | h)
      · exact ⟨isBase_slackBase hb, onePerLabel_slackBase⟩
      · exact ⟨h.1, h.2.1⟩
  have hnot : slackBase L ∉ {S : Finset (L × Bool) | IsBase M b S ∧ OnePerLabel S ∧ ∃ l, (l, true) ∈ S} := by
    rintro ⟨-, -, l, hl⟩
    cases mem_slackBase.mp hl
  have heven := even_card_onePerLabel hnondeg hbounded d
  rw [hinsert, Set.ncard_insert_of_notMem hnot (Set.toFinite _), Nat.even_add_one, Nat.not_even_iff_odd] at heven
  exact heven

end Graph

section Solutions

variable {ρ ν K : Type*} [DecidableEq ρ] [Fintype ρ] [DecidableEq ν] [Fintype ν] [Field K] [LinearOrder K]
  {C : Matrix ρ ν K} {b : ρ → K} {g : ρ → ν} {z : ν → K}

/-- A nonnegative solution on independent columns is what some tableau shows. -/
theorem exists_feasible (hg : Function.Injective g)
    (hkernel : ∀ z : ν → K, C *ᵥ z = 0 → (∀ v, v ∉ Set.range g → z v = 0) → z = 0) (hz : ∀ v, 0 ≤ z v)
    (hsolves : C *ᵥ z = b) (hoff : ∀ v, v ∉ Set.range g → z v = 0) :
    ∃ t : Tableau ρ ν K K, t.Feasible C b ∧ t.basis = g := by
  let N := C.submatrix id g
  have hdet : N.det ≠ 0 := by
    rw [Ne, ← exists_mulVec_eq_zero_iff]
    rintro ⟨w, hw, hzero⟩
    obtain ⟨d, hd⟩ := exists_plays ⟨g, hg⟩ w
    have hd0 : d = 0 := hkernel d (funext fun i => (hd.mulVec C i).trans (congrFun hzero i)) hd.off
    exact hw (funext fun r => by rw [← hd.on r, hd0, Pi.zero_apply, Pi.zero_apply])
  have hinv : N⁻¹ * N = 1 := nonsing_inv_mul N (isUnit_iff_ne_zero.mpr hdet)
  refine ⟨⟨N⁻¹ * C, act N⁻¹ b, g⟩, ⟨⟨fun i r => ?_, N⁻¹, rfl, rfl⟩, fun r => ?_⟩, rfl⟩
  · exact congrFun (congrFun hinv i) r
  · have hrhs : act N⁻¹ b = fun r => z (g r) := by
      have hNz : N *ᵥ (fun r => z (g r)) = b :=
        hsolves ▸ funext fun i => ((plays_self (e := ⟨g, hg⟩) hoff).mulVec C i).symm
      rw [← mulVec_eq_act, ← hNz, mulVec_mulVec, hinv, one_mulVec]
    exact hrhs ▸ hz (g r)

end Solutions

section Equilibria

variable {K : Type*} [Field K] [LinearOrder K] [IsStrictOrderedRing K] {ι κ : Type*} [DecidableEq ι] [DecidableEq κ]
  [Fintype ι] [Fintype κ] {A B : Matrix ι κ K} {x x' : ι → K} {y y' d : κ → K}

/-- An action that is played has its weight in the basis, any other its slack. -/
def chosen (x : ι → K) (y : κ → K) (l : ι ⊕ κ) : (ι ⊕ κ) × Bool := (l, decide (Sum.elim x y l ≠ 0))

def playedBase (x : ι → K) (y : κ → K) : Finset ((ι ⊕ κ) × Bool) := Finset.univ.image (chosen x y)

theorem mem_playedBase {v : (ι ⊕ κ) × Bool} : v ∈ playedBase x y ↔ v.2 = decide (Sum.elim x y v.1 ≠ 0) := by
  rw [playedBase, Finset.mem_image]
  constructor
  · rintro ⟨l, -, rfl⟩
    rfl
  · exact fun h => ⟨v.1, Finset.mem_univ _, Prod.ext rfl h.symm⟩

theorem coe_playedBase : (playedBase x y : Set ((ι ⊕ κ) × Bool)) = Set.range (chosen x y) := by
  rw [playedBase, Finset.coe_image, Finset.coe_univ, Set.image_univ]

theorem weight_mem_playedBase {l : ι ⊕ κ} : (l, true) ∈ playedBase x y ↔ Sum.elim x y l ≠ 0 := by
  rw [mem_playedBase, eq_comm, decide_eq_true_eq]

theorem slack_mem_playedBase {l : ι ⊕ κ} : (l, false) ∈ playedBase x y ↔ Sum.elim x y l = 0 := by
  rw [mem_playedBase, eq_comm, decide_eq_false_iff_not, not_not]

theorem onePerLabel_playedBase : OnePerLabel (playedBase x y) := by
  intro v hv w hw hfst
  rw [Finset.mem_coe, mem_playedBase] at hv hw
  exact Prod.ext hfst (by rw [hv, hw, hfst])

theorem IsEquilibrium.value_pos (h : IsEquilibrium A B x y) (hA : ∀ i j, 0 < A i j) : 0 < x ⬝ᵥ A *ᵥ y := by
  obtain ⟨i, hi⟩ := support_nonempty h.1.1
  obtain ⟨j, hj⟩ := support_nonempty h.2.1
  rw [← h.1.value (mem_support.mp hi)]
  refine Finset.sum_pos' (fun j _ => mul_nonneg (hA i j).le (h.2.1.1 j)) ⟨j, Finset.mem_univ j, ?_⟩
  exact mul_pos (hA i j) (lt_of_le_of_ne (h.2.1.1 j) (Ne.symm (mem_support.mp hj)))

theorem IsEquilibrium.kernel (hgame : Nondegenerate A B) (h : IsEquilibrium A B x y) (hA : ∀ i j, 0 < A i j)
    (honly : ∀ j, y j = 0 → d j = 0) (hrow : ∀ i, x i ≠ 0 → (A *ᵥ d) i = 0) : d = 0 := by
  let s := ∑ j, d j
  have hpay (i : ι) : (A *ᵥ (d - s • y)) i = (A *ᵥ d) i - s * (A *ᵥ y) i := by
    rw [mulVec_sub, mulVec_smul]
    rfl
  have hscaled : d - s • y = 0 := by
    refine direction_eq_zero (w := -(s * (x ⬝ᵥ A *ᵥ y))) hgame h (fun j hj => ?_) (fun i hi => ?_) ?_
    · simp [hj, honly j hj]
    · rw [hpay, hrow i hi, h.1.value hi, zero_sub]
    · simp [← Finset.mul_sum, h.2.1.2, s]
  obtain ⟨i, hi⟩ := support_nonempty h.1.1
  have hzero : s * (x ⬝ᵥ A *ᵥ y) = 0 := by
    have hi' := hpay i
    rw [hscaled, mulVec_zero, hrow i (mem_support.mp hi), h.1.value (mem_support.mp hi)] at hi'
    simpa using hi'.symm
  have hs : s = 0 := (mul_eq_zero.mp hzero).resolve_right (h.value_pos hA).ne'
  rwa [hs, zero_smul, sub_zero] at hscaled

/-- The weights divided by the payoff that the other player gets, and what every action falls short of it. -/
def equilibriumSolution (A B : Matrix ι κ K) (x : ι → K) (y : κ → K) : (ι ⊕ κ) × Bool → K
  | (.inl i, true) => x i / (y ⬝ᵥ Bᵀ *ᵥ x)
  | (.inr j, true) => y j / (x ⬝ᵥ A *ᵥ y)
  | (.inl i, false) => 1 - (A *ᵥ y) i / (x ⬝ᵥ A *ᵥ y)
  | (.inr j, false) => 1 - (Bᵀ *ᵥ x) j / (y ⬝ᵥ Bᵀ *ᵥ x)

theorem mulVec_div (A : Matrix ι κ K) (y : κ → K) (c : K) (i : ι) : (A *ᵥ fun j => y j / c) i = (A *ᵥ y) i / c := by
  simp only [mulVec, dotProduct, Finset.sum_div, mul_div_assoc]

theorem equilibriumSolution_solves :
    constraints (bestReplyMatrix A B) *ᵥ equilibriumSolution A B x y = fun _ => 1 := by
  rw [mulVec_eq_act]
  funext l
  rw [act_constraints]
  cases l with
  | inl i =>
    rw [act_bestReplyMatrix_inl, ← mulVec_eq_act]
    simp only [equilibriumSolution, mulVec_div, add_sub_cancel]
  | inr j =>
    rw [act_bestReplyMatrix_inr, ← mulVec_eq_act]
    simp only [equilibriumSolution, mulVec_div, add_sub_cancel]

theorem equilibriumSolution_nonneg (h : IsEquilibrium A B x y) (hA : ∀ i j, 0 < A i j) (hB : ∀ i j, 0 < B i j)
    (v : (ι ⊕ κ) × Bool) : 0 ≤ equilibriumSolution A B x y v := by
  have hpos₁ := h.value_pos hA
  have hpos₂ := h.transpose.value_pos fun j i => hB i j
  obtain ⟨l | l, _ | _⟩ := v
  · exact sub_nonneg.mpr ((div_le_one hpos₁).mpr ((reply_iff_le.mp h.1).2 l))
  · exact div_nonneg (h.1.1.1 l) hpos₂.le
  · exact sub_nonneg.mpr ((div_le_one hpos₂).mpr ((reply_iff_le.mp h.2).2 l))
  · exact div_nonneg (h.2.1.1 l) hpos₁.le

theorem equilibriumSolution_off (h : IsEquilibrium A B x y) (hA : ∀ i j, 0 < A i j) (hB : ∀ i j, 0 < B i j)
    {v : (ι ⊕ κ) × Bool} (hv : v ∉ playedBase x y) : equilibriumSolution A B x y v = 0 := by
  have hpos₁ := h.value_pos hA
  have hpos₂ := h.transpose.value_pos fun j i => hB i j
  obtain ⟨l | l, _ | _⟩ := v
  · have hl : x l ≠ 0 := fun hl => hv (slack_mem_playedBase.mpr hl)
    simp only [equilibriumSolution, h.1.value hl, div_self hpos₁.ne', sub_self]
  · have hl : x l = 0 := by_contra fun hl => hv (weight_mem_playedBase.mpr hl)
    simp only [equilibriumSolution, hl, zero_div]
  · have hl : y l ≠ 0 := fun hl => hv (slack_mem_playedBase.mpr hl)
    simp only [equilibriumSolution, h.2.value hl, div_self hpos₂.ne', sub_self]
  · have hl : y l = 0 := by_contra fun hl => hv (weight_mem_playedBase.mpr hl)
    simp only [equilibriumSolution, hl, zero_div]

theorem playedBase_kernel (hgame : Nondegenerate A B) (h : IsEquilibrium A B x y) (hA : ∀ i j, 0 < A i j)
    (hB : ∀ i j, 0 < B i j) {z : (ι ⊕ κ) × Bool → K} (hz : constraints (bestReplyMatrix A B) *ᵥ z = 0)
    (hoff : ∀ v, v ∉ playedBase x y → z v = 0) : z = 0 := by
  have hrow (l : ι ⊕ κ) : act (bestReplyMatrix A B) (fun l => z (l, true)) l + z (l, false) = 0 := by
    rw [← act_constraints, ← mulVec_eq_act, hz, Pi.zero_apply]
  have hrow₁ (i : ι) : (A *ᵥ fun j => z (.inr j, true)) i + z (.inl i, false) = 0 := by
    rw [mulVec_eq_act, ← act_bestReplyMatrix_inl A B fun l => z (l, true)]
    exact hrow (.inl i)
  have hrow₂ (j : κ) : (Bᵀ *ᵥ fun i => z (.inl i, true)) j + z (.inr j, false) = 0 := by
    rw [mulVec_eq_act, ← act_bestReplyMatrix_inr A B fun l => z (l, true)]
    exact hrow (.inr j)
  have hy : (fun j => z (.inr j, true)) = 0 := by
    refine h.kernel hgame hA (fun j hj => hoff _ fun hmem => weight_mem_playedBase.mp hmem hj) fun i hi => ?_
    rw [← hrow₁ i, hoff (.inl i, false) fun hmem => hi (slack_mem_playedBase.mp hmem), add_zero]
  have hx : (fun i => z (.inl i, true)) = 0 := by
    refine h.transpose.kernel hgame.transpose (fun j i => hB i j)
      (fun i hi => hoff _ fun hmem => weight_mem_playedBase.mp hmem hi) fun j hj => ?_
    rw [← hrow₂ j, hoff (.inr j, false) fun hmem => hj (slack_mem_playedBase.mp hmem), add_zero]
  funext v
  obtain ⟨l | l, _ | _⟩ := v
  · simpa [hy] using hrow₁ l
  · exact congrFun hx l
  · simpa [hx] using hrow₂ l
  · exact congrFun hy l

theorem IsEquilibrium.isBase (hgame : Nondegenerate A B) (h : IsEquilibrium A B x y) (hA : ∀ i j, 0 < A i j)
    (hB : ∀ i j, 0 < B i j) : IsBase (bestReplyMatrix A B) (fun _ => (1 : K)) (playedBase x y) := by
  have hmem (v : (ι ⊕ κ) × Bool) : v ∈ playedBase x y ↔ v ∈ Set.range (chosen x y) := by
    rw [← coe_playedBase, Finset.mem_coe]
  obtain ⟨t, ht, hbasis⟩ := exists_feasible (C := constraints (bestReplyMatrix A B)) (g := chosen x y)
    (fun l l' heq => congrArg Prod.fst heq)
    (fun z hz hzero => playedBase_kernel hgame h hA hB hz fun v hv => hzero v (mt (hmem v).mpr hv))
    (equilibriumSolution_nonneg h hA hB) equilibriumSolution_solves
    fun v hv => equilibriumSolution_off h hA hB (mt (hmem v).mp hv)
  exact ⟨t, ht, hbasis ▸ coe_playedBase⟩

/-- In a nondegenerate game the supports determine the equilibrium. -/
theorem IsEquilibrium.eq_of_zeros (hgame : Nondegenerate A B) (h : IsEquilibrium A B x y) (h' : IsEquilibrium A B x' y')
    (hx : ∀ i, x i = 0 ↔ x' i = 0) (hy : ∀ j, y j = 0 ↔ y' j = 0) : y = y' := by
  have hdiff : y - y' = 0 := by
    refine direction_eq_zero (w := x ⬝ᵥ A *ᵥ y - x' ⬝ᵥ A *ᵥ y') hgame h (fun j hj => ?_) (fun i hi => ?_) ?_
    · rw [Pi.sub_apply, hj, (hy j).mp hj, sub_self]
    · rw [mulVec_sub, Pi.sub_apply, h.1.value hi, h'.1.value fun hi' => hi ((hx i).mpr hi')]
    · simp [h.2.1.2, h'.2.1.2]
  exact sub_eq_zero.mp hdiff

theorem IsEquilibrium.eq_of_reply (hgame : Nondegenerate A B) (h : IsEquilibrium A B x y)
    (h' : IsEquilibrium A B x y') : y = y' := by
  have hsupport : support y = support y' := by
    have hleft := bestReplies_eq_support hgame.transpose h.transpose
    have hright := bestReplies_eq_support hgame.transpose h'.transpose
    exact hleft.symm.trans hright
  refine h.eq_of_zeros hgame h' (fun _ => Iff.rfl) fun j => ?_
  rw [← not_iff_not, ← Ne, ← Ne, ← mem_support, ← mem_support, hsupport]

theorem exists_equilibrium_of_base (hgame : Nondegenerate A B) {S : Finset ((ι ⊕ κ) × Bool)}
    (hbase : IsBase (bestReplyMatrix A B) (fun _ => (1 : K)) S) (hone : OnePerLabel S) (hown : ∃ l, (l, true) ∈ S) :
    ∃ x y, IsEquilibrium A B x y ∧ playedBase x y = S := by
  obtain ⟨t, ht, hS⟩ := hbase
  have hmem (v : (ι ⊕ κ) × Bool) : v ∈ S ↔ v ∈ Set.range t.basis := by rw [← hS, Finset.mem_coe]
  have hc : Complementary t := by
    apply Finite.injective_iff_bijective.mp
    intro r r' hfst
    exact ht.basis_injective (hone (Finset.mem_coe.mpr ((hmem _).mpr ⟨r, rfl⟩))
      (Finset.mem_coe.mpr ((hmem _).mpr ⟨r', rfl⟩)) hfst)
  obtain ⟨l, hl⟩ := hown
  obtain ⟨r, hr⟩ := (hmem _).mp hl
  obtain ⟨hx, hy⟩ := ht.weights_ne_zero hc ⟨r, congrArg Prod.snd hr⟩
  have hsol := ht.solution hc
  refine ⟨_, _, hsol.equilibrium hx hy, ?_⟩
  have hweight (l : ι ⊕ κ) : Sum.elim (fun i => t.value (.inl i, true) / ∑ i, t.value (.inl i, true))
      (fun j => t.value (.inr j, true) / ∑ j, t.value (.inr j, true)) l ≠ 0 ↔ (l, true) ∈ S := by
    have hvalue : t.value (l, true) ≠ 0 ↔ (l, true) ∈ S := by
      rw [hmem]
      constructor
      · exact Tableau.basic_of_value_ne_zero
      · rintro ⟨r, hr⟩
        rw [← hr, Tableau.value_basis ht.basis_injective]
        exact (nondegenerate_bestReplySystem hgame t ht r).ne'
    rw [← hvalue]
    cases l with
    | inl i => exact div_ne_zero_iff.trans (and_iff_left (sum_pos_of_ne_zero hsol.weight₁ hx).ne')
    | inr j => exact div_ne_zero_iff.trans (and_iff_left (sum_pos_of_ne_zero hsol.weight₂ hy).ne')
  ext ⟨l, side⟩
  cases side with
  | true => rw [weight_mem_playedBase, hweight]
  | false =>
    rw [slack_mem_playedBase, ← not_iff_not, ← Ne, hweight, hmem, hmem]
    exact ⟨hc.slack_nonbasic, fun hnot => by_contra fun hnone => hnot (hc.slack_basic hnone)⟩

/-- A nondegenerate game with positive payoffs has an odd number of equilibria. -/
theorem odd_card_equilibria [Nonempty ι] [Nonempty κ] (hgame : Nondegenerate A B) (hA : ∀ i j, 0 < A i j)
    (hB : ∀ i j, 0 < B i j) : Odd {p : (ι → K) × (κ → K) | IsEquilibrium A B p.1 p.2}.ncard := by
  have hcount : {p : (ι → K) × (κ → K) | IsEquilibrium A B p.1 p.2}.ncard =
      {S | IsBase (bestReplyMatrix A B) (fun _ => (1 : K)) S ∧ OnePerLabel S ∧ ∃ l, (l, true) ∈ S}.ncard := by
    refine Set.ncard_congr (fun p _ => playedBase p.1 p.2) (fun p hp => ?_) (fun p q hp hq heq => ?_) ?_
    · obtain ⟨i, hi⟩ := support_nonempty (K := K) hp.1.1
      have hmem : p.1 i ≠ 0 := mem_support.mp hi
      exact ⟨hp.isBase hgame hA hB, onePerLabel_playedBase, .inl i, weight_mem_playedBase.mpr hmem⟩
    · have hzero (l : ι ⊕ κ) : Sum.elim p.1 p.2 l = 0 ↔ Sum.elim q.1 q.2 l = 0 := by
        rw [← slack_mem_playedBase, ← slack_mem_playedBase, heq]
      have hx (i : ι) : p.1 i = 0 ↔ q.1 i = 0 := hzero (.inl i)
      have hy (j : κ) : p.2 j = 0 ↔ q.2 j = 0 := hzero (.inr j)
      exact Prod.ext (hp.transpose.eq_of_zeros hgame.transpose hq.transpose hy hx) (hp.eq_of_zeros hgame hq hx hy)
    · rintro S ⟨hbase, hone, hown⟩
      obtain ⟨x, y, h, hS⟩ := exists_equilibrium_of_base hgame hbase hone hown
      exact ⟨(x, y), h, hS⟩
  rw [hcount]
  obtain ⟨i⟩ := ‹Nonempty ι›
  have : Nonempty ι := ⟨i⟩
  exact odd_card_onePerLabel (fun _ => zero_le_one) (nondegenerate_bestReplySystem hgame)
    (bounded_bestReplySystem hA hB) (.inl i)

end Equilibria

section ZeroSum

variable {K : Type*} [Field K] [LinearOrder K] {ι κ : Type*} [Fintype ι] [Fintype κ] {A : Matrix ι κ K} {x x' : ι → K}
  {y y' : κ → K}

theorem dotProduct_neg_transpose (A : Matrix ι κ K) (x : ι → K) (y : κ → K) :
    y ⬝ᵥ (-A)ᵀ *ᵥ x = -(x ⬝ᵥ A *ᵥ y) := by
  rw [transpose_neg, neg_mulVec, dotProduct_neg, dotProduct_mulVec, vecMul_transpose, dotProduct_comm]

variable [IsStrictOrderedRing K]

/-- Neither player gains alone: the first gets at most the value, the second leaves at least it. -/
theorem IsEquilibrium.saddle (h : IsEquilibrium A (-A) x y) (hx' : x' ∈ stdSimplex K ι) (hy' : y' ∈ stdSimplex K κ) :
    x' ⬝ᵥ A *ᵥ y ≤ x ⬝ᵥ A *ᵥ y ∧ x ⬝ᵥ A *ᵥ y ≤ x ⬝ᵥ A *ᵥ y' := by
  have hreply := h.2.2 y' hy'
  rw [dotProduct_neg_transpose, dotProduct_neg_transpose, neg_le_neg_iff] at hreply
  exact ⟨h.1.2 x' hx', hreply⟩

theorem IsEquilibrium.value_eq (h : IsEquilibrium A (-A) x y) (h' : IsEquilibrium A (-A) x' y') :
    x ⬝ᵥ A *ᵥ y = x ⬝ᵥ A *ᵥ y' ∧ x' ⬝ᵥ A *ᵥ y' = x ⬝ᵥ A *ᵥ y' := by
  obtain ⟨hrow, hcol⟩ := h.saddle h'.1.1 h'.2.1
  obtain ⟨hrow', hcol'⟩ := h'.saddle h.1.1 h.2.1
  constructor <;> linarith

theorem IsEquilibrium.exchange (h : IsEquilibrium A (-A) x y) (h' : IsEquilibrium A (-A) x' y') :
    IsEquilibrium A (-A) x y' := by
  obtain ⟨hleft, hright⟩ := h.value_eq h'
  refine ⟨⟨h.1.1, fun x'' hx'' => ?_⟩, ⟨h'.2.1, fun y'' hy'' => ?_⟩⟩
  · rw [← hright]
    exact h'.1.2 x'' hx''
  · rw [dotProduct_neg_transpose A x y', ← hleft, ← dotProduct_neg_transpose]
    exact h.2.2 y'' hy''

theorem IsEquilibrium.unique (hgame : Nondegenerate A (-A)) (h : IsEquilibrium A (-A) x y)
    (h' : IsEquilibrium A (-A) x' y') : x = x' ∧ y = y' := by
  classical
  constructor
  · exact ((h.exchange h').transpose.eq_of_reply hgame.transpose h'.transpose)
  · exact h.eq_of_reply hgame (h.exchange h')

end ZeroSum

end Klett.Lib

import Klett.Lib.Successor
import Mathlib.Data.Fintype.Pi
import Mathlib.Order.Fin.Basic
import Mathlib.Order.PiLex

namespace Klett.Nash

open Klett.Lib

section Subsets

variable {k n : ℕ}

/-- A `k`-subset of the first `n` indices, as the increasing vector of its members. -/
abbrev Support (k n : ℕ) := Fin k ↪o Fin n

theorem Support.le (S : Support k n) : k ≤ n := by
  simpa using Fintype.card_le_of_embedding S.toEmbedding

theorem Support.spread (S : Support k n) (i : Fin k) (d : ℕ) (h : i.val + d < k) :
    (S i).val + d ≤ S ⟨i + d, h⟩ := by
  induction d with
  | zero => exact le_rfl
  | succ d ih =>
    have hstep : S ⟨i + d, by omega⟩ < S ⟨i + (d + 1), h⟩ := S.strictMono (Fin.lt_def.mpr (by simp only; omega))
    have hprev := ih (by omega)
    have hlt := Fin.lt_def.mp hstep
    omega

theorem Support.apply_le (S : Support k n) (i : Fin k) : (S i).val ≤ n - k + i := by
  have hspread := S.spread i (k - 1 - i) (by omega)
  have hlast := (S ⟨i + (k - 1 - i), by omega⟩).isLt
  have hle := S.le
  omega

theorem Support.add_le (S : Support k n) {i j : Fin k} (hij : i ≤ j) : (S i).val + (j - i) ≤ S j := by
  have hspread := S.spread i (j - i) (by omega)
  have hj : (⟨i + (j.val - i), by omega⟩ : Fin k) = j := Fin.ext (by simp only; omega)
  rwa [hj] at hspread

def Support.incremented (S : Support k n) (i : Fin k) (h : (S i).val < n - k + i) (j : Fin k) : Fin n :=
  if j < i then S j else ⟨(S i).val + 1 + (j - i), by have := S.le; omega⟩

variable {S : Support k n} {i : Fin k} {h : (S i).val < n - k + i}

theorem Support.incremented_val (j : Fin k) :
    (S.incremented i h j).val = if j < i then (S j).val else (S i).val + 1 + (j - i) := by
  rw [incremented]
  split_ifs
  · rfl
  · rfl

theorem Support.strictMono_incremented : StrictMono (S.incremented i h) := by
  intro a b hab
  have hmono := Fin.lt_def.mp (S.strictMono hab)
  have hab' := Fin.lt_def.mp hab
  rw [Fin.lt_def, incremented_val, incremented_val]
  split_ifs with ha hb hb
  · exact hmono
  · have hai := Fin.lt_def.mp (S.strictMono ha)
    omega
  · omega
  · omega

def Support.increment (S : Support k n) (i : Fin k) (h : (S i).val < n - k + i) : Support k n :=
  OrderEmbedding.ofStrictMono (S.incremented i h) strictMono_incremented

theorem Support.increment_apply (j : Fin k) :
    (S.increment i h j).val = if j < i then (S j).val else (S i).val + 1 + (j - i) :=
  incremented_val (h := h) j

def nextSubset (S : Support k n) : Option (Support k n) :=
  match h : (List.finRange k).reverse.find? fun i => (S i).val < n - k + i with
  | none => none
  | some i => some (S.increment i (by simpa using List.find?_some h))

def firstSubset (h : k ≤ n) : Support k n := Fin.castLEOrderEmb h

end Subsets

section Lexicographic

variable {k n : ℕ} {S S' T : Support k n}

def Support.Precedes (S T : Support k n) : Prop := toLex (S : Fin k → Fin n) < toLex (T : Fin k → Fin n)

instance : IsStrictOrder (Support k n) Support.Precedes where
  irrefl S := lt_irrefl (toLex (S : Fin k → Fin n))
  trans _ _ _ := lt_trans

theorem Support.precedes_iff :
    S.Precedes T ↔ ∃ i, (∀ j < i, S j = T j) ∧ S i < T i := Iff.rfl

theorem Support.eq_or_precedes (h : ∀ j, S j ≤ T j) : T = S ∨ S.Precedes T := by
  rcases (Pi.toLex_monotone (fun j => h j : (S : Fin k → Fin n) ≤ T)).eq_or_lt with heq | hlt
  · exact .inl (DFunLike.coe_injective (toLex.injective heq)).symm
  · exact .inr hlt

theorem nextSubset_some (h : nextSubset S = some S') :
    ∃ i, ∃ hi : (S i).val < n - k + i, S' = S.increment i hi ∧ ∀ j, i < j → ¬(S j).val < n - k + j := by
  rw [nextSubset] at h
  split at h
  · cases h
  next i hfind =>
    have hi : (S i).val < n - k + i := by simpa using List.find?_some hfind
    refine ⟨i, hi, (Option.some.inj h).symm, fun j hj hlt => ?_⟩
    rw [List.find?_eq_some_iff_append] at hfind
    obtain ⟨-, before, after, hsplit, hnone⟩ := hfind
    have hmem : j ∈ (List.finRange k).reverse := List.mem_reverse.mpr (List.mem_finRange j)
    have hsorted : (List.finRange k).reverse.Pairwise (· > ·) :=
      List.pairwise_reverse.mpr (List.pairwise_lt_finRange k)
    rw [hsplit] at hmem hsorted
    rcases List.mem_append.mp hmem with hbefore | hafter
    · simpa [hlt] using hnone j hbefore
    · rcases List.mem_cons.mp hafter with rfl | hafter
      · exact lt_irrefl _ hj
      · exact absurd hj ((List.pairwise_cons.mp (List.pairwise_append.mp hsorted).2.1).1 j hafter).not_gt

theorem nextSubset_none (h : nextSubset S = none) (i : Fin k) : ¬(S i).val < n - k + i := by
  rw [nextSubset] at h
  split at h
  next hfind =>
    intro hlt
    simpa [hlt] using List.find?_eq_none.mp hfind i (List.mem_reverse.mpr (List.mem_finRange i))
  · cases h

theorem nextSubset_rises (S S' : Support k n) (h : nextSubset S = some S') : S.Precedes S' := by
  obtain ⟨i, hi, rfl, -⟩ := nextSubset_some h
  refine Support.precedes_iff.mpr ⟨i, fun j hj => Fin.ext ?_, Fin.lt_def.mpr ?_⟩
  · rw [Support.increment_apply, if_pos hj]
  · rw [Support.increment_apply, if_neg (lt_irrefl i)]
    omega

/-- Nothing lies between a subset and the next: a later one differs first at the place incremented or before it. -/
theorem nextSubset_covers (S S' : Support k n) (h : nextSubset S = some S') (T : Support k n) (hT : S.Precedes T) :
    T = S' ∨ S'.Precedes T := by
  obtain ⟨i, hi, rfl, hlast⟩ := nextSubset_some h
  obtain ⟨d, hsame, hlt⟩ := Support.precedes_iff.mp hT
  have hd : d ≤ i := by
    by_contra hdi
    have hbound := T.apply_le d
    have hlt' := Fin.lt_def.mp hlt
    exact hlast d (not_le.mp hdi) (by omega)
  rcases hd.lt_or_eq with hd | rfl
  · right
    refine Support.precedes_iff.mpr ⟨d, fun j hj => ?_, ?_⟩
    · rw [← hsame j hj]
      exact Fin.ext (by rw [Support.increment_apply, if_pos (hj.trans hd)])
    · exact Fin.lt_def.mpr (by rw [Support.increment_apply, if_pos hd]; exact hlt)
  · apply Support.eq_or_precedes
    intro j
    apply Fin.le_def.mpr
    rw [Support.increment_apply]
    split_ifs with hj
    · rw [hsame j hj]
    · have hadd := T.add_le (not_lt.mp hj)
      have hlt' := Fin.lt_def.mp hlt
      omega

theorem nextSubset_ends (S : Support k n) (h : nextSubset S = none) (T : Support k n) : ¬S.Precedes T := by
  intro hT
  obtain ⟨d, -, hlt⟩ := Support.precedes_iff.mp hT
  have hbound := T.apply_le d
  have hlt' := Fin.lt_def.mp hlt
  exact nextSubset_none h d (by omega)

def subsets (k n : ℕ) : List (Support k n) :=
  if h : k ≤ n then following nextSubset Support.Precedes nextSubset_rises (firstSubset h) else []

theorem mem_subsets (S : Support k n) : S ∈ subsets k n := by
  rw [subsets, dif_pos S.le]
  refine (mem_following nextSubset_covers nextSubset_ends).mpr (Support.eq_or_precedes fun j => ?_)
  have hfirst := S.spread ⟨0, j.pos⟩ j (by simp only; omega)
  have hj : (⟨0 + j.val, by omega⟩ : Fin k) = j := Fin.ext (Nat.zero_add _)
  rw [hj] at hfirst
  exact Fin.le_def.mpr ((Nat.le_add_left _ _).trans hfirst)

theorem subsets_pairwise : (subsets k n).Pairwise Support.Precedes := by
  rw [subsets]
  split_ifs
  · exact following_pairwise nextSubset_covers nextSubset_ends
  · exact List.Pairwise.nil

theorem subsets_nodup : (subsets k n).Nodup :=
  subsets_pairwise.imp fun h => ne_of_irrefl h

end Lexicographic

end Klett.Nash

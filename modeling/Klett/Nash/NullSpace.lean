import Klett.Lib.ReducedForm
import Klett.Nash.LinearAlgebra
import Mathlib.Data.List.ProdSigma

namespace Klett.Nash

open Matrix Klett.Lib

section Model

variable {m n : ℕ}

def pivotRowAt (k : Fin (min m n)) : Fin m := k.castLE (min_le_left m n)

def pivotColAt (k : Fin (min m n)) : Fin n := k.castLE (min_le_right m n)

/-- The positions from `(k, k)` on, in the order of the two loops. -/
def block (m n k : ℕ) : List (Fin m × Fin n) :=
  (List.finRange m ×ˢ List.finRange n).filter fun at_ => k ≤ at_.1.val ∧ k ≤ at_.2.val

def bestPivot (R : Matrix (Fin m) (Fin n) ℚ) (k : Fin (min m n)) : ℚ × Fin m × Fin n :=
  (block m n k).foldl (fun found at_ => if found.1 < |R at_.1 at_.2| then (|R at_.1 at_.2|, at_) else found)
    (0, pivotRowAt k, pivotColAt k)

/-- Clears column `k` in some rows; of the pivot row only what stands right of the pivot is subtracted. -/
def clearRows (R : Matrix (Fin m) (Fin n) ℚ) (k : Fin (min m n)) (rows : Fin m → Bool) : Matrix (Fin m) (Fin n) ℚ :=
  Matrix.of fun i j =>
    if rows i then
      let factor := R i (pivotColAt k) / R (pivotRowAt k) (pivotColAt k)
      if j = pivotColAt k then 0 else if k.val < j.val then R i j - factor * R (pivotRowAt k) j else R i j
    else R i j

def normalizeRow (R : Matrix (Fin m) (Fin n) ℚ) (k : Fin (min m n)) : Matrix (Fin m) (Fin n) ℚ :=
  let d := R (pivotRowAt k) (pivotColAt k)
  Matrix.of fun i j => if i = pivotRowAt k ∧ k.val ≤ j.val then R i j / d else R i j

structure RowReduction (m n : ℕ) where
  R : Matrix (Fin m) (Fin n) ℚ
  colPerm : Equiv.Perm (Fin n)
  rank : ℕ
  stopped : Bool

/-- One turn of the loop over the pivots; after `stopped` is set the source has left it. -/
def RowReduction.turn (pivotTol : PivotTol) (red : RowReduction m n) (k : Fin (min m n)) : RowReduction m n :=
  if red.stopped then red
  else
    let (best, bestR, bestC) := bestPivot red.R k
    if pivotTol.Singular best then { red with stopped := true }
    else
      let R := red.R.submatrix (Equiv.swap (pivotRowAt k) bestR) (Equiv.swap (pivotColAt k) bestC)
      let R := clearRows R k fun i => k.val < i.val
      let R := clearRows R k fun i => i.val < k.val
      { R := normalizeRow R k
        colPerm := red.colPerm * Equiv.swap (pivotColAt k) bestC
        rank := red.rank + 1
        stopped := false }

def rowReduce (A : Matrix (Fin m) (Fin n) ℚ) (pivotTol : PivotTol) : RowReduction m n :=
  (List.finRange (min m n)).foldl (RowReduction.turn pivotTol) ⟨A, 1, 0, false⟩

def RowReduction.vector (red : RowReduction m n) (f : Fin (n - red.rank)) : Fin n → ℚ :=
  let freeCol := freeColumn red.rank f
  (List.finRange (min m n)).foldl
    (fun v k => if k.val < red.rank then Function.update v (red.colPerm (pivotColAt k)) (-red.R (pivotRowAt k) freeCol)
      else v)
    (Function.update 0 (red.colPerm freeCol) 1)

/-- Vector `f` of the basis is multiplied by `scale f`, in the source the inverse of its norm. -/
def nullSpace (A : Matrix (Fin m) (Fin n) ℚ) (pivotTol : PivotTol) (scale : ℕ → ℚ) : List (Fin n → ℚ) :=
  let red := rowReduce A pivotTol
  (List.finRange (n - red.rank)).map fun f : Fin (n - red.rank) => scale f.val • red.vector f

end Model

section Pivots

variable {m n : ℕ} {R : Matrix (Fin m) (Fin n) ℚ} {k : Fin (min m n)}

theorem mem_block {k : ℕ} {at_ : Fin m × Fin n} : at_ ∈ block m n k ↔ k ≤ at_.1.val ∧ k ≤ at_.2.val := by
  have hmem : at_ ∈ List.finRange m ×ˢ List.finRange n :=
    List.pair_mem_product.mpr ⟨List.mem_finRange at_.1, List.mem_finRange at_.2⟩
  simp [block, List.mem_filter, hmem]

theorem foldl_greatest {α : Type} (key : α → ℚ) (l : List α) (start : ℚ × α) :
    let found := l.foldl (fun found a => if found.1 < key a then (key a, a) else found) start
    start.1 ≤ found.1 ∧ (∀ a ∈ l, key a ≤ found.1) ∧ (found = start ∨ ∃ a ∈ l, found = (key a, a)) := by
  induction l generalizing start with
  | nil => exact ⟨le_rfl, fun a ha => absurd ha (List.not_mem_nil), .inl rfl⟩
  | cons a l ih =>
    simp only [List.foldl_cons]
    split_ifs with hlt
    · obtain ⟨hle, hall, hfound⟩ := ih (key a, a)
      refine ⟨hlt.le.trans hle, fun x hx => ?_, .inr ?_⟩
      · rcases List.mem_cons.mp hx with rfl | hx
        · exact hle
        · exact hall x hx
      · rcases hfound with heq | ⟨x, hx, heq⟩
        · exact ⟨a, List.mem_cons_self, heq⟩
        · exact ⟨x, List.mem_cons_of_mem a hx, heq⟩
    · obtain ⟨hle, hall, hfound⟩ := ih start
      refine ⟨hle, fun x hx => ?_, ?_⟩
      · rcases List.mem_cons.mp hx with rfl | hx
        · exact (not_lt.mp hlt).trans hle
        · exact hall x hx
      · rcases hfound with heq | ⟨x, hx, heq⟩
        · exact .inl heq
        · exact .inr ⟨x, List.mem_cons_of_mem a hx, heq⟩

theorem bestPivot_spec (R : Matrix (Fin m) (Fin n) ℚ) (k : Fin (min m n)) :
    k.val ≤ (bestPivot R k).2.1.val ∧ k.val ≤ (bestPivot R k).2.2.val ∧
      ((bestPivot R k).1 ≠ 0 → R (bestPivot R k).2.1 (bestPivot R k).2.2 ≠ 0) ∧
      ∀ (i : Fin m) (j : Fin n), k.val ≤ i.val → k.val ≤ j.val → |R i j| ≤ (bestPivot R k).1 := by
  obtain ⟨-, hall, hfound⟩ := foldl_greatest (fun at_ : Fin m × Fin n => |R at_.1 at_.2|) (block m n k)
    (0, pivotRowAt k, pivotColAt k)
  have hbound (i : Fin m) (j : Fin n) (hi : k.val ≤ i.val) (hj : k.val ≤ j.val) : |R i j| ≤ (bestPivot R k).1 :=
    hall (i, j) (mem_block.mpr ⟨hi, hj⟩)
  have hcases : bestPivot R k = (0, pivotRowAt k, pivotColAt k) ∨
    ∃ at_ ∈ block m n k, bestPivot R k = (|R at_.1 at_.2|, at_) := hfound
  rcases hcases with heq | ⟨at_, hat, heq⟩
  · refine ⟨?_, ?_, fun h => absurd ?_ h, hbound⟩
    · rw [heq]
      exact le_rfl
    · rw [heq]
      exact le_rfl
    · rw [heq]
  · obtain ⟨hi, hj⟩ := mem_block.mp hat
    refine ⟨?_, ?_, fun h => ?_, hbound⟩
    · rw [heq]
      exact hi
    · rw [heq]
      exact hj
    · rw [heq] at h ⊢
      exact abs_ne_zero.mp h

theorem clearRows_pivotRow (rows : Fin m → Bool) (hrows : rows (pivotRowAt k) = false) (j : Fin n) :
    clearRows R k rows (pivotRowAt k) j = R (pivotRowAt k) j := by
  simp [clearRows, hrows]

/-- The second pass reads the pivot row and the rows above it, which the first pass has left alone. -/
theorem clearRows_both {i : Fin m} (hi : i ≠ pivotRowAt k) (j : Fin n) :
    clearRows (clearRows R k fun i => k.val < i.val) k (fun i => i.val < k.val) i j =
      if j = pivotColAt k then 0
      else if k.val < j.val then R i j - R i (pivotColAt k) / R (pivotRowAt k) (pivotColAt k) * R (pivotRowAt k) j
      else R i j := by
  have hpivot (j : Fin n) : clearRows R k (fun i => k.val < i.val) (pivotRowAt k) j = R (pivotRowAt k) j :=
    clearRows_pivotRow _ (by simp [pivotRowAt]) j
  have hne : i.val ≠ k.val := fun h => hi (Fin.ext h)
  rcases Nat.lt_or_gt_of_ne hne with hlt | hlt
  · have hsame (j : Fin n) : clearRows R k (fun i => k.val < i.val) i j = R i j := by
      simp [clearRows, hlt.not_gt]
    rw [clearRows, of_apply, if_pos (decide_eq_true hlt), hsame, hsame, hpivot, hpivot]
  · rw [clearRows, of_apply, if_neg (by simp [hlt.not_gt]), clearRows, of_apply, if_pos (decide_eq_true hlt)]

/-- Left of the pivot its row is zero, so that the source may leave these columns alone. -/
theorem normalized_eq_pivotOn (h : Leading k R) (hpivot : R (pivotRowAt k) (pivotColAt k) ≠ 0) :
    normalizeRow (clearRows (clearRows R k fun i => k.val < i.val) k fun i => i.val < k.val) k =
      pivotOn R (pivotRowAt k) (pivotColAt k) := by
  have hleft (j : Fin n) (hj : j.val < k.val) : R (pivotRowAt k) j = 0 := by
    rw [h _ j hj, if_neg]
    exact hj.ne'
  have hrow (j : Fin n) : clearRows (clearRows R k fun i => k.val < i.val) k (fun i => i.val < k.val) (pivotRowAt k) j =
      R (pivotRowAt k) j := by
    rw [clearRows_pivotRow _ (by simp [pivotRowAt]), clearRows_pivotRow _ (by simp [pivotRowAt])]
  ext i j
  rw [normalizeRow, of_apply, pivotOn, of_apply, hrow]
  by_cases hi : i = pivotRowAt k
  · rw [hi, if_pos rfl, hrow]
    split_ifs with hj
    · rfl
    · rw [hleft j (by simpa using hj), zero_div]
  · rw [if_neg hi, if_neg fun hboth => hi hboth.1, clearRows_both hi]
    split_ifs with hj hkj
    · rw [hj, div_mul_cancel₀ _ hpivot, sub_self]
    · rfl
    · have hlt : j.val < k.val := by
        have : j.val ≠ k.val := fun heq => hj (Fin.ext heq)
        omega
      rw [hleft j hlt, mul_zero, sub_zero]

end Pivots

section Reduction

variable {m n : ℕ} {A : Matrix (Fin m) (Fin n) ℚ} {red : RowReduction m n}

structure RowReduction.Kept (A : Matrix (Fin m) (Fin n) ℚ) (k : ℕ) (red : RowReduction m n) : Prop where
  rank_le : red.rank ≤ k
  running : red.stopped = false → red.rank = k
  leading : Leading red.rank red.R
  kernel : ∀ x, red.R *ᵥ (x ∘ red.colPerm) = 0 ↔ A *ᵥ x = 0
  rest : red.stopped = true → ∀ (i : Fin m) (j : Fin n), red.rank ≤ i.val → red.rank ≤ j.val → red.R i j = 0

theorem RowReduction.Kept.initial : (⟨A, 1, 0, false⟩ : RowReduction m n).Kept A 0 where
  rank_le := le_rfl
  running _ := rfl
  leading _ _ hl := absurd hl (Nat.not_lt_zero _)
  kernel _ := Iff.rfl
  rest h := absurd h Bool.false_ne_true

theorem RowReduction.turn_cases (h : red.stopped = false) {k : Fin (min m n)} (hleading : Leading k red.R) :
    ((∀ (i : Fin m) (j : Fin n), k.val ≤ i.val → k.val ≤ j.val → red.R i j = 0) ∧
        red.turn .exact k = { red with stopped := true }) ∨
      ∃ (p : Fin m) (q : Fin n), k.val ≤ p.val ∧ k.val ≤ q.val ∧
        let S := red.R.submatrix (Equiv.swap (pivotRowAt k) p) (Equiv.swap (pivotColAt k) q)
        Leading k S ∧ S (pivotRowAt k) (pivotColAt k) ≠ 0 ∧
          red.turn .exact k = ⟨pivotOn S (pivotRowAt k) (pivotColAt k),
            red.colPerm * Equiv.swap (pivotColAt k) q, red.rank + 1, false⟩ := by
  obtain ⟨hp, hq, hpivot, hbound⟩ := bestPivot_spec red.R k
  rw [RowReduction.turn, h, if_neg Bool.false_ne_true]
  by_cases hbest : (bestPivot red.R k).1 = 0
  · refine .inl ⟨fun i j hi hj => ?_, if_pos hbest⟩
    have hle := hbound i j hi hj
    rw [hbest] at hle
    exact abs_nonpos_iff.mp hle
  · have hS : Leading k (red.R.submatrix (Equiv.swap (pivotRowAt k) (bestPivot red.R k).2.1)
        (Equiv.swap (pivotColAt k) (bestPivot red.R k).2.2)) := by
      apply hleading.submatrix
      · intro i hi
        apply Equiv.swap_apply_of_ne_of_ne
        · exact fun heq => absurd (congrArg Fin.val heq) hi.ne
        · exact fun heq => absurd (congrArg Fin.val heq) (hi.trans_le hp).ne
      · intro l hl
        apply Equiv.swap_apply_of_ne_of_ne
        · exact fun heq => absurd (congrArg Fin.val heq) hl.ne
        · exact fun heq => absurd (congrArg Fin.val heq) (hl.trans_le hq).ne
    have hne : red.R.submatrix (Equiv.swap (pivotRowAt k) (bestPivot red.R k).2.1)
        (Equiv.swap (pivotColAt k) (bestPivot red.R k).2.2) (pivotRowAt k) (pivotColAt k) ≠ 0 := by
      rw [submatrix_apply, Equiv.swap_apply_left, Equiv.swap_apply_left]
      exact hpivot hbest
    refine .inr ⟨_, _, hp, hq, hS, hne, ?_⟩
    rw [← normalized_eq_pivotOn hS hne]
    exact if_neg hbest

theorem RowReduction.Kept.turn {k : Fin (min m n)} (h : red.Kept A k) : (red.turn .exact k).Kept A (k + 1) := by
  cases hs : red.stopped
  · have hrank := h.running hs
    have hleading : Leading k red.R := hrank ▸ h.leading
    obtain ⟨hzero, hturn⟩ | ⟨p, q, -, -, hS, hne, hturn⟩ := red.turn_cases hs hleading
    · rw [hturn]
      refine ⟨hrank.le.trans (Nat.le_succ _), fun hfalse => absurd hfalse (by simp), h.leading, h.kernel, fun _ => ?_⟩
      rw [← hrank] at hzero
      exact hzero
    · rw [hturn]
      refine ⟨by simp [hrank], fun _ => by simp [hrank], ?_, fun x => ?_, fun hfalse => absurd hfalse (by simp)⟩
      · have hpivoted := hS.pivotOn (p := pivotRowAt k) (q := pivotColAt k) rfl rfl hne
        rw [← hrank] at hpivoted
        exact hpivoted
      · rw [pivotOn_mulVec_eq_zero_iff hne, submatrix_mulVec_equiv, Equiv.symm_swap]
        have hcols : (x ∘ (red.colPerm * Equiv.swap (pivotColAt k) q)) ∘ Equiv.swap (pivotColAt k) q =
            x ∘ red.colPerm := by
          ext j
          simp
        rw [hcols, ← h.kernel]
        exact ⟨fun hz => (Equiv.swap (pivotRowAt k) p).surjective.injective_comp_right hz, fun hz => by rw [hz]; rfl⟩
  · rw [RowReduction.turn, hs, if_pos rfl]
    exact ⟨h.rank_le.trans (Nat.le_succ _), fun hfalse => absurd (hs.symm.trans hfalse) (by simp), h.leading,
      h.kernel, h.rest⟩

theorem rowReduce_kept (A : Matrix (Fin m) (Fin n) ℚ) : (rowReduce A .exact).Kept A (min m n) :=
  foldl_finRange (fun k (red : RowReduction m n) => red.Kept A k) RowReduction.Kept.initial fun _ _ h => h.turn

theorem RowReduction.Kept.reduced (h : red.Kept A (min m n)) : Reduced red.rank red.R where
  rows := h.rank_le.trans (min_le_left m n)
  cols := h.rank_le.trans (min_le_right m n)
  leading := h.leading
  trailing i j hi hj := by
    cases hs : red.stopped
    · have hrank := h.running hs
      omega
    · exact h.rest hs i j hi hj

end Reduction

section Basis

variable {m n : ℕ} {A : Matrix (Fin m) (Fin n) ℚ} {red : RowReduction m n}

theorem RowReduction.vector_eq (red : RowReduction m n) (f : Fin (n - red.rank)) :
    red.vector f = (List.finRange (min m n)).foldl
      (fun v k => Function.update v (red.colPerm (pivotColAt k))
        (if k.val < red.rank then -red.R (pivotRowAt k) (freeColumn red.rank f) else v (red.colPerm (pivotColAt k))))
      (Function.update 0 (red.colPerm (freeColumn red.rank f)) 1) := by
  rw [RowReduction.vector]
  congr 1
  ext v k
  split_ifs
  · rfl
  · rw [Function.update_eq_self]

theorem pivotCol_injective (red : RowReduction m n) :
    (fun k : Fin (min m n) => red.colPerm (pivotColAt k)).Injective :=
  red.colPerm.injective.comp (Fin.castLE_injective (min_le_right m n))

theorem RowReduction.Kept.isFreeVector (h : red.Kept A (min m n)) (f : Fin (n - red.rank)) :
    IsFreeVector red.R red.rank f (red.vector f ∘ red.colPerm) where
  free g := by
    have hstart : (Function.update 0 (red.colPerm (freeColumn red.rank f)) 1 : Fin n → ℚ)
        (red.colPerm (freeColumn red.rank g)) = if g = f then 1 else 0 := by
      rw [Function.update_apply, Pi.zero_apply]
      exact if_congr (red.colPerm.injective.comp freeColumn_injective).eq_iff rfl rfl
    rw [Function.comp_apply, red.vector_eq, ← hstart]
    by_cases hk : red.rank + g < min m n
    · have hcell := foldl_update_apply (pivotCol_injective red)
        (fun k old => if k.val < red.rank then -red.R (pivotRowAt k) (freeColumn red.rank f) else old)
        (Function.update 0 (red.colPerm (freeColumn red.rank f)) 1) ⟨red.rank + g, hk⟩
      rw [if_neg (by simp)] at hcell
      exact hcell
    · have hout (k : Fin (min m n)) : red.colPerm (pivotColAt k) ≠ red.colPerm (freeColumn red.rank g) := by
        intro heq
        have hval : k.val = red.rank + g := congrArg Fin.val (red.colPerm.injective heq)
        omega
      exact foldl_update_of_ne
        (fun k old => if k.val < red.rank then -red.R (pivotRowAt k) (freeColumn red.rank f) else old) _ hout
  bound i l hil hl := by
    have hk : l.val < min m n := hl.trans_le h.rank_le
    have hcell := foldl_update_apply (pivotCol_injective red)
      (fun k old => if k.val < red.rank then -red.R (pivotRowAt k) (freeColumn red.rank f) else old)
      (Function.update 0 (red.colPerm (freeColumn red.rank f)) 1) ⟨l, hk⟩
    rw [if_pos hl] at hcell
    rw [Function.comp_apply, red.vector_eq, show i = pivotRowAt ⟨l, hk⟩ from Fin.ext hil]
    exact hcell

theorem get_map_finRange {α : Type} {k : ℕ} (g : Fin k → α) :
    ((List.finRange k).map g).get = g ∘ Fin.cast (by simp) := by
  funext i
  rw [List.get_eq_getElem, List.getElem_map, List.getElem_finRange]
  rfl

theorem nullSpace_freeCoordinates (A : Matrix (Fin m) (Fin n) ℚ) (scale : ℕ → ℚ) :
    let red := rowReduce A .exact
    FreeCoordinates (LinearMap.ker A.mulVecLin) (fun f : Fin (n - red.rank) => scale f • red.vector f)
      (fun f => red.colPerm (freeColumn red.rank f)) (fun f => scale f) :=
  (rowReduce_kept A).reduced.freeCoordinates _ (rowReduce_kept A).kernel (fun f => scale f)
    (rowReduce_kept A).isFreeVector

theorem rowReduce_rank (A : Matrix (Fin m) (Fin n) ℚ) : (rowReduce A .exact).rank = A.rank := by
  have hker := (nullSpace_freeCoordinates A fun _ => 1).finrank_eq fun _ => one_ne_zero
  have hrange := A.mulVecLin.finrank_range_add_finrank_ker
  rw [hker, Fintype.card_fin, Module.finrank_fin_fun] at hrange
  have hle := (rowReduce_kept A).reduced.cols
  have hrank : A.rank = Module.finrank ℚ (LinearMap.range A.mulVecLin) := rfl
  omega

theorem nullSpace_basis (A : Matrix (Fin m) (Fin n) ℚ) (scale : ℕ → ℚ) (hscale : ∀ f, scale f ≠ 0) :
    (nullSpace A .exact scale).length = n - A.rank ∧
      LinearIndependent ℚ (nullSpace A .exact scale).get ∧
      (∀ v ∈ nullSpace A .exact scale, A *ᵥ v = 0) ∧
      Submodule.span ℚ {v | v ∈ nullSpace A .exact scale} = LinearMap.ker A.mulVecLin := by
  have hfree := nullSpace_freeCoordinates A scale
  refine ⟨?_, ?_, fun v hv => ?_, ?_⟩
  · rw [nullSpace, List.length_map, List.length_finRange, rowReduce_rank]
  · have hlin := hfree.linearIndependent fun f => hscale f
    exact (get_map_finRange _).symm ▸ hlin.comp _ (Fin.cast_injective _)
  · obtain ⟨f, -, rfl⟩ := List.mem_map.mp hv
    exact hfree.mem f
  · rw [← hfree.span_eq fun f => hscale f]
    congr 1
    ext v
    simp [nullSpace]

theorem nullSpace_basis_row :
    nullSpace !![1, 2, 3; 2, 4, 6] .exact (fun _ => 3) = [![0, 3, -2], ![3, 0, -1]] ∧
      LinearIndependent ℚ (nullSpace !![1, 2, 3; 2, 4, 6] .exact fun _ => 3).get :=
  ⟨by decide +kernel, (nullSpace_basis !![1, 2, 3; 2, 4, 6] (fun _ => 3) fun _ => by norm_num).2.1⟩

end Basis

end Klett.Nash

import Klett.Lib.Tableau
import Klett.Nash.LemkeHowson

namespace Klett.Nash.LemkeHowson

open Matrix Klett.Lib

section Ratios

variable {ρ ν : Type*} {t : Tableau ρ ν ℚ ℚ} {enter : ν} {row : ρ}

theorem leaves_iff_ratio : t.Leaves enter row ↔ 0 < t.coeff row enter ∧
    ∀ i, 0 < t.coeff i enter → t.rhs row / t.coeff row enter ≤ t.rhs i / t.coeff i enter := by
  simp only [div_eq_inv_mul]
  exact ⟨fun h => ⟨h.pos, h.least⟩, fun h => ⟨h.1, h.2⟩⟩

end Ratios

section Pivot

variable {rows : ℕ} {ν : Type*} {t t' : Tableau (Fin rows) ν ℚ ℚ} {enter leave : ν} {row : Fin rows}

/-- What the scan has found among the rows before `l`. -/
structure Scanned (t : Tableau (Fin rows) ν ℚ ℚ) (enter : ν) (l : ℕ) (best : ℚ × Option (Fin rows)) : Prop where
  least : ∀ i : Fin rows, i.val < l → 0 < t.coeff i enter → best.1 ≤ t.rhs i / t.coeff i enter
  none : best.2 = none → best.1 = maxDouble
  some : ∀ r, best.2 = some r → 0 < t.coeff r enter ∧ t.rhs r / t.coeff r enter = best.1 ∧ best.1 < maxDouble

theorem minimumRatio_scanned (t : Tableau (Fin rows) ν ℚ ℚ) (enter : ν) :
    Scanned t enter rows (minimumRatio t 0 enter) := by
  refine foldl_finRange (Scanned t enter) ⟨fun i hi => absurd hi (Nat.not_lt_zero _), fun _ => rfl, fun r hr => ?_⟩
    fun l best h => ?_
  · cases hr
  · have hbelow : best.1 ≤ maxDouble := by
      cases hbest : best.2 with
      | none => exact (h.none hbest).le
      | some r => exact (h.some r hbest).2.2.le
    rw [sub_zero]
    split_ifs with hcoeff hratio
    · refine ⟨fun i hi hpos => ?_, fun hnone => ?_, fun r hr => ?_⟩
      · rcases Nat.lt_succ_iff_lt_or_eq.mp hi with hi | hi
        · exact hratio.le.trans (h.least i hi hpos)
        · rw [Fin.ext hi]
      · cases hnone
      · cases hr
        exact ⟨hcoeff, rfl, hratio.trans_le hbelow⟩
    · refine ⟨fun i hi hpos => ?_, h.none, h.some⟩
      rcases Nat.lt_succ_iff_lt_or_eq.mp hi with hi | hi
      · exact h.least i hi hpos
      · rw [Fin.ext hi]
        exact not_lt.mp hratio
    · refine ⟨fun i hi hpos => ?_, h.none, h.some⟩
      rcases Nat.lt_succ_iff_lt_or_eq.mp hi with hi | hi
      · exact h.least i hi hpos
      · rw [Fin.ext hi] at hpos
        exact absurd hpos hcoeff

theorem minimumRatio_some (h : (minimumRatio t 0 enter).2 = some row) :
    t.Leaves enter row ∧ t.rhs row / t.coeff row enter < maxDouble := by
  have hscan := minimumRatio_scanned t enter
  obtain ⟨hpos, hratio, hlt⟩ := hscan.some row h
  rw [leaves_iff_ratio, hratio]
  exact ⟨⟨hpos, fun i hi => hscan.least i i.isLt hi⟩, hlt⟩

theorem minimumRatio_none (h : (minimumRatio t 0 enter).2 = none) (hrow : t.Leaves enter row) :
    maxDouble ≤ t.rhs row / t.coeff row enter := by
  have hscan := minimumRatio_scanned t enter
  rw [← hscan.none h]
  exact hscan.least row row.isLt hrow.pos

theorem eliminate_eq (t : Tableau (Fin rows) ν ℚ ℚ) (row i : Fin rows) (enter : ν) (entry pivotEntry : ℚ) :
    eliminate t 0 row i enter entry pivotEntry =
      if i = row then (t.coeff row enter)⁻¹ * pivotEntry
      else entry - t.coeff i enter * ((t.coeff row enter)⁻¹ * pivotEntry) := by
  rw [eliminate]
  split_ifs with hi hfactor
  · exact div_eq_inv_mul _ _
  · rw [div_eq_inv_mul]
  · rw [gt_iff_lt, abs_pos, not_not] at hfactor
    rw [hfactor, zero_mul, sub_zero]

theorem pivot_eq_some (h : pivot t 0 enter = some (leave, t')) : ∃ row, t.Leaves enter row ∧
    t.rhs row / t.coeff row enter < maxDouble ∧ leave = t.basis row ∧ t' = t.pivotAt row enter := by
  rw [pivot] at h
  split at h
  · cases h
  next row hrow =>
    obtain ⟨hleaves, hratio⟩ := minimumRatio_some hrow
    simp only [eliminate_eq] at h
    cases h
    exact ⟨row, hleaves, hratio, rfl, rfl⟩

theorem pivot_eq_none (h : pivot t 0 enter = none) (hrow : t.Leaves enter row) :
    maxDouble ≤ t.rhs row / t.coeff row enter := by
  rw [pivot] at h
  split at h
  next hnone => exact minimumRatio_none hnone hrow
  · cases h

theorem getValue_eq [DecidableEq ν] [Fintype ν] (hbasis : Function.Injective t.basis) (v : ν) : getValue t v = t.value v := by
  rw [getValue]
  split
  next hnone =>
    refine (Tableau.value_of_nonbasic fun ⟨r, hr⟩ => ?_).symm
    exact List.find?_eq_none.mp hnone r (List.mem_finRange r) (by simpa using hr)
  next r hsome =>
    have hr : t.basis r = v := by simpa using List.find?_some hsome
    rw [← hr, Tableau.value_basis hbasis]

end Pivot

section Simulation

variable {m n : ℕ} {game : BimatrixGame m n} {dropped l : Fin m ⊕ Fin n} {s s' : State m n}

/-- The variables of both tableaus, each named by its label and its side: `x i` and `y j` are own variables, `r i` and
`s j` slacks. -/
def labelled : (Fin n ⊕ Fin m) ⊕ (Fin m ⊕ Fin n) ≃ (Fin m ⊕ Fin n) × Bool where
  toFun
    | .inl (.inl j) => (.inr j, true)
    | .inl (.inr i) => (.inl i, false)
    | .inr (.inl i) => (.inl i, true)
    | .inr (.inr j) => (.inr j, false)
  invFun
    | (.inr j, true) => .inl (.inl j)
    | (.inl i, false) => .inl (.inr i)
    | (.inl i, true) => .inr (.inl i)
    | (.inr j, false) => .inr (.inr j)
  left_inv := by rintro ((j | i) | (i | j)) <;> rfl
  right_inv := by rintro ⟨i | j, _ | _⟩ <;> rfl

/-- Both tableaus as one, and the variable that enters it. -/
def State.path (s : State m n) : PathState (Fin m ⊕ Fin n) ℚ ℚ :=
  ⟨(s.tab2.beside s.tab1).rename labelled, labelled s.enter.swap⟩

theorem fst_labelled₁ (u : Fin m ⊕ Fin n) : (labelled (.inr u)).1 = u := by
  cases u <;> rfl

theorem fst_labelled₂ (u : Fin n ⊕ Fin m) : (labelled (.inl u)).1 = u.swap := by
  cases u <;> rfl

theorem partner_labelled₁ (u : Fin m ⊕ Fin n) : partner (labelled (.inr u)) = labelled (.inl u.swap) := by
  cases u <;> rfl

theorem partner_labelled₂ (u : Fin n ⊕ Fin m) : partner (labelled (.inl u)) = labelled (.inr u.swap) := by
  cases u <;> rfl

theorem path_start (game : BimatrixGame m n) (dropped : Fin m ⊕ Fin n) :
    (start game dropped).path = PathState.start game.bestReplySystem (fun _ => 1) dropped := by
  have hcoeff : (start game dropped).path.tableau.coeff = constraints game.bestReplySystem := by
    ext (i | j) ⟨i' | j', _ | _⟩ <;>
      simp [State.path, start, Tableau.rename, Tableau.beside, labelled, constraints, BimatrixGame.bestReplySystem,
        bestReplyMatrix, one_apply]
  have hrhs : (start game dropped).path.tableau.rhs = fun _ => 1 := by
    funext l
    cases l <;> rfl
  have hbasis : (start game dropped).path.tableau.basis = fun l => (l, false) := by
    funext l
    cases l <;> rfl
  have hentering : (start game dropped).path.entering = (dropped, true) := by
    cases dropped <;> rfl
  rw [PathState.start, slackTableau, ← hcoeff, ← hrhs, ← hbasis, ← hentering]

theorem State.pivot_cases (h : s.pivot 0 = some (l, s')) :
    (∃ v row, s.enter = .inl v ∧ s.tab1.Leaves v row ∧ s.tab1.rhs row / s.tab1.coeff row v < maxDouble ∧
      l = s.tab1.basis row ∧ s' = { s with tab1 := s.tab1.pivotAt row v }) ∨
    (∃ v row, s.enter = .inr v ∧ s.tab2.Leaves v row ∧ s.tab2.rhs row / s.tab2.coeff row v < maxDouble ∧
      l = (s.tab2.basis row).swap ∧ s' = { s with tab2 := s.tab2.pivotAt row v }) := by
  rw [State.pivot] at h
  split at h
  next v hv =>
    split at h
    · cases h
    next leave tab1 hpivot =>
      cases h
      obtain ⟨row, hrow, hratio, rfl, rfl⟩ := pivot_eq_some hpivot
      exact .inl ⟨v, row, hv, hrow, hratio, rfl, rfl⟩
  next v hv =>
    split at h
    · cases h
    next leave tab2 hpivot =>
      cases h
      obtain ⟨row, hrow, hratio, rfl, rfl⟩ := pivot_eq_some hpivot
      exact .inr ⟨v, row, hv, hrow, hratio, rfl, rfl⟩

/-- In the one tableau the code's pivot is a pivot at a row that leaves, and then the partner of what left enters. -/
theorem State.pivot_path (h : s.pivot 0 = some (l, s')) : ∃ r, s.path.tableau.Leaves s.path.entering r ∧
    s.path.tableau.rhs r / s.path.tableau.coeff r s.path.entering < maxDouble ∧ (s.path.tableau.basis r).1 = l ∧
      s'.path.tableau = s.path.tableau.pivotAt r s.path.entering ∧
        (s'.follow l).path = ⟨s.path.tableau.pivotAt r s.path.entering, partner (s.path.tableau.basis r)⟩ := by
  rcases State.pivot_cases h with ⟨v, row, hv, hrow, hratio, rfl, rfl⟩ | ⟨v, row, hv, hrow, hratio, rfl, rfl⟩
  · have hpivot : (s.tab2.beside s.tab1).pivotAt (.inr row) (.inr v) = s.tab2.beside (s.tab1.pivotAt row v) :=
      pivotAt_beside_inr row v
    refine ⟨.inr row, ?_, ?_, ?_, ?_, ?_⟩
    all_goals simp only [State.path, State.follow, hv, Sum.swap_inl]
    · exact (leaves_rename labelled).mpr (leaves_beside_inr.mpr ⟨row, rfl, hrow⟩)
    · simpa [Tableau.rename, Tableau.beside] using hratio
    · exact fst_labelled₁ _
    · rw [pivotAt_rename, hpivot]
    · rw [pivotAt_rename, hpivot]
      exact congrArg _ (partner_labelled₁ _).symm
  · have hpivot : (s.tab2.beside s.tab1).pivotAt (.inl row) (.inl v) = (s.tab2.pivotAt row v).beside s.tab1 :=
      pivotAt_beside_inl row v
    refine ⟨.inl row, ?_, ?_, ?_, ?_, ?_⟩
    all_goals simp only [State.path, State.follow, hv, Sum.swap_inr]
    · exact (leaves_rename labelled).mpr (leaves_beside_inl.mpr ⟨row, rfl, hrow⟩)
    · simpa [Tableau.rename, Tableau.beside] using hratio
    · exact fst_labelled₂ _
    · rw [pivotAt_rename, hpivot]
    · rw [pivotAt_rename, hpivot]
      exact congrArg _ (partner_labelled₂ _).symm

/-- A pivot is refused only where the ratio of every row that may leave is out of range. -/
theorem State.pivot_refused (h : s.pivot 0 = none) {r : Fin m ⊕ Fin n}
    (hr : s.path.tableau.Leaves s.path.entering r) :
    maxDouble ≤ s.path.tableau.rhs r / s.path.tableau.coeff r s.path.entering := by
  have hleaves := (leaves_rename labelled).mp hr
  rw [State.pivot] at h
  split at h
  next v hv =>
    split at h
    next hpivot =>
      rw [hv] at hleaves
      obtain ⟨row, rfl, hrow⟩ := leaves_beside_inr.mp hleaves
      simp only [State.path, hv, Sum.swap_inl]
      simpa [Tableau.rename, Tableau.beside] using pivot_eq_none hpivot hrow
    · cases h
  next v hv =>
    split at h
    next hpivot =>
      rw [hv] at hleaves
      obtain ⟨row, rfl, hrow⟩ := leaves_beside_inl.mp hleaves
      simp only [State.path, hv, Sum.swap_inr]
      simpa [Tableau.rename, Tableau.beside] using pivot_eq_none hpivot hrow
    · cases h

theorem State.next (h : s.pivot 0 = some (l, s')) (hl : l ≠ dropped) : Next dropped s.path (s'.follow l).path := by
  obtain ⟨r, hr, -, rfl, -, hpath⟩ := State.pivot_path h
  exact ⟨r, hr, hl, hpath⟩

theorem State.ends (h : s.pivot 0 = some (dropped, s')) : Ends dropped s.path s'.path.tableau := by
  obtain ⟨r, hr, -, hlabel, htableau, -⟩ := State.pivot_path h
  exact ⟨r, hr, hlabel, htableau⟩

structure Invariant (game : BimatrixGame m n) (dropped : Fin m ⊕ Fin n) (s : State m n) : Prop where
  tab1 : s.tab1.Feasible (Matrix.fromCols game.makePositive.payoff2ᵀ 1) fun _ => 1
  tab2 : s.tab2.Feasible (Matrix.fromCols game.makePositive.payoff1 1) fun _ => 1
  path : OnPath game.bestReplySystem (fun _ => 1) dropped s.path

theorem slack_feasible {rows cols : ℕ} (C : Matrix (Fin rows) (Fin cols) ℚ) :
    (Tableau.mk (Matrix.fromCols C 1) (fun _ => (1 : ℚ)) .inr).Feasible (Matrix.fromCols C 1) fun _ => 1 :=
  ⟨⟨fun _ _ => rfl, 1, (Matrix.one_mul _).symm, (act_one _).symm⟩, fun _ => zero_le_one⟩

theorem invariant_start (game : BimatrixGame m n) (dropped : Fin m ⊕ Fin n) :
    Invariant game dropped (start game dropped) :=
  ⟨slack_feasible _, slack_feasible _, path_start game dropped ▸ OnPath.start (fun _ => zero_le_one) dropped⟩

theorem Invariant.feasible (hs : Invariant game dropped s) (h : s.pivot 0 = some (l, s')) :
    s'.tab1.Feasible (Matrix.fromCols game.makePositive.payoff2ᵀ 1) (fun _ => 1) ∧
      s'.tab2.Feasible (Matrix.fromCols game.makePositive.payoff1 1) fun _ => 1 := by
  rcases State.pivot_cases h with ⟨v, row, -, hrow, -, rfl, rfl⟩ | ⟨v, row, -, hrow, -, rfl, rfl⟩
  · exact ⟨hs.tab1.pivotAt hrow, hs.tab2⟩
  · exact ⟨hs.tab1, hs.tab2.pivotAt hrow⟩

theorem Invariant.follow (hs : Invariant game dropped s) (h : s.pivot 0 = some (l, s')) (hl : l ≠ dropped) :
    Invariant game dropped (s'.follow l) := by
  obtain ⟨htab1, htab2⟩ := hs.feasible h
  exact ⟨htab1, htab2, hs.path.next (State.next h hl)⟩

end Simulation

end Klett.Nash.LemkeHowson

import Mathlib.Algebra.BigOperators.Ring.List
import Mathlib.Algebra.Order.BigOperators.Group.List
import Mathlib.Algebra.Order.Floor.Ring
import Mathlib.Algebra.Order.Ring.Int
import Mathlib.Data.Rat.Floor
import Mathlib.Tactic.Linarith
import Mathlib.Tactic.Ring

namespace Klett.Lib

/-- To the nearest integer, and to the even one of two that are as near. -/
def roundHalfEven (x : ℚ) : ℤ :=
  let below := ⌊x⌋
  if x - below < 1 / 2 then below
  else if x - below = 1 / 2 ∧ 2 ∣ below then below
  else below + 1

/-- `round(x, digits)` of exact decimals. -/
def roundDigits (x : ℚ) (digits : ℕ) : ℚ := roundHalfEven (x * 10 ^ digits) / 10 ^ digits

theorem roundHalfEven_error (x : ℚ) : |(roundHalfEven x : ℚ) - x| ≤ 1 / 2 := by
  have hlow := Int.floor_le x
  have hhigh := Int.lt_floor_add_one x
  unfold roundHalfEven
  simp only
  split_ifs with hless htie
  · rw [abs_le]
    constructor <;> linarith
  · rw [abs_le, ← htie.1]
    constructor <;> linarith
  · push_cast
    rw [abs_le]
    constructor <;> linarith

theorem roundHalfEven_nonneg {x : ℚ} (h : 0 ≤ x) : 0 ≤ roundHalfEven x := by
  have hbelow : 0 ≤ ⌊x⌋ := Int.floor_nonneg.mpr h
  unfold roundHalfEven
  simp only
  split_ifs <;> omega

theorem roundDigits_nonneg {x : ℚ} (h : 0 ≤ x) (digits : ℕ) : 0 ≤ roundDigits x digits := by
  have hscaled : 0 ≤ roundHalfEven (x * 10 ^ digits) := roundHalfEven_nonneg (mul_nonneg h (by positivity))
  exact div_nonneg (Int.cast_nonneg hscaled) (by positivity)

theorem roundDigits_le (x : ℚ) (digits : ℕ) : roundDigits x digits ≤ x + 1 / 2 / 10 ^ digits := by
  have herror := (abs_le.mp (roundHalfEven_error (x * 10 ^ digits))).2
  have hscale : (0 : ℚ) < 10 ^ digits := by positivity
  rw [roundDigits, div_le_iff₀ hscale, add_mul, div_mul_cancel₀ _ hscale.ne']
  linarith

end Klett.Lib

namespace Klett.Lib

section Mean

/-! Values with their weights, and means of them in whole numbers. -/

def cost (l : List (ℤ × ℤ)) : ℤ := (l.map fun x => x.1 * x.2).sum

def weight (l : List (ℤ × ℤ)) : ℤ := (l.map Prod.snd).sum

def updateMean (mean x : ℤ × ℤ) : ℤ × ℤ := ((mean.1 * mean.2 + x.1 * x.2).tdiv (mean.2 + x.2), mean.2 + x.2)

/-- What the divisions drop by and by, from a cost and a weight of which so much is lost. -/
def droppedFrom (paid w lost : ℤ) : List (ℤ × ℤ) → ℤ
  | [] => lost
  | x :: l => droppedFrom (paid + x.1 * x.2) (w + x.2) (lost + (paid + x.1 * x.2 - lost) % (w + x.2)) l

def dropped (l : List (ℤ × ℤ)) : ℤ := droppedFrom 0 0 0 l

def Positive (l : List (ℤ × ℤ)) : Prop := ∀ x ∈ l, 0 < x.1 ∧ 0 < x.2

instance (l : List (ℤ × ℤ)) : Decidable (Positive l) := inferInstanceAs (Decidable (∀ x ∈ l, _))

variable {l : List (ℤ × ℤ)} {x : ℤ × ℤ}

@[simp] theorem cost_cons (x : ℤ × ℤ) (l : List (ℤ × ℤ)) : cost (x :: l) = x.1 * x.2 + cost l := rfl

@[simp] theorem weight_cons (x : ℤ × ℤ) (l : List (ℤ × ℤ)) : weight (x :: l) = x.2 + weight l := rfl

theorem weight_nonneg (h : Positive l) : 0 ≤ weight l := by
  apply List.sum_nonneg
  intro q hq
  obtain ⟨x, hx, rfl⟩ := List.mem_map.mp hq
  exact (h x hx).2.le

theorem weight_pos (h : Positive l) (hne : l ≠ []) : 0 < weight l := by
  obtain ⟨x, l, rfl⟩ := List.exists_cons_of_ne_nil hne
  obtain ⟨hx, hl⟩ := List.forall_mem_cons.mp h
  have hrest := weight_nonneg hl
  rw [weight_cons]
  omega

theorem weight_le_cost (h : Positive l) : weight l ≤ cost l := by
  induction l with
  | nil => exact le_rfl
  | cons x l ih =>
    obtain ⟨⟨hp, hq⟩, hl⟩ := List.forall_mem_cons.mp h
    have hone : x.2 ≤ x.1 * x.2 := le_mul_of_one_le_left hq.le hp
    have hrest := ih hl
    rw [cost_cons, weight_cons]
    omega

theorem cost_nonneg (h : Positive l) : 0 ≤ cost l := (weight_nonneg h).trans (weight_le_cost h)

theorem exists_le_mean (hne : l ≠ []) (h : Positive l) : ∃ x ∈ l, x.1 * weight l ≤ cost l := by
  have hsum : (l.map fun x => x.1 * x.2 * weight l).sum = (l.map fun x => cost l * x.2).sum := by
    rw [List.sum_map_mul_right, List.sum_map_mul_left]
    rfl
  obtain ⟨x, hx, hle⟩ := List.exists_le_of_sum_le hne _ _ hsum.le
  refine ⟨x, hx, le_of_mul_le_mul_right ?_ (h x hx).2⟩
  calc x.1 * weight l * x.2 = x.1 * x.2 * weight l := mul_right_comm _ _ _
    _ ≤ cost l * x.2 := hle

theorem exists_mean_le (hne : l ≠ []) (h : Positive l) : ∃ x ∈ l, cost l ≤ x.1 * weight l := by
  have hsum : (l.map fun x => cost l * x.2).sum = (l.map fun x => x.1 * x.2 * weight l).sum := by
    rw [List.sum_map_mul_right, List.sum_map_mul_left]
    rfl
  obtain ⟨x, hx, hle⟩ := List.exists_le_of_sum_le hne _ _ hsum.le
  refine ⟨x, hx, le_of_mul_le_mul_right ?_ (h x hx).2⟩
  calc cost l * x.2 ≤ x.1 * x.2 * weight l := hle
    _ = x.1 * weight l * x.2 := mul_right_comm _ _ _

/-- A mean that accounts for its cost but for what was dropped on the way. -/
structure Accounts (paid w lost : ℤ) (mean : ℤ × ℤ) : Prop where
  total : mean.2 = w
  account : mean.1 * w + lost = paid
  nonneg : 0 ≤ mean.1 * w ∧ 0 ≤ w ∧ 0 ≤ lost

theorem Accounts.update {paid w lost : ℤ} {mean : ℤ × ℤ} (h : Accounts paid w lost mean) (hx : 0 < x.1 ∧ 0 < x.2) :
    Accounts (paid + x.1 * x.2) (w + x.2) (lost + (paid + x.1 * x.2 - lost) % (w + x.2)) (updateMean mean x) := by
  obtain ⟨hweight, hcost, hmean, hw, hlost⟩ := h
  have hpos : 0 < w + x.2 := by omega
  have hpaid : mean.1 * w + x.1 * x.2 = paid + x.1 * x.2 - lost := by omega
  have hnonneg : 0 ≤ mean.1 * w + x.1 * x.2 := add_nonneg hmean (mul_pos hx.1 hx.2).le
  have hdiv : (updateMean mean x).1 = (paid + x.1 * x.2 - lost) / (w + x.2) := by
    unfold updateMean
    rw [hweight, Int.tdiv_eq_ediv_of_nonneg hnonneg, hpaid]
  have hmod := Int.emod_nonneg (paid + x.1 * x.2 - lost) hpos.ne'
  refine ⟨by rw [← hweight]; rfl, ?_, ?_, hpos.le, by omega⟩
  · have hsplit := Int.mul_ediv_add_emod (paid + x.1 * x.2 - lost) (w + x.2)
    rw [hdiv, mul_comm]
    omega
  · rw [hdiv, ← hpaid]
    exact mul_nonneg (Int.ediv_nonneg hnonneg hpos.le) hpos.le

theorem Accounts.foldl {paid w lost : ℤ} {mean : ℤ × ℤ} (h : Accounts paid w lost mean) (hl : Positive l) :
    Accounts (paid + cost l) (w + weight l) (droppedFrom paid w lost l) (l.foldl updateMean mean) := by
  induction l generalizing paid w lost mean with
  | nil => simpa [cost, weight, droppedFrom] using h
  | cons x l ih =>
    obtain ⟨hx, hrest⟩ := List.forall_mem_cons.mp hl
    have hnext := ih (h.update hx) hrest
    rw [cost_cons, weight_cons, ← add_assoc, ← add_assoc]
    exact hnext

/-- A running mean is the exact one, rounded down, just when what it dropped is less than its weight. -/
theorem runningMean_eq_iff (hl : Positive l) (hne : l ≠ []) (first : ℤ) :
    (l.foldl updateMean (first, 0)).1 = cost l / weight l ↔ dropped l < weight l := by
  have hstart : Accounts 0 0 0 (first, 0) := ⟨rfl, by simp, by simp⟩
  obtain ⟨-, hcost, -, -, hlost⟩ := hstart.foldl hl
  rw [zero_add, zero_add] at hcost
  have hpos := weight_pos hl hne
  change _ ↔ droppedFrom 0 0 0 l < weight l
  generalize droppedFrom 0 0 0 l = lost at hcost hlost ⊢
  generalize (l.foldl updateMean (first, 0)).1 = mean at hcost ⊢
  rw [← hcost, add_comm, Int.add_mul_ediv_right _ _ hpos.ne', right_eq_add]
  constructor
  · intro hzero
    have hsplit := Int.mul_ediv_add_emod lost (weight l)
    have hless := Int.emod_lt_of_pos lost hpos
    rw [hzero, mul_zero] at hsplit
    omega
  · exact Int.ediv_eq_zero_of_lt hlost

end Mean

end Klett.Lib

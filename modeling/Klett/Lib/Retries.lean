import Mathlib.Algebra.Order.Archimedean.Basic
import Mathlib.Tactic.Ring

namespace Klett.Lib

variable {K : Type*} [Field K] [LinearOrder K] [IsStrictOrderedRing K]

/-- A step that spends something of a budget, or one that tries again with a value smaller by the factor `q`, as long
as it does not fall below `floor`. Spending may leave any value. -/
inductive Spends (q floor : K) : ℕ × K → ℕ × K → Prop
  | spend {a b : ℕ} {x y : K} (h : b < a) : Spends q floor (a, x) (b, y)
  | retry {a : ℕ} {x : K} (h : floor ≤ x * q) : Spends q floor (a, x) (a, x * q)

namespace Spends

variable {q floor : K}

theorem not_retry (hfloor : 0 < floor) (hq : 0 ≤ q) (hlt : q < 1) {x : K} (hx : x < floor) : ¬floor ≤ x * q := by
  rw [not_le]
  obtain hneg | hpos := le_total x 0
  · exact (mul_nonpos_of_nonpos_of_nonneg hneg hq).trans_lt hfloor
  · exact (mul_le_of_le_one_right hpos hlt.le).trans_lt hx

variable [Archimedean K]

theorem exists_pow_lt (hfloor : 0 < floor) (hq : 0 ≤ q) (hlt : q < 1) (x : K) : ∃ k, x * q ^ k < floor := by
  obtain hneg | hpos := le_or_gt x 0
  · exact ⟨0, (mul_nonpos_of_nonpos_of_nonneg hneg (pow_nonneg hq 0)).trans_lt hfloor⟩
  · obtain ⟨k, hk⟩ := exists_pow_lt_of_lt_one (div_pos hfloor hpos) hlt
    refine ⟨k, ?_⟩
    rw [lt_div_iff₀ hpos] at hk
    rwa [mul_comm]

/-- Retries come to an end between any two steps that spend, so all of it does. -/
theorem wellFounded (hfloor : 0 < floor) (hq : 0 ≤ q) (hlt : q < 1) : WellFounded (Function.swap (Spends q floor)) := by
  constructor
  rintro ⟨a, x⟩
  induction a using Nat.strongRecOn generalizing x with
  | ind a ih =>
    have hacc : ∀ k x, x * q ^ k < floor → Acc (Function.swap (Spends q floor)) (a, x) := by
      intro k
      induction k with
      | zero =>
        intro x hx
        rw [pow_zero, mul_one] at hx
        constructor
        rintro _ (hspend | hretry)
        · exact ih _ hspend _
        · exact absurd hretry (not_retry hfloor hq hlt hx)
      | succ k ihk =>
        intro x hx
        constructor
        rintro _ (hspend | hretry)
        · exact ih _ hspend _
        · apply ihk
          rwa [mul_assoc, ← pow_succ']
    obtain ⟨k, hk⟩ := exists_pow_lt hfloor hq hlt x
    exact hacc k x hk

end Spends

end Klett.Lib

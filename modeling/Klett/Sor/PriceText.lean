import Klett.Lib.Decimal
import Klett.Sor.FixAdapter
import Mathlib.Algebra.Order.Field.Basic

namespace Klett.Sor

open Klett.Lib Decimal

section Trimming

variable {digits : List UInt8}

/-- The zeros go, one digit behind the point stays. The text is given backwards. -/
theorem trimZeros_digits (hne : digits ≠ []) (hpoint : (46 : UInt8) ∉ digits) (rest : List UInt8) :
    ∃ k kept, digits = List.replicate k 48 ++ kept ∧ trimZeros (digits ++ 46 :: rest) = kept ++ 46 :: rest ∧
      kept ≠ [] ∧ (kept.head? = some 48 → kept = [48]) := by
  induction digits with
  | nil => exact absurd rfl hne
  | cons b digits ih =>
    by_cases hzero : b = 48
    · subst hzero
      cases digits with
      | nil => exact ⟨0, [48], rfl, by simp [trimZeros], by simp, fun _ => rfl⟩
      | cons c digits =>
        have hc : c ≠ 46 := fun h => hpoint (by simp [h])
        obtain ⟨k, kept, hdigits, htrim, hkept, hhead⟩ := ih (by simp) (fun h => hpoint (List.mem_cons_of_mem _ h))
        refine ⟨k + 1, kept, ?_, ?_, hkept, hhead⟩
        · rw [hdigits]
          rfl
        · rw [← htrim, List.cons_append, List.cons_append, trimZeros, if_neg hc]
    · refine ⟨0, b :: digits, rfl, ?_, by simp, ?_⟩
      · rw [List.cons_append]
        unfold trimZeros
        split
        next heq =>
          obtain ⟨rfl, -⟩ := List.cons.inj heq
          exact absurd rfl hzero
        · rfl
      · intro hhead
        exact absurd (Option.some.inj hhead) hzero

end Trimming

section Printing

variable {p : ℤ}

def signText (p : ℤ) : List UInt8 := if p < 0 then [45] else []

/-- What `snprintf` puts into the buffer, before the zeros go. -/
def formatted (p : ℤ) : List UInt8 :=
  signText p ++ ofNat (p.natAbs / priceScale.natAbs) ++ 46 :: padded 8 (p.natAbs % priceScale.natAbs)

theorem priceToStr_eq (p : ℤ) : priceToStr p = (trimZeros (formatted p).reverse).reverse := rfl

/-- A numeral with a point that is worth `x`: the sign is there just when `x` is negative, and a zero ends the fraction
only where it is all of it. -/
structure Prints (text : List UInt8) (x : ℚ) (whole behind : List UInt8) : Prop where
  written : text = (if x < 0 then [45] else []) ++ whole ++ 46 :: behind
  wholeDigits : whole ≠ [] ∧ ∀ b ∈ whole, isDigit 10 b = true
  behindDigits : behind ≠ [] ∧ ∀ b ∈ behind, isDigit 10 b = true
  worth : |x| = value 10 whole + fraction behind
  trimmed : behind.getLast? = some 48 → behind = [48]

theorem formatted_length (hlow : -2 ^ 63 < p) (hhigh : p < 2 ^ 63) : (formatted p).length < 32 := by
  have hscale : priceScale.natAbs = 100000000 := rfl
  have hwhole : (ofNat (p.natAbs / priceScale.natAbs)).length ≤ 11 := by
    apply ofNat_length_le (by decide)
    rw [hscale]
    omega
  have hfraction : (padded 8 (p.natAbs % priceScale.natAbs)).length = 8 := by
    apply padded_length (by decide)
    rw [hscale]
    exact Nat.mod_lt _ (by decide)
  have hsign : (signText p).length ≤ 1 := by
    unfold signText
    split <;> simp
  unfold formatted
  rw [List.length_append, List.length_append, List.length_cons, hfraction]
  omega

theorem abs_scaled (p : ℤ) : |(p : ℚ) / priceScale| = (p.natAbs / priceScale.natAbs : ℕ) +
    ((p.natAbs % priceScale.natAbs : ℕ) : ℚ) / 10 ^ 8 := by
  have hscale : (priceScale : ℚ) = 10 ^ 8 := by norm_num [priceScale]
  have hnat : priceScale.natAbs = 10 ^ 8 := rfl
  have hsplit : (p.natAbs : ℚ) = 10 ^ 8 * (p.natAbs / 10 ^ 8 : ℕ) + (p.natAbs % 10 ^ 8 : ℕ) := by
    exact_mod_cast (Nat.div_add_mod p.natAbs (10 ^ 8)).symm
  have habs : |(p : ℚ)| = (p.natAbs : ℚ) := by rw [Nat.cast_natAbs, Int.cast_abs]
  rw [abs_div, hscale, habs, abs_of_pos (by norm_num : (0 : ℚ) < 10 ^ 8), hnat, hsplit]
  field_simp

theorem scaled_neg_iff (p : ℤ) : (p : ℚ) / priceScale < 0 ↔ p < 0 := by
  have hscale : (0 : ℚ) < priceScale := by norm_num [priceScale]
  rw [div_neg_iff]
  constructor
  · rintro (⟨-, hneg⟩ | ⟨hp, -⟩)
    · exact absurd hneg (not_lt.mpr hscale.le)
    · exact_mod_cast hp
  · intro hp
    exact .inr ⟨by exact_mod_cast hp, hscale⟩

theorem trimmed_fraction {n : ℕ} (hn : n < 10 ^ 8) (front : List UInt8) :
    ∃ behind, (trimZeros (front ++ 46 :: padded 8 n).reverse).reverse = front ++ 46 :: behind ∧
      behind ≠ [] ∧ (∀ b ∈ behind, isDigit 10 b = true) ∧ fraction behind = (n : ℚ) / 10 ^ 8 ∧
      (behind.getLast? = some 48 → behind = [48]) := by
  have hlength : (padded 8 n).length = 8 := padded_length (by decide) hn
  have hne : (padded 8 n).reverse ≠ [] := by
    apply List.ne_nil_of_length_pos
    rw [List.length_reverse, hlength]
    decide
  have hpoint : (46 : UInt8) ∉ (padded 8 n).reverse := by
    intro hmem
    have hdigit := isDigit_of_mem_padded (List.mem_reverse.mp hmem)
    revert hdigit
    decide
  obtain ⟨k, kept, hdigits, htrim, hkept, hhead⟩ := trimZeros_digits hne hpoint front.reverse
  have hpadded : padded 8 n = kept.reverse ++ List.replicate k 48 := by
    rw [← List.reverse_reverse (padded 8 n), hdigits, List.reverse_append, List.reverse_replicate]
  have hreverse : (front ++ 46 :: padded 8 n).reverse = (padded 8 n).reverse ++ 46 :: front.reverse := by simp
  refine ⟨kept.reverse, ?_, by simpa using hkept, ?_, ?_, ?_⟩
  · rw [hreverse, htrim]
    simp
  · intro b hb
    apply isDigit_of_mem_padded (k := 8) (n := n)
    rw [hpadded]
    exact List.mem_append_left _ hb
  · rw [← fraction_padded (by decide) hn, hpadded, fraction_append_zeros]
  · intro hlast
    rw [List.getLast?_reverse] at hlast
    rw [hhead hlast]
    rfl

/-- The price is printed exactly, and the text fits its buffer with the zero byte behind it. -/
theorem priceToStr_exact (p : ℤ) (hlow : -2 ^ 63 < p) (hhigh : p < 2 ^ 63) :
    (∃ whole behind, Prints (priceToStr p) ((p : ℚ) / priceScale) whole behind) ∧ (formatted p).length + 1 ≤ 32 := by
  have hscale : priceScale.natAbs = 10 ^ 8 := rfl
  have hmod : p.natAbs % priceScale.natAbs < 10 ^ 8 := by
    rw [hscale]
    exact Nat.mod_lt _ (by decide)
  obtain ⟨behind, htext, hne, hdigits, hworth, htrimmed⟩ :=
    trimmed_fraction hmod (signText p ++ ofNat (p.natAbs / priceScale.natAbs))
  refine ⟨⟨ofNat (p.natAbs / priceScale.natAbs), behind, ?_⟩, formatted_length hlow hhigh⟩
  exact {
    written := by
      rw [priceToStr_eq, formatted, htext]
      simp only [scaled_neg_iff]
      rfl
    wholeDigits := ⟨ofNat_ne_nil, fun b hb => isDigit_of_mem_ofNat hb⟩
    behindDigits := ⟨hne, hdigits⟩
    worth := by rw [abs_scaled, value_ofNat, hworth]
    trimmed := htrimmed }

theorem priceToStr_exact_half : (-2 ^ 63 < (-50000000 : ℤ) ∧ (-50000000 : ℤ) < 2 ^ 63) ∧
    ∃ whole behind, Prints (priceToStr (-50000000)) (((-50000000 : ℤ) : ℚ) / priceScale) whole behind :=
  ⟨by decide, (priceToStr_exact (-50000000) (by decide) (by decide)).1⟩

end Printing

end Klett.Sor

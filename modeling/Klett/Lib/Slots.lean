import Mathlib.Algebra.Order.Group.Unbundled.Int
import Mathlib.Data.List.Nodup
import Mathlib.Logic.ExistsUnique
import Mathlib.Order.Interval.Finset.Nat

namespace Klett.Lib

section Links

variable {α : Type*} {next next' : α → α} {stop : α → Prop} {a b : α} {l : List α}

/-- Following `next` from `a` meets the elements of the list, and then stops. -/
inductive Links (next : α → α) (stop : α → Prop) : α → List α → Prop
  | nil {a : α} : stop a → Links next stop a []
  | cons {a : α} {l : List α} : ¬stop a → Links next stop (next a) l → Links next stop a (a :: l)

theorem Links.unique {k : List α} (h : Links next stop a l) (hk : Links next stop a k) : l = k := by
  induction h generalizing k with
  | nil hstop =>
    cases hk with
    | nil => rfl
    | cons hnot => exact absurd hstop hnot
  | cons hnot _ ih =>
    cases hk with
    | nil hstop => exact absurd hstop hnot
    | cons _ hk => rw [ih hk]

theorem Links.suffix (h : Links next stop a l) (hb : b ∈ l) : ∃ k, Links next stop b (b :: k) ∧ (b :: k) <:+ l := by
  induction h with
  | nil => cases hb
  | @cons a l hnot hl ih =>
    obtain rfl | hmem := List.mem_cons.mp hb
    · exact ⟨l, .cons hnot hl, List.suffix_rfl⟩
    · obtain ⟨k, hk, hsuffix⟩ := ih hmem
      exact ⟨k, hk, hsuffix.trans (List.suffix_cons _ _)⟩

/-- A chain that comes to an end has no cycle. -/
theorem Links.nodup (h : Links next stop a l) : l.Nodup := by
  induction h with
  | nil => exact List.nodup_nil
  | @cons a l hnot hl ih =>
    apply List.nodup_cons.mpr
    refine ⟨fun hmem => ?_, ih⟩
    obtain ⟨k, hk, hsuffix⟩ := hl.suffix hmem
    obtain rfl : k = l := by
      have heq := (Links.cons hnot hl).unique hk
      exact (List.cons.inj heq).2.symm
    have hle := hsuffix.length_le
    rw [List.length_cons] at hle
    omega

theorem Links.congr (h : Links next stop a l) (heq : ∀ b ∈ l, next' b = next b) : Links next' stop a l := by
  induction h with
  | nil hstop => exact .nil hstop
  | @cons a l hnot _ ih =>
    apply Links.cons hnot
    rw [heq a List.mem_cons_self]
    exact ih fun b hb => heq b (List.mem_cons_of_mem _ hb)

end Links

section Placed

variable {α β : Type*} {slots : α → Prop} {at₁ at₂ : α → β → Prop}

/-- Every slot is at exactly one place, and nothing else is anywhere. -/
structure Placed (slots : α → Prop) (at₁ : α → β → Prop) : Prop where
  unique : ∀ a, slots a → ∃! p, at₁ a p
  slot : ∀ a p, at₁ a p → slots a

theorem Placed.eq (h : Placed slots at₁) {a : α} {p q : β} (hp : at₁ a p) (hq : at₁ a q) : p = q :=
  (h.unique a (h.slot a p hp)).unique hp hq

theorem Placed.congr (h : Placed slots at₁) (heq : ∀ a p, at₂ a p ↔ at₁ a p) : Placed slots at₂ := by
  have hfun : at₂ = at₁ := funext fun a => funext fun p => propext (heq a p)
  rwa [hfun]

/-- One slot leaves its place for another. -/
theorem Placed.move (h : Placed slots at₁) {a : α} {o q : β} (ho : at₁ a o) (hq : at₂ a q)
    (hnew : ∀ p, at₂ a p → p = q ∨ p ≠ o ∧ at₁ a p) (hold : ∀ b, b ≠ a → ∀ p, at₂ b p ↔ at₁ b p) :
    Placed slots at₂ where
  unique b hb := by
    obtain rfl | hne := eq_or_ne b a
    · exact ⟨q, hq, fun p hp => (hnew p hp).resolve_right fun hp' => hp'.1 (h.eq hp'.2 ho)⟩
    · have hfun : at₂ b = at₁ b := funext fun p => propext (hold b hne p)
      rw [hfun]
      exact h.unique b hb
  slot b p hp := by
    obtain rfl | hne := eq_or_ne b a
    · exact h.slot b o ho
    · exact h.slot b p ((hold b hne p).mp hp)

end Placed

end Klett.Lib

/-! Indices into a ring whose length is a power of two. -/

namespace Klett.Lib.RingIndex

section Window

theorem mod_ne_of_window {c r p q : ℕ} (hp : r ≤ p) (hpc : p < r + c) (hq : r ≤ q) (hqc : q < r + c) (hne : p ≠ q) :
    p % c ≠ q % c := by
  intro h
  apply hne
  apply Nat.mod_injOn_Ico r c
  · simpa using ⟨hp, hpc⟩
  · simpa using ⟨hq, hqc⟩
  · exact h

/-- Two counters with the same value in their type are the same as long as neither wraps. -/
theorem eq_of_bmod_sub {m a b : ℕ} (ha : a < m) (hb : b < m) (h : ((a : ℤ) - b).bmod m = 0) : a = b := by
  have hdvd : (m : ℤ) ∣ (a : ℤ) - b := Int.dvd_of_bmod_eq_zero h
  have hzero := Int.eq_zero_of_abs_lt_dvd hdvd (by rw [abs_lt]; omega)
  omega

/-- An index comes back to where it was after nothing or after one round. -/
theorem add_mod_eq_iff {c h n : ℕ} (hh : h < c) (hn : n ≤ c) : (h + n) % c = h ↔ n = 0 ∨ n = c := by
  obtain hlt | hge := Nat.lt_or_ge (h + n) c
  · rw [Nat.mod_eq_of_lt hlt]
    omega
  · rw [Nat.mod_eq_sub_mod hge, Nat.mod_eq_of_lt (by omega)]
    omega

/-- How far one index is ahead of another, from the remainders alone. -/
theorem distance_mod {c h n m : ℕ} (hh : h < c) (hn : n < c) (hm : c ∣ m) (hpos : 0 < m) :
    (((h + n) % c + m - h) % m + c) % m % c = n := by
  have hle : c ≤ m := Nat.le_of_dvd hpos hm
  have hround : ∀ x, x = n + m ∨ x + c = n + m → x % c = n := by
    intro x hx
    obtain ⟨j, rfl⟩ := hm
    obtain rfl | hx := hx
    · rw [Nat.add_mul_mod_self_left, Nat.mod_eq_of_lt hn]
    · rw [← Nat.add_mod_right x c, hx, Nat.add_mul_mod_self_left, Nat.mod_eq_of_lt hn]
  calc (((h + n) % c + m - h) % m + c) % m % c = ((h + n) % c + m - h) % m % c := by
        rw [Nat.mod_mod_of_dvd _ hm, Nat.add_mod_right]
    _ = ((h + n) % c + m - h) % c := Nat.mod_mod_of_dvd _ hm
    _ = n := by
      apply hround
      obtain hlt | hge := Nat.lt_or_ge (h + n) c
      · rw [Nat.mod_eq_of_lt hlt]
        omega
      · rw [Nat.mod_eq_sub_mod hge, Nat.mod_eq_of_lt (by omega)]
        omega

end Window

section RoundUp

/-! Rounding up to a power of two by spreading the top bit downwards, twice as far each time. -/

variable {b n v : ℕ}

def smear (n v : ℕ) : ℕ := v ||| v >>> n

/-- The top bit is `b`, and the `n` bits from there downwards are set. -/
structure Top (b n v : ℕ) : Prop where
  lt : v < 2 ^ (b + 1)
  set : ∀ i ≤ b, b < i + n → v.testBit i = true

theorem Top.of_ne_zero (h : v ≠ 0) : Top v.log2 1 v where
  lt := Nat.lt_log2_self
  set i hle hlt := by
    obtain rfl : i = v.log2 := by omega
    exact Nat.testBit_log2 h

theorem Top.smear (h : Top b n v) : Top b (n + n) (smear n v) where
  lt := Nat.or_lt_two_pow h.lt ((Nat.shiftRight_le v n).trans_lt h.lt)
  set i hle hlt := by
    rw [RingIndex.smear, Nat.testBit_or, Nat.testBit_shiftRight, Bool.or_eq_true]
    by_cases hi : b < i + n
    · exact .inl (h.set i hle hi)
    · exact .inr (h.set (n + i) (by omega) (by omega))

theorem Top.eq (h : Top b n v) (hn : b < n) : v = 2 ^ (b + 1) - 1 := by
  apply Nat.eq_of_testBit_eq
  intro i
  rw [Nat.testBit_two_pow_sub_one]
  by_cases hi : i ≤ b
  · rw [h.set i hi (by omega), decide_eq_true (by omega)]
  · rw [decide_eq_false (by omega)]
    exact Nat.testBit_lt_two_pow (h.lt.trans_le (Nat.pow_le_pow_right (by decide) (by omega)))

end RoundUp

end Klett.Lib.RingIndex

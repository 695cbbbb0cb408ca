import Mathlib.Algebra.Order.Field.Rat
import Mathlib.Data.List.Sort
import Mathlib.Tactic.Linarith
import Mathlib.Tactic.Positivity

namespace Klett.Lib

/-- What a C++ implementation is free to choose: how a `double` rounds, in which order an unordered
container is walked, and how `std::sort` arranges equivalent elements. -/
structure Platform where
  round : ℚ → ℚ
  round_nonneg {x : ℚ} : 0 ≤ x → 0 ≤ round x
  iterate {α : Type} : List α → List α
  iterate_perm {α : Type} (l : List α) : (iterate l).Perm l
  sort {α : Type} : (α → α → Bool) → List α → List α
  sort_perm {α : Type} (lt : α → α → Bool) (l : List α) : (sort lt l).Perm l
  sort_sorted {α : Type} {lt : α → α → Bool} (l : List α)
    (asymm : ∀ a b, lt a b = true → lt b a = false)
    (trans : ∀ a b c, lt b a = false → lt c b = false → lt c a = false) :
    (sort lt l).Pairwise fun a b => lt b a = false

namespace Platform

def exact : Platform where
  round x := x
  round_nonneg h := h
  iterate l := l
  iterate_perm _ := .refl _
  sort lt l := l.insertionSort fun a b => lt b a = false
  sort_perm lt l := l.perm_insertionSort _
  sort_sorted {α lt} l asymm trans :=
    have : IsTrans α fun a b => lt b a = false := ⟨trans⟩
    have : Std.Total fun a b : α => lt b a = false := ⟨fun a b => by
      cases h : lt a b with
      | true => exact .inl (asymm a b h)
      | false => exact .inr rfl⟩
    List.pairwise_insertionSort _ l

variable (P : Platform)

/-! The operations on `double`, each rounded once. -/

def ofInt (n : ℤ) : ℚ := P.round n
def add (x y : ℚ) : ℚ := P.round (x + y)
def sub (x y : ℚ) : ℚ := P.round (x - y)
def mul (x y : ℚ) : ℚ := P.round (x * y)
def div (x y : ℚ) : ℚ := P.round (x / y)

/-- `double` of IEEE 754: whole numbers of 53 bits are exact, and other numbers of the normal range have an error of one
part in 2⁵³. -/
structure Accurate : Prop where
  integer {n : ℤ} : |n| ≤ 2 ^ 53 → P.round n = n
  relative {x : ℚ} : 2 ^ (-1022 : ℤ) ≤ |x| → |x| < 2 ^ (1023 : ℤ) → |P.round x - x| ≤ |x| / 2 ^ 53

def truncate (x : ℚ) : ℤ := x.num.tdiv x.den

/-- `static_cast` of a `double` to a signed integer type. What it does beyond the range of the type is undefined; the
instruction of x86-64 yields the least value. -/
def castInt (bits : ℕ) (x : ℚ) : ℤ :=
  if -2 ^ (bits - 1) ≤ truncate x ∧ truncate x < 2 ^ (bits - 1) then truncate x else -2 ^ (bits - 1)

theorem castInt_mem (bits : ℕ) (x : ℚ) : -2 ^ (bits - 1) ≤ castInt bits x ∧ castInt bits x < 2 ^ (bits - 1) := by
  have hpos : (0 : ℤ) < 2 ^ (bits - 1) := by positivity
  unfold castInt
  split_ifs with h
  · exact h
  · constructor
    · exact le_rfl
    · linarith

theorem castInt_of_mem {bits : ℕ} {x : ℚ} (hlow : -2 ^ (bits - 1) ≤ truncate x) (hhigh : truncate x < 2 ^ (bits - 1)) :
    castInt bits x = truncate x := if_pos ⟨hlow, hhigh⟩

theorem truncate_nonneg {x : ℚ} (h : 0 ≤ x) : 0 ≤ truncate x :=
  Int.tdiv_nonneg (Rat.num_nonneg.mpr h) (Int.natCast_nonneg _)

@[simp] theorem truncate_intCast (n : ℤ) : truncate (n : ℚ) = n := by simp [truncate]

theorem nonneg_ofInt {n : ℤ} (h : 0 ≤ n) : 0 ≤ P.ofInt n := P.round_nonneg (by exact_mod_cast h)

theorem nonneg_mul {x y : ℚ} (hx : 0 ≤ x) (hy : 0 ≤ y) : 0 ≤ P.mul x y :=
  P.round_nonneg (mul_nonneg hx hy)

theorem nonneg_div {x y : ℚ} (hx : 0 ≤ x) (hy : 0 ≤ y) : 0 ≤ P.div x y :=
  P.round_nonneg (div_nonneg hx hy)

theorem exact_accurate : exact.Accurate where
  integer _ := rfl
  relative {x} _ _ := by
    rw [exact, sub_self, abs_zero]
    exact div_nonneg (abs_nonneg x) (pow_nonneg (by decide) 53)

theorem mem_iterate {α : Type} {l : List α} {x : α} : x ∈ P.iterate l ↔ x ∈ l :=
  (P.iterate_perm l).mem_iff

theorem mem_sort {α : Type} {lt : α → α → Bool} {l : List α} {x : α} : x ∈ P.sort lt l ↔ x ∈ l :=
  (P.sort_perm lt l).mem_iff

end Platform

end Klett.Lib

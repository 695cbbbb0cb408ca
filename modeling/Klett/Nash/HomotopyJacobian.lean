import Klett.Lib.Loops
import Klett.Nash.Homotopy
import Mathlib.Algebra.BigOperators.Fin
import Mathlib.Algebra.BigOperators.Ring.Finset
import Mathlib.Tactic.LinearCombination

namespace Klett.Nash.HomotopySolver

open Matrix Klett.Lib

section Layout

variable {m n k1 k2 : ℕ} (game : BimatrixGame m n) (prior1 : Fin m → ℚ) (prior2 : Fin n → ℚ)
  (s1 : Fin k1 → Fin m) (s2 : Fin k2 → Fin n)

def systemH (w : ℕ → ℚ) : ℕ → ℚ :=
  let t := w (k1 + k2 + 2)
  let v1 := w (k1 + k2)
  let v2 := w (k1 + k2 + 1)
  let h := (List.finRange k1).foldl (fun h i => Function.update h i.val
    (t * ∑ j : Fin k2, game.payoff1 (s1 i) (s2 j) * w (k1 + j) + (1 - t) * (game.payoff1 *ᵥ prior2) (s1 i) - v1)) 0
  let h := (List.finRange k2).foldl (fun h j => Function.update h (k1 + j.val)
    (t * ∑ i : Fin k1, game.payoff2 (s1 i) (s2 j) * w i + (1 - t) * (game.payoff2ᵀ *ᵥ prior1) (s2 j) - v2)) h
  let h := Function.update h (k1 + k2) (∑ i : Fin k1, w i - 1)
  Function.update h (k1 + k2 + 1) (∑ j : Fin k2, w (k1 + j) - 1)

def rowDH1 (w : ℕ → ℚ) (i : Fin k1) (row : ℕ → ℚ) : ℕ → ℚ :=
  let t := w (k1 + k2 + 2)
  let row := (List.finRange k2).foldl (fun row j =>
    Function.update row (k1 + j.val) (t * game.payoff1 (s1 i) (s2 j))) row
  let row := Function.update row (k1 + k2) (-1)
  Function.update row (k1 + k2 + 2)
    (∑ j : Fin k2, game.payoff1 (s1 i) (s2 j) * w (k1 + j) - (game.payoff1 *ᵥ prior2) (s1 i))

def rowDH2 (w : ℕ → ℚ) (j : Fin k2) (row : ℕ → ℚ) : ℕ → ℚ :=
  let t := w (k1 + k2 + 2)
  let row := (List.finRange k1).foldl (fun row i =>
    Function.update row i.val (t * game.payoff2 (s1 i) (s2 j))) row
  let row := Function.update row (k1 + k2 + 1) (-1)
  Function.update row (k1 + k2 + 2)
    (∑ i : Fin k1, game.payoff2 (s1 i) (s2 j) * w i - (game.payoff2ᵀ *ᵥ prior1) (s2 j))

def systemDH (w : ℕ → ℚ) : ℕ → ℕ → ℚ :=
  let J := (List.finRange k1).foldl (fun J i =>
    Function.update J i.val (rowDH1 game prior2 s1 s2 w i (J i.val))) 0
  let J := (List.finRange k2).foldl (fun J j =>
    Function.update J (k1 + j.val) (rowDH2 game prior1 s1 s2 w j (J (k1 + j.val)))) J
  let J := Function.update J (k1 + k2)
    ((List.finRange k1).foldl (fun row i => Function.update row i.val 1) (J (k1 + k2)))
  Function.update J (k1 + k2 + 1)
    ((List.finRange k2).foldl (fun row j => Function.update row (k1 + j.val) 1) (J (k1 + k2 + 1)))

/-- Where a block's entry stands in the source's vector. -/
def place : Fin k1 ⊕ Fin k2 ⊕ Fin 3 → ℕ
  | .inl i => i
  | .inr (.inl j) => k1 + j
  | .inr (.inr v) => k1 + k2 + v

theorem sum_place (f : ℕ → ℚ) : ∑ c ∈ Finset.range (k1 + k2 + 3), f c = ∑ c : Fin k1 ⊕ Fin k2 ⊕ Fin 3, f (place c) := by
  rw [Finset.sum_range_add, Finset.sum_range_add, Fintype.sum_sum_type, Fintype.sum_sum_type, add_assoc,
    Finset.sum_range, Finset.sum_range, Finset.sum_range]
  rfl

theorem second_injective : (fun j : Fin k2 => k1 + j.val).Injective := fun i j h => Fin.ext (by simpa using h)

theorem systemH_place (w : ℕ → ℚ) (e : Unknown k1 k2) :
    systemH game prior1 prior2 s1 s2 w (place (embed e)) =
      homotopyMap game prior1 prior2 s1 s2 (w ∘ place) e := by
  match e with
  | .inl i =>
    show systemH game prior1 prior2 s1 s2 w i.val = _
    simp only [systemH]
    rw [Function.update_of_ne (by omega), Function.update_of_ne (by omega), foldl_write_of_ne _ _ fun j => by omega,
      foldl_write_apply Fin.val_injective]
    rfl
  | .inr (.inl j) =>
    show systemH game prior1 prior2 s1 s2 w (k1 + j.val) = _
    simp only [systemH]
    rw [Function.update_of_ne (by omega), Function.update_of_ne (by omega), foldl_write_apply second_injective]
    rfl
  | .inr (.inr 0) =>
    show systemH game prior1 prior2 s1 s2 w (k1 + k2) = _
    simp only [systemH]
    rw [Function.update_of_ne (by omega), Function.update_self]
    rfl
  | .inr (.inr 1) =>
    show systemH game prior1 prior2 s1 s2 w (k1 + k2 + 1) = _
    simp only [systemH]
    rw [Function.update_self]
    rfl

theorem systemDH_row1 (w : ℕ → ℚ) (i : Fin k1) :
    systemDH game prior1 prior2 s1 s2 w i.val = rowDH1 game prior2 s1 s2 w i 0 := by
  simp only [systemDH]
  rw [Function.update_of_ne (by omega), Function.update_of_ne (by omega),
    foldl_update_of_ne (fun j => rowDH2 game prior1 s1 s2 w j) _ fun j => by omega,
    foldl_update_apply Fin.val_injective fun i => rowDH1 game prior2 s1 s2 w i]
  rfl

theorem systemDH_row2 (w : ℕ → ℚ) (j : Fin k2) :
    systemDH game prior1 prior2 s1 s2 w (k1 + j.val) = rowDH2 game prior1 s1 s2 w j 0 := by
  simp only [systemDH]
  rw [Function.update_of_ne (by omega), Function.update_of_ne (by omega),
    foldl_update_apply second_injective fun j => rowDH2 game prior1 s1 s2 w j,
    foldl_update_of_ne (fun i => rowDH1 game prior2 s1 s2 w i) _ fun i => by omega]
  rfl

theorem systemDH_norm1 (w : ℕ → ℚ) :
    systemDH game prior1 prior2 s1 s2 w (k1 + k2) =
      (List.finRange k1).foldl (fun (row : ℕ → ℚ) i => Function.update row i.val 1) 0 := by
  simp only [systemDH]
  rw [Function.update_of_ne (by omega), Function.update_self,
    foldl_update_of_ne (fun j => rowDH2 game prior1 s1 s2 w j) _ fun j => by omega,
    foldl_update_of_ne (fun i => rowDH1 game prior2 s1 s2 w i) _ fun i => by omega]
  rfl

theorem systemDH_norm2 (w : ℕ → ℚ) :
    systemDH game prior1 prior2 s1 s2 w (k1 + k2 + 1) =
      (List.finRange k2).foldl (fun (row : ℕ → ℚ) j => Function.update row (k1 + j.val) 1) 0 := by
  simp only [systemDH]
  rw [Function.update_self, Function.update_of_ne (by omega),
    foldl_update_of_ne (fun j => rowDH2 game prior1 s1 s2 w j) _ fun j => by omega,
    foldl_update_of_ne (fun i => rowDH1 game prior2 s1 s2 w i) _ fun i => by omega]
  rfl

theorem rowDH1_place (w : ℕ → ℚ) (i : Fin k1) (c : Fin k1 ⊕ Fin k2 ⊕ Fin 3) :
    rowDH1 game prior2 s1 s2 w i 0 (place c) = homotopyJacobian game prior1 prior2 s1 s2 (w ∘ place) (.inl i) c := by
  match c with
  | .inl l =>
    show rowDH1 game prior2 s1 s2 w i 0 l.val = _
    simp only [rowDH1]
    rw [Function.update_of_ne (by omega), Function.update_of_ne (by omega), foldl_write_of_ne _ _ fun j => by omega]
    rfl
  | .inr (.inl j) =>
    show rowDH1 game prior2 s1 s2 w i 0 (k1 + j.val) = _
    simp only [rowDH1]
    rw [Function.update_of_ne (by omega), Function.update_of_ne (by omega), foldl_write_apply second_injective]
    rfl
  | .inr (.inr 0) =>
    show rowDH1 game prior2 s1 s2 w i 0 (k1 + k2) = _
    simp only [rowDH1]
    rw [Function.update_of_ne (by omega), Function.update_self]
    rfl
  | .inr (.inr 1) =>
    show rowDH1 game prior2 s1 s2 w i 0 (k1 + k2 + 1) = _
    simp only [rowDH1]
    rw [Function.update_of_ne (by omega), Function.update_of_ne (by omega), foldl_write_of_ne _ _ fun j => by omega]
    rfl
  | .inr (.inr 2) =>
    show rowDH1 game prior2 s1 s2 w i 0 (k1 + k2 + 2) = _
    simp only [rowDH1]
    rw [Function.update_self]
    rfl

theorem rowDH2_place (w : ℕ → ℚ) (j : Fin k2) (c : Fin k1 ⊕ Fin k2 ⊕ Fin 3) :
    rowDH2 game prior1 s1 s2 w j 0 (place c) =
      homotopyJacobian game prior1 prior2 s1 s2 (w ∘ place) (.inr (.inl j)) c := by
  match c with
  | .inl i =>
    show rowDH2 game prior1 s1 s2 w j 0 i.val = _
    simp only [rowDH2]
    rw [Function.update_of_ne (by omega), Function.update_of_ne (by omega), foldl_write_apply Fin.val_injective]
    rfl
  | .inr (.inl l) =>
    show rowDH2 game prior1 s1 s2 w j 0 (k1 + l.val) = _
    simp only [rowDH2]
    rw [Function.update_of_ne (by omega), Function.update_of_ne (by omega), foldl_write_of_ne _ _ fun i => by omega]
    rfl
  | .inr (.inr 0) =>
    show rowDH2 game prior1 s1 s2 w j 0 (k1 + k2) = _
    simp only [rowDH2]
    rw [Function.update_of_ne (by omega), Function.update_of_ne (by omega), foldl_write_of_ne _ _ fun i => by omega]
    rfl
  | .inr (.inr 1) =>
    show rowDH2 game prior1 s1 s2 w j 0 (k1 + k2 + 1) = _
    simp only [rowDH2]
    rw [Function.update_of_ne (by omega), Function.update_self]
    rfl
  | .inr (.inr 2) =>
    show rowDH2 game prior1 s1 s2 w j 0 (k1 + k2 + 2) = _
    simp only [rowDH2]
    rw [Function.update_self]
    rfl

theorem norm1_place (c : Fin k1 ⊕ Fin k2 ⊕ Fin 3) (w : ℕ → ℚ) :
    (List.finRange k1).foldl (fun (row : ℕ → ℚ) i => Function.update row i.val 1) 0 (place c) =
      homotopyJacobian game prior1 prior2 s1 s2 (w ∘ place) (.inr (.inr 0)) c := by
  match c with
  | .inl i => exact foldl_write_apply Fin.val_injective (fun _ => 1) 0 i
  | .inr (.inl j) =>
    apply foldl_write_of_ne (fun _ => 1) 0 (p := k1 + j.val)
    omega
  | .inr (.inr v) =>
    apply (foldl_write_of_ne (fun _ => 1) 0 (p := k1 + k2 + v.val) (by omega)).trans
    fin_cases v <;> rfl

theorem norm2_place (c : Fin k1 ⊕ Fin k2 ⊕ Fin 3) (w : ℕ → ℚ) :
    (List.finRange k2).foldl (fun (row : ℕ → ℚ) j => Function.update row (k1 + j.val) 1) 0 (place c) =
      homotopyJacobian game prior1 prior2 s1 s2 (w ∘ place) (.inr (.inr 1)) c := by
  match c with
  | .inl i =>
    apply foldl_write_of_ne (fun _ => 1) 0 (p := i.val)
    omega
  | .inr (.inl j) => exact foldl_write_apply second_injective (fun _ => 1) 0 j
  | .inr (.inr v) =>
    apply (foldl_write_of_ne (fun _ => 1) 0 (p := k1 + k2 + v.val) (by omega)).trans
    fin_cases v <;> rfl

theorem systemDH_place (w : ℕ → ℚ) (e : Unknown k1 k2) (c : Fin k1 ⊕ Fin k2 ⊕ Fin 3) :
    systemDH game prior1 prior2 s1 s2 w (place (embed e)) (place c) =
      homotopyJacobian game prior1 prior2 s1 s2 (w ∘ place) e c := by
  match e with
  | .inl i => exact (congrFun (systemDH_row1 ..) _).trans (rowDH1_place ..)
  | .inr (.inl j) => exact (congrFun (systemDH_row2 ..) _).trans (rowDH2_place ..)
  | .inr (.inr 0) => exact (congrFun (systemDH_norm1 ..) _).trans (norm1_place ..)
  | .inr (.inr 1) => exact (congrFun (systemDH_norm2 ..) _).trans (norm2_place ..)

end Layout

section Remainder

variable {m n k1 k2 : ℕ} (game : BimatrixGame m n) (prior1 : Fin m → ℚ) (prior2 : Fin n → ℚ)
  (s1 : Fin k1 → Fin m) (s2 : Fin k2 → Fin n)

/-- The increment of `t` times the payoffs, on the supports, against the increment of the opponent's weights. -/
def secondOrder (d : Point k1 k2) : Unknown k1 k2 → ℚ
  | .inl i => back d * (game.payoff1.submatrix s1 s2 *ᵥ fun j => d (.inr (.inl j))) i
  | .inr (.inl j) => back d * ((game.payoff2.submatrix s1 s2)ᵀ *ᵥ fun i => d (.inl i)) j
  | .inr (.inr _) => 0

theorem homotopyJacobian_mulVec_row1 (w d : Point k1 k2) (i : Fin k1) :
    (homotopyJacobian game prior1 prior2 s1 s2 w *ᵥ d) (.inl i) =
      back w * ∑ j, game.payoff1 (s1 i) (s2 j) * d (.inr (.inl j)) - value1 d +
        (∑ j, game.payoff1 (s1 i) (s2 j) * w (.inr (.inl j)) - (game.payoff1 *ᵥ prior2) (s1 i)) * back d := by
  simp [homotopyJacobian, mulVec, dotProduct, Fin.sum_univ_three, value1, back, Finset.mul_sum, mul_assoc]
  ring

theorem homotopyJacobian_mulVec_row2 (w d : Point k1 k2) (j : Fin k2) :
    (homotopyJacobian game prior1 prior2 s1 s2 w *ᵥ d) (.inr (.inl j)) =
      back w * ∑ i, game.payoff2 (s1 i) (s2 j) * d (.inl i) - value2 d +
        (∑ i, game.payoff2 (s1 i) (s2 j) * w (.inl i) - (game.payoff2ᵀ *ᵥ prior1) (s2 j)) * back d := by
  simp [homotopyJacobian, mulVec, dotProduct, Fin.sum_univ_three, value2, back, Finset.mul_sum, mul_assoc]
  ring

theorem homotopyJacobian_mulVec_norm1 (w d : Point k1 k2) :
    (homotopyJacobian game prior1 prior2 s1 s2 w *ᵥ d) (.inr (.inr 0)) = ∑ i, d (.inl i) := by
  simp [homotopyJacobian, mulVec, dotProduct]

theorem homotopyJacobian_mulVec_norm2 (w d : Point k1 k2) :
    (homotopyJacobian game prior1 prior2 s1 s2 w *ᵥ d) (.inr (.inr 1)) = ∑ j, d (.inr (.inl j)) := by
  simp [homotopyJacobian, mulVec, dotProduct]

theorem homotopyMap_add (w d : Point k1 k2) :
    homotopyMap game prior1 prior2 s1 s2 (w + d) =
      homotopyMap game prior1 prior2 s1 s2 w + homotopyJacobian game prior1 prior2 s1 s2 w *ᵥ d +
        secondOrder game s1 s2 d := by
  ext e
  rw [Pi.add_apply, Pi.add_apply]
  match e with
  | .inl i =>
    rw [homotopyJacobian_mulVec_row1]
    simp only [homotopyMap, secondOrder, back, value1, Pi.add_apply, mul_add, Finset.sum_add_distrib]
    rw [show (game.payoff1.submatrix s1 s2 *ᵥ fun j => d (.inr (.inl j))) i =
      ∑ j, game.payoff1 (s1 i) (s2 j) * d (.inr (.inl j)) from rfl]
    ring
  | .inr (.inl j) =>
    rw [homotopyJacobian_mulVec_row2]
    simp only [homotopyMap, secondOrder, back, value2, Pi.add_apply, mul_add, Finset.sum_add_distrib]
    rw [show ((game.payoff2.submatrix s1 s2)ᵀ *ᵥ fun i => d (.inl i)) j =
      ∑ i, game.payoff2 (s1 i) (s2 j) * d (.inl i) from rfl]
    ring
  | .inr (.inr 0) =>
    rw [homotopyJacobian_mulVec_norm1]
    simp only [homotopyMap, secondOrder, Pi.add_apply, Finset.sum_add_distrib]
    ring
  | .inr (.inr 1) =>
    rw [homotopyJacobian_mulVec_norm2]
    simp only [homotopyMap, secondOrder, Pi.add_apply, Finset.sum_add_distrib]
    ring

/-- What the linear approximation at `w` misses in one equation; the sum is the row of the source's product. -/
def remainder (w d : ℕ → ℚ) (row : ℕ) : ℚ :=
  systemH game prior1 prior2 s1 s2 (w + d) row - systemH game prior1 prior2 s1 s2 w row -
    ∑ c ∈ Finset.range (k1 + k2 + 3), systemDH game prior1 prior2 s1 s2 w row c * d c

theorem remainder_place (w d : ℕ → ℚ) (e : Unknown k1 k2) :
    remainder game prior1 prior2 s1 s2 w d (place (embed e)) = secondOrder game s1 s2 (d ∘ place) e := by
  have hmap := congrFun (homotopyMap_add game prior1 prior2 s1 s2 (w ∘ place) (d ∘ place)) e
  rw [Pi.add_apply, Pi.add_apply] at hmap
  rw [remainder, sum_place, systemH_place, systemH_place]
  simp only [systemDH_place]
  rw [show (w + d) ∘ place = w ∘ place + d ∘ place from rfl, hmap, mulVec, dotProduct]
  simp only [Function.comp_apply]
  ring

theorem exists_row {row : ℕ} (hrow : row < k1 + k2 + 2) : ∃ e : Unknown k1 k2, place (embed e) = row := by
  by_cases h1 : row < k1
  · exact ⟨.inl ⟨row, h1⟩, rfl⟩
  by_cases h2 : row < k1 + k2
  · exact ⟨.inr (.inl ⟨row - k1, by omega⟩), Nat.add_sub_cancel' (not_lt.mp h1)⟩
  · exact ⟨.inr (.inr ⟨row - (k1 + k2), by omega⟩), Nat.add_sub_cancel' (not_lt.mp h2)⟩

theorem secondOrder_smul (d : Point k1 k2) (ε : ℚ) (e : Unknown k1 k2) :
    secondOrder game s1 s2 (ε • d) e = ε ^ 2 * secondOrder game s1 s2 d e := by
  match e with
  | .inl i =>
    simp only [secondOrder, back, Pi.smul_apply, smul_eq_mul, mulVec, dotProduct, mul_left_comm _ ε, ← Finset.mul_sum]
    ring
  | .inr (.inl j) =>
    simp only [secondOrder, back, Pi.smul_apply, smul_eq_mul, mulVec, dotProduct, mul_left_comm _ ε, ← Finset.mul_sum]
    ring
  | .inr (.inr v) => exact (mul_zero _).symm

theorem systemH_along (w d : ℕ → ℚ) {row : ℕ} (hrow : row < k1 + k2 + 2) (ε : ℚ) :
    systemH game prior1 prior2 s1 s2 (w + ε • d) row =
      systemH game prior1 prior2 s1 s2 w row +
        ε * ∑ c ∈ Finset.range (k1 + k2 + 3), systemDH game prior1 prior2 s1 s2 w row c * d c +
        ε ^ 2 * remainder game prior1 prior2 s1 s2 w d row := by
  obtain ⟨e, rfl⟩ : ∃ e : Unknown k1 k2, place (embed e) = row := exists_row hrow
  have hscaled := remainder_place game prior1 prior2 s1 s2 w (ε • d) e
  have hcomp : ((ε • d) ∘ place : Point k1 k2) = ε • (d ∘ place) := rfl
  rw [hcomp, secondOrder_smul,
    ← remainder_place game prior1 prior2 s1 s2 w d e, remainder] at hscaled
  simp only [Pi.smul_apply, smul_eq_mul, mul_left_comm _ ε, ← Finset.mul_sum] at hscaled
  linear_combination hscaled

theorem systemDH_derivative (w d : ℕ → ℚ) :
    (∀ i : Fin k1, remainder game prior1 prior2 s1 s2 w d i =
        d (k1 + k2 + 2) * (game.payoff1.submatrix s1 s2 *ᵥ fun j => d (k1 + j)) i) ∧
      (∀ j : Fin k2, remainder game prior1 prior2 s1 s2 w d (k1 + j) =
        d (k1 + k2 + 2) * ((game.payoff2.submatrix s1 s2)ᵀ *ᵥ fun i => d i) j) ∧
      remainder game prior1 prior2 s1 s2 w d (k1 + k2) = 0 ∧
      remainder game prior1 prior2 s1 s2 w d (k1 + k2 + 1) = 0 ∧
      ∀ row < k1 + k2 + 2, ∀ ε : ℚ,
        systemH game prior1 prior2 s1 s2 (w + ε • d) row =
          systemH game prior1 prior2 s1 s2 w row +
            ε * ∑ c ∈ Finset.range (k1 + k2 + 3), systemDH game prior1 prior2 s1 s2 w row c * d c +
            ε ^ 2 * remainder game prior1 prior2 s1 s2 w d row := by
  refine ⟨fun i => ?_, fun j => ?_, ?_, ?_, fun row hrow ε => ?_⟩
  · exact remainder_place game prior1 prior2 s1 s2 w d (.inl i)
  · exact remainder_place game prior1 prior2 s1 s2 w d (.inr (.inl j))
  · exact remainder_place game prior1 prior2 s1 s2 w d (.inr (.inr 0))
  · exact remainder_place game prior1 prior2 s1 s2 w d (.inr (.inr 1))
  · exact systemH_along game prior1 prior2 s1 s2 w d hrow ε

end Remainder

end Klett.Nash.HomotopySolver

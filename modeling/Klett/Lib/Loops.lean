import Mathlib.Data.List.FinRange
import Mathlib.Logic.Function.Basic

namespace Klett.Lib

section Loops

variable {α : Type*} {n : ℕ}

theorem foldl_finRange {f : α → Fin n → α} {start : α} (P : ℕ → α → Prop) (first : P 0 start)
    (step : ∀ (k : Fin n) a, P k a → P (k + 1) (f a k)) :
    P n ((List.finRange n).foldl f start) := by
  induction n with
  | zero => exact first
  | succ n ih =>
    rw [List.finRange_succ_last, List.foldl_append, List.foldl_map]
    exact step (Fin.last n) _ (ih fun k a h => step k.castSucc a h)

theorem foldr_finRange {f : Fin n → α → α} {start : α} (P : ℕ → α → Prop) (first : P n start)
    (step : ∀ (k : Fin n) a, P (k + 1) a → P k (f k a)) :
    P 0 ((List.finRange n).foldr f start) := by
  induction n generalizing start with
  | zero => exact first
  | succ n ih =>
    rw [List.finRange_succ_last, List.foldr_append, List.foldr_map]
    exact ih (step (Fin.last n) _ first) fun k a h => step k.castSucc a h

variable {ι : Type*} [DecidableEq ι] {place : Fin n → ι}

theorem foldl_update_of_ne (f : Fin n → α → α) (g : ι → α) {p : ι} (hp : ∀ i, place i ≠ p) :
    (List.finRange n).foldl (fun g i => Function.update g (place i) (f i (g (place i)))) g p = g p := by
  refine foldl_finRange (fun _ (h : ι → α) => h p = g p) rfl fun i h hi => ?_
  rw [Function.update_of_ne (hp i).symm]
  exact hi

/-- A loop that rewrites one cell a turn, and no cell twice, finds in each what stood there at the start. -/
theorem foldl_update_apply (hplace : place.Injective) (f : Fin n → α → α) (g : ι → α) (k : Fin n) :
    (List.finRange n).foldl (fun g i => Function.update g (place i) (f i (g (place i)))) g (place k) =
      f k (g (place k)) := by
  let Written (l : ℕ) (h : ι → α) := ∀ i, h (place i) = if i.val < l then f i (g (place i)) else g (place i)
  have hwritten : Written n
      ((List.finRange n).foldl (fun g i => Function.update g (place i) (f i (g (place i)))) g) := by
    refine foldl_finRange Written (fun i => (if_neg (Nat.not_lt_zero _)).symm) fun l h hl i => ?_
    by_cases hil : i = l
    · rw [hil, Function.update_self, hl l, if_neg (lt_irrefl _), if_pos (Nat.lt_succ_self _)]
    · rw [Function.update_of_ne (hplace.ne hil), hl i]
      exact if_congr (by omega) rfl rfl
  rw [hwritten k, if_pos k.isLt]

theorem foldl_write_of_ne (v : Fin n → α) (g : ι → α) {p : ι} (hp : ∀ i, place i ≠ p) :
    (List.finRange n).foldl (fun g i => Function.update g (place i) (v i)) g p = g p :=
  foldl_update_of_ne (fun i _ => v i) g hp

theorem foldl_write_apply (hplace : place.Injective) (v : Fin n → α) (g : ι → α) (k : Fin n) :
    (List.finRange n).foldl (fun g i => Function.update g (place i) (v i)) g (place k) = v k :=
  foldl_update_apply hplace (fun i _ => v i) g k

end Loops

end Klett.Lib

import Mathlib.Algebra.Order.BigOperators.Group.List
import Mathlib.Algebra.Order.Group.MinMax
import Mathlib.Data.List.Pairwise

namespace Klett.Lib

section Sweep

variable {α β Q : Type*} [AddCommGroup Q]

def traded (l : List (α × Q)) : Q := (l.map Prod.snd).sum

@[simp] theorem traded_nil : traded ([] : List (α × Q)) = 0 := rfl

@[simp] theorem traded_cons (t : α × Q) (l : List (α × Q)) : traded (t :: l) = t.2 + traded l := by
  simp [traded]

theorem traded_map (f : β → α) (l : List (β × Q)) : traded (l.map (Prod.map f id)) = traded l := by
  simp [traded, Function.comp_def]

variable [LinearOrder Q] (size : α → Q) (shrink : α → Q → α)

/-- A demand goes through supplies in turn, and takes of each what it still wants. -/
def trades (want : Q) : List α → List (α × Q)
  | [] => []
  | x :: xs =>
    if want ≤ 0 then [] else (x, min want (size x)) :: trades (want - min want (size x)) xs

/-- What the demand leaves of the supplies. -/
def leave (want : Q) : List α → List α
  | [] => []
  | x :: xs =>
    if want ≤ 0 then x :: xs
    else
      (if min want (size x) < size x then [shrink x (min want (size x))] else []) ++
        leave (want - min want (size x)) xs

/-- The supplies in front of the one the demand ends in, or in front of the last if it ends in none. -/
def inFront (want : Q) : List α → List α
  | [] => []
  | [_] => []
  | x :: y :: xs => if size x < want then x :: inFront (want - size x) (y :: xs) else []

variable {size shrink} {want : Q} {xs ys : List α} {x y : α}

theorem trades_of_nonpos (h : want ≤ 0) : trades size want xs = [] := by
  cases xs with
  | nil => rfl
  | cons x xs => rw [trades, if_pos h]

theorem leave_of_nonpos (h : want ≤ 0) : leave size shrink want xs = xs := by
  cases xs with
  | nil => rfl
  | cons x xs => rw [leave, if_pos h]

theorem trades_append (want : Q) (xs ys : List α) :
    trades size want (xs ++ ys) = trades size want xs ++ trades size (want - traded (trades size want xs)) ys := by
  induction xs generalizing want with
  | nil => simp [trades]
  | cons x xs ih =>
    rw [List.cons_append, trades, trades]
    split_ifs with hdone
    · rw [traded_nil, sub_zero, trades_of_nonpos hdone, List.append_nil]
    · rw [ih, traded_cons, List.cons_append, sub_sub]

theorem leave_append (want : Q) (xs ys : List α) :
    leave size shrink want (xs ++ ys) =
      leave size shrink want xs ++ leave size shrink (want - traded (trades size want xs)) ys := by
  induction xs generalizing want with
  | nil => simp [trades, leave]
  | cons x xs ih =>
    rw [List.cons_append, leave, leave, trades]
    split_ifs with hdone
    · rw [traded_nil, sub_zero, leave_of_nonpos hdone, List.cons_append]
    · rw [ih, traded_cons, List.append_assoc, sub_sub]
    · rw [ih, traded_cons, List.append_assoc, sub_sub]

theorem trades_map (f : β → α) (want : Q) (xs : List β) :
    trades size want (xs.map f) = (trades (size ∘ f) want xs).map (Prod.map f id) := by
  induction xs generalizing want with
  | nil => rfl
  | cons x xs ih =>
    rw [List.map_cons, trades, trades]
    split_ifs
    · rfl
    · rw [ih, List.map_cons]
      rfl

theorem leave_map (f : β → α) {shrink' : β → Q → β} (hshrink : ∀ x q, f (shrink' x q) = shrink (f x) q) (want : Q)
    (xs : List β) : leave size shrink want (xs.map f) = (leave (size ∘ f) shrink' want xs).map f := by
  induction xs generalizing want with
  | nil => rfl
  | cons x xs ih =>
    rw [List.map_cons, leave, leave, Function.comp_apply]
    split_ifs
    · rfl
    · rw [ih, List.map_append, List.map_singleton, hshrink]
    · rw [ih, List.map_append, List.map_nil]

theorem mem_of_mem_trades {t : α × Q} (h : t ∈ trades size want xs) : t.1 ∈ xs := by
  induction xs generalizing want with
  | nil => cases h
  | cons x xs ih =>
    rw [trades] at h
    split_ifs at h
    · cases h
    · rcases List.mem_cons.mp h with rfl | h
      · exact List.mem_cons_self
      · exact List.mem_cons_of_mem x (ih h)

theorem trades_cons_of_lt (hx : size x < want) (hpos : 0 < size x) :
    trades size want (x :: xs) = (x, size x) :: trades size (want - size x) xs := by
  rw [trades, if_neg (hpos.trans hx).not_ge, min_eq_right hx.le]

theorem leave_sublist {κ : Type*} (key : α → κ) (hkey : ∀ x q, key (shrink x q) = key x) (want : Q) (xs : List α) :
    ((leave size shrink want xs).map key).Sublist (xs.map key) := by
  induction xs generalizing want with
  | nil => exact .slnil
  | cons x xs ih =>
    rw [leave]
    split_ifs
    · exact .refl _
    · rw [List.singleton_append, List.map_cons, List.map_cons, hkey]
      exact (ih _).cons_cons _
    · rw [List.nil_append, List.map_cons]
      exact (ih _).cons _

variable [IsOrderedAddMonoid Q]

theorem traded_trades (hpos : ∀ x ∈ xs, 0 < size x) (hwant : 0 ≤ want) :
    traded (trades size want xs) = min want (xs.map size).sum := by
  induction xs generalizing want with
  | nil => simp [trades, hwant]
  | cons x xs ih =>
    have hx := hpos x List.mem_cons_self
    have hxs : ∀ y ∈ xs, 0 < size y := fun y hy => hpos y (List.mem_cons_of_mem x hy)
    have hsum : 0 ≤ (xs.map size).sum := List.sum_nonneg fun q hq => by
      obtain ⟨y, hy, rfl⟩ := List.mem_map.mp hq
      exact (hxs y hy).le
    rw [trades, List.map_cons, List.sum_cons]
    split_ifs with hdone
    · rw [traded_nil, min_eq_left (hdone.trans (add_nonneg hx.le hsum))]
      exact le_antisymm hwant hdone
    · rw [traded_cons, ih hxs (sub_nonneg.mpr (min_le_left ..))]
      rcases le_total want (size x) with hle | hle
      · rw [min_eq_left hle, sub_self, min_eq_left hsum, add_zero,
          min_eq_left (hle.trans (le_add_of_nonneg_right hsum))]
      · rw [min_eq_right hle, ← min_add_add_left, add_sub_cancel]

/-- Where something is still wanted at the end, all of every supply has been taken. -/
theorem trades_full (hpos : ∀ x ∈ xs, 0 < size x) (h : traded (trades size want xs) < want) :
    trades size want xs = xs.map (fun x => (x, size x)) ∧ leave size shrink want xs = [] := by
  induction xs generalizing want with
  | nil => exact ⟨rfl, rfl⟩
  | cons x xs ih =>
    have hxs : ∀ y ∈ xs, 0 < size y := fun y hy => hpos y (List.mem_cons_of_mem x hy)
    rw [trades] at h
    split_ifs at h with hdone
    · exact absurd h hdone.not_gt
    · rw [traded_cons] at h
      have hrest : traded (trades size (want - min want (size x)) xs) < want - min want (size x) :=
        lt_sub_iff_add_lt'.mpr h
      have hle : size x ≤ want := by
        by_contra hlt
        rw [min_eq_left (not_le.mp hlt).le, sub_self, trades_of_nonpos le_rfl, traded_nil] at hrest
        exact lt_irrefl _ hrest
      obtain ⟨htrades, hleave⟩ := ih hxs hrest
      rw [min_eq_right hle] at htrades hleave
      rw [trades, if_neg hdone, leave, if_neg hdone, min_eq_right hle, if_neg (lt_irrefl _), htrades, hleave]
      exact ⟨rfl, rfl⟩

/-- Priority: what stands in front of a supply that is traded with has been taken whole. -/
theorem trades_priority (hpos : ∀ x ∈ xs ++ ys, 0 < size x) {t : α × Q}
    (ht : t ∈ trades size want (xs ++ ys)) (hnot : t.1 ∉ xs) :
    trades size want xs = xs.map (fun x => (x, size x)) ∧ leave size shrink want xs = [] := by
  apply trades_full fun x hx => hpos x (List.mem_append_left ys hx)
  rw [trades_append] at ht
  rcases List.mem_append.mp ht with ht | ht
  · exact absurd (mem_of_mem_trades ht) hnot
  · by_contra hdone
    rw [trades_of_nonpos (sub_nonpos.mpr (not_lt.mp hdone))] at ht
    cases ht

theorem dropLast_trades (hpos : ∀ x ∈ xs, 0 < size x) :
    (trades size want xs).dropLast = (inFront size want xs).map fun x => (x, size x) := by
  induction xs generalizing want with
  | nil => rfl
  | cons x xs ih =>
    have hx := hpos x List.mem_cons_self
    cases xs with
    | nil =>
      rw [trades, inFront]
      split_ifs <;> rfl
    | cons y ys =>
      have hy := hpos y (List.mem_cons_of_mem x List.mem_cons_self)
      rw [inFront]
      split_ifs with hlt
      · rw [trades_cons_of_lt hlt hx, List.map_cons, ← ih fun z hz => hpos z (List.mem_cons_of_mem x hz)]
        have hne : trades size (want - size x) (y :: ys) ≠ [] := by
          rw [trades, if_neg (sub_pos.mpr hlt).not_ge]
          exact List.cons_ne_nil _ _
        exact List.dropLast_cons_of_ne_nil hne
      · rw [trades]
        split_ifs
        · rfl
        · rw [min_eq_left (not_lt.mp hlt), sub_self, trades_of_nonpos le_rfl]
          rfl

theorem leave_pos (hsize : ∀ x q, size (shrink x q) = size x - q) (hpos : ∀ x ∈ xs, 0 < size x) :
    ∀ x ∈ leave size shrink want xs, 0 < size x := by
  induction xs generalizing want with
  | nil => exact hpos
  | cons x xs ih =>
    have hxs : ∀ y ∈ xs, 0 < size y := fun y hy => hpos y (List.mem_cons_of_mem x hy)
    rw [leave]
    split_ifs with hdone hlt
    · exact hpos
    · intro y hy
      rcases List.mem_append.mp hy with hy | hy
      · rw [List.mem_singleton.mp hy, hsize]
        exact sub_pos.mpr hlt
      · exact ih hxs y hy
    · exact ih hxs

end Sweep

end Klett.Lib

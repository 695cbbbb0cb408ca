import Mathlib.Algebra.BigOperators.Group.Finset.Basic
import Mathlib.Order.Bounds.Defs

namespace Klett.Lib

section Shares

variable {ι β M : Type*} [DecidableEq ι] [AddCommMonoid M] {parties : Finset ι} {i : ι}

theorem sum_update (f : β → M) (xs : ι → β) (x : β) (hi : i ∈ parties) :
    ∑ j ∈ parties, f (Function.update xs i x j) + f (xs i) = ∑ j ∈ parties, f (xs j) + f x := by
  have hrest : ∑ j ∈ parties.erase i, f (Function.update xs i x j) = ∑ j ∈ parties.erase i, f (xs j) :=
    Finset.sum_congr rfl fun j hj => by rw [Function.update_of_ne (Finset.ne_of_mem_erase hj)]
  rw [← Finset.add_sum_erase _ _ hi, ← Finset.add_sum_erase _ (fun j => f (xs j)) hi, hrest, Function.update_self,
    add_right_comm, add_comm (f x), add_right_comm, add_right_comm]

end Shares

/-- What a party still has to do about a value it was given: nothing, everything, or the exchange for the cell it
has read. -/
inductive Offer (α : Type*) where
  | none
  | waiting (x : α)
  | trying (x seen : α)

namespace Offer

variable {α : Type*}

def value : Offer α → Option α
  | none => Option.none
  | waiting x => some x
  | trying x _ => some x

end Offer

section Lowering

variable {α ι : Type*} [LinearOrder α] {start cell : α} {given : List α} {offers : ι → Offer α} {i : ι} {x seen : α}

/-- A cell that parties lower one compare-exchange at a time: what it is not yet below is still offered. -/
structure Lowering (start : α) (given : List α) (cell : α) (offers : ι → Offer α) : Prop where
  origin : cell = start ∨ cell ∈ given
  covered : ∀ x ∈ given, cell ≤ x ∨ ∃ i, (offers i).value = some x
  below : ∀ i x seen, offers i = .trying x seen → cell ≤ seen
  offered : ∀ i x, (offers i).value = some x → x ∈ given

namespace Lowering

theorem initial (start : α) : Lowering start [] start fun _ : ι => .none where
  origin := .inl rfl
  covered _ hx := absurd hx List.not_mem_nil
  below _ _ _ h := by cases h
  offered _ _ h := by cases h

theorem lower (h : Lowering start given cell offers) (hi : (offers i).value = some x) (hx : x < cell) :
    Lowering start given x offers where
  origin := .inr (h.offered i x hi)
  covered y hy := (h.covered y hy).imp_left hx.le.trans
  below j y seen hj := hx.le.trans (h.below j y seen hj)
  offered := h.offered

theorem isLeast (h : Lowering start given cell offers) (hnone : ∀ i, offers i = .none) (hne : given ≠ [])
    (hstart : ∀ x ∈ given, x ≤ start) : IsLeast {x | x ∈ given} cell := by
  have hle (y : α) (hy : y ∈ given) : cell ≤ y := by
    rcases h.covered y hy with hle | ⟨i, hi⟩
    · exact hle
    · rw [hnone i] at hi
      cases hi
  refine ⟨?_, hle⟩
  rcases h.origin with horigin | hmem
  · obtain ⟨y, hy⟩ := List.exists_mem_of_ne_nil given hne
    have heq : cell = y := le_antisymm (hle y hy) (horigin ▸ hstart y hy)
    exact heq ▸ hy
  · exact hmem

theorem eq_start (h : Lowering start [] cell offers) : cell = start :=
  h.origin.resolve_right List.not_mem_nil

variable [DecidableEq ι]

theorem exists_update {o : Offer α} {y : α} (ho : (offers i).value = some y → cell ≤ y ∨ o.value = some y)
    (h : cell ≤ y ∨ ∃ j, (offers j).value = some y) :
    cell ≤ y ∨ ∃ j, (Function.update offers i o j).value = some y := by
  rcases h with h | ⟨j, hj⟩
  · exact .inl h
  · by_cases hji : j = i
    · subst hji
      apply (ho hj).imp_right
      intro hvalue
      exact ⟨j, by rw [Function.update_self, hvalue]⟩
    · exact .inr ⟨j, by rw [Function.update_of_ne hji, hj]⟩

theorem same (h : Lowering start given cell offers) {o : Offer α} (ho : o = offers i) :
    Lowering start given cell (Function.update offers i o) := by
  rw [ho, Function.update_eq_self]
  exact h

/-- What a party may do to its own offer while the cell stays. -/
theorem update (h : Lowering start given cell offers) {o : Offer α}
    (hkept : ∀ y, (offers i).value = some y → cell ≤ y ∨ o.value = some y)
    (hseen : ∀ y seen, o = .trying y seen → cell ≤ seen) (hgiven : ∀ y, o.value = some y → y ∈ given) :
    Lowering start given cell (Function.update offers i o) where
  origin := h.origin
  covered y hy := exists_update (hkept y) (h.covered y hy)
  below := (Function.forall_update_iff offers fun _ o => ∀ y seen, o = .trying y seen → cell ≤ seen).mpr
    ⟨hseen, fun j _ => h.below j⟩
  offered := (Function.forall_update_iff offers fun _ o => ∀ y, o.value = some y → y ∈ given).mpr
    ⟨hgiven, fun j _ => h.offered j⟩

theorem give (h : Lowering start given cell offers) (hi : offers i = .none) (x : α) :
    Lowering start (given ++ [x]) cell (Function.update offers i (.waiting x)) where
  origin := h.origin.imp_right (List.mem_append_left [x])
  covered y hy := by
    rcases List.mem_append.mp hy with hy | hy
    · apply exists_update _ (h.covered y hy)
      rw [hi]
      intro hfalse
      cases hfalse
    · refine .inr ⟨i, ?_⟩
      rw [Function.update_self, List.mem_singleton.mp hy]
      rfl
  below := (Function.forall_update_iff offers fun _ o => ∀ y seen, o = .trying y seen → cell ≤ seen).mpr
    ⟨fun _ _ hfalse => (by cases hfalse), fun j _ => h.below j⟩
  offered := by
    apply (Function.forall_update_iff offers fun _ o => ∀ y, o.value = some y → y ∈ given ++ [x]).mpr
    refine ⟨fun y hy => ?_, fun j _ y hy => List.mem_append_left [x] (h.offered j y hy)⟩
    cases hy
    exact List.mem_append_right given (List.mem_singleton_self x)

theorem load (h : Lowering start given cell offers) (hi : (offers i).value = some x) :
    Lowering start given cell (Function.update offers i (.trying x cell)) := by
  apply h.update
  · intro y hy
    exact .inr (hi.symm.trans hy)
  · intro y seen heq
    cases heq
    exact le_rfl
  · intro y hy
    cases hy
    exact h.offered i x hi

/-- The value was not below what the party had read: nor is it below the cell. -/
theorem pass (h : Lowering start given cell offers) (hi : offers i = .trying x seen) (hx : ¬x < seen) :
    Lowering start given cell (Function.update offers i .none) := by
  apply h.update
  · intro y hy
    rw [hi] at hy
    cases hy
    exact .inl ((h.below i x seen hi).trans (not_lt.mp hx))
  · intro y seen hfalse
    cases hfalse
  · intro y hfalse
    cases hfalse

theorem exchange (h : Lowering start given cell offers) (hi : offers i = .trying x cell) (hx : x < cell) :
    Lowering start given x (Function.update offers i .none) := by
  have hvalue : (offers i).value = some x := by rw [hi]; rfl
  have hload : Lowering start given x (Function.update offers i (.trying x x)) := (h.lower hvalue hx).load hvalue
  have hpass := hload.pass (Function.update_self ..) (lt_irrefl x)
  rwa [Function.update_idem] at hpass

end Lowering

end Lowering

end Klett.Lib

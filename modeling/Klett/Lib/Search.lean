import Mathlib.Data.List.Basic
import Mathlib.Data.List.Perm.Basic
import Mathlib.Order.Lattice

namespace Klett.Lib

section Search

variable {α Q : Type*} [LinearOrder Q] (cost : α → Q) (enough : Q)

/-- The cheapest so far of the candidates in turn, until one costs less than `enough`. -/
def search : α → List α → α
  | best, [] => best
  | best, a :: rest =>
    if cost a < cost best then if cost a < enough then a else search a rest else search best rest

variable {cost : α → Q} {enough : Q} {best : α} {l : List α}

end Search

section Prefix

/-! The first elements of a list in place of those with a property. -/

variable {α β : Type*}

theorem mapM_id_eq_some {l : List (Option α)} {l' : List α} : l.mapM id = some l' ↔ l = l'.map some := by
  induction l generalizing l' with
  | nil => cases l' <;> simp
  | cons a l ih =>
    cases a with
    | none => cases l' <;> simp
    | some a => cases l' <;> simp [Option.bind_eq_some_iff, ih, and_comm]

theorem exists_map_some_iff {l : List (Option α)} :
    (∃ l' : List α, l = l'.map some) ↔ ∀ a ∈ l, a.isSome := by
  constructor
  · rintro ⟨l', rfl⟩ a ha
    obtain ⟨x, -, rfl⟩ := List.mem_map.mp ha
    rfl
  · intro h
    refine ⟨l.filterMap id, ?_⟩
    induction l with
    | nil => rfl
    | cons a l ih =>
      obtain ⟨ha, hl⟩ := List.forall_mem_cons.mp h
      obtain ⟨x, rfl⟩ := Option.isSome_iff_exists.mp ha
      rw [List.filterMap_cons_some (f := id) rfl, List.map_cons, ← ih hl]

/-- What is the same on both sides cancels. -/
theorem take_perm_filter_iff (p : α → Bool) (f : α → β) (l : List α) (k : ℕ) :
    ((l.take k).map f).Perm ((l.filter p).map f) ↔
      (((l.take k).filter fun a => !p a).map f).Perm (((l.drop k).filter p).map f) := by
  have hsplit : (l.filter p).map f = ((l.take k).filter p).map f ++ ((l.drop k).filter p).map f := by
    rw [← List.map_append, ← List.filter_append, List.take_append_drop]
  have htake : ((l.take k).map f).Perm
      (((l.take k).filter p).map f ++ ((l.take k).filter fun a => !p a).map f) := by
    rw [← List.map_append]
    exact (List.filter_append_perm p (l.take k)).symm.map f
  rw [hsplit]
  constructor
  · intro h
    exact (List.perm_append_left_iff _).mp (htake.symm.trans h)
  · intro h
    exact htake.trans ((List.perm_append_left_iff _).mpr h)

end Prefix

end Klett.Lib

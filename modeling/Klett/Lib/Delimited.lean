import Mathlib.Data.List.TakeWhile

/-!
Text in pieces that a delimiter ends, as `std::getline` reads it, and pieces that a mark cuts in two.
-/

namespace Klett.Lib.Delimited

variable {α : Type*} [DecidableEq α]

/-- Nothing behind the last delimiter is no piece. -/
def getlines (d : α) (raw : List α) : List (List α) :=
  let pieces := raw.splitOn d
  if pieces.getLast? = some [] then pieces.dropLast else pieces

/-- What stands before and behind the first mark, if there is one. -/
def cut (mark : α) (token : List α) : Option (List α × List α) :=
  if mark ∈ token then some (token.takeWhile (· ≠ mark), (token.dropWhile (· ≠ mark)).tail) else none

variable {d mark : α} {raw token key value : List α} {pieces : List (List α)}

theorem not_mem_of_mem_splitOn {piece : List α} (h : piece ∈ raw.splitOn d) : d ∉ piece := by
  induction raw generalizing piece with
  | nil => simp_all
  | cons x raw ih =>
    rw [List.splitOn_cons_eq_if_modifyHead] at h
    split_ifs at h with hx
    · obtain rfl | h := List.mem_cons.mp h
      · exact List.not_mem_nil
      · exact ih h
    · obtain ⟨first, rest, hsplit⟩ := List.exists_cons_of_ne_nil (List.splitOn_ne_nil d raw)
      rw [hsplit] at h ih
      obtain rfl | h := List.mem_cons.mp h
      · have hne : d ≠ x := fun heq => hx (beq_iff_eq.mpr heq.symm)
        exact List.not_mem_cons_of_ne_of_not_mem hne (ih List.mem_cons_self)
      · exact ih (List.mem_cons_of_mem _ h)

theorem not_mem_of_mem_getlines {piece : List α} (h : piece ∈ getlines d raw) : d ∉ piece := by
  unfold getlines at h
  simp only at h
  split_ifs at h
  · exact not_mem_of_mem_splitOn (List.dropLast_subset _ h)
  · exact not_mem_of_mem_splitOn h

theorem getlines_intercalate (hd : ∀ piece ∈ pieces, d ∉ piece) (hne : ∀ piece ∈ pieces, piece ≠ []) :
    getlines d ([d].intercalate pieces) = pieces := by
  by_cases hnil : pieces = []
  · subst hnil
    simp [getlines]
  · unfold getlines
    rw [List.splitOn_intercalate d hd hnil]
    apply if_neg
    intro hlast
    exact hne [] (List.mem_of_getLast? hlast) rfl

theorem cut_append (h : mark ∉ key) : cut mark (key ++ mark :: value) = some (key, value) := by
  have hkey : ∀ x ∈ key, decide (x ≠ mark) = true := by
    intro x hx
    exact decide_eq_true fun heq => h (heq ▸ hx)
  have htake : (key ++ mark :: value).takeWhile (· ≠ mark) = key := by
    rw [List.takeWhile_append_of_pos hkey, List.takeWhile_cons_of_neg (by simp), List.append_nil]
  have hdrop : (key ++ mark :: value).dropWhile (· ≠ mark) = mark :: value := by
    rw [List.dropWhile_append_of_pos hkey, List.dropWhile_cons_of_neg (by simp)]
  rw [cut, if_pos (by simp), htake, hdrop, List.tail_cons]

theorem subset_of_cut (h : cut mark token = some (key, value)) : value ⊆ token := by
  unfold cut at h
  split_ifs at h
  obtain ⟨-, rfl⟩ := Prod.mk.inj (Option.some.inj h)
  exact List.Subset.trans (List.tail_sublist _).subset (List.dropWhile_subset _)

end Klett.Lib.Delimited

import Mathlib.Data.List.Basic
import Mathlib.Order.Lattice

namespace Klett.Lib

variable {α κ : Type*} [LinearOrder κ] (key : α → κ) (limit : ℕ)

/-- One pass that gathers neighbours with one key, the last group in front, and stops where a group
beyond the limit would begin. -/
def gather : List α → List (κ × List α) → List (κ × List α)
  | [], groups => groups
  | x :: rest, [] => gather rest [(key x, [x])]
  | x :: rest, g :: groups =>
    if g.1 = key x then gather rest ((g.1, g.2 ++ [x]) :: groups)
    else if limit ≤ (g :: groups).length then g :: groups
    else gather rest ((key x, [x]) :: g :: groups)

/-- The elements by their keys, the greatest keys first, and no more than so many of them. -/
structure Grouped (l : List α) (groups : List (κ × List α)) : Prop where
  strict : groups.Pairwise fun g h => h.1 < g.1
  members : ∀ g ∈ groups, g.2 = l.filter (fun x => key x = g.1) ∧ g.2 ≠ []
  complete : ∀ x ∈ l, (∃ g ∈ groups, g.1 = key x) ∨ groups.length = limit ∧ ∀ g ∈ groups, key x < g.1

/-- What a pass has gathered of the elements before it. -/
structure Gathered (l : List α) (groups : List (κ × List α)) : Prop where
  strict : groups.Pairwise fun g h => g.1 < h.1
  members : ∀ g ∈ groups, g.2 = l.filter (fun x => key x = g.1) ∧ g.2 ≠ []
  complete : ∀ x ∈ l, ∃ g ∈ groups, g.1 = key x

variable {key limit} {x : α} {g : κ × List α} {groups : List (κ × List α)} {l rest : List α}

namespace Gathered

theorem attained (h : Gathered key l groups) (hg : g ∈ groups) : ∃ x ∈ l, key x = g.1 := by
  obtain ⟨hmembers, hne⟩ := h.members g hg
  obtain ⟨x, hx⟩ := List.exists_mem_of_ne_nil _ hne
  rw [hmembers] at hx
  obtain ⟨hl, hkey⟩ := List.mem_filter.mp hx
  exact ⟨x, hl, of_decide_eq_true hkey⟩

theorem extend (h : Gathered key l (g :: groups)) (hkey : g.1 = key x) :
    Gathered key (l ++ [x]) ((g.1, g.2 ++ [x]) :: groups) := by
  obtain ⟨hhead, hrest⟩ := List.pairwise_cons.mp h.strict
  refine ⟨List.pairwise_cons.mpr ⟨hhead, hrest⟩, ?_, ?_⟩
  · intro g' hg'
    rcases List.mem_cons.mp hg' with rfl | hg'
    · rw [List.filter_append, ← (h.members g List.mem_cons_self).1]
      simp [hkey]
    · have hlt := hhead g' hg'
      rw [hkey] at hlt
      rw [List.filter_append, ← (h.members g' (List.mem_cons_of_mem _ hg')).1]
      simpa [hlt.ne] using (h.members g' (List.mem_cons_of_mem _ hg')).2
  · intro y hy
    rcases List.mem_append.mp hy with hy | hy
    · obtain ⟨g', hg', hsame⟩ := h.complete y hy
      rcases List.mem_cons.mp hg' with rfl | hg'
      · exact ⟨_, List.mem_cons_self, hsame⟩
      · exact ⟨g', List.mem_cons_of_mem _ hg', hsame⟩
    · rw [List.mem_singleton.mp hy]
      exact ⟨_, List.mem_cons_self, hkey⟩

theorem begin (h : Gathered key l groups) (hbelow : ∀ g ∈ groups, key x < g.1) :
    Gathered key (l ++ [x]) ((key x, [x]) :: groups) := by
  refine ⟨List.pairwise_cons.mpr ⟨hbelow, h.strict⟩, ?_, ?_⟩
  · intro g hg
    rcases List.mem_cons.mp hg with rfl | hg
    · have hnone : l.filter (fun y => key y = key x) = [] := by
        refine List.filter_eq_nil_iff.mpr fun y hy hsame => ?_
        obtain ⟨g, hg, hkey⟩ := h.complete y hy
        exact absurd (of_decide_eq_true hsame) (hkey ▸ hbelow g hg).ne'
      rw [List.filter_append, hnone]
      simp
    · rw [List.filter_append, ← (h.members g hg).1]
      simpa [(hbelow g hg).ne] using (h.members g hg).2
  · intro y hy
    rcases List.mem_append.mp hy with hy | hy
    · obtain ⟨g, hg, hsame⟩ := h.complete y hy
      exact ⟨g, List.mem_cons_of_mem _ hg, hsame⟩
    · rw [List.mem_singleton.mp hy]
      exact ⟨_, List.mem_cons_self, rfl⟩

theorem grouped (h : Gathered key l groups) (hleft : ∀ x ∈ rest, groups.length = limit ∧ ∀ g ∈ groups, key x < g.1) :
    Grouped key limit (l ++ rest) groups.reverse := by
  refine ⟨List.pairwise_reverse.mpr h.strict, ?_, ?_⟩
  · intro g hg
    rw [List.mem_reverse] at hg
    have hnone : rest.filter (fun x => key x = g.1) = [] :=
      List.filter_eq_nil_iff.mpr fun x hx hsame =>
        absurd (of_decide_eq_true hsame) ((hleft x hx).2 g hg).ne
    rw [List.filter_append, hnone, List.append_nil]
    exact h.members g hg
  · intro x hx
    simp only [List.mem_reverse, List.length_reverse]
    exact (List.mem_append.mp hx).imp (h.complete x) (hleft x)

theorem gather (hlimit : 0 < limit) (h : Gathered key l groups) (hfits : groups.length ≤ limit)
    (hs : (l ++ rest).Pairwise fun a b => key b ≤ key a) :
    Grouped key limit (l ++ rest) (gather key limit rest groups).reverse := by
  induction rest generalizing l groups with
  | nil => exact h.grouped (List.forall_mem_nil _)
  | cons x rest ih =>
    obtain ⟨-, hpair, hcross⟩ := List.pairwise_append.mp hs
    obtain ⟨hhead, -⟩ := List.pairwise_cons.mp hpair
    have hnext (groups' : List (κ × List α)) (h' : Gathered key (l ++ [x]) groups')
        (hfits' : groups'.length ≤ limit) :
        Grouped key limit (l ++ x :: rest) (Lib.gather key limit rest groups').reverse := by
      have hrun := ih h' hfits' (by simpa using hs)
      simpa using hrun
    have hworse (g : κ × List α) (hg : g ∈ groups) : key x ≤ g.1 := by
      obtain ⟨y, hy, hkey⟩ := h.attained hg
      rw [← hkey]
      exact hcross y hy x List.mem_cons_self
    cases groups with
    | nil => exact hnext _ (h.begin (List.forall_mem_nil _)) hlimit
    | cons g groups =>
      unfold Lib.gather
      split_ifs with hsame hfull
      · exact hnext _ (h.extend hsame) hfits
      all_goals
        have hlt : key x < g.1 := lt_of_le_of_ne (hworse g List.mem_cons_self) (Ne.symm hsame)
        have hbelow : ∀ g' ∈ g :: groups, key x < g'.1 :=
          List.forall_mem_cons.mpr ⟨hlt, fun g' hg' => hlt.trans ((List.pairwise_cons.mp h.strict).1 g' hg')⟩
      · refine h.grouped fun y hy => ⟨Nat.le_antisymm hfits hfull, fun g' hg' => ?_⟩
        rcases List.mem_cons.mp hy with rfl | hy
        · exact hbelow g' hg'
        · exact (hhead y hy).trans_lt (hbelow g' hg')
      · exact hnext _ (h.begin hbelow) (Nat.lt_of_not_le hfull)

end Gathered

theorem grouped_gather (key : α → κ) (limit : ℕ) (hlimit : 0 < limit) (hs : l.Pairwise fun a b => key b ≤ key a) :
    Grouped key limit l (gather key limit l []).reverse := by
  have hstart : Gathered key ([] : List α) [] :=
    ⟨List.Pairwise.nil, List.forall_mem_nil _, List.forall_mem_nil _⟩
  exact hstart.gather hlimit (Nat.zero_le _) hs

end Klett.Lib

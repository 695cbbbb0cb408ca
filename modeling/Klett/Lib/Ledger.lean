import Mathlib.Algebra.Order.BigOperators.Group.List

namespace Klett.Lib

structure LedgerEntry (K M Q : Type*) where
  key : K
  mark : M
  total : Q
  deriving DecidableEq

abbrev Ledger (K M Q : Type*) := List (LedgerEntry K M Q)

namespace Ledger

variable {K M Q : Type*}

def add [DecidableEq K] [Add Q] (k : K) (m : M) (q : Q) : Ledger K M Q → Ledger K M Q
  | [] => [⟨k, m, q⟩]
  | e :: l => if e.key = k then ⟨k, m, e.total + q⟩ :: l else e :: add k m q l

def sum [Add Q] [Zero Q] (l : Ledger K M Q) : Q := (l.map LedgerEntry.total).sum

@[simp] theorem sum_nil [AddCommMonoid Q] : sum ([] : Ledger K M Q) = 0 := rfl

variable [DecidableEq K]

theorem sum_add [AddCommMonoid Q] (k : K) (m : M) (q : Q) (l : Ledger K M Q) :
    (add k m q l).sum = l.sum + q := by
  induction l with
  | nil => simp [add, sum]
  | cons e l ih =>
    unfold add
    split_ifs
    · simp only [sum, List.map_cons, List.sum_cons]
      rw [add_right_comm]
    · simp only [sum, List.map_cons, List.sum_cons] at ih ⊢
      rw [ih, add_assoc]

theorem marks_add [Add Q] {p : M → Prop} {k : K} {m : M} {q : Q} {l : Ledger K M Q} (hm : p m)
    (hl : ∀ e ∈ l, p e.mark) : ∀ e ∈ add k m q l, p e.mark := by
  induction l with
  | nil => simpa [add] using hm
  | cons e l ih =>
    have htail := ih fun x hx => hl x (List.mem_cons_of_mem _ hx)
    have hhead := hl e List.mem_cons_self
    unfold add
    split_ifs
    · simpa [hm] using fun x hx => hl x (List.mem_cons_of_mem _ hx)
    · simpa [hhead] using htail

theorem nonneg_add [AddCommMonoid Q] [PartialOrder Q] [IsOrderedAddMonoid Q] {k : K} {m : M} {q : Q}
    {l : Ledger K M Q} (hq : 0 ≤ q) (hl : ∀ e ∈ l, 0 ≤ e.total) :
    ∀ e ∈ add k m q l, 0 ≤ e.total := by
  induction l with
  | nil => simpa [add] using hq
  | cons e l ih =>
    have htail := ih fun x hx => hl x (List.mem_cons_of_mem _ hx)
    have hhead := hl e List.mem_cons_self
    unfold add
    split_ifs
    · simpa [add_nonneg hhead hq] using fun x hx => hl x (List.mem_cons_of_mem _ hx)
    · simpa [hhead] using htail

def keys (l : Ledger K M Q) : List K := l.map LedgerEntry.key

/-- What the entries of a key add up to. -/
def totalAt [Add Q] [Zero Q] (k : K) (l : Ledger K M Q) : Q :=
  ((l.filter fun e => e.key = k).map LedgerEntry.total).sum

theorem mem_keys_add [Add Q] {k j : K} {m : M} {q : Q} {l : Ledger K M Q} :
    j ∈ (add k m q l).keys ↔ j = k ∨ j ∈ l.keys := by
  induction l with
  | nil => simp [add, keys]
  | cons e l ih =>
    unfold add
    split_ifs with he
    · simp only [keys, List.map_cons, List.mem_cons, he]
      tauto
    · simp only [keys, List.map_cons, List.mem_cons] at ih ⊢
      rw [ih]
      tauto

theorem nodup_keys_add [Add Q] {k : K} {m : M} {q : Q} {l : Ledger K M Q} (h : l.keys.Nodup) :
    (add k m q l).keys.Nodup := by
  induction l with
  | nil => simp [add, keys]
  | cons e l ih =>
    obtain ⟨hnot, hnodup⟩ := List.nodup_cons.mp h
    unfold add
    split_ifs with he
    · rw [← he]
      exact h
    · apply List.nodup_cons.mpr
      refine ⟨fun hmem => ?_, ih hnodup⟩
      exact (mem_keys_add.mp hmem).elim he hnot

theorem totals_add [AddCommMonoid Q] {p : Q → Prop} {k : K} {m : M} {q : Q} {l : Ledger K M Q} (hq : p q)
    (hadd : ∀ x, p x → p (x + q)) (hl : ∀ e ∈ l, p e.total) : ∀ e ∈ add k m q l, p e.total := by
  induction l with
  | nil => simpa [add] using hq
  | cons e l ih =>
    obtain ⟨hhead, htail⟩ := List.forall_mem_cons.mp hl
    unfold add
    split_ifs
    · exact List.forall_mem_cons.mpr ⟨hadd _ hhead, htail⟩
    · exact List.forall_mem_cons.mpr ⟨hhead, ih htail⟩

theorem totalAt_cons [AddCommMonoid Q] (j : K) (e : LedgerEntry K M Q) (l : Ledger K M Q) :
    totalAt j (e :: l) = (if e.key = j then e.total else 0) + totalAt j l := by
  unfold totalAt
  by_cases h : e.key = j <;> simp [h]

theorem totalAt_add [AddCommMonoid Q] (k j : K) (m : M) (q : Q) (l : Ledger K M Q) :
    totalAt j (add k m q l) = totalAt j l + if k = j then q else 0 := by
  induction l with
  | nil =>
    rw [add, totalAt_cons]
    exact add_comm _ _
  | cons e l ih =>
    by_cases he : e.key = k
    · simp only [add, he, ↓reduceIte, totalAt_cons]
      split_ifs
      · exact add_right_comm _ _ _
      · rw [add_zero]
    · simp only [add, he, ↓reduceIte, totalAt_cons, ih, add_assoc]

theorem totalAt_of_not_mem [AddCommMonoid Q] {k : K} {l : Ledger K M Q} (h : k ∉ l.keys) : totalAt k l = 0 := by
  induction l with
  | nil => rfl
  | cons e l ih =>
    obtain ⟨hne, hnot⟩ := List.ne_and_not_mem_of_not_mem_cons h
    rw [totalAt_cons, if_neg (Ne.symm hne), ih hnot, add_zero]

theorem totalAt_of_mem [AddCommMonoid Q] {e : LedgerEntry K M Q} {l : Ledger K M Q} (h : l.keys.Nodup) (he : e ∈ l) :
    totalAt e.key l = e.total := by
  induction l with
  | nil => cases he
  | cons x l ih =>
    obtain ⟨hnot, hnodup⟩ := List.nodup_cons.mp h
    rw [totalAt_cons]
    obtain rfl | he := List.mem_cons.mp he
    · rw [if_pos rfl, totalAt_of_not_mem hnot, add_zero]
    · have hne : x.key ≠ e.key := fun heq => hnot (List.mem_map.mpr ⟨e, he, heq.symm⟩)
      rw [if_neg hne, ih hnodup he, zero_add]

/-- The mark that a key was last entered with. -/
def markAt (k : K) (l : Ledger K M Q) : Option M := (l.find? fun e => e.key = k).map LedgerEntry.mark

theorem markAt_cons (j : K) (e : LedgerEntry K M Q) (l : Ledger K M Q) :
    markAt j (e :: l) = if e.key = j then some e.mark else markAt j l := by
  unfold markAt
  by_cases h : e.key = j <;> simp [h]

theorem markAt_add [Add Q] (k j : K) (m : M) (q : Q) (l : Ledger K M Q) :
    markAt j (add k m q l) = if k = j then some m else markAt j l := by
  induction l with
  | nil =>
    rw [add, markAt_cons]
  | cons e l ih =>
    by_cases he : e.key = k
    · simp only [add, he, ↓reduceIte, markAt_cons]
      split_ifs <;> rfl
    · simp only [add, he, ↓reduceIte, markAt_cons, ih]
      split_ifs with hj hk
      · exact absurd (hj.trans hk.symm) he
      all_goals rfl

theorem markAt_of_mem {e : LedgerEntry K M Q} {l : Ledger K M Q} (h : l.keys.Nodup) (he : e ∈ l) :
    markAt e.key l = some e.mark := by
  induction l with
  | nil => cases he
  | cons x l ih =>
    obtain ⟨hnot, hnodup⟩ := List.nodup_cons.mp h
    rw [markAt_cons]
    obtain rfl | he := List.mem_cons.mp he
    · exact if_pos rfl
    · have hne : x.key ≠ e.key := fun heq => hnot (List.mem_map.mpr ⟨e, he, heq.symm⟩)
      rw [if_neg hne, ih hnodup he]

theorem exists_of_markAt {k : K} {m : M} {l : Ledger K M Q} (h : markAt k l = some m) :
    ∃ e ∈ l, e.key = k ∧ e.mark = m := by
  obtain ⟨e, hfind, hmark⟩ := Option.map_eq_some_iff.mp h
  exact ⟨e, List.mem_of_find?_eq_some hfind, by simpa using List.find?_some hfind, hmark⟩

theorem markAt_of_not_mem {k : K} {l : Ledger K M Q} (h : k ∉ l.keys) : markAt k l = none := by
  have hnone : (l.find? fun e => e.key = k) = none := by
    apply List.find?_eq_none.mpr
    intro e he hk
    exact h (List.mem_map.mpr ⟨e, he, of_decide_eq_true hk⟩)
  rw [markAt, hnone, Option.map_none]

theorem exists_of_mem_keys {k : K} {l : Ledger K M Q} (h : k ∈ l.keys) : ∃ e ∈ l, markAt k l = some e.mark := by
  obtain ⟨x, hx, hkey⟩ := List.mem_map.mp h
  cases hfind : l.find? fun e => e.key = k with
  | none => exact absurd (decide_eq_true hkey) (List.find?_eq_none.mp hfind x hx)
  | some e => exact ⟨e, List.mem_of_find?_eq_some hfind, by rw [markAt, hfind, Option.map_some]⟩

end Ledger

theorem sum_le_of_sublist_perm {α Q : Type*} [AddCommMonoid Q] [PartialOrder Q]
    [IsOrderedAddMonoid Q] {f : α → Q} {part whole l : List α} (hs : part.Sublist whole)
    (hp : whole.Perm l) (hf : ∀ x ∈ l, 0 ≤ f x) : (part.map f).sum ≤ (l.map f).sum := by
  calc (part.map f).sum ≤ (whole.map f).sum := by
        apply (hs.map f).sum_le_sum
        intro y hy
        obtain ⟨x, hx, rfl⟩ := List.mem_map.mp hy
        exact hf x (hp.subset hx)
    _ = (l.map f).sum := (hp.map f).sum_eq

end Klett.Lib

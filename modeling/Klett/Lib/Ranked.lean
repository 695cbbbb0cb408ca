import Mathlib.Data.List.Basic
import Mathlib.Data.Nat.Basic
import Mathlib.Order.Lattice

/-!
Lists in strictly descending order of a key, and insertion into them with a bound on the length.
-/

namespace Klett.Lib.Ranked

variable {α κ : Type*} [LinearOrder κ] (key : α → κ)

def Strict (l : List α) : Prop := l.Pairwise fun a b => key b < key a

/-- The entry of the same key gives way to the new one, which otherwise goes in between. -/
def replaceOrInsert (x : α) (l : List α) : List α :=
  if ∃ y ∈ l, key y = key x then l.map fun y => if key y = key x then x else y
  else (l.filter fun y => key x < key y) ++ x :: l.filter fun y => key y < key x

def place (x : α) : List α → List α
  | [] => [x]
  | y :: l =>
    if key x < key y then y :: place x l
    else if key y = key x then x :: l
    else x :: y :: l

/-- A full list gives up its last entry for a better one before the new entry finds its place. -/
def bounded (n : ℕ) (x : α) (l : List α) : List α :=
  if l.length < n then place key x l
  else
    match l.getLast? with
    | none => l
    | some last => if key last < key x then place key x l.dropLast else l

variable {key} {n : ℕ} {x w : α} {l : List α}

theorem filter_ahead (hs : Strict key (w :: l)) (h : key w ≤ key x) : l.filter (fun y => key x < key y) = [] := by
  apply List.filter_eq_nil_iff.mpr
  intro y hy
  have hlt := (List.pairwise_cons.mp hs).1 y hy
  simpa using (hlt.trans_le h).le

theorem filter_behind (hs : Strict key (w :: l)) (h : key w ≤ key x) : l.filter (fun y => key y < key x) = l := by
  apply List.filter_eq_self.mpr
  intro y hy
  have hlt := (List.pairwise_cons.mp hs).1 y hy
  exact decide_eq_true (hlt.trans_le h)

theorem map_of_no_key (h : ∀ y ∈ l, key y ≠ key x) : (l.map fun y => if key y = key x then x else y) = l := by
  induction l with
  | nil => rfl
  | cons y l ih =>
    obtain ⟨hy, hl⟩ := List.forall_mem_cons.mp h
    rw [List.map_cons, if_neg hy, ih hl]

theorem place_eq (hs : Strict key l) : place key x l = replaceOrInsert key x l := by
  induction l with
  | nil => rfl
  | cons y l ih =>
    have hrest := List.pairwise_cons.mp hs
    unfold place replaceOrInsert
    split_ifs with hahead hkey hsame hfound
    · rw [ih hrest.2, replaceOrInsert, if_pos, List.map_cons, if_neg hahead.ne']
      obtain ⟨z, hz, hkey⟩ := hkey
      obtain rfl | hz := List.mem_cons.mp hz
      · exact absurd hkey hahead.ne'
      · exact ⟨z, hz, hkey⟩
    · have hnone : ¬∃ z ∈ l, key z = key x := by
        rintro ⟨z, hz, heq⟩
        exact hkey ⟨z, List.mem_cons_of_mem _ hz, heq⟩
      rw [ih hrest.2, replaceOrInsert, if_neg hnone]
      simp [hahead, hahead.le]
    · have hbehind : ∀ z ∈ l, key z ≠ key x := fun z hz => ((hrest.1 z hz).trans_eq hsame).ne
      rw [List.map_cons, if_pos hsame, map_of_no_key hbehind]
    · exact absurd ⟨y, List.mem_cons_self, hsame⟩ hfound
    · obtain ⟨z, hz, heq⟩ := ‹∃ z ∈ y :: l, key z = key x›
      obtain rfl | hz := List.mem_cons.mp hz
      · exact absurd heq hsame
      · exact absurd ((hrest.1 z hz).trans_le (not_lt.mp hahead)) heq.not_lt
    · have hlt : key y < key x := lt_of_le_of_ne (not_lt.mp hahead) hsame
      rw [List.filter_cons_of_neg (by simpa using hlt.le), filter_ahead hs hlt.le,
        List.filter_cons_of_pos (by simpa using hlt), filter_behind hs hlt.le]
      rfl

theorem place_length_of_new (h : ∀ y ∈ l, key y ≠ key x) : (place key x l).length = l.length + 1 := by
  induction l with
  | nil => rfl
  | cons y l ih =>
    obtain ⟨hy, hl⟩ := List.forall_mem_cons.mp h
    unfold place
    rw [if_neg hy]
    split_ifs
    · exact congrArg Nat.succ (ih hl)
    · rfl

theorem place_length_of_known (hs : Strict key l) (h : ∃ y ∈ l, key y = key x) : (place key x l).length = l.length := by
  rw [place_eq hs, replaceOrInsert, if_pos h, List.length_map]

theorem place_concat (h : key w < key x) : place key x (l ++ [w]) = place key x l ++ [w] := by
  induction l with
  | nil =>
    simp only [List.nil_append, place]
    rw [if_neg h.not_gt, if_neg h.ne]
    rfl
  | cons y l ih =>
    rw [List.cons_append]
    unfold place
    split_ifs
    · rw [ih]
      rfl
    · rfl
    · rfl

theorem place_behind (hall : ∀ y ∈ l, key x < key y) : place key x l = l ++ [x] := by
  induction l with
  | nil => rfl
  | cons y l ih =>
    obtain ⟨hy, hl⟩ := List.forall_mem_cons.mp hall
    unfold place
    rw [if_pos hy, ih hl]
    rfl

theorem mem_place {z : α} (h : z ∈ place key x l) : z = x ∨ z ∈ l := by
  induction l with
  | nil => exact .inl (List.mem_singleton.mp h)
  | cons y l ih =>
    unfold place at h
    split_ifs at h
    · obtain rfl | h := List.mem_cons.mp h
      · exact .inr List.mem_cons_self
      · exact (ih h).imp_right (List.mem_cons_of_mem _)
    · exact (List.mem_cons.mp h).imp_right (List.mem_cons_of_mem _)
    · exact List.mem_cons.mp h

theorem place_strict (hs : Strict key l) : Strict key (place key x l) := by
  induction l with
  | nil => exact List.pairwise_singleton _ _
  | cons y l ih =>
    obtain ⟨hhead, hrest⟩ := List.pairwise_cons.mp hs
    unfold place
    split_ifs with hahead hsame
    · refine List.pairwise_cons.mpr ⟨fun z hz => ?_, ih hrest⟩
      obtain rfl | hz := mem_place hz
      · exact hahead
      · exact hhead z hz
    · exact List.pairwise_cons.mpr ⟨fun z hz => (hhead z hz).trans_eq hsame, hrest⟩
    · have hlt : key y < key x := lt_of_le_of_ne (not_lt.mp hahead) hsame
      refine List.pairwise_cons.mpr ⟨fun z hz => ?_, hs⟩
      obtain rfl | hz := List.mem_cons.mp hz
      · exact hlt
      · exact (hhead z hz).trans hlt

theorem place_length_le (hs : Strict key l) : (place key x l).length ≤ l.length + 1 := by
  by_cases hnew : ∃ y ∈ l, key y = key x
  · rw [place_length_of_known hs hnew]
    exact Nat.le_succ _
  · push Not at hnew
    rw [place_length_of_new hnew]

theorem bounded_cases (key : α → κ) (n : ℕ) (x : α) (l : List α) :
    bounded key n x l = l ∨ ∃ kept, kept.Sublist l ∧ bounded key n x l = place key x kept := by
  unfold bounded
  split
  · exact .inr ⟨l, List.Sublist.refl _, rfl⟩
  · split
    · exact .inl rfl
    · split
      · exact .inr ⟨l.dropLast, List.dropLast_sublist _, rfl⟩
      · exact .inl rfl

theorem mem_bounded {z : α} (h : z ∈ bounded key n x l) : z = x ∨ z ∈ l := by
  obtain heq | ⟨kept, hkept, heq⟩ := bounded_cases key n x l
  · rw [heq] at h
    exact .inr h
  · rw [heq] at h
    exact (mem_place h).imp_right fun hz => hkept.subset hz

theorem bounded_strict (hs : Strict key l) : Strict key (bounded key n x l) := by
  obtain heq | ⟨kept, hkept, heq⟩ := bounded_cases key n x l
  · rw [heq]
    exact hs
  · rw [heq]
    exact place_strict (hs.sublist hkept)

theorem bounded_length_le (hs : Strict key l) : (bounded key n x l).length ≤ l.length + 1 := by
  obtain heq | ⟨kept, hkept, heq⟩ := bounded_cases key n x l
  · rw [heq]
    exact Nat.le_succ _
  · rw [heq]
    exact (place_length_le (hs.sublist hkept)).trans (Nat.succ_le_succ hkept.length_le)

section Full

variable {init : List α} {last : α}

theorem place_full_better (hs : Strict key (init ++ [last])) (h : key last < key x) :
    place key x init = (place key x (init ++ [last])).take (init.length + 1) ↔ ∀ y ∈ init, key y ≠ key x := by
  have hinit : Strict key init := hs.sublist (List.sublist_append_left _ _)
  rw [place_concat h]
  constructor
  · intro heq
    by_contra hknown
    push Not at hknown
    have hlength := place_length_of_known hinit hknown
    have hall : (place key x init ++ [last]).length ≤ init.length + 1 := by
      simp [hlength]
    rw [List.take_of_length_le hall] at heq
    have hlonger := congrArg List.length heq
    rw [List.length_append, List.length_singleton] at hlonger
    omega
  · intro hnew
    exact (List.take_left' (place_length_of_new hnew)).symm

theorem place_full_worse (hs : Strict key (init ++ [last])) (h : key x ≤ key last) :
    init ++ [last] = (place key x (init ++ [last])).take (init.length + 1) ↔ key last ≠ key x ∨ last = x := by
  have hahead : ∀ y ∈ init, key x < key y := fun y hy =>
    h.trans_lt ((List.pairwise_append.mp hs).2.2 y hy last List.mem_cons_self)
  have hnew : ∀ y ∈ init, key y ≠ key x := fun y hy => (hahead y hy).ne'
  by_cases hsame : key last = key x
  · have hplace : place key x (init ++ [last]) = init ++ [x] := by
      rw [place_eq hs, replaceOrInsert, if_pos ⟨last, List.mem_append_right _ List.mem_cons_self, hsame⟩,
        List.map_append, map_of_no_key hnew, List.map_singleton, if_pos hsame]
    rw [hplace, List.take_of_length_le (by simp), List.append_cancel_left_eq]
    simp [hsame]
  · have hlt : key x < key last := lt_of_le_of_ne h (Ne.symm hsame)
    have hplace : place key x (init ++ [last]) = init ++ [last] ++ [x] := by
      apply place_behind
      rw [List.forall_mem_append, List.forall_mem_singleton]
      exact ⟨hahead, hlt⟩
    rw [hplace, List.take_left' (by simp)]
    exact iff_of_true rfl (.inl hsame)

end Full

/-- The bounded insertion keeps the best `n` of the result, unless a full list has the key already: then it loses its
last entry to a replacement, or the replacement of that entry itself. -/
theorem bounded_eq_take_iff (hs : Strict key l) (hn : 0 < n) (hl : l.length ≤ n) :
    bounded key n x l = (replaceOrInsert key x l).take n ↔
      l.length < n ∨ (∀ y ∈ l, key y ≠ key x) ∨ l.getLast? = some x := by
  rw [← place_eq hs]
  unfold bounded
  obtain hroom | hfull := Nat.lt_or_ge l.length n
  · have hfit : (place key x l).length ≤ n := (place_length_le hs).trans hroom
    rw [if_pos hroom, List.take_of_length_le hfit]
    exact iff_of_true rfl (.inl hroom)
  · have hpos : 0 < l.length := Nat.lt_of_lt_of_le hn hfull
    obtain ⟨init, last, rfl⟩ := (List.eq_nil_or_concat' l).resolve_left (List.ne_nil_of_length_pos hpos)
    obtain rfl : init.length + 1 = n := by
      rw [List.length_append, List.length_singleton] at hl hfull
      omega
    have hlast : (init ++ [last]).length = init.length + 1 := by simp
    rw [if_neg (Nat.not_lt.mpr hfull), List.getLast?_concat, List.dropLast_concat, List.forall_mem_append,
      List.forall_mem_singleton, hlast]
    simp only [Nat.lt_irrefl, false_or, Option.some.injEq]
    split_ifs with hbetter
    · rw [place_full_better hs hbetter]
      have hne : last ≠ x := fun heq => hbetter.ne (congrArg key heq)
      simp [hbetter.ne, hne]
    · have hle : key x ≤ key last := not_lt.mp hbetter
      have hnew : ∀ y ∈ init, key y ≠ key x := fun y hy =>
        (hle.trans_lt ((List.pairwise_append.mp hs).2.2 y hy last List.mem_cons_self)).ne'
      rw [place_full_worse hs hle, and_iff_right hnew]

end Klett.Lib.Ranked

import Mathlib.Algebra.Order.BigOperators.Group.List
import Mathlib.Data.List.Induction
import Mathlib.Data.List.MinMax

namespace Klett.Lib

section Best

variable {α Q : Type*} [LinearOrder α]

/-- The greatest key so far, with the sum of the values that came under it. -/
def improve [Add Q] (best : Option (α × Q)) (x : α × Q) : Option (α × Q) :=
  match best with
  | none => some x
  | some b => if b.1 < x.1 then some x else if x.1 = b.1 then some (b.1, b.2 + x.2) else some b

def best [Add Q] (l : List (α × Q)) : Option (α × Q) := l.foldl improve none

variable [AddCommMonoid Q] {l l' r : List (α × Q)} {b b' x : α × Q}

def sumAt (k : α) (l : List (α × Q)) : Q := ((l.filter fun x => x.1 = k).map Prod.snd).sum

structure IsBest (l : List (α × Q)) (b : α × Q) : Prop where
  attained : ∃ x ∈ l, x.1 = b.1
  bound : ∀ x ∈ l, x.1 ≤ b.1
  total : b.2 = sumAt b.1 l

theorem sumAt_append (k : α) : sumAt k (l ++ r) = sumAt k l + sumAt k r := by
  simp [sumAt]

theorem sumAt_of_absent {k : α} (h : ∀ x ∈ l, x.1 ≠ k) : sumAt k l = 0 := by
  have hnone : l.filter (fun x => x.1 = k) = [] := List.filter_eq_nil_iff.mpr fun x hx => by simpa using h x hx
  rw [sumAt, hnone, List.map_nil, List.sum_nil]

theorem best_concat (l : List (α × Q)) (x : α × Q) : best (l ++ [x]) = improve (best l) x := by
  simp [best]

theorem IsBest.concat (h : IsBest l b) (x : α × Q) : ∃ b', improve (some b) x = some b' ∧ IsBest (l ++ [x]) b' := by
  have hsingle (k : α) : sumAt k [x] = if x.1 = k then x.2 else 0 := by
    by_cases hk : x.1 = k <;> simp [sumAt, hk]
  rw [improve]
  split_ifs with hlt heq
  · refine ⟨x, rfl, ⟨x, by simp, rfl⟩, fun y hy => ?_, ?_⟩
    · rcases List.mem_append.mp hy with hy | hy
      · exact (h.bound y hy).trans hlt.le
      · rw [List.mem_singleton.mp hy]
    · rw [sumAt_append, sumAt_of_absent fun y hy => ((h.bound y hy).trans_lt hlt).ne, hsingle, if_pos rfl, zero_add]
  · obtain ⟨y, hy, hyb⟩ := h.attained
    refine ⟨_, rfl, ⟨y, List.mem_append_left _ hy, hyb⟩, fun z hz => ?_, ?_⟩
    · rcases List.mem_append.mp hz with hz | hz
      · exact h.bound z hz
      · rw [List.mem_singleton.mp hz, heq]
    · rw [sumAt_append, hsingle, if_pos heq, ← h.total]
  · obtain ⟨y, hy, hyb⟩ := h.attained
    refine ⟨b, rfl, ⟨y, List.mem_append_left _ hy, hyb⟩, fun z hz => ?_, ?_⟩
    · rcases List.mem_append.mp hz with hz | hz
      · exact h.bound z hz
      · rw [List.mem_singleton.mp hz]
        exact not_lt.mp hlt
    · rw [sumAt_append, hsingle, if_neg heq, add_zero, ← h.total]

theorem best_cases (l : List (α × Q)) : l = [] ∧ best l = none ∨ ∃ b, best l = some b ∧ IsBest l b := by
  induction l using List.reverseRecOn with
  | nil => exact .inl ⟨rfl, rfl⟩
  | append_singleton l x ih =>
    right
    rw [best_concat]
    obtain ⟨rfl, hnone⟩ | ⟨b, hb, hbest⟩ := ih
    · rw [hnone]
      refine ⟨x, rfl, ⟨x, by simp, rfl⟩, by simp, ?_⟩
      simp [sumAt]
    · rw [hb]
      exact hbest.concat x

theorem IsBest.unique (h : IsBest l b) (h' : IsBest l b') : b = b' := by
  obtain ⟨x, hx, hxb⟩ := h.attained
  obtain ⟨y, hy, hyb⟩ := h'.attained
  have hkey : b.1 = b'.1 :=
    le_antisymm (hxb ▸ h'.bound x hx) (hyb ▸ h.bound y hy)
  exact Prod.ext hkey (by rw [h.total, h'.total, hkey])

theorem best_eq_some : best l = some b ↔ IsBest l b := by
  obtain ⟨rfl, hnone⟩ | ⟨b', hb', hbest⟩ := best_cases l
  · rw [hnone]
    constructor
    · intro h
      cases h
    · intro h
      obtain ⟨x, hx, -⟩ := h.attained
      cases hx
  · rw [hb', Option.some.injEq]
    constructor
    · rintro rfl
      exact hbest
    · exact fun h => hbest.unique h

theorem best_eq_none : best l = none ↔ l = [] := by
  obtain ⟨rfl, hnone⟩ | ⟨b, hb, hbest⟩ := best_cases l
  · simp [hnone]
  · obtain ⟨x, hx, -⟩ := hbest.attained
    simp [hb, List.ne_nil_of_mem hx]

theorem best_perm (h : l.Perm l') : best l = best l' := by
  obtain ⟨rfl, hnone⟩ | ⟨b, hb, hbest⟩ := best_cases l
  · rw [h.nil_eq]
  · obtain ⟨x, hx, hxb⟩ := hbest.attained
    refine hb.trans (best_eq_some.mpr ⟨⟨x, h.mem_iff.mp hx, hxb⟩, fun y hy => hbest.bound y (h.mem_iff.mpr hy),
      hbest.total.trans ?_⟩).symm
    exact ((h.filter _).map _).sum_eq

end Best

section Positive

variable {α Q : Type*} [LinearOrder α] [AddCommGroup Q] [LinearOrder Q] [IsOrderedAddMonoid Q]
  {l r : List (α × Q)}

theorem sumAt_pos (hpos : ∀ x ∈ l, 0 < x.2) {x : α × Q} (hx : x ∈ l) : 0 < sumAt x.1 l := by
  have hmem : x.2 ∈ (l.filter fun y => y.1 = x.1).map Prod.snd :=
    List.mem_map.mpr ⟨x, List.mem_filter.mpr ⟨hx, by simp⟩, rfl⟩
  refine (hpos x hx).trans_le (List.single_le_sum (fun q hq => ?_) _ hmem)
  obtain ⟨y, hy, rfl⟩ := List.mem_map.mp hq
  exact (hpos y (List.mem_of_mem_filter hy)).le

theorem best_append_iff (hpos : ∀ x ∈ r, 0 < x.2) :
    best (l ++ r) = best l ↔ ∀ x ∈ r, ∃ y ∈ l, x.1 < y.1 := by
  constructor
  · intro h x hx
    obtain ⟨rfl, hnone⟩ | ⟨b, hb, hbest⟩ := best_cases l
    · rw [hnone, best_eq_none] at h
      rw [List.nil_append] at h
      rw [h] at hx
      cases hx
    · rw [hb, best_eq_some] at h
      obtain ⟨y, hy, hyb⟩ := hbest.attained
      refine ⟨y, hy, lt_of_le_of_ne ?_ fun heq => ?_⟩
      · rw [hyb]
        exact h.bound x (List.mem_append_right _ hx)
      · have htotal := h.total
        rw [sumAt_append, ← hbest.total, ← hyb, ← heq, left_eq_add] at htotal
        exact (sumAt_pos hpos hx).ne' htotal
  · intro h
    obtain ⟨rfl, hnone⟩ | ⟨b, hb, hbest⟩ := best_cases l
    · have hr : r = [] := List.eq_nil_iff_forall_not_mem.mpr fun x hx => by
        obtain ⟨y, hy, -⟩ := h x hx
        cases hy
      rw [hr, List.append_nil]
    · rw [hb, best_eq_some]
      obtain ⟨y, hy, hyb⟩ := hbest.attained
      have hbeaten : ∀ x ∈ r, x.1 < b.1 := fun x hx => by
        obtain ⟨z, hz, hlt⟩ := h x hx
        exact hlt.trans_le (hbest.bound z hz)
      refine ⟨⟨y, List.mem_append_left _ hy, hyb⟩, fun x hx => ?_, ?_⟩
      · rcases List.mem_append.mp hx with hx | hx
        · exact hbest.bound x hx
        · exact (hbeaten x hx).le
      · rw [sumAt_append, sumAt_of_absent fun x hx => (hbeaten x hx).ne, add_zero, ← hbest.total]

end Positive

section Lists

variable {β γ : Type*}

theorem flatMap_perm_heads (f : β → List γ) (l : List β) :
    (l.flatMap f).Perm ((l.filterMap fun v => (f v).head?) ++ l.flatMap fun v => (f v).tail) := by
  induction l with
  | nil => exact .refl _
  | cons v l ih =>
    rw [List.flatMap_cons, List.flatMap_cons, List.filterMap_cons]
    cases f v with
    | nil => simpa using ih
    | cons x t =>
      simp only [List.head?_cons, List.tail_cons, List.cons_append]
      refine .cons x ?_
      calc (t ++ l.flatMap f).Perm (t ++ (_ ++ _)) := ih.append_left t
        _ = (t ++ _) ++ _ := (List.append_assoc _ _ _).symm
        List.Perm _ ((_ ++ t) ++ _) := List.perm_append_comm.append_right _
        _ = _ := List.append_assoc _ _ _

theorem filterMap_perm_split (f g : β → Option γ) (h : ∀ v x, g v = some x → f v = some x) (l : List β) :
    (l.filterMap f).Perm (l.filterMap g ++ l.filterMap fun v => if (g v).isSome then none else f v) := by
  induction l with
  | nil => exact .refl _
  | cons v l ih =>
    rw [List.filterMap_cons, List.filterMap_cons, List.filterMap_cons]
    cases hg : g v with
    | some x =>
      rw [h v x hg]
      simpa using ih
    | none =>
      cases f v with
      | none => simpa using ih
      | some x =>
        simp only [Option.isSome_none, Bool.false_eq_true, ↓reduceIte]
        exact (ih.cons x).trans List.perm_middle.symm

end Lists

section Survivor

variable {α : Type*} (r : α → α → Prop) [DecidableRel r]

/-- Who is left when every newcomer challenges the one left so far, and takes its place when it beats it. -/
def survivor (l : List α) : Option α := l.foldl (List.argAux r) none

variable {r} {l : List α} {m x : α}

theorem survivor_concat (l : List α) (x : α) : survivor r (l ++ [x]) = List.argAux r (survivor r l) x :=
  List.foldl_concat _ _ _ _

theorem survivor_eq_none : survivor r l = none ↔ l = [] := by
  simp [survivor]

theorem mem_survivor_concat : m ∈ survivor r (l ++ [x]) ↔
    m = x ∧ (∀ b ∈ survivor r l, r x b) ∨ m ∈ survivor r l ∧ ¬r x m := by
  rw [survivor_concat, List.argAux]
  cases survivor r l with
  | none => simp [eq_comm]
  | some b =>
    by_cases h : r x b
    · simp only [h, ↓reduceIte, Option.mem_def, Option.some.injEq, forall_eq', and_true]
      constructor
      · rintro rfl
        exact .inl rfl
      · rintro (rfl | ⟨rfl, hnot⟩)
        · rfl
        · exact absurd h hnot
    · simp only [h, ↓reduceIte, Option.mem_def, Option.some.injEq, forall_eq', and_false, false_or]
      constructor
      · rintro rfl
        exact ⟨rfl, h⟩
      · exact fun hm => hm.1

/-- The survivor takes its place when it comes, and nobody who comes later beats it. -/
theorem mem_survivor : m ∈ survivor r l ↔
    ∃ pre post, l = pre ++ m :: post ∧ (∀ b ∈ survivor r pre, r m b) ∧ ∀ x ∈ post, ¬r x m := by
  induction l using List.reverseRecOn with
  | nil => simp [survivor]
  | append_singleton l x ih =>
    rw [mem_survivor_concat, ih]
    constructor
    · rintro (⟨rfl, hbeats⟩ | ⟨⟨pre, post, rfl, hbeats, hlater⟩, hnot⟩)
      · exact ⟨l, [], rfl, hbeats, List.forall_mem_nil _⟩
      · refine ⟨pre, post ++ [x], by simp, hbeats, fun y hy => ?_⟩
        obtain hy | hy := List.mem_append.mp hy
        · exact hlater y hy
        · rw [List.mem_singleton.mp hy]
          exact hnot
    · rintro ⟨pre, post, heq, hbeats, hlater⟩
      induction post using List.reverseRecOn with
      | nil =>
        obtain ⟨rfl, hx⟩ := List.append_inj' heq rfl
        obtain rfl : x = m := by simpa using hx
        exact .inl ⟨rfl, hbeats⟩
      | append_singleton post y _ =>
        rw [← List.cons_append, ← List.append_assoc] at heq
        obtain ⟨hl, hy⟩ := List.append_inj' heq rfl
        obtain rfl : x = y := by simpa using hy
        exact .inr ⟨⟨pre, post, hl, hbeats, fun z hz => hlater z (List.mem_append_left _ hz)⟩, hlater x (by simp)⟩

theorem survivor_mem (h : m ∈ survivor r l) : m ∈ l := by
  obtain ⟨pre, post, rfl, -, -⟩ := mem_survivor.mp h
  exact List.mem_append_right _ List.mem_cons_self

theorem survivor_congr {r' : α → α → Prop} [DecidableRel r'] (h : ∀ x ∈ l, ∀ y ∈ l, r x y ↔ r' x y) :
    survivor r l = survivor r' l := by
  induction l using List.reverseRecOn with
  | nil => rfl
  | append_singleton l x ih =>
    have hsame : survivor r l = survivor r' l :=
      ih fun a ha b hb => h a (List.mem_append_left _ ha) b (List.mem_append_left _ hb)
    rw [survivor_concat, survivor_concat, ← hsame]
    cases hs : survivor r l with
    | none => rfl
    | some b =>
      have hiff := h x (by simp) b (List.mem_append_left _ (survivor_mem hs))
      simp only [List.argAux, hiff]

/-- Where whoever beats somebody also beats all whom that one cannot be beaten by, the survivor is the first
that nobody beats. -/
theorem mem_survivor_first (hirrefl : ∀ a, ¬r a a) (htrans : ∀ a b c, r a b → r b c → r a c)
    (hweak : ∀ a b c, r a b → ¬r c b → r a c) : m ∈ survivor r l ↔
    ∃ pre post, l = pre ++ m :: post ∧ (∀ x ∈ pre, r m x) ∧ ∀ x ∈ post, ¬r x m := by
  rw [mem_survivor]
  refine exists₂_congr fun pre post => and_congr_right fun _ => and_congr_left fun _ => ?_
  constructor
  · intro h x hx
    have hsome : survivor r pre ≠ none := fun hnone => List.ne_nil_of_mem hx (survivor_eq_none.mp hnone)
    obtain ⟨b, hb⟩ := Option.ne_none_iff_exists'.mp hsome
    exact hweak m b x (h b hb) (List.not_of_mem_foldl_argAux r ⟨hirrefl⟩ ⟨htrans⟩ hx hb)
  · exact fun h b hb => h b (survivor_mem hb)

/-- The leads that follow one another: whoever comes up takes the lead when it beats the one who has it. -/
inductive Succession (r : α → α → Prop) : α → List α → α → Prop
  | done (c : α) : Succession r c [] c
  | stays {c x m : α} {l : List α} (hx : ¬r x c) (h : Succession r c l m) : Succession r c (x :: l) m
  | takes {c x m : α} {l : List α} (hx : r x c) (h : Succession r x l m) : Succession r c (x :: l) m

theorem mem_survivor_cons {c : α} : m ∈ survivor r (c :: l) ↔ Succession r c l m := by
  change m ∈ l.foldl (List.argAux r) (some c) ↔ _
  induction l generalizing c with
  | nil =>
    constructor
    · rintro ⟨⟩
      exact .done _
    · rintro ⟨⟩
      rfl
  | cons x l ih =>
    rw [List.foldl_cons]
    by_cases hx : r x c
    · have hstep : List.argAux r (some c) x = some x := if_pos hx
      rw [hstep, ih]
      constructor
      · exact .takes hx
      · rintro (_ | ⟨hnot, -⟩ | ⟨-, h⟩)
        · exact absurd hx hnot
        · exact h
    · have hstep : List.argAux r (some c) x = some c := if_neg hx
      rw [hstep, ih]
      constructor
      · exact .stays hx
      · rintro (_ | ⟨-, h⟩ | ⟨hbeats, -⟩)
        · exact h
        · exact absurd hbeats hx

end Survivor

end Klett.Lib

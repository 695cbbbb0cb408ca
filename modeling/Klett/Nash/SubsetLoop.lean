import Klett.Nash.Subsets
import Mathlib.Data.Finset.Powerset
import Mathlib.Data.Finset.Sort

namespace Klett.Nash.SubsetLoop

open Klett.Lib

section Model

def set (S : List ℕ) (i v : ℕ) : List ℕ := S.set i v

def get (S : List ℕ) (i : ℕ) : ℕ := S[i]?.getD 0

/-- The loop `while (i-- > 0)`: the test sees the number above, the body the number below. -/
def rightmost (S : List ℕ) (n : ℕ) : ℕ → Option ℕ
  | 0 => none
  | i + 1 => if get S i < n - S.length + i then some i else rightmost S n i

def refill (S : List ℕ) (i : ℕ) : List ℕ :=
  (List.range' (i + 1) (S.length - (i + 1))).foldl (fun S j => set S j (get S (j - 1) + 1)) S

/-- What `next_subset` returns, and what it leaves in `S`. -/
def nextSubset (S : List ℕ) (n : ℕ) : Bool × List ℕ :=
  if S.length = 0 then (false, S)
  else
    match rightmost S n S.length with
    | some i => (true, refill (set S i (get S i + 1)) i)
    | none => (false, S)

def firstSubset (k : ℕ) : List ℕ := List.range k

/-- The loop `do … while (next_subset(S, n))`: the subsets it visits, unless the fuel runs out. -/
def visits (n : ℕ) : ℕ → List ℕ → Option (List (List ℕ))
  | 0, _ => none
  | fuel + 1, S =>
    match nextSubset S n with
    | (true, next) => (visits n fuel next).map (S :: ·)
    | (false, _) => some [S]

end Model

section Vectors

variable {S : List ℕ} {i j v : ℕ}

@[simp] theorem set_length : (set S i v).length = S.length := List.length_set

theorem get_set (hi : i < S.length) : get (set S i v) j = if j = i then v else get S j := by
  unfold get set
  rw [List.getElem?_set]
  split_ifs with hij hji hji
  · rfl
  · exact absurd hij.symm hji
  · exact absurd hji.symm hij
  · rfl

theorem ext_get {T : List ℕ} (hlength : S.length = T.length) (h : ∀ j < S.length, get S j = get T j) : S = T := by
  apply List.ext_getElem hlength
  intro j hS hT
  have hget := h j hS
  unfold get at hget
  rwa [List.getElem?_eq_getElem hS, List.getElem?_eq_getElem hT] at hget

theorem refill_turns (c : ℕ) (hc : i + c < S.length) :
    let T := (List.range' (i + 1) c).foldl (fun S j => set S j (get S (j - 1) + 1)) S
    T.length = S.length ∧ ∀ j, get T j = if i < j ∧ j ≤ i + c then get S i + (j - i) else get S j := by
  induction c with
  | zero =>
    refine ⟨rfl, fun j => ?_⟩
    rw [if_neg (by omega)]
    rfl
  | succ c ih =>
    obtain ⟨hlength, hget⟩ := ih (by omega)
    rw [List.range'_1_concat, List.foldl_append]
    generalize (List.range' (i + 1) c).foldl (fun S j => set S j (get S (j - 1) + 1)) S = T at hlength hget
    have hplace : i + 1 + c < T.length := by omega
    have hlast : get T (i + 1 + c - 1) = get S i + c := by
      rw [hget]
      obtain rfl | hpos := Nat.eq_zero_or_pos c
      · rw [if_neg (by omega)]
        rfl
      · rw [if_pos (by omega)]
        omega
    refine ⟨set_length.trans hlength, fun j => ?_⟩
    change get (set T (i + 1 + c) (get T (i + 1 + c - 1) + 1)) j = _
    rw [get_set hplace, hlast, hget]
    split_ifs <;> omega

theorem refill_length (hi : i < S.length) : (refill S i).length = S.length :=
  (refill_turns (S.length - (i + 1)) (by omega)).1

theorem get_refill (hi : i < S.length) (hj : j < S.length) :
    get (refill S i) j = if i < j then get S i + (j - i) else get S j := by
  have hturns := (refill_turns (S := S) (i := i) (S.length - (i + 1)) (by omega)).2 j
  unfold refill
  rw [hturns]
  exact if_congr (by omega) rfl rfl

theorem rightmost_eq_some {n m : ℕ} (hi : i < m) (hroom : get S i < n - S.length + i)
    (hlast : ∀ j, i < j → j < m → ¬get S j < n - S.length + j) : rightmost S n m = some i := by
  induction m with
  | zero => omega
  | succ m ih =>
    unfold rightmost
    obtain rfl | hlt := Nat.eq_or_lt_of_le (Nat.le_of_lt_succ hi)
    · rw [if_pos hroom]
    · rw [if_neg (hlast m hlt m.lt_succ_self)]
      exact ih hlt fun j hij hj => hlast j hij (hj.trans m.lt_succ_self)

theorem rightmost_eq_none {n m : ℕ} (hfull : ∀ j < m, ¬get S j < n - S.length + j) : rightmost S n m = none := by
  induction m with
  | zero => rfl
  | succ m ih =>
    unfold rightmost
    rw [if_neg (hfull m m.lt_succ_self)]
    exact ih fun j hj => hfull j (hj.trans m.lt_succ_self)

end Vectors

section Refinement

variable {k n : ℕ} {S T : Support k n}

/-- The vector of the code that holds a subset. -/
def members (S : Support k n) : List ℕ := List.ofFn fun i => (S i).val

@[simp] theorem members_length : (members S).length = k := List.length_ofFn

theorem get_members (i : Fin k) : get (members S) i = S i := by
  unfold get members
  rw [List.getElem?_ofFn, dif_pos i.isLt]
  rfl

theorem members_firstSubset (h : k ≤ n) : firstSubset k = members (Nash.firstSubset h) := by
  apply ext_get
  · rw [members_length]
    exact List.length_range
  · intro j hj
    have hjk : j < k := by rwa [firstSubset, List.length_range] at hj
    rw [get_members ⟨j, hjk⟩, get, firstSubset, List.getElem?_range hjk]
    rfl

theorem members_increment (i : Fin k) (h : (S i).val < n - k + i) :
    refill (set (members S) i (get (members S) i + 1)) i = members (S.increment i h) := by
  have hi : i.val < (members S).length := by
    rw [members_length]
    exact i.isLt
  have hset : i.val < (set (members S) i (get (members S) i + 1)).length := by
    rw [set_length]
    exact hi
  apply ext_get
  · rw [refill_length hset, set_length, members_length, members_length]
  · intro j hj
    rw [refill_length hset, set_length, members_length] at hj
    have hj' : j < (set (members S) i (get (members S) i + 1)).length := by
      rw [set_length, members_length]
      exact hj
    rw [get_refill hset hj', get_set hi, get_set hi, if_pos rfl, get_members,
      get_members (S := S.increment i h) ⟨j, hj⟩, get_members (S := S) ⟨j, hj⟩, Support.increment_apply]
    simp only [Fin.lt_def]
    split_ifs <;> omega

theorem nextSubset_members : SubsetLoop.nextSubset (members S) n =
    match Nash.nextSubset S with
    | some T => (true, members T)
    | none => (false, members S) := by
  unfold nextSubset
  rw [members_length]
  split_ifs with hk
  · cases h : Nash.nextSubset S with
    | none => rfl
    | some T =>
      obtain ⟨i, -⟩ := nextSubset_some h
      exact absurd i.isLt (by omega)
  · cases h : Nash.nextSubset S with
    | none =>
      rw [rightmost_eq_none]
      intro j hj
      rw [get_members ⟨j, hj⟩, members_length]
      exact nextSubset_none h ⟨j, hj⟩
    | some T =>
      obtain ⟨i, hi, rfl, hlast⟩ := nextSubset_some h
      have hfound : rightmost (members S) n k = some i.val := by
        apply rightmost_eq_some i.isLt
        · rw [get_members, members_length]
          exact hi
        · intro j hij hj
          rw [get_members ⟨j, hj⟩, members_length]
          exact hlast ⟨j, hj⟩ hij
      rw [hfound]
      simp only [members_increment i hi]

theorem visits_members (S : Support k n) {fuel : ℕ}
    (hfuel : (following Nash.nextSubset Support.Precedes nextSubset_rises S).length ≤ fuel) :
    visits n fuel (members S) =
      some ((following Nash.nextSubset Support.Precedes nextSubset_rises S).map members) := by
  induction S using following_induction nextSubset_rises generalizing fuel with
  | last S h =>
    rw [following_of_none h] at hfuel ⊢
    obtain ⟨fuel, rfl⟩ := Nat.exists_eq_add_of_le' hfuel
    rw [List.length_singleton, visits, nextSubset_members, h]
    rfl
  | more S T h ih =>
    rw [following_of_some h] at hfuel ⊢
    rw [List.length_cons] at hfuel
    obtain ⟨fuel, rfl⟩ := Nat.exists_eq_add_of_le' (Nat.le_trans (Nat.le_add_left 1 _) hfuel)
    rw [visits, nextSubset_members, h]
    simp only
    rw [ih (Nat.le_of_succ_le_succ hfuel)]
    rfl

theorem members_lt (h : S.Precedes T) : members S < members T := by
  obtain ⟨i, hsame, hlt⟩ := Support.precedes_iff.mp h
  rw [List.lt_iff_exists]
  refine .inr ⟨i, by simp, by simp, fun j hj => ?_, ?_⟩
  · have hjk : j < k := hj.trans i.isLt
    simp only [members, List.getElem_ofFn]
    rw [hsame ⟨j, hjk⟩ hj]
  · simp only [members, List.getElem_ofFn]
    exact Fin.lt_def.mp hlt

theorem members_pairwise (S : Support k n) : (members S).Pairwise (· < ·) := by
  unfold members
  rw [List.pairwise_ofFn]
  intro i j hij
  exact Fin.lt_def.mp (S.strictMono hij)

theorem mem_members {x : ℕ} : x ∈ members S ↔ ∃ i, (S i).val = x := by
  unfold members
  rw [List.mem_ofFn]

theorem toFinset_injective : Function.Injective fun S : Support k n => (members S).toFinset := by
  intro S T h
  have hS : StrictMono fun i => (S i).val := fun i j hij => Fin.lt_def.mp (S.strictMono hij)
  have hT : StrictMono fun i => (T i).val := fun i j hij => Fin.lt_def.mp (T.strictMono hij)
  have hrange : Set.range (fun i => (S i).val) = Set.range fun i => (T i).val := by
    ext x
    have hmem := Finset.ext_iff.mp h x
    rwa [List.mem_toFinset, List.mem_toFinset, mem_members, mem_members] at hmem
  apply RelEmbedding.ext
  intro i
  exact Fin.ext (congrFun ((hS.range_inj hT).mp hrange) i)

theorem exists_members {s : Finset ℕ} :
    (∃ S : Support k n, (members S).toFinset = s) ↔ s ∈ (Finset.range n).powersetCard k := by
  rw [Finset.mem_powersetCard]
  constructor
  · rintro ⟨S, rfl⟩
    constructor
    · intro x hx
      obtain ⟨i, rfl⟩ := mem_members.mp (List.mem_toFinset.mp hx)
      exact Finset.mem_range.mpr (S i).isLt
    · rw [List.toFinset_card_of_nodup ((members_pairwise S).imp fun h => h.ne), members_length]
  · rintro ⟨hsub, hcard⟩
    have hlt : ∀ i, s.orderEmbOfFin hcard i < n := by
      intro i
      exact Finset.mem_range.mp (hsub (s.orderEmbOfFin_mem hcard i))
    refine ⟨OrderEmbedding.ofStrictMono (fun i => ⟨s.orderEmbOfFin hcard i, hlt i⟩) fun i j hij => ?_, ?_⟩
    · exact Fin.lt_def.mpr ((s.orderEmbOfFin hcard).strictMono hij)
    · ext x
      rw [List.mem_toFinset, mem_members]
      exact Set.ext_iff.mp (s.range_orderEmbOfFin hcard) x

end Refinement

section Results

variable {k n : ℕ}

/-- The subsets are counted as sets: each comes once, and nothing else comes. -/
theorem visits_firstSubset (hn : k ≤ n) :
    ∃ visited, (∀ fuel, n.choose k ≤ fuel → visits n fuel (firstSubset k) = some visited) ∧
      (∀ S ∈ visited, S.length = k ∧ S.Pairwise (· < ·) ∧ ∀ x ∈ S, x < n) ∧ visited.Pairwise (· < ·) ∧
        ∀ s : Finset ℕ, (visited.map List.toFinset).count s = if s ⊆ Finset.range n ∧ s.card = k then 1 else 0 := by
  have hsets : ((subsets k n).map fun S => (members S).toFinset).Nodup := subsets_nodup.map toFinset_injective
  have hmem : ∀ s, s ∈ ((subsets k n).map fun S => (members S).toFinset) ↔ s ∈ (Finset.range n).powersetCard k := by
    intro s
    rw [← exists_members, List.mem_map]
    exact ⟨fun ⟨S, _, hS⟩ => ⟨S, hS⟩, fun ⟨S, hS⟩ => ⟨S, mem_subsets S, hS⟩⟩
  have hlength : (subsets k n).length = n.choose k := by
    have hcard := List.toFinset_card_of_nodup hsets
    have hall : ((subsets k n).map fun S => (members S).toFinset).toFinset = (Finset.range n).powersetCard k := by
      ext s
      rw [List.mem_toFinset, hmem]
    rw [hall, Finset.card_powersetCard, Finset.card_range, List.length_map] at hcard
    exact hcard.symm
  refine ⟨(subsets k n).map members, ?_, ?_, ?_, ?_⟩
  · intro fuel hfuel
    rw [← hlength] at hfuel
    unfold subsets at hfuel ⊢
    rw [dif_pos hn] at hfuel ⊢
    rw [members_firstSubset hn]
    exact visits_members _ hfuel
  · rw [List.forall_mem_map]
    intro S _
    refine ⟨members_length, members_pairwise S, fun x hx => ?_⟩
    obtain ⟨i, rfl⟩ := mem_members.mp hx
    exact (S i).isLt
  · rw [List.pairwise_map]
    exact subsets_pairwise.imp members_lt
  · intro s
    rw [List.map_map]
    refine hsets.count.trans (if_congr ?_ rfl rfl)
    rw [hmem, Finset.mem_powersetCard]

theorem visits_three_of_five : 3 ≤ 5 ∧
    ∃ visited, (∀ fuel, Nat.choose 5 3 ≤ fuel → visits 5 fuel (firstSubset 3) = some visited) ∧
      (∀ S ∈ visited, S.length = 3 ∧ S.Pairwise (· < ·) ∧ ∀ x ∈ S, x < 5) ∧ visited.Pairwise (· < ·) ∧
        ∀ s : Finset ℕ, (visited.map List.toFinset).count s = if s ⊆ Finset.range 5 ∧ s.card = 3 then 1 else 0 :=
  ⟨by decide, visits_firstSubset (by decide)⟩

end Results

end Klett.Nash.SubsetLoop

import Klett.Lib.Ranked
import Klett.Sor.Nbbo

namespace Klett.Sor

open Klett.Lib MarketDataAggregator

namespace BookSide

section Updates

def ahead (isBid : Bool) (p q : ℤ) : Prop := if isBid then p > q else p < q

instance (isBid : Bool) (p q : ℤ) : Decidable (ahead isBid p q) := inferInstanceAs (Decidable (if isBid then _ else _))

/-- From the search for the insertion point on. There is room: a full side has given up its worst level. -/
def place (isBid : Bool) (level : PriceLevel) : List PriceLevel → List PriceLevel
  | [] => [level]
  | lvl :: levels =>
    if ahead isBid lvl.price level.price then lvl :: place isBid level levels
    else if lvl.price = level.price then level :: levels
    else level :: lvl :: levels

theorem place_length (isBid : Bool) (level : PriceLevel) (levels : List PriceLevel) :
    (place isBid level levels).length ≤ levels.length + 1 := by
  induction levels with
  | nil => exact le_rfl
  | cons lvl levels ih =>
    unfold place
    split_ifs
    · exact Nat.succ_le_succ ih
    · exact Nat.le_succ _
    · exact le_rfl

variable (s : BookSide)

def worst : PriceLevel := s.levels.getLastD {}

def insertSorted (level : PriceLevel) (isBid : Bool) : BookSide :=
  if h : s.levels.length ≥ maxDepth then
    if ¬ahead isBid level.price s.worst.price then s
    else
      { levels := place isBid level s.levels.dropLast
        fits := by
          have hplaced := place_length isBid level s.levels.dropLast
          have hfits := s.fits
          have hdepth : maxDepth = 20 := rfl
          rw [List.length_dropLast] at hplaced
          omega }
  else
    { levels := place isBid level s.levels
      fits := (place_length isBid level s.levels).trans (Nat.lt_of_not_le h) }

def remove (price : ℤ) : BookSide :=
  ⟨s.levels.eraseP fun lvl => lvl.price = price, (List.length_eraseP_le).trans s.fits⟩

def update (price qty : ℤ) : BookSide :=
  match s.levels.findIdx? fun lvl => lvl.price = price with
  | some i =>
    if qty > 0 then
      ⟨s.levels.modify i fun lvl => { lvl with quantity := qty }, (List.length_modify _ _ _).trans_le s.fits⟩
    else s.remove price
  | none =>
    if qty > 0 then
      match s.levels with
      | first :: second :: _ => s.insertSorted ⟨price, qty⟩ (first.price > second.price)
      -- one level tells no direction, and the comparison holds of every new price
      | [first] => s.insertSorted ⟨price, qty⟩ (price > first.price ∨ first.price > price)
      | [] => ⟨[⟨price, qty⟩], Nat.le_of_ble_eq_true rfl⟩
    else s

end Updates

section Directions

variable {side : Side} {s : BookSide} {level : PriceLevel} {levels : List PriceLevel}

theorem ahead_iff (side : Side) (p q : ℤ) : ahead (side = .buy) p q ↔ worth side q < worth side p := by
  unfold ahead worth
  cases side with
  | buy => rfl
  | sell => simp

theorem place_eq_ranked (side : Side) (level : PriceLevel) (levels : List PriceLevel) :
    place (side = .buy) level levels = Ranked.place (fun lvl => worth side lvl.price) level levels := by
  induction levels with
  | nil => rfl
  | cons lvl levels ih =>
    have hprice : lvl.price = level.price ↔ worth side lvl.price = worth side level.price :=
      ⟨congrArg (worth side), fun h => worth_inj side h⟩
    unfold place Ranked.place
    simp only [ahead_iff, hprice, ih]

theorem place_sorted {s' : BookSide} (hs : Sorted side s) (hsub : levels.Sublist s.levels)
    (hpos : 0 < level.quantity) (heq : s'.levels = place (side = .buy) level levels) : Sorted side s' := by
  rw [place_eq_ranked] at heq
  constructor
  · rw [heq]
    exact Ranked.place_strict (hs.strict.sublist hsub)
  · rw [heq]
    intro lvl hlvl
    obtain rfl | hlvl := Ranked.mem_place hlvl
    · exact hpos
    · exact hs.positive lvl (hsub.subset hlvl)

theorem insertSorted_sorted (hs : Sorted side s) (hpos : 0 < level.quantity) :
    Sorted side (s.insertSorted level (side = .buy)) := by
  unfold insertSorted
  split_ifs
  · exact place_sorted hs (List.dropLast_sublist _) hpos rfl
  · exact hs
  · exact place_sorted hs (List.Sublist.refl _) hpos rfl

theorem remove_sorted (hs : Sorted side s) (price : ℤ) : Sorted side (s.remove price) :=
  ⟨hs.strict.sublist List.eraseP_sublist, fun lvl hlvl => hs.positive lvl (List.mem_of_mem_eraseP hlvl)⟩

end Directions

section Runs

structure LevelUpdate where
  price : ℤ
  qty : ℤ

variable {side : Side} {s : BookSide} {u : LevelUpdate} {us : List LevelUpdate} {levels : List PriceLevel}

def next (s : BookSide) (u : LevelUpdate) : BookSide := s.update u.price u.qty

/-- The update does not bring a second level to an ask side that holds one. -/
def TellsDirection (side : Side) (s : BookSide) (u : LevelUpdate) : Prop :=
  side = .sell → 0 < u.qty → ∀ first, s.levels = [first] → first.price = u.price

theorem modify_price (levels : List PriceLevel) (i : ℕ) (qty : ℤ) :
    (levels.modify i fun lvl => { lvl with quantity := qty }).map PriceLevel.price = levels.map PriceLevel.price := by
  apply List.ext_getElem?
  intro n
  rw [List.getElem?_map, List.getElem?_map, List.getElem?_modify]
  cases levels[n]? with
  | none => rfl
  | some lvl => split_ifs <;> rfl

theorem mem_modify {i : ℕ} {qty : ℤ} {lvl : PriceLevel}
    (h : lvl ∈ levels.modify i fun lvl => { lvl with quantity := qty }) : lvl.quantity = qty ∨ lvl ∈ levels := by
  obtain ⟨n, hn, rfl⟩ := List.mem_iff_getElem.mp h
  rw [List.getElem_modify]
  split_ifs
  · exact .inl rfl
  · exact .inr (List.getElem_mem _)

theorem next_found {i : ℕ} (hs : Sorted side s)
    (hfind : s.levels.findIdx? (fun lvl => lvl.price = u.price) = some i) : Sorted side (s.next u) := by
  unfold next update
  rw [hfind]
  simp only
  split_ifs with hpos
  · constructor
    · have hstrict := hs.strict
      rw [← List.pairwise_map (f := PriceLevel.price) (R := fun p q => worth side q < worth side p)] at hstrict ⊢
      rw [modify_price]
      exact hstrict
    · intro lvl hlvl
      obtain hqty | hlvl := mem_modify hlvl
      · rw [hqty]
        exact hpos
      · exact hs.positive lvl hlvl
  · exact remove_sorted hs u.price

theorem next_absent (hnew : ∀ lvl ∈ s.levels, lvl.price ≠ u.price) (hpos : 0 < u.qty) : s.next u =
    match s.levels with
    | first :: second :: _ => s.insertSorted ⟨u.price, u.qty⟩ (first.price > second.price)
    | [first] => s.insertSorted ⟨u.price, u.qty⟩ (u.price > first.price ∨ first.price > u.price)
    | [] => ⟨[⟨u.price, u.qty⟩], Nat.le_of_ble_eq_true rfl⟩ := by
  have hnone : s.levels.findIdx? (fun lvl => lvl.price = u.price) = none :=
    List.findIdx?_eq_none_iff.mpr fun lvl hlvl => decide_eq_false (hnew lvl hlvl)
  unfold next update
  rw [hnone]
  exact if_pos hpos

theorem next_insert (hs : Sorted side s) (hnew : ∀ lvl ∈ s.levels, lvl.price ≠ u.price) (hpos : 0 < u.qty)
    (htells : TellsDirection side s u) : Sorted side (s.next u) := by
  have hinsert : Sorted side (s.insertSorted ⟨u.price, u.qty⟩ (side = .buy)) := insertSorted_sorted hs hpos
  rw [next_absent hnew hpos]
  split
  next first second rest hlevels =>
    have hstrict := hs.strict
    rw [hlevels] at hstrict
    have hlt := (List.pairwise_cons.mp hstrict).1 second List.mem_cons_self
    have hbid : decide (first.price > second.price) = decide (side = .buy) := by
      apply decide_eq_decide.mpr
      cases side with
      | buy => exact iff_of_true hlt rfl
      | sell => exact iff_of_false (not_lt.mpr (neg_lt_neg_iff.mp hlt).le) (by decide)
    rw [hbid]
    exact hinsert
  next first hlevels =>
    have hne : first.price ≠ u.price := hnew first (by simp [hlevels])
    have hbid : decide (u.price > first.price ∨ first.price > u.price) = decide (side = .buy) := by
      apply decide_eq_decide.mpr
      cases side with
      | buy => exact iff_of_true (lt_or_gt_of_ne hne) rfl
      | sell => exact absurd (htells rfl hpos first hlevels) hne
    rw [hbid]
    exact hinsert
  next hlevels => exact ⟨List.pairwise_singleton _ _, List.forall_mem_singleton.mpr hpos⟩

theorem next_sorted (hs : Sorted side s) (htells : TellsDirection side s u) : Sorted side (s.next u) := by
  cases hfind : s.levels.findIdx? fun lvl => lvl.price = u.price with
  | some i => exact next_found hs hfind
  | none =>
    have hnew : ∀ lvl ∈ s.levels, lvl.price ≠ u.price := fun lvl hlvl =>
      of_decide_eq_false (List.findIdx?_eq_none_iff.mp hfind lvl hlvl)
    by_cases hpos : 0 < u.qty
    · exact next_insert hs hnew hpos htells
    · have hsame : s.next u = s := by
        unfold next update
        rw [hfind]
        exact if_neg hpos
      rw [hsame]
      exact hs

/-- A second level of an ask side goes in the way bids go. -/
theorem not_sorted_second (htells : ¬TellsDirection side s u) : ¬Sorted side (s.next u) := by
  unfold TellsDirection at htells
  push Not at htells
  obtain ⟨rfl, hpos, first, hlevels, hne⟩ := htells
  have hnew : ∀ lvl ∈ s.levels, lvl.price ≠ u.price := by
    rw [hlevels]
    exact List.forall_mem_singleton.mpr hne
  have hshort : ¬s.levels.length ≥ maxDepth := by
    rw [hlevels]
    simp [maxDepth]
  have hnext : (s.next u).levels = place true ⟨u.price, u.qty⟩ [first] := by
    have hbid : decide (u.price > first.price ∨ first.price > u.price) = true :=
      decide_eq_true (lt_or_gt_of_ne hne)
    rw [next_absent hnew hpos]
    simp only [hlevels, hbid]
    unfold insertSorted
    rw [dif_neg hshort]
    exact congrArg (place true _) hlevels
  intro hs
  have hstrict := hs.strict
  rw [hnext] at hstrict
  unfold place at hstrict
  rw [if_neg hne] at hstrict
  split_ifs at hstrict with hahead
  · have hlt : -u.price < -first.price := (List.pairwise_cons.mp hstrict).1 _ List.mem_cons_self
    exact absurd (neg_lt_neg_iff.mp hlt) (not_lt.mpr (le_of_lt hahead))
  · have hlt : -first.price < -u.price := (List.pairwise_cons.mp hstrict).1 _ List.mem_cons_self
    exact hahead (neg_lt_neg_iff.mp hlt)

theorem sorted_iff_tellsDirection (hs : Sorted side s) : Along next (fun s u => Sorted side (s.next u)) s us ↔
    Along next (TellsDirection side) s us := by
  induction us generalizing s with
  | nil => exact Iff.rfl
  | cons u us ih =>
    constructor
    · rintro ⟨hnext, hrest⟩
      exact ⟨not_not.mp fun htells => not_sorted_second htells hnext, (ih hnext).mp hrest⟩
    · rintro ⟨htells, hrest⟩
      exact ⟨next_sorted hs htells, (ih (next_sorted hs htells)).mpr hrest⟩

theorem empty_sorted (side : Side) : Sorted side {} := ⟨List.Pairwise.nil, List.forall_mem_nil _⟩

/-- Every run keeps a bid side in its order, and an ask side those that never bring it a second level. -/
theorem update_keeps_direction_iff (us : List LevelUpdate) :
    Along next (fun s u => Sorted .buy (s.next u)) {} us ∧
      (Along next (fun s u => Sorted .sell (s.next u)) {} us ↔ Along next (TellsDirection .sell) {} us) := by
  constructor
  · apply (sorted_iff_tellsDirection (empty_sorted .buy)).mpr
    exact Along.of_forall fun s u hsell => absurd hsell (by decide)
  · exact sorted_iff_tellsDirection (empty_sorted .sell)

theorem asks_descend :
    let asks := [(⟨151, 10⟩ : LevelUpdate), ⟨152, 10⟩].foldl next {}
    asks.levels.map PriceLevel.price = [152, 151] ∧ ¬Sorted .sell asks := by
  refine ⟨by decide, fun hs => ?_⟩
  exact absurd hs.strict (by decide)

end Runs

end BookSide

end Klett.Sor

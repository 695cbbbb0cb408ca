import Mathlib.Data.List.Dedup
import Mathlib.Data.List.Perm.Subperm
import Klett.Sor.LiquiditySweep

namespace Klett.Sor.LiquiditySweep

open Klett.Lib

section Model

/-! The sweep with any pro-rata product: one for each venue at each level, from what the venue shows,
what the level shows and what is to be filled there. -/

abbrev Product := ℕ → ℤ → ℤ → ℤ → ℕ

/-- The product that the code computes in `double`. -/
def proRata (P : Platform) : Product := fun _ quantity levelAvailable levelFill =>
  (Platform.truncate (P.mul (P.div (P.ofInt quantity) (P.ofInt levelAvailable)) (P.ofInt levelFill))).toNat

def allocateWith (product : Product) (minSlice : ℤ) (venues : List VenueScore)
    (price levelAvailable levelFill : ℤ) : ℕ → List VenueQuantity → Allocations × ℤ → Allocations × ℤ
  | _, [], acc => acc
  | v, vq :: vqs, (allocations, levelAllocated) =>
    if levelAllocated < levelFill then
      if vq.quantity ≤ 0 ∨ !available venues vq.venueId then
        allocateWith product minSlice venues price levelAvailable levelFill (v + 1) vqs (allocations, levelAllocated)
      else
        let share :=
          min (min ↑(product v vq.quantity levelAvailable levelFill) vq.quantity) (levelFill - levelAllocated)
        if share < minSlice ∧ share < levelFill - levelAllocated then
          allocateWith product minSlice venues price levelAvailable levelFill (v + 1) vqs (allocations, levelAllocated)
        else
          allocateWith product minSlice venues price levelAvailable levelFill (v + 1) vqs
            (allocations.add vq.venueId price share, levelAllocated + share)
    else (allocations, levelAllocated)

def sweepLevelWith (product : Product) (minSlice : ℤ) (venues : List VenueScore) (level : AggregatedLevel)
    (allocations : Allocations) (remaining : ℤ) : Allocations × ℤ :=
  let total := levelAvailable venues level
  if total ≤ 0 then (allocations, remaining)
  else
    let levelFill := min remaining total
    let pass := allocateWith product minSlice venues level.price total levelFill 0 level.venueBreakdown (allocations, 0)
    let done := assignRemainder venues level levelFill pass
    (done.1, remaining - done.2)

def sweepWith (product : ℕ → Product) (minSlice : ℤ) (venues : List VenueScore) :
    ℕ → List AggregatedLevel → Allocations → ℤ → Allocations
  | _, [], allocations, _ => allocations
  | lvl, level :: levels, allocations, remaining =>
    if remaining > 0 then
      if level.displayed then
        let next := sweepLevelWith (product lvl) minSlice venues level allocations remaining
        sweepWith product minSlice venues (lvl + 1) levels next.1 next.2
      else sweepWith product minSlice venues (lvl + 1) levels allocations remaining
    else allocations

def routeWith (P : Platform) (product : ℕ → Product) (minSlice : ℤ) (order : Order) (nbbo : Nbbo)
    (book : AggregatedBook) (venues : List VenueScore) : RoutingDecision :=
  if venues.isEmpty ∨ !nbbo.valid then {}
  else if order.leavesQty ≤ 0 then {}
  else
    let allocations := sweepWith product minSlice venues 0 (book.opposite order.side) [] order.leavesQty
    allocations.decision P (fun total => !decide (total < minSlice)) order.side

end Model

section ProRata

variable {P : Platform} {minSlice : ℤ} {venues : List VenueScore}

theorem venueShare_eq {quantity avail fill : ℤ} (hq : 0 ≤ quantity) (ha : 0 ≤ avail) (hf : 0 ≤ fill) (v : ℕ)
    (allocated : ℤ) : venueShare P quantity avail fill allocated =
      min (min ↑(proRata P v quantity avail fill) quantity) (fill - allocated) := by
  have hproduct := Platform.truncate_nonneg
    (P.nonneg_mul (P.nonneg_div (P.nonneg_ofInt hq) (P.nonneg_ofInt ha)) (P.nonneg_ofInt hf))
  rw [venueShare, proRata, Int.toNat_of_nonneg hproduct]

theorem allocate_eq {price avail fill : ℤ} (ha : 0 ≤ avail) (hf : 0 ≤ fill) (v : ℕ) (vqs : List VenueQuantity)
    (acc : Allocations × ℤ) : allocate P minSlice venues price avail fill vqs acc =
      allocateWith (proRata P) minSlice venues price avail fill v vqs acc := by
  induction vqs generalizing v acc with
  | nil => rfl
  | cons vq vqs ih =>
    obtain ⟨allocations, allocated⟩ := acc
    unfold allocate allocateWith
    by_cases hlt : allocated < fill
    · rw [if_pos hlt, if_pos hlt]
      by_cases hskip : vq.quantity ≤ 0 ∨ !available venues vq.venueId
      · rw [if_pos hskip, if_pos hskip, ih]
      · have hq : 0 ≤ vq.quantity := (not_le.mp fun hle => hskip (.inl hle)).le
        rw [if_neg hskip, if_neg hskip, venueShare_eq hq ha hf v]
        simp only [ih (v + 1)]
    · rw [if_neg hlt, if_neg hlt]

theorem sweep_eq (lvl : ℕ) (levels : List AggregatedLevel) (allocations : Allocations) (remaining : ℤ) :
    sweep P minSlice venues levels allocations remaining =
      sweepWith (fun _ => proRata P) minSlice venues lvl levels allocations remaining := by
  induction levels generalizing lvl allocations remaining with
  | nil => rfl
  | cons level levels ih =>
    unfold sweep sweepWith
    by_cases hrem : remaining > 0
    · rw [if_pos hrem, if_pos hrem]
      have hlevel : sweepLevel P minSlice venues level allocations remaining =
          sweepLevelWith (proRata P) minSlice venues level allocations remaining := by
        unfold sweepLevel sweepLevelWith
        by_cases htotal : levelAvailable venues level ≤ 0
        · simp only [htotal, ↓reduceIte]
        · have havail := (not_le.mp htotal).le
          simp only [htotal, ↓reduceIte, allocate_eq havail (le_min hrem.le havail) 0]
      rw [hlevel]
      simp only [ih (lvl + 1)]
    · rw [if_neg hrem, if_neg hrem]

theorem route_eq (order : Order) (nbbo : Nbbo) (book : AggregatedBook) :
    route P minSlice order nbbo book venues = routeWith P (fun _ => proRata P) minSlice order nbbo book venues := by
  unfold route routeWith
  rw [sweep_eq 0]

end ProRata

section Specification

variable (venues : List VenueScore) (levels : List AggregatedLevel)

def eligible (level : AggregatedLevel) : List VenueQuantity :=
  level.venueBreakdown.filter fun vq => vq.quantity > 0 && available venues vq.venueId

/-- What available venues show over all valid levels. -/
def totalAvailable : ℤ := ((levels.filter fun level => level.displayed).map (levelAvailable venues)).sum

/-- The venues that show it. -/
def eligibleVenues : List ℕ :=
  (levels.filter fun level => level.displayed).flatMap fun level => (eligible venues level).map VenueQuantity.venueId

end Specification

section BestVenue

variable {venues : List VenueScore} {level : AggregatedLevel}

def choose (venues : List VenueScore) (best : ℕ × ℤ) (vq : VenueQuantity) : ℕ × ℤ :=
  if vq.quantity > best.2 && available venues vq.venueId then (vq.venueId, vq.quantity) else best

theorem choose_le (best : ℕ × ℤ) (vq : VenueQuantity) : best.2 ≤ (choose venues best vq).2 := by
  unfold choose
  split_ifs with h
  · exact (of_decide_eq_true (Bool.and_eq_true_iff.mp h).1).le
  · exact le_rfl

theorem foldl_choose_le (best : ℕ × ℤ) (vqs : List VenueQuantity) :
    best.2 ≤ (vqs.foldl (choose venues) best).2 := by
  induction vqs generalizing best with
  | nil => exact le_rfl
  | cons vq vqs ih => exact (choose_le best vq).trans (ih _)

theorem le_foldl_choose (best : ℕ × ℤ) {vq : VenueQuantity} {vqs : List VenueQuantity} (hm : vq ∈ vqs)
    (ha : available venues vq.venueId = true) : vq.quantity ≤ (vqs.foldl (choose venues) best).2 := by
  induction vqs generalizing best with
  | nil => cases hm
  | cons x vqs ih =>
    rw [List.foldl_cons]
    obtain rfl | hm := List.mem_cons.mp hm
    · refine le_trans ?_ (foldl_choose_le _ vqs)
      by_cases hq : best.2 < vq.quantity
      · simp [choose, hq, ha]
      · exact (not_lt.mp hq).trans (choose_le best vq)
    · exact ih _ hm

variable (venues) in
theorem foldl_choose_cases (best : ℕ × ℤ) (vqs : List VenueQuantity) (hbest : 0 ≤ best.2) :
    vqs.foldl (choose venues) best = best ∨
      ∃ vq ∈ vqs, 0 < vq.quantity ∧ available venues vq.venueId = true ∧
        vqs.foldl (choose venues) best = (vq.venueId, vq.quantity) := by
  induction vqs generalizing best with
  | nil => exact .inl rfl
  | cons x vqs ih =>
    rw [List.foldl_cons]
    obtain heq | ⟨vq, hm, hfound⟩ := ih (choose venues best x) (hbest.trans (choose_le best x))
    · rw [heq, choose]
      split_ifs with h
      · obtain ⟨hq, ha⟩ := Bool.and_eq_true_iff.mp h
        exact .inr ⟨x, List.mem_cons_self, hbest.trans_lt (of_decide_eq_true hq), ha, rfl⟩
      · exact .inl rfl
    · exact .inr ⟨vq, List.mem_cons_of_mem _ hm, hfound⟩

theorem mem_eligible {vq : VenueQuantity} : vq ∈ eligible venues level ↔
    vq ∈ level.venueBreakdown ∧ 0 < vq.quantity ∧ available venues vq.venueId = true := by
  simp [eligible]

theorem bestVenue_mem (h : 0 < levelAvailable venues level) :
    ∃ vq ∈ eligible venues level, bestVenue venues level = vq.venueId := by
  obtain ⟨x, hx⟩ : ∃ x, x ∈ eligible venues level := by
    apply List.exists_mem_of_ne_nil
    intro hnil
    rw [levelAvailable, ← eligible, hnil] at h
    exact lt_irrefl 0 h
  obtain ⟨hm, hq, ha⟩ := mem_eligible.mp hx
  obtain hnone | ⟨vq, hvq, hpos, hav, hbest⟩ :=
    foldl_choose_cases venues (0, 0) level.venueBreakdown le_rfl
  · have hle := le_foldl_choose (0, 0) hm ha
    rw [hnone] at hle
    exact absurd hq (not_lt.mpr hle)
  · exact ⟨vq, mem_eligible.mpr ⟨hvq, hpos, hav⟩, congrArg Prod.fst hbest⟩

end BestVenue

section Conservation

variable {venues : List VenueScore} {allocations : Allocations} {ids : List ℕ} {product : Product}
  {level : AggregatedLevel} {price avail fill allocated remaining : ℤ}

/-- One entry for a venue, each of an eligible venue and with something to send. -/
structure Merged (ids : List ℕ) (allocations : Allocations) : Prop where
  nodup : allocations.keys.Nodup
  mem : ∀ k ∈ allocations.keys, k ∈ ids
  total : ∀ a ∈ allocations, 1 ≤ a.total

theorem Merged.nil (ids : List ℕ) : Merged ids [] :=
  ⟨List.nodup_nil, List.forall_mem_nil _, List.forall_mem_nil _⟩

theorem Merged.add {k : ℕ} {q : ℤ} (hm : Merged ids allocations) (hk : k ∈ ids) (hq : 1 ≤ q) (price : ℤ) :
    Merged ids (allocations.add k price q) where
  nodup := Ledger.nodup_keys_add hm.nodup
  mem j hj := (Ledger.mem_keys_add.mp hj).elim (fun heq => heq ▸ hk) (hm.mem j)
  total := Ledger.totals_add hq (fun x hx => by omega) hm.total

variable (product price avail) in
theorem allocateWith_merged (v : ℕ) (vqs : List VenueQuantity)
    (hids : ∀ vq ∈ vqs, 0 < vq.quantity → available venues vq.venueId = true → vq.venueId ∈ ids)
    (hm : Merged ids allocations) (hl : allocated ≤ fill) :
    let after := allocateWith product 1 venues price avail fill v vqs (allocations, allocated)
    Merged ids after.1 ∧ after.1.sum - after.2 = allocations.sum - allocated ∧ after.2 ≤ fill := by
  induction vqs generalizing v allocations allocated with
  | nil => exact ⟨hm, rfl, hl⟩
  | cons vq vqs ih =>
    have hrest := fun x hx => hids x (List.mem_cons_of_mem _ hx)
    unfold allocateWith
    split_ifs with hlt hskip
    · exact ih _ hrest hm hl
    · simp only
      split_ifs with hdust
      · exact ih _ hrest hm hl
      · obtain ⟨hq, ha⟩ : 0 < vq.quantity ∧ available venues vq.venueId = true := by simpa using hskip
        have hid := hids vq List.mem_cons_self hq ha
        have hroom : min (min (↑(product v vq.quantity avail fill) : ℤ) vq.quantity) (fill - allocated) ≤
            fill - allocated := min_le_right _ _
        generalize min (min (↑(product v vq.quantity avail fill) : ℤ) vq.quantity) (fill - allocated) = share
          at hdust hroom ⊢
        have hone : 1 ≤ share := by omega
        have hmore : allocated + share ≤ fill := by omega
        obtain ⟨hmerged, hsum, hle⟩ := ih (v + 1) hrest (hm.add hid hone price) hmore
        refine ⟨hmerged, ?_, hle⟩
        rw [hsum, Ledger.sum_add]
        omega
    · exact ⟨hm, rfl, hl⟩

/-- With slices of one unit and no venue of id zero, a level is filled as far as it goes. -/
theorem sweepLevelWith_merged (product : Product) (hzero : available venues 0 = false)
    (hids : ∀ vq ∈ eligible venues level, vq.venueId ∈ ids) (hm : Merged ids allocations) (hr : 0 < remaining) :
    let next := sweepLevelWith product 1 venues level allocations remaining
    Merged ids next.1 ∧ next.1.sum = allocations.sum + min remaining (levelAvailable venues level) ∧
      next.2 = remaining - min remaining (levelAvailable venues level) := by
  have hnonneg := levelAvailable_nonneg venues level
  unfold sweepLevelWith
  simp only
  split_ifs with htotal
  · have hnone : min remaining (levelAvailable venues level) = 0 := by omega
    rw [hnone, add_zero, sub_zero]
    exact ⟨hm, rfl, rfl⟩
  · obtain ⟨hmerged, hsum, hle⟩ := allocateWith_merged product level.price (levelAvailable venues level) 0
      level.venueBreakdown (fun vq hvq hq ha => hids vq (mem_eligible.mpr ⟨hvq, hq, ha⟩)) hm
      (show (0 : ℤ) ≤ min remaining (levelAvailable venues level) by omega)
    generalize allocateWith product 1 venues level.price (levelAvailable venues level)
      (min remaining (levelAvailable venues level)) 0 level.venueBreakdown (allocations, 0) = pass
      at hmerged hsum hle ⊢
    obtain ⟨best, hbest, hid⟩ := bestVenue_mem (not_le.mp htotal)
    have hne : bestVenue venues level ≠ 0 := by
      intro heq
      have ha := (mem_eligible.mp hbest).2.2
      rw [← hid, heq, hzero] at ha
      cases ha
    unfold assignRemainder
    split_ifs with hshort
    · refine ⟨hmerged.add (hid ▸ hids best hbest) (by omega) level.price, ?_, rfl⟩
      rw [Ledger.sum_add]
      omega
    · have hfull : pass.2 = min remaining (levelAvailable venues level) := by
        by_contra hnot
        exact hshort ⟨lt_of_le_of_ne hle hnot, hne⟩
      refine ⟨hmerged, ?_, by rw [hfull]⟩
      simp only
      omega

theorem totalAvailable_cons (venues : List VenueScore) (level : AggregatedLevel) (levels : List AggregatedLevel) :
    totalAvailable venues (level :: levels) =
      (if level.displayed then levelAvailable venues level else 0) + totalAvailable venues levels := by
  unfold totalAvailable
  by_cases h : level.displayed <;> simp [h]

theorem totalAvailable_nonneg (venues : List VenueScore) (levels : List AggregatedLevel) :
    0 ≤ totalAvailable venues levels := by
  apply List.sum_nonneg
  intro q hq
  obtain ⟨level, -, rfl⟩ := List.mem_map.mp hq
  exact levelAvailable_nonneg venues level

theorem sweepWith_merged (product : ℕ → Product) (lvl : ℕ) (levels : List AggregatedLevel)
    (hzero : available venues 0 = false) (hids : ∀ k ∈ eligibleVenues venues levels, k ∈ ids)
    (hm : Merged ids allocations) (hr : 0 ≤ remaining) :
    Merged ids (sweepWith product 1 venues lvl levels allocations remaining) ∧
      (sweepWith product 1 venues lvl levels allocations remaining).sum =
        allocations.sum + min remaining (totalAvailable venues levels) := by
  induction levels generalizing lvl allocations remaining with
  | nil =>
    refine ⟨hm, ?_⟩
    simp only [sweepWith, totalAvailable, List.filter_nil, List.map_nil, List.sum_nil]
    omega
  | cons level levels ih =>
    have hnonneg := totalAvailable_nonneg venues levels
    have hrest : ∀ k ∈ eligibleVenues venues levels, k ∈ ids := by
      intro k hk
      apply hids
      unfold eligibleVenues at hk ⊢
      obtain ⟨l, hl, hkl⟩ := List.mem_flatMap.mp hk
      obtain ⟨hmem, hd⟩ := List.mem_filter.mp hl
      exact List.mem_flatMap.mpr ⟨l, List.mem_filter.mpr ⟨List.mem_cons_of_mem _ hmem, hd⟩, hkl⟩
    unfold sweepWith
    rw [totalAvailable_cons]
    split_ifs with hrem hd
    · have hlevel : ∀ vq ∈ eligible venues level, vq.venueId ∈ ids := by
        intro vq hvq
        apply hids
        exact List.mem_flatMap.mpr ⟨level, List.mem_filter.mpr ⟨List.mem_cons_self, decide_eq_true hd⟩,
          List.mem_map_of_mem hvq⟩
      have havail := levelAvailable_nonneg venues level
      obtain ⟨hmerged, hsum, hnext⟩ := sweepLevelWith_merged (product lvl) hzero hlevel hm hrem
      have hleft : 0 ≤ (sweepLevelWith (product lvl) 1 venues level allocations remaining).2 := by
        rw [hnext]
        omega
      obtain ⟨hdone, htotal⟩ := ih (lvl + 1) hrest hmerged hleft
      refine ⟨hdone, ?_⟩
      rw [htotal, hsum, hnext]
      omega
    · rw [zero_add]
      exact ih (lvl + 1) hrest hm hr
    all_goals
      refine ⟨hm, ?_⟩
      have havail := levelAvailable_nonneg venues level
      omega

end Conservation

section Main

variable {venues : List VenueScore}

theorem Merged.length_le {ids : List ℕ} {allocations : Allocations} (hm : Merged ids allocations) :
    allocations.length ≤ ids.dedup.length := by
  have hsub : allocations.keys ⊆ ids.dedup := fun k hk => List.mem_dedup.mpr (hm.mem k hk)
  calc allocations.length = allocations.keys.length := (List.length_map _).symm
    _ ≤ ids.dedup.length := (hm.nodup.subperm hsub).length_le

theorem available_zero (h : ∀ vs ∈ venues, vs.venueId ≠ 0) : available venues 0 = false := by
  have hnone : findScore venues 0 = none := by
    apply List.find?_eq_none.mpr
    intro vs hvs hfound
    exact h vs hvs (of_decide_eq_true (Bool.and_eq_true_iff.mp hfound).1)
  rw [available, hnone]
  rfl

theorem available_nil (k : ℕ) : available [] k = false := rfl

theorem totalAvailable_nil (levels : List AggregatedLevel) : totalAvailable [] levels = 0 := by
  induction levels with
  | nil => rfl
  | cons level levels ih =>
    rw [totalAvailable_cons, ih]
    simp [levelAvailable, available_nil]

/-- Whatever the pro-rata products are, the sweep routes exactly what there is, as far as the order goes. -/
theorem route_total_eq (P : Platform) (product : ℕ → Product) (order : Order) (nbbo : Nbbo) (book : AggregatedBook)
    (venues : List VenueScore) (hleaves : 0 < order.leavesQty) (hnbbo : nbbo.valid = true)
    (hids : ∀ vs ∈ venues, vs.venueId ≠ 0)
    (hfew : (eligibleVenues venues (book.opposite order.side)).dedup.length ≤ maxSlices) :
    (routeWith P product 1 order nbbo book venues).totalQuantity =
      min order.leavesQty (totalAvailable venues (book.opposite order.side)) := by
  unfold routeWith
  split_ifs with hempty hdone
  · have hnil : venues = [] := by simpa [hnbbo] using hempty
    rw [hnil, totalAvailable_nil, RoutingDecision.totalQuantity_nil]
    omega
  · exact absurd hleaves (not_lt.mpr hdone)
  · obtain ⟨hmerged, hsum⟩ := sweepWith_merged product 0 (book.opposite order.side) (available_zero hids)
      (fun _ hk => hk) (Merged.nil _) hleaves.le
    simp only
    rw [Allocations.decision_total _ (hmerged.length_le.trans hfew), hsum, Ledger.sum_nil, zero_add]
    intro a ha
    have htotal := hmerged.total a ha
    simpa using htotal

def twoVenues : AggregatedBook where
  asks := [{ price := 150, totalQuantity := 400, venueBreakdown := [⟨1, 200⟩, ⟨2, 200⟩] }]
  bids := []
  bidsFit := Nat.zero_le maxDepth

def threeHundred : Order where
  price := 155
  quantity := 300

theorem route_total_eq_partly_filled :
    let nbbo : Nbbo := { bestBid := 149, bestBidQty := 100, bestAsk := 150, bestAskQty := 400 }
    let venues : List VenueScore := [{ venueId := 1 }, { venueId := 2 }]
    totalAvailable venues twoVenues.asks = 400 ∧
      (routeWith .exact (fun _ => proRata .exact) 1 threeHundred nbbo twoVenues venues).totalQuantity =
        min 300 400 := by
  intro nbbo venues
  have havailable : totalAvailable venues twoVenues.asks = 400 := by decide
  refine ⟨havailable, ?_⟩
  rw [← havailable]
  exact route_total_eq .exact (fun _ => proRata .exact) threeHundred nbbo twoVenues venues (by decide) (by decide)
    (by decide) (by decide)

end Main

end Klett.Sor.LiquiditySweep

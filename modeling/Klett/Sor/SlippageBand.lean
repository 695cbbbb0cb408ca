import Klett.Sor.SmartIoc
import Klett.Sor.SweepDisplayed

namespace Klett.Sor.SmartIoc

open Klett.Lib LimitPrice
open LiquiditySweep (InPriority Merged shownBy shownBy_nonneg shownTo shownTo_cons shownTo_nonneg levelAvailable
  WithinDisplay)

section Band

variable (venues : List VenueScore) (side : Side) (worst : ℤ)

/-- The valid levels whose price is no worse than the worst acceptable one. -/
def band (levels : List AggregatedLevel) : List AggregatedLevel :=
  levels.filter fun level => level.displayed ∧ Respects side worst level.price

/-- The levels that a scan comes by: none from the first valid one beyond the band on. -/
def scanned (levels : List AggregatedLevel) : List AggregatedLevel :=
  (levels.filter fun level => level.displayed).takeWhile fun level => Respects side worst level.price

def bandAvailable (levels : List AggregatedLevel) : ℤ :=
  ((band side worst levels).map (levelAvailable venues)).sum

structure Complete (levels : List AggregatedLevel) (leaves : ℤ) (d : RoutingDecision) : Prop where
  total : d.totalQuantity = min leaves (bandAvailable venues side worst levels)
  shown : ∀ s ∈ d.slices, s.quantity ≤ shownTo side levels s.venueId worst
  price : ∀ s ∈ d.slices, Respects side worst s.price

instance (levels : List AggregatedLevel) : Decidable (InPriority side levels) :=
  inferInstanceAs (Decidable (List.Pairwise _ _))

variable {venues side worst} {level : AggregatedLevel} {levels : List AggregatedLevel}

theorem beyond_iff {price : ℤ} : beyond side price worst = true ↔ ¬Respects side worst price := by
  cases side <;> simp [beyond, Respects]

theorem band_cons : band side worst (level :: levels) =
    if level.displayed ∧ Respects side worst level.price then level :: band side worst levels
    else band side worst levels := by
  unfold band
  rw [List.filter_cons]
  simp only [decide_eq_true_eq]

theorem mem_band : level ∈ band side worst levels ↔
    level ∈ levels ∧ level.displayed ∧ Respects side worst level.price := by
  simp [band]

theorem scanned_cons : scanned side worst (level :: levels) =
    if level.displayed then
      if Respects side worst level.price then level :: scanned side worst levels else []
    else scanned side worst levels := by
  unfold scanned
  by_cases hd : level.displayed
  · rw [List.filter_cons_of_pos (by simpa using hd), List.takeWhile_cons, if_pos hd]
    simp only [decide_eq_true_eq]
  · rw [List.filter_cons_of_neg (by simpa using hd), if_neg hd]

/-- In priority, nothing behind a level beyond the band is in it. -/
theorem scanned_eq_band (hp : InPriority side levels) : scanned side worst levels = band side worst levels := by
  induction levels with
  | nil => rfl
  | cons level levels ih =>
    obtain ⟨hhead, hrest⟩ := List.pairwise_cons.mp hp
    rw [scanned_cons, band_cons]
    by_cases hd : level.displayed
    · by_cases hin : Respects side worst level.price
      · rw [if_pos hd, if_pos hin, if_pos ⟨hd, hin⟩, ih hrest]
      · rw [if_pos hd, if_neg hin, if_neg fun h => hin h.2]
        apply (List.filter_eq_nil_iff.mpr fun l hl hl' => ?_).symm
        have hbehind : Respects side l.price level.price := hhead l hl
        have hwithin : Respects side worst l.price := (of_decide_eq_true hl').2
        apply hin
        cases side
        · exact hbehind.trans hwithin
        · exact hwithin.trans hbehind
    · rw [if_neg hd, if_neg fun h => hd h.1, ih hrest]

end Band

section Serving

variable (P : Platform) (venues : List VenueScore)

/-- The sweep over levels that are all inside the band, without its early exits. -/
def serve : List AggregatedLevel → Allocations → ℤ → Allocations × ℤ
  | [], allocations, remaining => (allocations, remaining)
  | level :: levels, allocations, remaining =>
    let next := sweepLevel P venues level allocations remaining
    serve levels next.1 next.2

def levelBuffer (level : AggregatedLevel) : List LevelVenue :=
  (level.venueBreakdown.filterMap (levelVenue P venues)).take maxLevelVenues

def offeredBy (v : ℕ) (lvs : List LevelVenue) : ℤ :=
  ((lvs.filter fun lv => lv.venueId = v).map LevelVenue.available).sum

variable {P venues} {side : Side} {worst price remaining : ℤ} {level : AggregatedLevel} {levels : List AggregatedLevel}
  {lvs : List LevelVenue} {allocations : Allocations} {v : ℕ} {ids : List ℕ}

theorem allocate_done (hr : remaining ≤ 0) : allocate price lvs allocations remaining = (allocations, remaining) := by
  cases lvs with
  | nil => rfl
  | cons lv lvs => exact if_neg (not_lt.mpr hr)

theorem serve_done (hr : remaining ≤ 0) : serve P venues levels allocations remaining = (allocations, remaining) := by
  induction levels with
  | nil => rfl
  | cons level levels ih =>
    have hsame : sweepLevel P venues level allocations remaining = (allocations, remaining) := allocate_done hr
    rw [serve, hsame]
    exact ih

theorem sweep_eq_serve (levels : List AggregatedLevel) (allocations : Allocations) (remaining : ℤ) :
    sweep P side venues worst levels allocations remaining =
      (serve P venues (scanned side worst levels) allocations remaining).1 := by
  induction levels generalizing allocations remaining with
  | nil => rfl
  | cons level levels ih =>
    unfold sweep
    split_ifs with hr hd hb
    · rw [scanned_cons, if_pos hd, if_neg (beyond_iff.mp hb)]
      rfl
    · have hin : Respects side worst level.price := not_not.mp fun h => hb (beyond_iff.mpr h)
      rw [scanned_cons, if_pos hd, if_pos hin]
      exact ih _ _
    · rw [scanned_cons, if_neg hd]
      exact ih _ _
    · rw [serve_done (not_lt.mp hr)]

theorem available_reverse : (findScore venues.reverse v).isSome = available venues v := by
  unfold available findScore
  rw [Bool.eq_iff_iff, List.find?_isSome, List.find?_isSome]
  simp only [List.mem_reverse]

theorem levelVenue_cases (P : Platform) (venues : List VenueScore) (vq : VenueQuantity) :
    levelVenue P venues vq = none ∧ ¬(0 < vq.quantity ∧ available venues vq.venueId = true) ∨
      ∃ lv, levelVenue P venues vq = some lv ∧ (0 < vq.quantity ∧ available venues vq.venueId = true) ∧
        lv.venueId = vq.venueId ∧ lv.available = vq.quantity := by
  unfold levelVenue
  rw [← available_reverse]
  split_ifs with hq
  · exact .inl ⟨rfl, fun h => not_lt.mpr hq h.1⟩
  · cases findScore venues.reverse vq.venueId with
    | none => exact .inl ⟨rfl, fun h => by cases h.2⟩
    | some vs => exact .inr ⟨_, rfl, ⟨not_le.mp hq, rfl⟩, rfl, rfl⟩

theorem mem_levelBuffer {lv : LevelVenue} (h : lv ∈ levelBuffer P venues level) :
    0 < lv.available ∧ available venues lv.venueId = true := by
  obtain ⟨vq, -, hsome⟩ := List.mem_filterMap.mp (List.mem_of_mem_take h)
  obtain ⟨hnone, -⟩ | ⟨lv', hlv', hin, hid, havail⟩ := levelVenue_cases P venues vq
  · rw [hnone] at hsome
    cases hsome
  · obtain rfl : lv' = lv := Option.some.inj (hlv'.symm.trans hsome)
    rw [hid, havail]
    exact hin

theorem levelBuffer_eq (P : Platform) (venues : List VenueScore) (level : AggregatedLevel) :
    levelBuffer P venues level = level.venueBreakdown.filterMap (levelVenue P venues) :=
  List.take_of_length_le ((List.length_filterMap_le _ _).trans level.fits)

theorem levelBuffer_sum (P : Platform) (venues : List VenueScore) (level : AggregatedLevel) :
    ((levelBuffer P venues level).map LevelVenue.available).sum = levelAvailable venues level := by
  rw [levelBuffer_eq]
  unfold levelAvailable
  induction level.venueBreakdown with
  | nil => rfl
  | cons vq vqs ih =>
    rw [List.filterMap_cons, List.filter_cons]
    obtain ⟨hnone, hout⟩ | ⟨lv, hlv, hin, -, havail⟩ := levelVenue_cases P venues vq
    · rw [hnone, if_neg (by simpa using hout)]
      exact ih
    · rw [hlv, if_pos (by simpa using hin)]
      simp only [List.map_cons, List.sum_cons]
      rw [ih, havail]

theorem levelBuffer_offered (P : Platform) (venues : List VenueScore) (level : AggregatedLevel) (v : ℕ) :
    offeredBy v (levelBuffer P venues level) ≤ shownBy v level := by
  rw [levelBuffer_eq]
  unfold offeredBy shownBy
  induction level.venueBreakdown with
  | nil => exact le_rfl
  | cons vq vqs ih =>
    rw [List.filterMap_cons]
    obtain ⟨hnone, -⟩ | ⟨lv, hlv, ⟨hq, -⟩, hid, havail⟩ := levelVenue_cases P venues vq
    · rw [hnone]
      by_cases hv : 0 < vq.quantity ∧ vq.venueId = v
      · simp [hv] at ih ⊢
        omega
      · simpa [List.filter_cons, hv] using ih
    · rw [hlv]
      by_cases hv : vq.venueId = v
      · simp [hv, hq, hid, havail] at ih ⊢
        omega
      · simpa [List.filter_cons, hv, hid] using ih

/-- What a round of allocations does with what is left to fill, when so much is offered in it. -/
structure Serves (ids : List ℕ) (offered : ℤ) (shares : ℕ → ℤ) (before after : Allocations × ℤ) : Prop where
  merged : Merged ids after.1
  conserved : after.1.sum + after.2 = before.1.sum + before.2
  left : after.2 = max (before.2 - offered) 0
  within : ∀ v, after.1.totalAt v ≤ before.1.totalAt v + shares v

theorem Serves.trans {offered offered' : ℤ} {shares shares' : ℕ → ℤ} {before mid after : Allocations × ℤ}
    (h : Serves ids offered shares before mid) (h' : Serves ids offered' shares' mid after) (hn : 0 ≤ offered') :
    Serves ids (offered + offered') (fun v => shares v + shares' v) before after where
  merged := h'.merged
  conserved := h'.conserved.trans h.conserved
  left := by
    rw [h'.left, h.left]
    omega
  within v := by
    have hfirst := h.within v
    have hsecond := h'.within v
    omega

theorem Serves.take {lv : LevelVenue} (hm : Merged ids allocations) (hr : 0 < remaining)
    (hlv : 0 < lv.available ∧ lv.venueId ∈ ids) (price : ℤ) :
    Serves ids lv.available (fun v => if lv.venueId = v then lv.available else 0) (allocations, remaining)
      (allocations.add lv.venueId price (min remaining lv.available), remaining - min remaining lv.available) where
  merged := hm.add hlv.2 (by omega) price
  conserved := by
    simp only [Ledger.sum_add]
    omega
  left := by
    simp only
    omega
  within v := by
    rw [Ledger.totalAt_add]
    simp only
    split_ifs <;> omega

theorem offeredBy_cons (v : ℕ) (lv : LevelVenue) (lvs : List LevelVenue) :
    offeredBy v (lv :: lvs) = (if lv.venueId = v then lv.available else 0) + offeredBy v lvs := by
  unfold offeredBy
  by_cases h : lv.venueId = v <;> simp [h]

theorem offered_nonneg (hl : ∀ lv ∈ lvs, 0 < lv.available ∧ lv.venueId ∈ ids) :
    0 ≤ (lvs.map LevelVenue.available).sum := by
  apply List.sum_nonneg
  intro q hq
  obtain ⟨lv, hlv, rfl⟩ := List.mem_map.mp hq
  exact (hl lv hlv).1.le

theorem allocate_serves (price : ℤ) (hm : Merged ids allocations) (hr : 0 ≤ remaining)
    (hl : ∀ lv ∈ lvs, 0 < lv.available ∧ lv.venueId ∈ ids) :
    Serves ids (lvs.map LevelVenue.available).sum (fun v => offeredBy v lvs) (allocations, remaining)
      (allocate price lvs allocations remaining) := by
  induction lvs generalizing allocations remaining with
  | nil => exact ⟨hm, rfl, by simp [allocate, hr], fun v => (add_zero _).ge⟩
  | cons lv lvs ih =>
    obtain ⟨hlv, hrest⟩ := List.forall_mem_cons.mp hl
    have hoffered := offered_nonneg hrest
    rw [List.map_cons, List.sum_cons]
    simp only [offeredBy_cons]
    unfold allocate
    split_ifs with hpos
    · have htake := Serves.take hm hpos hlv price
      have hleft : 0 ≤ remaining - min remaining lv.available := by omega
      exact htake.trans (ih htake.merged hleft hrest) hoffered
    · refine ⟨hm, rfl, ?_, fun v => ?_⟩
      · simp only
        omega
      · have hsub : 0 ≤ offeredBy v lvs := offered_nonneg fun x hx => hrest x (List.mem_of_mem_filter hx)
        simp only
        split_ifs <;> omega

theorem sweepLevel_serves (P : Platform) (level : AggregatedLevel)
    (hids : ∀ v, available venues v = true → v ∈ ids) (hm : Merged ids allocations) (hr : 0 ≤ remaining) :
    Serves ids (levelAvailable venues level) (fun v => shownBy v level) (allocations, remaining)
      (sweepLevel P venues level allocations remaining) := by
  have hperm (lvs : List LevelVenue) (h : lvs.Perm (levelBuffer P venues level)) :
      Serves ids (levelAvailable venues level) (fun v => shownBy v level) (allocations, remaining)
        (allocate level.price lvs allocations remaining) := by
    have hserves := allocate_serves level.price hm hr fun lv hlv => by
      obtain ⟨hpos, havail⟩ := mem_levelBuffer (h.mem_iff.mp hlv)
      exact ⟨hpos, hids _ havail⟩
    have hsum : (lvs.map LevelVenue.available).sum = levelAvailable venues level :=
      (h.map LevelVenue.available).sum_eq.trans (levelBuffer_sum P venues level)
    refine ⟨hserves.merged, hserves.conserved, hserves.left.trans (by rw [hsum]), fun v => ?_⟩
    have hshare : offeredBy v lvs = offeredBy v (levelBuffer P venues level) := ((h.filter _).map _).sum_eq
    have hshown := levelBuffer_offered P venues level v
    have hwithin := hserves.within v
    omega
  exact hperm _ (P.sort_perm _ _)

theorem serve_serves (P : Platform) (levels : List AggregatedLevel)
    (hids : ∀ v, available venues v = true → v ∈ ids) (hm : Merged ids allocations) (hr : 0 ≤ remaining) :
    Serves ids (levels.map (levelAvailable venues)).sum (fun v => (levels.map (shownBy v)).sum)
      (allocations, remaining) (serve P venues levels allocations remaining) := by
  induction levels generalizing allocations remaining with
  | nil => exact ⟨hm, rfl, by simp [serve, hr], fun v => (add_zero _).ge⟩
  | cons level levels ih =>
    have hlevel := sweepLevel_serves P level hids hm hr
    have hleft : 0 ≤ (sweepLevel P venues level allocations remaining).2 := by
      rw [hlevel.left]
      exact le_max_right _ _
    have hoffered : 0 ≤ (levels.map (levelAvailable venues)).sum := by
      apply List.sum_nonneg
      intro q hq
      obtain ⟨l, -, rfl⟩ := List.mem_map.mp hq
      exact LiquiditySweep.levelAvailable_nonneg venues l
    simp only [List.map_cons, List.sum_cons]
    exact hlevel.trans (ih hlevel.merged hleft) hoffered

variable (P venues remaining) in
theorem serve_marks {p : ℤ → Prop} (hp : ∀ level ∈ levels, p level.price) (ha : ∀ a ∈ allocations, p a.mark) :
    ∀ a ∈ (serve P venues levels allocations remaining).1, p a.mark := by
  induction levels generalizing allocations remaining with
  | nil => exact ha
  | cons level levels ih =>
    obtain ⟨hlevel, hrest⟩ := List.forall_mem_cons.mp hp
    exact ih _ hrest (sweepLevel_marks (fun _ _ _ => hlevel) ha)

end Serving

section SweepIoc

variable {P : Platform} {order : Order} {book : AggregatedBook} {venues : List VenueScore} {worst : ℤ}

def availableIds (venues : List VenueScore) : List ℕ := (venues.filter VenueScore.isAvailable).map VenueScore.venueId

theorem mem_availableIds {v : ℕ} (h : available venues v = true) : v ∈ availableIds venues := by
  obtain ⟨vs, hvs, hfound⟩ := List.find?_isSome.mp h
  obtain ⟨hid, havail⟩ := Bool.and_eq_true_iff.mp hfound
  exact List.mem_map.mpr ⟨vs, List.mem_filter.mpr ⟨hvs, havail⟩, of_decide_eq_true hid⟩

theorem bandAvailable_nil (side : Side) (worst : ℤ) (levels : List AggregatedLevel) :
    bandAvailable [] side worst levels = 0 := by
  apply List.sum_eq_zero
  intro q hq
  obtain ⟨level, -, rfl⟩ := List.mem_map.mp hq
  simp [levelAvailable, LiquiditySweep.available_nil]

theorem sweepIoc_complete_at (worst : ℤ) (hleaves : 0 < order.leavesQty)
    (hp : InPriority order.side (book.opposite order.side))
    (hfew : (venues.filter VenueScore.isAvailable).length ≤ maxSlices) :
    Complete venues order.side worst (book.opposite order.side) order.leavesQty
      (sweepIoc P order book venues worst) := by
  have hserves := serve_serves P (band order.side worst (book.opposite order.side)) (fun _ => mem_availableIds)
    (Merged.nil (availableIds venues)) hleaves.le
  have hrespects : ∀ level ∈ band order.side worst (book.opposite order.side), Respects order.side worst level.price :=
    fun level hlevel => (mem_band.mp hlevel).2.2
  have hmarks := serve_marks P venues order.leavesQty hrespects (List.forall_mem_nil _)
  unfold sweepIoc
  rw [sweep_eq_serve, scanned_eq_band hp]
  generalize serve P venues (band order.side worst (book.opposite order.side)) [] order.leavesQty = served
    at hserves hmarks ⊢
  have hconserved := hserves.conserved
  have hleft := hserves.left
  rw [Ledger.sum_nil] at hconserved
  simp only at hconserved hleft
  refine ⟨?_, fun s hs => ?_, Allocations.decision_price hmarks⟩
  · have hlen : served.1.length ≤ maxSlices := by
      calc served.1.length ≤ (availableIds venues).dedup.length := hserves.merged.length_le
        _ ≤ (availableIds venues).length := (List.dedup_sublist _).length_le
        _ = (venues.filter VenueScore.isAvailable).length := List.length_map _
        _ ≤ maxSlices := hfew
    have hkeep : ∀ a ∈ served.1, (!decide (a.total ≤ 0)) = true := by
      intro a ha
      have htotal := hserves.merged.total a ha
      simp only [Bool.not_eq_true', decide_eq_false_iff_not]
      omega
    rw [Allocations.decision_total hkeep hlen]
    unfold bandAvailable
    omega
  · obtain ⟨a, ha, -, hvenue, -, hquantity⟩ := Allocations.exists_of_slice hs
    have hwithin := hserves.within a.key
    rw [Ledger.totalAt_of_mem hserves.merged.nodup ha] at hwithin
    rw [hvenue, hquantity]
    exact hwithin.trans (zero_add _).le

/-- A sweep fills what the band holds, as far as the order goes, and takes nothing from outside it. -/
theorem sweepIoc_complete (P : Platform) (order : Order) (book : AggregatedBook) (venues : List VenueScore)
    (hfok : order.tif ≠ .fok ∧ order.type ≠ .fok) (hleaves : 0 < order.leavesQty)
    (hp : InPriority order.side (book.opposite order.side))
    (hfew : (venues.filter VenueScore.isAvailable).length ≤ maxSlices) :
    (∀ worst, Complete venues order.side worst (book.opposite order.side) order.leavesQty
        (sweepIoc P order book venues worst)) ∧
      ∀ nbbo slippageTicks worst, nbbo.valid = true →
        worstAcceptablePrice nbbo order.side slippageTicks = worst → worst ≠ invalidPrice →
        Complete venues order.side worst (book.opposite order.side) order.leavesQty
          (route P slippageTicks order nbbo book venues) := by
  have hsweep := fun worst => sweepIoc_complete_at (P := P) worst hleaves hp hfew
  refine ⟨hsweep, fun nbbo slippageTicks worst hvalid hband hworst => ?_⟩
  unfold route
  simp only
  rw [hband]
  split_ifs with hempty hdone hkill
  · have hnil : venues = [] := by simpa [hvalid] using hempty
    rw [hnil]
    refine ⟨?_, List.forall_mem_nil _, List.forall_mem_nil _⟩
    rw [bandAvailable_nil, RoutingDecision.totalQuantity_nil]
    omega
  · exact absurd hleaves (not_lt.mpr hdone)
  · exact absurd hkill (not_or.mpr hfok)
  · exact hsweep worst

def bandBook : AggregatedBook where
  asks := [{ price := 150, totalQuantity := 400, venueBreakdown := [⟨1, 250⟩, ⟨2, 150⟩] },
    { price := 152, totalQuantity := 100, venueBreakdown := [⟨1, 100⟩] },
    { price := 156, totalQuantity := 500, venueBreakdown := [⟨2, 500⟩] }]
  bids := []
  bidsFit := Nat.zero_le maxDepth

def bandNbbo : Nbbo := { bestBid := 149, bestBidQty := 100, bestAsk := 150, bestAskQty := 400 }

def bandVenues : List VenueScore := [{ venueId := 1 }, { venueId := 2 }]

theorem sweepIoc_complete_short : bandAvailable bandVenues .buy 155 bandBook.asks = 500 ∧
    (route .exact 5 { quantity := 800 } bandNbbo bandBook bandVenues).totalQuantity = min 800 500 := by
  have havailable : bandAvailable bandVenues .buy 155 bandBook.asks = 500 := by decide
  refine ⟨havailable, ?_⟩
  rw [← havailable]
  exact ((sweepIoc_complete .exact { quantity := 800 } bandBook bandVenues (by decide) (by decide) (by decide)
    (by decide)).2 bandNbbo 5 155 (by decide) rfl (by decide)).total

end SweepIoc

end Klett.Sor.SmartIoc

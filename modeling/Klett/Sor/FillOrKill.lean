import Klett.Sor.RoutingEngine

namespace Klett.Sor.FillOrKill

open Klett.Lib

def IsFok (order : Order) : Prop := order.tif = .fok ∨ order.type = .fok

/-- Nothing is sent, or everything that is left in one slice that is itself fill-or-kill. -/
def WholeOrNothing (order : Order) (decision : RoutingDecision) : Prop :=
  decision.slices = [] ∨
    ∃ s, decision.slices = [s] ∧ s.quantity = order.leavesQty ∧ (s.type = .fok ∨ s.tif = .fok)

def SomeAvailable (venues : List VenueScore) : Prop := ∃ vs ∈ venues, vs.isAvailable = true

def Slices (strategy : Strategy) (order : Order) (nbbo : Nbbo) (venues : List VenueScore)
    (beginNow : ℤ) : Prop :=
  nbbo.valid = true ∧ SomeAvailable venues ∧
    match strategy with
    | .bestPrice | .smartIoc _ => False
    | .liquiditySweep minSlice => minSlice ≤ order.leavesQty
    | .vwap v => (v.scheduled order beginNow).isComplete = false ∧
        0 < (v.scheduled order beginNow).totalQuantity ∧ (v.scheduled order beginNow).config.numSlices ≠ 0

variable {P : Platform} {order : Order} {nbbo : Nbbo} {book : AggregatedBook} {venues : List VenueScore}
  {side : Side} {minSlice slippageTicks : ℤ} {v : Vwap} {now : ℤ}

theorem bestPrice_whole (hf : IsFok order) : WholeOrNothing order (BestPrice.route P order nbbo book venues) := by
  unfold BestPrice.route
  split_ifs
  · exact .inl rfl
  · exact .inl rfl
  · split
    · exact .inl rfl
    · exact .inr ⟨_, rfl, rfl, hf.symm⟩

theorem smartIoc_whole (hf : IsFok order) :
    WholeOrNothing order (SmartIoc.route P slippageTicks order nbbo book venues) := by
  unfold SmartIoc.route
  simp only
  split_ifs
  · exact .inl rfl
  · exact .inl rfl
  · exact .inl rfl
  · unfold SmartIoc.tryFok
    split
    · exact .inl rfl
    · exact .inr ⟨_, rfl, rfl, .inr rfl⟩
  next hnot => exact absurd hf hnot

theorem available_false (hv : ¬SomeAvailable venues) (k : ℕ) : findScore venues k = none := by
  refine List.find?_eq_none.mpr fun vs hvs hfound => hv ⟨vs, hvs, ?_⟩
  exact (Bool.and_eq_true_iff.mp hfound).2

section Silent

theorem sweep_of_unavailable (hv : ¬SomeAvailable venues) (levels : List AggregatedLevel)
    (allocations : Allocations) (remaining : ℤ) :
    LiquiditySweep.sweep P minSlice venues levels allocations remaining = allocations := by
  have hlevel (level : AggregatedLevel) : LiquiditySweep.levelAvailable venues level = 0 := by
    simp [LiquiditySweep.levelAvailable, available, available_false hv]
  induction levels generalizing allocations remaining with
  | nil => rfl
  | cons level levels ih =>
    unfold LiquiditySweep.sweep
    split_ifs
    · simp only [LiquiditySweep.sweepLevel, hlevel, le_refl, ↓reduceIte]
      exact ih _ _
    · exact ih _ _
    · rfl

theorem liquiditySweep_silent (hs : ¬Slices (.liquiditySweep minSlice) order nbbo venues now) :
    LiquiditySweep.route P minSlice order nbbo book venues = {} := by
  unfold LiquiditySweep.route
  split_ifs with hclosed hleaves
  · rfl
  · rfl
  · have hvalid : nbbo.valid = true := by
      simpa using (not_or.mp hclosed).2
    have hkept : ∀ a ∈ LiquiditySweep.sweep P minSlice venues (book.opposite order.side) [] order.leavesQty,
        a.total < minSlice := by
      by_cases hv : SomeAvailable venues
      · have hdust : order.leavesQty < minSlice := not_le.mp fun hle => hs ⟨hvalid, hv, hle⟩
        obtain ⟨hn, hsum⟩ := LiquiditySweep.sweep_total P minSlice venues [] (book.opposite order.side)
          (not_le.mp hleaves).le (by simp)
        intro a ha
        have hle : a.total ≤ Ledger.sum _ := List.single_le_sum
          (by simpa using hn) a.total (List.mem_map.mpr ⟨a, ha, rfl⟩)
        rw [Ledger.sum_nil, zero_add] at hsum
        omega
      · rw [sweep_of_unavailable hv]
        simp
    have hnone : ((P.iterate (LiquiditySweep.sweep P minSlice venues (book.opposite order.side) []
        order.leavesQty)).filter fun a => !decide (a.total < minSlice)) = [] := by
      apply List.filter_eq_nil_iff.mpr
      intro a ha
      simpa using hkept a (P.mem_iterate.mp ha)
    have hperm := sortSlices_perm P order.side []
    simp only [Allocations.decision, hnone, List.take_nil, List.map_nil]
    rw [hperm.eq_nil]

theorem vwap_scan_of_unavailable (hv : ¬SomeAvailable venues) (levels : List AggregatedLevel) :
    v.scan P side venues levels none = none := by
  have hlevel (price : ℤ) (vqs : List VenueQuantity) :
      vqs.foldl (Vwap.consider P side venues price) none = none := by
    induction vqs with
    | nil => rfl
    | cons vq vqs ih =>
      have hskip : Vwap.consider P side venues price none vq = none := by
        simp [Vwap.consider, available_false hv]
      rw [List.foldl_cons, hskip, ih]
  induction levels with
  | nil => rfl
  | cons level levels ih =>
    unfold Vwap.scan
    simp [hlevel, ih]

theorem vwap_silent (hs : ¬Slices (.vwap v) order nbbo venues now) {progressNow : ℤ} :
    (v.route P order nbbo book venues now progressNow).2 = {} := by
  unfold Vwap.route Vwap.getNextSlice
  simp only
  split_ifs with hclosed hquantity
  · rfl
  · rfl
  · obtain ⟨hopen, -, hvalid⟩ : _ ∧ _ ∧ _ := by simpa only [not_or] using hclosed
    have hv : ¬SomeAvailable venues := by
      intro hv
      refine hs ⟨by simpa using hvalid, hv, by simpa using hopen, ?_⟩
      unfold Vwap.computeSliceQuantity at hquantity
      by_contra hnone
      rw [if_pos] at hquantity
      · exact hquantity le_rfl
      · rw [not_and_or, not_not, not_lt] at hnone
        exact hnone
    rw [vwap_scan_of_unavailable hv]

end Silent

section Split

def shownAt (k : ℕ) (quantity : ℤ) : AggregatedLevel where
  price := priceScale
  totalQuantity := quantity
  venueBreakdown := [⟨k, quantity⟩]
  fits := by simp [maxLevelVenues]

def oneVenue (k : ℕ) (quantity : ℤ) : AggregatedBook where
  bids := [shownAt k quantity]
  asks := [shownAt k quantity]
  bidsFit := by simp [maxDepth]
  asksFit := by simp [maxDepth]

@[simp] theorem oneVenue_opposite (k : ℕ) (quantity : ℤ) (side : Side) :
    (oneVenue k quantity).opposite side = [shownAt k quantity] := by
  cases side <;> rfl

theorem shownAt_displayed {k : ℕ} {quantity : ℤ} (hq : 0 < quantity) : (shownAt k quantity).displayed :=
  ⟨by simp [shownAt, priceScale, invalidPrice], hq⟩

theorem sortSlices_single (s : Slice) : sortSlices .exact side [s] = [s] := by
  cases side <;> rfl

theorem someAvailable_findScore (hv : SomeAvailable venues) : ∃ k vs, findScore venues k = some vs := by
  obtain ⟨vs, hvs, havailable⟩ := hv
  refine ⟨vs.venueId, ?_⟩
  have hsome : (findScore venues vs.venueId).isSome := by
    unfold findScore
    rw [List.find?_isSome]
    exact ⟨vs, hvs, by simp [havailable]⟩
  exact Option.isSome_iff_exists.mp hsome

theorem isEmpty_of_findScore {k : ℕ} {vs : VenueScore} (hfound : findScore venues k = some vs) :
    venues.isEmpty = false := by
  cases venues with
  | nil => cases hfound
  | cons vs venues => rfl

theorem liquiditySweep_slices {k : ℕ} {vs : VenueScore} (hfound : findScore venues k = some vs)
    (hvalid : nbbo.valid = true) (hl : 0 < order.leavesQty) (hm : minSlice ≤ order.leavesQty) :
    (LiquiditySweep.route .exact minSlice order nbbo (oneVenue k order.leavesQty) venues).slices =
      [⟨k, priceScale, order.leavesQty, .limit, .ioc⟩] := by
  have havailable : available venues k = true := by simp [available, hfound]
  have htotal : LiquiditySweep.levelAvailable venues (shownAt k order.leavesQty) = order.leavesQty := by
    simp [LiquiditySweep.levelAvailable, shownAt, havailable, hl]
  have hshare : LiquiditySweep.venueShare .exact order.leavesQty order.leavesQty order.leavesQty 0 =
      order.leavesQty := LiquiditySweep.venueShare_whole 0 hl (by omega)
  have hallocate : LiquiditySweep.allocate .exact minSlice venues priceScale order.leavesQty order.leavesQty
      [⟨k, order.leavesQty⟩] ([], 0) = ([⟨k, priceScale, order.leavesQty⟩], order.leavesQty) := by
    simp [LiquiditySweep.allocate, hl, hl.not_ge, havailable, hshare, Ledger.add]
  have hsweep : LiquiditySweep.sweep .exact minSlice venues [shownAt k order.leavesQty] [] order.leavesQty =
      [⟨k, priceScale, order.leavesQty⟩] := by
    unfold LiquiditySweep.sweep
    rw [if_pos hl, if_pos (shownAt_displayed hl)]
    simp only [LiquiditySweep.sweepLevel, htotal, hl.not_ge, ↓reduceIte, min_self]
    simp only [shownAt, hallocate, LiquiditySweep.assignRemainder, lt_irrefl, false_and, ↓reduceIte,
      LiquiditySweep.sweep]
  unfold LiquiditySweep.route
  rw [if_neg (by simp [isEmpty_of_findScore hfound, hvalid]), if_neg hl.not_ge, oneVenue_opposite, hsweep]
  simp [Allocations.decision, Platform.exact, hm.not_gt, maxSlices]
  exact sortSlices_single _

theorem vwap_slices (progressNow : ℤ) {k : ℕ} {vs : VenueScore} (hfound : findScore venues k = some vs)
    (hs : Slices (.vwap v) order nbbo venues now) (hl : 0 < order.leavesQty) :
    ∃ q, ((v.route .exact order nbbo (oneVenue k order.leavesQty) venues now progressNow).2).slices =
      [⟨k, priceScale, q, .limit, .ioc⟩] := by
  obtain ⟨hvalid, -, hopen, htotal, hnum⟩ := hs
  have hremaining : 0 < (v.scheduled order now).remaining := by
    simp only [Vwap.isComplete, Vwap.remaining, decide_eq_false_iff_not] at hopen ⊢
    omega
  have hquantity : 0 < (v.scheduled order now).computeSliceQuantity .exact progressNow := by
    unfold Vwap.computeSliceQuantity
    rw [if_neg (by simp [htotal, hnum]), if_neg hremaining.not_ge]
    exact lt_of_lt_of_le one_pos (le_max_left _ _)
  have hconsider : ∃ quality, Vwap.consider .exact order.side venues priceScale none ⟨k, order.leavesQty⟩ =
      some ⟨k, priceScale, quality⟩ := by
    simp [Vwap.consider, hl.not_ge, hfound, Vwap.isBetter]
  obtain ⟨quality, hbest⟩ := hconsider
  have hscan : (v.scheduled order now).scan .exact order.side venues [shownAt k order.leavesQty] none =
      some ⟨k, priceScale, quality⟩ := by
    unfold Vwap.scan
    rw [if_pos (shownAt_displayed hl)]
    simp [shownAt, hbest, Vwap.scan]
  refine ⟨(v.scheduled order now).computeSliceQuantity .exact progressNow, ?_⟩
  unfold Vwap.route Vwap.getNextSlice
  simp only [oneVenue_opposite, hscan]
  rw [if_neg (by simp [hopen, isEmpty_of_findScore hfound, hvalid]), if_neg hquantity.not_ge]

end Split

/-- Two of the four strategies look at the time in force. The other two cut immediate-or-cancel slices
whenever the book has something to cut. -/
theorem fok_whole_iff (strategy : Strategy) (order : Order) (input : RouteInput) (venues : List VenueScore)
    (hf : IsFok order) (hl : 0 < order.leavesQty) :
    (∀ (P : Platform) (book : AggregatedBook),
      WholeOrNothing order (strategy.route P order { input with book := book } venues).2) ↔
    ¬Slices strategy order input.nbbo venues input.beginNow := by
  constructor
  · intro hwhole hs
    obtain ⟨k, vs, hfound⟩ := someAvailable_findScore hs.2.1
    have hsplit : ∀ q, ¬WholeOrNothing order ⟨[⟨k, priceScale, q, .limit, .ioc⟩]⟩ := by
      rintro q (hnil | ⟨s, hs, -, hmark⟩)
      · cases hnil
      · obtain rfl := List.singleton_inj.mp hs
        rcases hmark with hmark | hmark <;> cases hmark
    have hbook := hwhole .exact (oneVenue k order.leavesQty)
    cases strategy with
    | bestPrice => exact hs.2.2
    | smartIoc ticks => exact hs.2.2
    | liquiditySweep minSlice =>
      have hslices := liquiditySweep_slices hfound hs.1 hl hs.2.2
      apply hsplit order.leavesQty
      rw [← hslices]
      exact hbook
    | vwap v =>
      obtain ⟨q, hslices⟩ := vwap_slices input.progressNow hfound hs hl
      apply hsplit q
      rw [← hslices]
      exact hbook
  · intro hs P book
    cases strategy with
    | bestPrice => exact bestPrice_whole hf
    | smartIoc ticks => exact smartIoc_whole hf
    | liquiditySweep minSlice => exact .inl (congrArg RoutingDecision.slices (liquiditySweep_silent hs))
    | vwap v => exact .inl (congrArg RoutingDecision.slices (vwap_silent hs))

def fokTen (strategy : RoutingStrategy) : Order :=
  { id := 1, symbol := .assign [65], price := 101 * priceScale, quantity := 10, tif := .fok, strategy := strategy }

def quote : RouteInput where
  riskSecond := 0
  beginNow := 0
  progressNow := 0
  nbbo := { bestBid := 1, bestBidQty := 1, bestAsk := 2, bestAskQty := 1 }
  book := {}

def bothVenues : List VenueScore := [{ venueId := 1 }, { venueId := 2 }]

theorem fok_whole_bestPrice : IsFok (fokTen .bestPrice) ∧ ∀ (P : Platform) (book : AggregatedBook),
    WholeOrNothing (fokTen .bestPrice)
      (Strategy.bestPrice.route P (fokTen .bestPrice) { quote with book := book } bothVenues).2 :=
  ⟨.inl rfl, (fok_whole_iff .bestPrice (fokTen .bestPrice) quote bothVenues (.inl rfl) (by decide)).mpr
    fun hs => hs.2.2⟩

def fiveEach : AggregatedBook where
  asks := [{ price := 101 * priceScale, totalQuantity := 10, venueBreakdown := [⟨1, 5⟩, ⟨2, 5⟩] }]

theorem fok_split :
    ((Strategy.liquiditySweep 1).route .exact (fokTen .liquiditySweep) { quote with book := fiveEach }
        bothVenues).2.slices =
      [⟨1, 101 * priceScale, 5, .limit, .ioc⟩, ⟨2, 101 * priceScale, 5, .limit, .ioc⟩] ∧
      IsFok (fokTen .liquiditySweep) ∧ 0 < (fokTen .liquiditySweep).leavesQty ∧
      ¬WholeOrNothing (fokTen .liquiditySweep) ((Strategy.liquiditySweep 1).route .exact
        (fokTen .liquiditySweep) { quote with book := fiveEach } bothVenues).2 := by
  have hslices : ((Strategy.liquiditySweep 1).route .exact (fokTen .liquiditySweep)
      { quote with book := fiveEach } bothVenues).2.slices =
      [⟨1, 101 * priceScale, 5, .limit, .ioc⟩, ⟨2, 101 * priceScale, 5, .limit, .ioc⟩] := by
    decide +kernel
  refine ⟨hslices, .inl rfl, by decide, ?_⟩
  unfold WholeOrNothing
  rw [hslices]
  simp

end Klett.Sor.FillOrKill

import Klett.Lib.Grouped
import Klett.Sor.Nbbo

namespace Klett.Sor

open Klett.Lib

def TaggedLevel.share (tl : TaggedLevel) : VenueQuantity := ⟨tl.venueId, tl.quantity⟩

namespace MarketDataAggregator

section Merging

variable {side : Side} {level : AggregatedLevel} {tl : TaggedLevel} {tls : List TaggedLevel}
  {groups : List (ℤ × List TaggedLevel)}

def tagWorth (side : Side) (tl : TaggedLevel) : ℤ := worth side tl.price

def levelOf (side : Side) (g : ℤ × List TaggedLevel) : AggregatedLevel :=
  addAll { price := worth side g.1, venueBreakdown := [], fits := Nat.zero_le maxLevelVenues } g.2

theorem levelOf_price (g : ℤ × List TaggedLevel) : (levelOf side g).price = worth side g.1 := addAll_price _

theorem levelOf_addVenue (g : ℤ × List TaggedLevel) :
    (levelOf side g).addVenue tl.venueId tl.quantity = levelOf side (g.1, g.2 ++ [tl]) := by
  unfold levelOf addAll
  rw [List.foldl_append]
  rfl

theorem levelOf_first (side : Side) (tl : TaggedLevel) : AggregatedLevel.addVenue { price := tl.price } tl.venueId
    tl.quantity = levelOf side (tagWorth side tl, [tl]) := by
  unfold levelOf addAll tagWorth
  rw [worth_worth]
  rfl

/-- The loop of the merge gathers the levels by price. -/
theorem mergeLevels_gather : mergeLevels tls (groups.map (levelOf side)) =
    (gather (tagWorth side) maxDepth tls groups).map (levelOf side) := by
  induction tls generalizing groups with
  | nil =>
    unfold mergeLevels gather
    rfl
  | cons tl tls ih =>
    cases groups with
    | nil =>
      unfold gather
      rw [← ih, List.map_nil, mergeLevels, levelOf_first side]
      rfl
    | cons g groups =>
      have hprice : (levelOf side g).price = tl.price ↔ g.1 = tagWorth side tl := by
        rw [levelOf_price]
        unfold tagWorth
        constructor
        · rintro h
          rw [← h, worth_worth]
        · rintro h
          rw [h, worth_worth]
      have hlength : (levelOf side g :: groups.map (levelOf side)).length = (g :: groups).length := by simp
      rw [List.map_cons]
      unfold mergeLevels gather
      simp only [hprice, hlength, ge_iff_le]
      split_ifs with hsame hfull
      · rw [levelOf_addVenue, ← List.map_cons]
        exact ih
      · rfl
      · rw [levelOf_first side, ← List.map_cons, ← List.map_cons]
        exact ih

theorem merge_eq (side : Side) (sorted : List TaggedLevel) :
    merge sorted = (gather (tagWorth side) maxDepth sorted []).reverse.map (levelOf side) := by
  unfold merge
  rw [List.map_reverse, ← mergeLevels_gather]
  rfl

theorem addAll_venueBreakdown (h : level.venueBreakdown.length + tls.length ≤ maxLevelVenues) :
    (addAll level tls).venueBreakdown = level.venueBreakdown ++ tls.map TaggedLevel.share := by
  induction tls generalizing level with
  | nil => simp [addAll]
  | cons tl tls ih =>
    rw [List.length_cons] at h
    have hroom : level.venueBreakdown.length < maxLevelVenues := by omega
    have hadd : (level.addVenue tl.venueId tl.quantity).venueBreakdown = level.venueBreakdown ++ [tl.share] := by
      rw [addVenue_of_room hroom]
      rfl
    have hnext := @ih (level.addVenue tl.venueId tl.quantity) (by
      rw [hadd, List.length_append, List.length_singleton]
      omega)
    rw [hadd, List.append_assoc] at hnext
    exact hnext

end Merging

section Shares

variable {side : Side} {s : BookSide} {p : ℤ} {v : ℕ} {venues : List ℕ} {sideOf : ℕ → BookSide}

def shownAt (s : BookSide) (p : ℤ) : ℤ := ((s.levels.filter fun lvl => p = lvl.price).map PriceLevel.quantity).sum

def Quotes (s : BookSide) (p : ℤ) : Prop := ∃ lvl ∈ s.levels, p = lvl.price

instance : Decidable (Quotes s p) := inferInstanceAs (Decidable (∃ lvl ∈ s.levels, _))

structure Listing (side : Side) (s : BookSide) : Prop where
  strict : s.levels.Pairwise fun a b => worth side b.price < worth side a.price
  valid : ∀ lvl ∈ s.levels, lvl.valid

theorem Listing.sorted (h : Listing side s) : Sorted side s := by
  refine ⟨h.strict, fun lvl hlvl => ?_⟩
  have hvalid := h.valid lvl hlvl
  simp only [PriceLevel.valid, decide_eq_true_eq] at hvalid
  exact hvalid.2

theorem Listing.validLevels (h : Listing side s) : validLevels s = s.levels := List.filter_eq_self.mpr h.valid

theorem Listing.filter_price (h : Listing side s) (p : ℤ) : (s.levels.filter fun lvl => p = lvl.price) =
    if Quotes s p then [⟨p, shownAt s p⟩] else [] := by
  have hone := filter_price_length h.sorted p
  rw [h.validLevels] at hone
  unfold shownAt
  cases hat : s.levels.filter fun lvl => p = lvl.price with
  | nil =>
    rw [if_neg]
    rintro ⟨lvl, hlvl, hprice⟩
    exact List.filter_eq_nil_iff.mp hat lvl hlvl (decide_eq_true hprice)
  | cons lvl rest =>
    have hmem : lvl ∈ s.levels.filter fun lvl => p = lvl.price := by
      rw [hat]
      exact List.mem_cons_self
    obtain ⟨hlvl, hprice⟩ := List.mem_filter.mp hmem
    have hrest : rest = [] := by
      rw [hat, List.length_cons] at hone
      exact List.eq_nil_of_length_eq_zero (by omega)
    rw [if_pos ⟨lvl, hlvl, of_decide_eq_true hprice⟩, hrest, of_decide_eq_true hprice]
    simp

def tagged (v : ℕ) (lvl : PriceLevel) : TaggedLevel := ⟨lvl.price, lvl.quantity, v⟩

theorem Listing.shares (h : Listing side s) (v : ℕ) (k : ℤ) :
    ((s.levels.map (tagged v)).filter fun tl => tagWorth side tl = k).map TaggedLevel.share =
      if Quotes s (worth side k) then [⟨v, shownAt s (worth side k)⟩] else [] := by
  have hkey (lvl : PriceLevel) : tagWorth side (tagged v lvl) = k ↔ worth side k = lvl.price := by
    unfold tagWorth tagged
    constructor
    · rintro rfl
      exact worth_worth _ _
    · intro hprice
      rw [← hprice, worth_worth]
  rw [List.filter_map]
  simp only [Function.comp_def, hkey]
  rw [h.filter_price]
  split_ifs <;> rfl

def sharesAt (sideOf : ℕ → BookSide) (venues : List ℕ) (p : ℤ) : List VenueQuantity :=
  (venues.filter fun v => Quotes (sideOf v) p).map fun v => ⟨v, shownAt (sideOf v) p⟩

theorem shares_flatMap (h : ∀ v ∈ venues, Listing side (sideOf v)) (k : ℤ) :
    ((venues.flatMap fun v => (sideOf v).levels.map (tagged v)).filter fun tl => tagWorth side tl = k).map
      TaggedLevel.share = sharesAt sideOf venues (worth side k) := by
  unfold sharesAt
  induction venues with
  | nil => rfl
  | cons v venues ih =>
    obtain ⟨hv, hvenues⟩ := List.forall_mem_cons.mp h
    rw [List.flatMap_cons, List.filter_append, List.map_append, hv.shares, ih hvenues, List.filter_cons]
    split_ifs with hquotes hquotes' hquotes'
    · rfl
    · simp [hquotes] at hquotes'
    · simp [hquotes] at hquotes'
    · rfl

theorem shownAt_eq_zero (h : ¬Quotes s p) : shownAt s p = 0 := by
  have hnone : (s.levels.filter fun lvl => p = lvl.price) = [] :=
    List.filter_eq_nil_iff.mpr fun lvl hlvl hprice => h ⟨lvl, hlvl, of_decide_eq_true hprice⟩
  unfold shownAt
  rw [hnone]
  rfl

theorem sharesAt_total : ((sharesAt sideOf venues p).map VenueQuantity.quantity).sum =
    (venues.map fun v => shownAt (sideOf v) p).sum := by
  unfold sharesAt
  induction venues with
  | nil => rfl
  | cons v venues ih =>
    rw [List.map_cons, List.sum_cons, ← ih, List.filter_cons]
    split_ifs with hquotes
    · rfl
    · rw [shownAt_eq_zero (by simpa using hquotes), zero_add]

theorem sharesAt_venues : (sharesAt sideOf venues p).map VenueQuantity.venueId =
    venues.filter fun v => Quotes (sideOf v) p := by
  unfold sharesAt
  rw [List.map_map]
  exact List.map_id _

theorem sharesAt_length : (sharesAt sideOf venues p).length ≤ venues.length := by
  unfold sharesAt
  rw [List.length_map]
  exact List.length_filter_le _ _

end Shares

section Correctness

variable {side : Side} {venues : List ℕ} {sideOf : ℕ → BookSide}

/-- The best prices of the venues' books, each with what the venues show at it. -/
structure Aggregates (side : Side) (venues : List ℕ) (sideOf : ℕ → BookSide) (levels : List AggregatedLevel) :
    Prop where
  fits : levels.length ≤ maxDepth
  strict : levels.Pairwise fun a b => worth side b.price < worth side a.price
  quoted : ∀ level ∈ levels, ∃ v ∈ venues, Quotes (sideOf v) level.price
  best : ∀ v ∈ venues, ∀ lvl ∈ (sideOf v).levels, (∃ level ∈ levels, level.price = lvl.price) ∨
    levels.length = maxDepth ∧ ∀ level ∈ levels, worth side lvl.price < worth side level.price
  total : ∀ level ∈ levels, level.totalQuantity = (venues.map fun v => shownAt (sideOf v) level.price).sum
  breakdown : ∀ level ∈ levels, (level.venueBreakdown.map VenueQuantity.quantity).sum = level.totalQuantity
  shares : ∀ level ∈ levels, ∀ share ∈ level.venueBreakdown,
    share.quantity = shownAt (sideOf share.venueId) level.price
  once : ∀ level ∈ levels, (level.venueBreakdown.map VenueQuantity.venueId).Nodup
  contributors : ∀ level ∈ levels, ∀ v, v ∈ level.venueBreakdown.map VenueQuantity.venueId ↔
    v ∈ venues ∧ Quotes (sideOf v) level.price

structure Registered (md : MarketDataAggregator) (symbol : Symbol) : Prop where
  once : md.venues.Nodup
  few : md.venues.length ≤ maxLevelVenues
  listing : ∀ v ∈ md.venues, ∀ side, Listing side (md.venueSide symbol side v)

variable {md : MarketDataAggregator} {symbol : Symbol} {P : Platform} {sorted : List TaggedLevel}
  {g : ℤ × List TaggedLevel} {levels : List AggregatedLevel}

structure Holds (venues : List ℕ) (sideOf : ℕ → BookSide) (level : AggregatedLevel) : Prop where
  shares : level.venueBreakdown.Perm (sharesAt sideOf venues level.price)
  breakdown : (level.venueBreakdown.map VenueQuantity.quantity).sum = level.totalQuantity
  nonempty : level.venueBreakdown ≠ []

theorem levelOf_holds (hshares : (g.2.map TaggedLevel.share).Perm (sharesAt sideOf venues (worth side g.1)))
    (hfew : venues.length ≤ maxLevelVenues) (hne : g.2 ≠ []) : Holds venues sideOf (levelOf side g) := by
  have hroom : g.2.length ≤ maxLevelVenues := by
    rw [← List.length_map TaggedLevel.share, hshares.length_eq]
    exact sharesAt_length.trans hfew
  have hbreakdown : (levelOf side g).venueBreakdown = g.2.map TaggedLevel.share := by
    refine (addAll_venueBreakdown (by simpa using hroom)).trans ?_
    exact List.nil_append _
  refine ⟨?_, ?_, ?_⟩
  · rw [hbreakdown, levelOf_price]
    exact hshares
  · refine Eq.trans ?_ (addAll_total (by simpa using hroom)).symm
    rw [hbreakdown, List.map_map, zero_add]
    rfl
  · rw [hbreakdown]
    simpa using hne

theorem aggregates_of_holds (hstrict : levels.Pairwise fun a b => worth side b.price < worth side a.price)
    (hfits : levels.length ≤ maxDepth) (hholds : ∀ level ∈ levels, Holds venues sideOf level) (honce : venues.Nodup)
    (hbest : ∀ v ∈ venues, ∀ lvl ∈ (sideOf v).levels, (∃ level ∈ levels, level.price = lvl.price) ∨
      levels.length = maxDepth ∧ ∀ level ∈ levels, worth side lvl.price < worth side level.price) :
    Aggregates side venues sideOf levels := by
  have hvenues (level : AggregatedLevel) (hlevel : level ∈ levels) :
      (level.venueBreakdown.map VenueQuantity.venueId).Perm (venues.filter fun v => Quotes (sideOf v) level.price) := by
    rw [← sharesAt_venues]
    exact (hholds level hlevel).shares.map _
  refine ⟨hfits, hstrict, ?_, hbest, ?_, fun level hlevel => (hholds level hlevel).breakdown, ?_, ?_, ?_⟩
  · intro level hlevel
    obtain ⟨share, hshare⟩ := List.exists_mem_of_ne_nil _ (hholds level hlevel).nonempty
    have hv := (hvenues level hlevel).mem_iff.mp (List.mem_map_of_mem hshare)
    obtain ⟨hv, hquotes⟩ := List.mem_filter.mp hv
    exact ⟨_, hv, of_decide_eq_true hquotes⟩
  · intro level hlevel
    obtain ⟨hshares, hbreakdown, -⟩ := hholds level hlevel
    rw [← hbreakdown, (hshares.map _).sum_eq, sharesAt_total]
  · intro level hlevel share hshare
    obtain ⟨v, -, rfl⟩ := List.mem_map.mp ((hholds level hlevel).shares.mem_iff.mp hshare)
    rfl
  · intro level hlevel
    exact (hvenues level hlevel).nodup_iff.mpr (honce.filter _)
  · intro level hlevel v
    rw [(hvenues level hlevel).mem_iff, List.mem_filter, decide_eq_true_eq]

theorem taggedLevels_registered (h : Registered md symbol) : md.taggedLevels symbol (bookSide side) =
    md.venues.flatMap fun v => (md.venueSide symbol side v).levels.map (tagged v) := by
  rw [taggedLevels_eq]
  refine List.flatMap_congr fun v hv => ?_
  rw [(h.listing v hv side).validLevels]
  rfl

/-- Each side of the aggregated book lists the best prices of the registered venues, with all that
each of them shows there. -/
theorem aggregatedBook_aggregates (md : MarketDataAggregator) (P : Platform) (symbol : Symbol) (side : Side)
    (h : Registered md symbol) :
    Aggregates side md.venues (md.venueSide symbol side) (md.aggregatedSide P symbol side) := by
  obtain ⟨sorted, heq, hperm, hpair⟩ := aggregatedSide_eq md symbol side P
  have hgrouped := grouped_gather (tagWorth side) maxDepth (by decide) hpair
  rw [taggedLevels_registered h] at hperm
  have hlength := merge_length sorted
  rw [heq]
  rw [merge_eq side] at hlength ⊢
  generalize (gather (tagWorth side) maxDepth sorted []).reverse = groups at hgrouped hlength ⊢
  apply aggregates_of_holds
  · refine List.pairwise_map.mpr (hgrouped.strict.imp fun hlt => ?_)
    rw [levelOf_price, levelOf_price, worth_worth, worth_worth]
    exact hlt
  · exact hlength
  · intro level hlevel
    obtain ⟨g, hg, rfl⟩ := List.mem_map.mp hlevel
    obtain ⟨hmembers, hne⟩ := hgrouped.members g hg
    refine levelOf_holds ?_ h.few hne
    rw [hmembers, ← shares_flatMap fun v hv => h.listing v hv side]
    exact (hperm.filter _).map _
  · exact h.once
  · intro v hv lvl hlvl
    have hmem : tagged v lvl ∈ sorted :=
      hperm.mem_iff.mpr (List.mem_flatMap.mpr ⟨v, hv, List.mem_map_of_mem hlvl⟩)
    obtain ⟨g, hg, hkey⟩ | ⟨hfull, hbelow⟩ := hgrouped.complete _ hmem
    · refine .inl ⟨levelOf side g, List.mem_map_of_mem hg, ?_⟩
      rw [levelOf_price, hkey]
      exact worth_worth side lvl.price
    · refine .inr ⟨by rw [List.length_map]; exact hfull, fun level hlevel => ?_⟩
      obtain ⟨g, hg, rfl⟩ := List.mem_map.mp hlevel
      rw [levelOf_price, worth_worth]
      exact hbelow g hg

end Correctness

section Feed

variable {md : MarketDataAggregator} {call : FeedCall} {calls : List FeedCall}

/-- Books come in as strictly sorted sides of valid levels, for no more venues than a level has room for. -/
def FeedsListings (md : MarketDataAggregator) : FeedCall → Prop
  | .registerVenue venueId => (md.registerVenue venueId).venues.length ≤ maxLevelVenues
  | .onBookUpdate _ _ book => ∀ side, Listing side (bookSide side book)

structure Listed (md : MarketDataAggregator) : Prop where
  once : md.venues.Nodup
  few : md.venues.length ≤ maxLevelVenues
  listing : ∀ v symbol side, Listing side (md.venueSide symbol side v)

theorem Listed.next (h : Listed md) (ha : md.FeedsListings call) : Listed (md.next call) := by
  refine ⟨?_, ?_, fun v symbol side => ?_⟩
  · cases call with
    | registerVenue v =>
      change (md.registerVenue v).venues.Nodup
      unfold registerVenue
      split_ifs with hknown
      · exact h.once
      · exact List.nodup_append'.mpr ⟨h.once, List.nodup_singleton v, by simpa using hknown⟩
    | onBookUpdate v symbol book => exact h.once
  · cases call with
    | registerVenue v => exact ha
    | onBookUpdate v symbol book => exact h.few
  · obtain hside | ⟨book, rfl, hside⟩ := md.venueSide_next call v symbol side
    · rw [hside]
      exact h.listing v symbol side
    · rw [hside]
      exact ha side

theorem registered_of_run (h : Along next FeedsListings {} calls) (symbol : Symbol) :
    Registered (calls.foldl next {}) symbol := by
  have hstart : Listed {} :=
    ⟨List.nodup_nil, Nat.zero_le _, fun v symbol side => ⟨List.Pairwise.nil, List.forall_mem_nil _⟩⟩
  have hrun := h.foldl (I := Listed) hstart fun md call hlisted ha => hlisted.next ha
  exact ⟨hrun.once, hrun.few, fun v _ side => hrun.listing v symbol side⟩

def firstBook : OrderBook where
  bids := ⟨[⟨100, 10⟩, ⟨99, 20⟩], by decide⟩
  asks := ⟨[⟨101, 10⟩, ⟨103, 20⟩], by decide⟩

def secondBook : OrderBook where
  bids := ⟨[⟨99, 5⟩], by decide⟩
  asks := ⟨[⟨101, 7⟩, ⟨102, 30⟩], by decide⟩

def crossFeed : List FeedCall :=
  [.registerVenue 1, .registerVenue 2, .onBookUpdate 1 default firstBook, .onBookUpdate 2 default secondBook]

def crossFed : MarketDataAggregator := crossFeed.foldl next {}

theorem aggregatedBook_aggregates_two : Aggregates .sell [1, 2] (crossFed.venueSide default .sell)
    (crossFed.aggregatedSide .exact default .sell) := by
  have hfeed : Along next FeedsListings {} crossFeed := by
    refine ⟨Nat.le_of_ble_eq_true rfl, Nat.le_of_ble_eq_true rfl, fun side => ?_, fun side => ?_, trivial⟩
    · cases side with
      | buy => exact ⟨by decide, by decide⟩
      | sell => exact ⟨by decide, by decide⟩
    · cases side with
      | buy => exact ⟨by decide, by decide⟩
      | sell => exact ⟨by decide, by decide⟩
  exact aggregatedBook_aggregates crossFed .exact default .sell (registered_of_run hfeed default)

example : (crossFed.aggregatedSide .exact default .sell).map (fun level =>
    (level.price, level.totalQuantity, level.venueBreakdown.map VenueQuantity.venueId)) =
    [(101, 17, [1, 2]), (102, 30, [2]), (103, 20, [1])] := by decide

end Feed

end MarketDataAggregator

end Klett.Sor

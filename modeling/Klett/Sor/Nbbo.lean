import Klett.Lib.Machine
import Klett.Lib.Best
import Klett.Sor.MarketData

namespace Klett.Sor.MarketDataAggregator

open Klett.Lib

def bookSide : Side → OrderBook → BookSide
  | .buy => OrderBook.bids
  | .sell => OrderBook.asks

def worth : Side → ℤ → ℤ
  | .buy, price => price
  | .sell, price => -price

def keyed (side : Side) (lvl : PriceLevel) : ℤ × ℤ := (worth side lvl.price, lvl.quantity)

def shownTop (s : BookSide) : Option PriceLevel := s.levels.head?.filter fun lvl => lvl.price ≠ invalidPrice

def validLevels (s : BookSide) : List PriceLevel := s.levels.filter PriceLevel.valid

variable (md : MarketDataAggregator)

def venueSide (symbol : Symbol) (side : Side) (venueId : ℕ) : BookSide :=
  (md.venueBooks venueId symbol).elim {} (bookSide side)

def tops (symbol : Symbol) (side : Side) : List (ℤ × ℤ) :=
  md.venues.filterMap fun v => (shownTop (md.venueSide symbol side v)).map (keyed side)

def fronts (symbol : Symbol) (side : Side) : List (ℤ × ℤ) :=
  md.venues.filterMap fun v => ((validLevels (md.venueSide symbol side v)).head?).map (keyed side)

def allLevels (symbol : Symbol) (side : Side) : List (ℤ × ℤ) :=
  md.venues.flatMap fun v => (validLevels (md.venueSide symbol side v)).map (keyed side)

def nbboSide (nbbo : Nbbo) : Side → ℤ × ℤ
  | .buy => (nbbo.bestBid, nbbo.bestBidQty)
  | .sell => (nbbo.bestAsk, nbbo.bestAskQty)

def quoted (side : Side) : Option (ℤ × ℤ) → ℤ × ℤ
  | none => (invalidPrice, 0)
  | some b => (worth side b.1, b.2)

def firstLevel (levels : List AggregatedLevel) : ℤ × ℤ :=
  levels.head?.elim (invalidPrice, 0) fun level => (level.price, level.totalQuantity)

def aggregatedSide (P : Platform) (symbol : Symbol) : Side → List AggregatedLevel
  | .buy => (md.getAggregatedBook P symbol).bids
  | .sell => (md.getAggregatedBook P symbol).asks

def Agrees (P : Platform) (symbol : Symbol) (side : Side) : Prop :=
  nbboSide (md.getNbbo symbol) side = firstLevel (md.aggregatedSide P symbol side) ∧
    ((nbboSide (md.getNbbo symbol) side).1 = invalidPrice ↔ md.aggregatedSide P symbol side = [])

/-- A side of a book as venues send it: strictly sorted, with positive quantities. -/
structure Sorted (side : Side) (s : BookSide) : Prop where
  strict : s.levels.Pairwise fun a b => worth side b.price < worth side a.price
  positive : ∀ lvl ∈ s.levels, 0 < lvl.quantity

@[simp] theorem worth_worth (side : Side) (p : ℤ) : worth side (worth side p) = p := by
  cases side
  · rfl
  · exact neg_neg p

section Recalculated

variable {side : Side} {nbbo : Nbbo} {b : Option (ℤ × ℤ)}

theorem shownTop_cases (s : BookSide) :
    (shownTop s = none ∧ (s.empty = true ∨ s.best.price = invalidPrice)) ∨
      shownTop s = some s.best ∧ s.empty = false ∧ s.best.price ≠ invalidPrice := by
  unfold shownTop BookSide.empty BookSide.best
  cases s.levels with
  | nil => simp
  | cons lvl levels =>
    by_cases h : lvl.price = invalidPrice <;> simp [h]

def improveSide : Side → OrderBook → ℕ → Nbbo → Nbbo
  | .buy => improveBid
  | .sell => improveAsk

def raise (side : Side) (q : ℤ × ℤ) (lvl : PriceLevel) : ℤ × ℤ :=
  if q.1 = invalidPrice ∨ worth side q.1 < worth side lvl.price then (lvl.price, lvl.quantity)
  else if lvl.price = q.1 then (q.1, q.2 + lvl.quantity)
  else q

theorem improveSide_self (book : OrderBook) (v : ℕ) : nbboSide (improveSide side book v nbbo) side =
    (shownTop (bookSide side book)).elim (nbboSide nbbo side) (raise side (nbboSide nbbo side)) := by
  obtain ⟨hnone, hinvalid⟩ | ⟨hsome, hopen, hprice⟩ := shownTop_cases (bookSide side book)
  · rw [hnone, Option.elim_none]
    cases side with
    | buy =>
      have hbid : book.bestBid = invalidPrice := by
        unfold OrderBook.bestBid
        rcases hinvalid with hempty | hprice
        · exact if_pos hempty
        · exact ite_eq_left_iff.mpr fun _ => hprice
      simp [improveSide, improveBid, hbid]
    | sell =>
      have hask : book.bestAsk = invalidPrice := by
        unfold OrderBook.bestAsk
        rcases hinvalid with hempty | hprice
        · exact if_pos hempty
        · exact ite_eq_left_iff.mpr fun _ => hprice
      simp [improveSide, improveAsk, hask]
  · rw [hsome, Option.elim_some]
    cases side with
    | buy =>
      have hbid : book.bestBid = book.bids.best.price := if_neg (by simpa [bookSide] using hopen)
      simp only [improveSide, improveBid, hbid, raise, nbboSide, bookSide, worth, gt_iff_lt] at hprice ⊢
      rw [if_neg hprice]
      split_ifs <;> simp_all
    | sell =>
      have hask : book.bestAsk = book.asks.best.price := if_neg (by simpa [bookSide] using hopen)
      simp only [improveSide, improveAsk, hask, raise, nbboSide, bookSide, worth, neg_lt_neg_iff] at hprice ⊢
      rw [if_neg hprice]
      split_ifs <;> simp_all

theorem nbboSide_improveBid (book : OrderBook) (v : ℕ) :
    nbboSide (improveBid book v nbbo) .sell = nbboSide nbbo .sell := by
  unfold improveBid
  simp only
  split_ifs <;> rfl

theorem nbboSide_improveAsk (book : OrderBook) (v : ℕ) :
    nbboSide (improveAsk book v nbbo) .buy = nbboSide nbbo .buy := by
  unfold improveAsk
  simp only
  split_ifs <;> rfl

theorem nbboSide_venue (book : OrderBook) (v : ℕ) :
    nbboSide (improveAsk book v (improveBid book v nbbo)) side =
      nbboSide (improveSide side book v nbbo) side := by
  cases side with
  | buy => exact nbboSide_improveAsk book v
  | sell =>
    change nbboSide (improveSide .sell book v _) .sell = _
    rw [improveSide_self, improveSide_self, nbboSide_improveBid]

/-- `INVALID_PRICE` stands for no price, and no venue shows it. -/
structure Represents (side : Side) (q : ℤ × ℤ) (b : Option (ℤ × ℤ)) : Prop where
  shows : q = quoted side b
  real : ∀ x ∈ b, worth side x.1 ≠ invalidPrice

theorem Represents.raised {q : ℤ × ℤ} {lvl : PriceLevel} (h : Represents side q b)
    (hprice : lvl.price ≠ invalidPrice) :
    Represents side (raise side q lvl) (improve b (keyed side lvl)) := by
  obtain ⟨rfl, hreal⟩ := h
  cases b with
  | none =>
    refine ⟨?_, ?_⟩
    · simp [raise, quoted, improve, keyed]
    · rintro x ⟨⟩
      simpa [keyed] using hprice
  | some x =>
    have hx : worth side x.1 ≠ invalidPrice := hreal x rfl
    by_cases hlt : x.1 < worth side lvl.price
    · have hbest : improve (some x) (keyed side lvl) = some (keyed side lvl) := if_pos hlt
      have hraise : raise side (quoted side (some x)) lvl = (lvl.price, lvl.quantity) :=
        if_pos (.inr (by simpa [quoted] using hlt))
      rw [hbest, hraise]
      exact ⟨by simp [quoted, keyed], by rintro y ⟨⟩; simpa [keyed] using hprice⟩
    · have hno : ¬((quoted side (some x)).1 = invalidPrice ∨
          worth side (quoted side (some x)).1 < worth side lvl.price) := by
        simpa [quoted, hx] using hlt
      by_cases heq : lvl.price = worth side x.1
      · have hkey : worth side lvl.price = x.1 := by rw [heq, worth_worth]
        have hbest : improve (some x) (keyed side lvl) = some (x.1, x.2 + lvl.quantity) :=
          (if_neg hlt).trans (if_pos hkey)
        have hraise : raise side (quoted side (some x)) lvl =
            (worth side x.1, x.2 + lvl.quantity) := (if_neg hno).trans (if_pos heq)
        rw [hbest, hraise]
        exact ⟨rfl, by rintro y ⟨⟩; exact hx⟩
      · have hkey : worth side lvl.price ≠ x.1 := fun h => heq (by rw [← h, worth_worth])
        have hbest : improve (some x) (keyed side lvl) = some x := (if_neg hlt).trans (if_neg hkey)
        have hraise : raise side (quoted side (some x)) lvl = quoted side (some x) :=
          (if_neg hno).trans (if_neg heq)
        rw [hbest, hraise]
        exact ⟨rfl, by rintro y ⟨⟩; exact hx⟩

variable (md : MarketDataAggregator) (symbol : Symbol)

theorem bestAcrossVenues_represents (side : Side) :
    Represents side (nbboSide (md.bestAcrossVenues symbol) side) (best (md.tops symbol side)) := by
  unfold bestAcrossVenues tops
  induction md.venues using List.reverseRecOn with
  | nil => exact ⟨by cases side <;> rfl, by rintro x ⟨⟩⟩
  | append_singleton vs v ih =>
    rw [List.foldl_append, List.filterMap_append, List.foldl_cons, List.foldl_nil]
    cases hbook : md.venueBooks v symbol with
    | none =>
      have hempty : shownTop (md.venueSide symbol side v) = none := by
        simp [venueSide, hbook, shownTop]
      simpa [hempty] using ih
    | some book =>
      have hside : md.venueSide symbol side v = bookSide side book := by simp [venueSide, hbook]
      simp only
      rw [nbboSide_venue, improveSide_self]
      obtain ⟨hnone, -⟩ | ⟨hsome, -, hprice⟩ := shownTop_cases (bookSide side book)
      · simpa [hside, hnone] using ih
      · rw [hsome, Option.elim_some]
        have hlast : [v].filterMap (fun v => (shownTop (md.venueSide symbol side v)).map (keyed side)) =
            [keyed side (bookSide side book).best] := by simp [hside, hsome]
        rw [hlast, best_concat]
        exact ih.raised hprice

end Recalculated

section Merged

variable {side : Side} {rest sorted : List TaggedLevel} {level : AggregatedLevel} {out : List AggregatedLevel}

def tagKey (side : Side) (tl : TaggedLevel) : ℤ × ℤ := (worth side tl.price, tl.quantity)

def addAll (level : AggregatedLevel) (tls : List TaggedLevel) : AggregatedLevel :=
  tls.foldl (fun l tl => l.addVenue tl.venueId tl.quantity) level

theorem addVenue_price (v : ℕ) (q : ℤ) : (level.addVenue v q).price = level.price := by
  unfold AggregatedLevel.addVenue
  split_ifs <;> rfl

theorem addAll_price (tls : List TaggedLevel) : (addAll level tls).price = level.price := by
  induction tls generalizing level with
  | nil => rfl
  | cons tl tls ih => exact ih.trans (addVenue_price _ _)

theorem addVenue_of_room (hroom : level.venueBreakdown.length < maxLevelVenues) (v : ℕ) (q : ℤ) :
    level.addVenue v q = { level with
      venueBreakdown := level.venueBreakdown ++ [⟨v, q⟩]
      totalQuantity := level.totalQuantity + q
      fits := by rw [List.length_append]; exact hroom } := dif_pos hroom

theorem addAll_total {tls : List TaggedLevel} (h : level.venueBreakdown.length + tls.length ≤ maxLevelVenues) :
    (addAll level tls).totalQuantity = level.totalQuantity + (tls.map TaggedLevel.quantity).sum := by
  induction tls generalizing level with
  | nil => simp [addAll]
  | cons tl tls ih =>
    have hroom : level.venueBreakdown.length < maxLevelVenues := by
      rw [List.length_cons] at h
      omega
    have hadd := addVenue_of_room hroom tl.venueId tl.quantity
    have hnext := @ih (level.addVenue tl.venueId tl.quantity) (by
      rw [hadd]
      simp only [List.length_append, List.length_cons, List.length_nil] at h ⊢
      omega)
    rw [List.map_cons, List.sum_cons, ← add_assoc]
    apply hnext.trans
    rw [hadd]

theorem mergeLevels_getLast (hne : out ≠ []) : (mergeLevels rest (level :: out)).getLast? = out.getLast? := by
  have hlast (l : AggregatedLevel) : (l :: out).getLast? = out.getLast? := List.getLast?_cons_of_ne_nil hne
  induction rest generalizing level out with
  | nil => exact hlast level
  | cons tl rest ih =>
    unfold mergeLevels
    split_ifs
    · exact ih hne hlast
    · exact hlast level
    · rw [ih (List.cons_ne_nil _ _) fun l => List.getLast?_cons_of_ne_nil (List.cons_ne_nil _ _)]
      exact hlast level

theorem mergeLevels_first : (mergeLevels rest [level]).getLast? =
    some (addAll level (rest.takeWhile fun tl => level.price = tl.price)) := by
  induction rest generalizing level with
  | nil => rfl
  | cons tl rest ih =>
    unfold mergeLevels
    by_cases hsame : level.price = tl.price
    · rw [if_pos hsame, ih, addVenue_price, List.takeWhile_cons_of_pos (by simpa using hsame)]
      rfl
    · rw [if_neg hsame, if_neg (by simp [maxDepth]), mergeLevels_getLast (List.cons_ne_nil _ _),
        List.takeWhile_cons_of_neg (by simpa using hsame)]
      rfl

theorem worth_inj (side : Side) {p q : ℤ} (h : worth side p = worth side q) : p = q := by
  rw [← worth_worth side p, h, worth_worth]

theorem takeWhile_sorted {p : ℤ} (hs : sorted.Pairwise fun a b => worth side b.price ≤ worth side a.price)
    (hle : ∀ tl ∈ sorted, worth side tl.price ≤ worth side p) :
    sorted.takeWhile (fun tl => p = tl.price) = sorted.filter fun tl => p = tl.price := by
  induction sorted with
  | nil => rfl
  | cons tl rest ih =>
    obtain ⟨hhead, hrest⟩ := List.pairwise_cons.mp hs
    by_cases hsame : p = tl.price
    · rw [List.takeWhile_cons_of_pos (by simpa using hsame), List.filter_cons_of_pos (by simpa using hsame),
        ih hrest fun x hx => hle x (List.mem_cons_of_mem _ hx)]
    · rw [List.takeWhile_cons_of_neg (by simpa using hsame), List.filter_cons_of_neg (by simpa using hsame)]
      refine (List.filter_eq_nil_iff.mpr fun x hx => ?_).symm
      intro hback
      have hp : p = x.price := by simpa using hback
      refine hsame (worth_inj side (le_antisymm ?_ ?_))
      · rw [hp]
        exact hhead x hx
      · exact hle tl List.mem_cons_self

theorem firstLevel_merge (hs : sorted.Pairwise fun a b => worth side b.price ≤ worth side a.price)
    (hfew : ∀ p, (sorted.filter fun tl => p = tl.price).length ≤ maxLevelVenues) :
    firstLevel (merge sorted) = quoted side (best (sorted.map (tagKey side))) := by
  cases sorted with
  | nil => rfl
  | cons tl rest =>
    obtain ⟨hhead, hrest⟩ := List.pairwise_cons.mp hs
    have hstart : mergeLevels (tl :: rest) [] = mergeLevels rest [AggregatedLevel.addVenue { price := tl.price }
      tl.venueId tl.quantity] := rfl
    have hroom := hfew tl.price
    rw [List.filter_cons_of_pos (by simp), List.length_cons] at hroom
    have hfirst : (merge (tl :: rest)).head? = some (addAll (AggregatedLevel.addVenue { price := tl.price }
        tl.venueId tl.quantity) (rest.filter fun x => tl.price = x.price)) := by
      unfold merge
      rw [List.head?_reverse, hstart, mergeLevels_first, addVenue_price]
      simp only
      rw [takeWhile_sorted hrest hhead]
    have hone : AggregatedLevel.addVenue { price := tl.price } tl.venueId tl.quantity =
        { price := tl.price, totalQuantity := tl.quantity, venueBreakdown := [⟨tl.venueId, tl.quantity⟩]
          fits := by simp [maxLevelVenues] } := by
      simp [AggregatedLevel.addVenue, maxLevelVenues]
    have hbest : IsBest ((tl :: rest).map (tagKey side)) (worth side tl.price,
        tl.quantity + ((rest.filter fun x => tl.price = x.price).map TaggedLevel.quantity).sum) := by
      refine ⟨⟨tagKey side tl, by simp, rfl⟩, fun x hx => ?_, ?_⟩
      · obtain ⟨y, hy, rfl⟩ := List.mem_map.mp hx
        rcases List.mem_cons.mp hy with rfl | hy
        · exact le_rfl
        · exact hhead y hy
      · have hiff (y : TaggedLevel) : (tagKey side y).1 = worth side tl.price ↔ tl.price = y.price := by
          constructor
          · exact fun h => (worth_inj side h).symm
          · rintro h
            rw [tagKey, h]
        simp only [sumAt, List.filter_map, List.map_map, Function.comp_def, hiff]
        simp [tagKey]
    rw [firstLevel, hfirst, Option.elim_some, best_eq_some.mpr hbest, addAll_price, addVenue_price, quoted,
      worth_worth, addAll_total (by rw [hone]; simp only [List.length_cons, List.length_nil]; omega), hone]

end Merged

section Agreement

variable {md : MarketDataAggregator} {symbol : Symbol} {side : Side} {P : Platform}

theorem taggedLevels_eq : md.taggedLevels symbol (bookSide side) = md.venues.flatMap fun v =>
    (validLevels (md.venueSide symbol side v)).map fun lvl => ⟨lvl.price, lvl.quantity, v⟩ := by
  unfold taggedLevels
  congr 1
  funext v
  cases hbook : md.venueBooks v symbol with
  | none => simp [venueSide, hbook, validLevels]
  | some book => simp [venueSide, hbook, validLevels]

theorem taggedLevels_keyed : (md.taggedLevels symbol (bookSide side)).map (tagKey side) =
    md.allLevels symbol side := by
  rw [taggedLevels_eq, List.map_flatMap]
  simp only [List.map_map]
  rfl

variable (md symbol side P) in
theorem aggregatedSide_eq : ∃ sorted : List TaggedLevel, md.aggregatedSide P symbol side = merge sorted ∧
    sorted.Perm (md.taggedLevels symbol (bookSide side)) ∧
    sorted.Pairwise fun a b => worth side b.price ≤ worth side a.price := by
  cases side with
  | buy =>
    refine ⟨_, rfl, P.sort_perm _ _, (P.sort_sorted _ ?_ ?_).imp fun h => ?_⟩
    · intro a b h
      simp only [gt_iff_lt, decide_eq_true_eq, decide_eq_false_iff_not] at h ⊢
      omega
    · intro a b c h h'
      simp only [gt_iff_lt, decide_eq_false_iff_not] at h h' ⊢
      omega
    · simpa [worth] using h
  | sell =>
    refine ⟨_, rfl, P.sort_perm _ _, (P.sort_sorted _ ?_ ?_).imp fun h => ?_⟩
    · intro a b h
      simp only [decide_eq_true_eq, decide_eq_false_iff_not] at h ⊢
      omega
    · intro a b c h h'
      simp only [decide_eq_false_iff_not] at h h' ⊢
      omega
    · simpa [worth] using h

structure Orderly (md : MarketDataAggregator) : Prop where
  sorted : ∀ v symbol side, Sorted side (md.venueSide symbol side v)
  few : md.venues.length ≤ maxLevelVenues

theorem validLevels_strict {s : BookSide} (hs : Sorted side s) :
    (validLevels s).Pairwise fun a b => worth side b.price < worth side a.price :=
  hs.strict.sublist List.filter_sublist

theorem filter_price_length {s : BookSide} (hs : Sorted side s) (p : ℤ) :
    ((validLevels s).filter fun lvl => p = lvl.price).length ≤ 1 := by
  have hpair := (validLevels_strict hs).sublist (List.filter_sublist (p := fun lvl => p = lvl.price))
  have hprice : ∀ lvl ∈ (validLevels s).filter fun lvl => p = lvl.price, p = lvl.price := fun lvl hlvl => by
    simpa using (List.mem_filter.mp hlvl).2
  generalize (validLevels s).filter (fun lvl => p = lvl.price) = same at hpair hprice
  match same with
  | [] => simp
  | [_] => simp
  | a :: b :: rest =>
    have hlt := (List.pairwise_cons.mp hpair).1 b (by simp)
    rw [← hprice a (by simp), ← hprice b (by simp)] at hlt
    exact absurd hlt (lt_irrefl _)

theorem taggedLevels_few (ho : Orderly md) (p : ℤ) :
    ((md.taggedLevels symbol (bookSide side)).filter fun tl => p = tl.price).length ≤ maxLevelVenues := by
  refine le_trans ?_ ho.few
  rw [taggedLevels_eq]
  have hsorted := fun v => ho.sorted v symbol side
  generalize md.venues = venues
  induction venues with
  | nil => simp
  | cons v venues ih =>
    have hone := filter_price_length (hsorted v) p
    rw [List.flatMap_cons, List.filter_append, List.length_append, List.filter_map, List.length_map,
      List.length_cons]
    simp only [Function.comp_def]
    omega

theorem allLevels_best (ho : Orderly md) :
    best (md.allLevels symbol side) = best (md.fronts symbol side) := by
  have hperm := flatMap_perm_heads (fun v => (validLevels (md.venueSide symbol side v)).map (keyed side)) md.venues
  unfold allLevels fronts
  rw [best_perm hperm]
  simp only [List.head?_map]
  refine (best_append_iff fun x hx => ?_).mpr fun x hx => ?_
  · obtain ⟨v, hv, htail⟩ := List.mem_flatMap.mp hx
    obtain ⟨lvl, hlvl, rfl⟩ := List.mem_map.mp (List.mem_of_mem_tail htail)
    exact (ho.sorted v symbol side).positive lvl (List.mem_of_mem_filter hlvl)
  · obtain ⟨v, hv, htail⟩ := List.mem_flatMap.mp hx
    have hstrict := validLevels_strict (ho.sorted v symbol side)
    cases hlevels : validLevels (md.venueSide symbol side v) with
    | nil => simp [hlevels] at htail
    | cons front behind =>
      rw [hlevels] at htail hstrict
      obtain ⟨lvl, hlvl, rfl⟩ := List.mem_map.mp htail
      refine ⟨keyed side front, List.mem_filterMap.mpr ⟨v, hv, by rw [hlevels]; rfl⟩, ?_⟩
      exact (List.pairwise_cons.mp hstrict).1 lvl hlvl

theorem firstLevel_aggregated (ho : Orderly md) :
    firstLevel (md.aggregatedSide P symbol side) = quoted side (best (md.fronts symbol side)) := by
  obtain ⟨sorted, heq, hperm, hpair⟩ := aggregatedSide_eq md symbol side P
  rw [heq, firstLevel_merge hpair fun p => ?_, best_perm (hperm.map _), taggedLevels_keyed, allLevels_best ho]
  rw [(hperm.filter _).length_eq]
  exact taggedLevels_few ho p

theorem front_valid {x : ℤ × ℤ} (hx : x ∈ md.fronts symbol side) :
    0 < x.2 ∧ worth side x.1 ≠ invalidPrice := by
  obtain ⟨v, -, hfront⟩ := List.mem_filterMap.mp hx
  obtain ⟨lvl, hlvl, rfl⟩ := Option.map_eq_some_iff.mp hfront
  have hvalid := (List.mem_filter.mp (List.mem_of_mem_head? hlvl)).2
  simp only [PriceLevel.valid, decide_eq_true_eq] at hvalid
  exact ⟨hvalid.2, by simpa [keyed] using hvalid.1⟩

theorem fronts_real : ∀ x ∈ best (md.fronts symbol side), worth side x.1 ≠ invalidPrice := by
  intro x hx
  obtain ⟨y, hy, hkey⟩ := (best_eq_some.mp hx).attained
  rw [← hkey]
  exact (front_valid hy).2

theorem quoted_inj {b b' : Option (ℤ × ℤ)} (hb : ∀ x ∈ b, worth side x.1 ≠ invalidPrice)
    (hb' : ∀ x ∈ b', worth side x.1 ≠ invalidPrice) : quoted side b = quoted side b' ↔ b = b' := by
  constructor
  · intro h
    cases b with
    | none =>
      cases b' with
      | none => rfl
      | some x => exact absurd (congrArg Prod.fst h).symm (hb' x rfl)
    | some x =>
      cases b' with
      | none => exact absurd (congrArg Prod.fst h) (hb x rfl)
      | some y =>
        obtain ⟨hkey, htotal⟩ := Prod.ext_iff.mp h
        exact congrArg some (Prod.ext (worth_inj side hkey) htotal)
  · rintro rfl
    rfl

theorem aggregated_eq_nil (ho : Orderly md) : md.aggregatedSide P symbol side = [] ↔
    best (md.fronts symbol side) = none := by
  constructor
  · intro h
    have hfirst : quoted side none = quoted side (best (md.fronts symbol side)) := by
      rw [← firstLevel_aggregated (P := P) ho, h]
      rfl
    exact ((quoted_inj (by rintro x ⟨⟩) fronts_real).mp hfirst).symm
  · intro h
    obtain ⟨sorted, heq, hperm, -⟩ := aggregatedSide_eq md symbol side P
    have hkeyed := hperm.map (tagKey side)
    rw [taggedLevels_keyed, best_eq_none.mp ((allLevels_best ho).trans h)] at hkeyed
    rw [heq, List.map_eq_nil_iff.mp hkeyed.eq_nil]
    rfl

theorem agrees_iff (ho : Orderly md) {b : Option (ℤ × ℤ)}
    (hb : Represents side (nbboSide (md.getNbbo symbol) side) b) :
    md.Agrees P symbol side ↔ b = best (md.fronts symbol side) := by
  obtain ⟨hshows, hreal⟩ := hb
  unfold Agrees
  rw [hshows, firstLevel_aggregated ho, aggregated_eq_nil ho, quoted_inj hreal fronts_real]
  apply and_iff_left_of_imp
  rintro rfl
  cases hbest : best (md.fronts symbol side) with
  | none => simp [quoted]
  | some x => simpa [quoted] using hreal x hbest

end Agreement

section Runs

inductive FeedCall
  | registerVenue (venueId : ℕ)
  | onBookUpdate (venueId : ℕ) (symbol : Symbol) (book : OrderBook)

variable (md : MarketDataAggregator)

def next : FeedCall → MarketDataAggregator
  | .registerVenue venueId => md.registerVenue venueId
  | .onBookUpdate venueId symbol book => md.onBookUpdate venueId symbol book

def Admissible : FeedCall → Prop
  | .registerVenue venueId => (md.registerVenue venueId).venues.length ≤ maxLevelVenues
  | .onBookUpdate _ _ book => ∀ side, Sorted side (bookSide side book)

def storeBook (venueId : ℕ) (symbol : Symbol) (book : OrderBook) : MarketDataAggregator :=
  { md with venueBooks := fun v s => if v = venueId ∧ s = symbol then some book else md.venueBooks v s }

/-- A venue that registers late has no best level that the registered ones do not beat; and where a venue
shows `INVALID_PRICE` first, the level behind it is beaten by another venue's first level. -/
def Harmless : FeedCall → Prop
  | .registerVenue venueId => venueId ∈ md.venues ∨ ∀ symbol side,
      ∀ lvl ∈ (validLevels (md.venueSide symbol side venueId)).head?,
        ∃ y ∈ md.fronts symbol side, worth side lvl.price < y.1
  | .onBookUpdate venueId symbol book => ∀ side, ∀ v ∈ md.venues,
      shownTop ((md.storeBook venueId symbol book).venueSide symbol side v) = none →
      ∀ lvl ∈ (validLevels ((md.storeBook venueId symbol book).venueSide symbol side v)).head?,
        ∃ y ∈ (md.storeBook venueId symbol book).tops symbol side, worth side lvl.price < y.1

variable {md} {P : Platform} {call : FeedCall} {symbol s : Symbol} {side : Side} {v : ℕ} {book : OrderBook}

theorem venueSide_storeBook_self (v : ℕ) : (md.storeBook v symbol book).venueSide symbol side v =
    bookSide side book := by
  simp [venueSide, storeBook]

theorem venueSide_storeBook_other {u : ℕ} (h : ¬(u = v ∧ s = symbol)) :
    (md.storeBook v symbol book).venueSide s side u = md.venueSide s side u := by
  simp [venueSide, storeBook, h]

@[simp] theorem registerVenue_venueBooks (v : ℕ) : (md.registerVenue v).venueBooks = md.venueBooks := by
  unfold registerVenue
  split_ifs <;> rfl

/-- A side that a venue shows after a call is the one before it, or the one that the call brings. -/
theorem venueSide_next (md : MarketDataAggregator) (call : FeedCall) (u : ℕ) (s : Symbol) (side : Side) :
    (md.next call).venueSide s side u = md.venueSide s side u ∨
      ∃ book, call = .onBookUpdate u s book ∧ (md.next call).venueSide s side u = bookSide side book := by
  cases call with
  | registerVenue v => exact .inl (by simp [MarketDataAggregator.next, venueSide])
  | onBookUpdate v symbol book =>
    have hside : (md.next (.onBookUpdate v symbol book)).venueSide s side u =
        (md.storeBook v symbol book).venueSide s side u := rfl
    rw [hside]
    by_cases h : u = v ∧ s = symbol
    · obtain ⟨rfl, rfl⟩ := h
      exact .inr ⟨book, rfl, venueSide_storeBook_self u⟩
    · exact .inl (venueSide_storeBook_other h)

theorem Orderly.next (ho : Orderly md) (ha : md.Admissible call) : Orderly (md.next call) := by
  refine ⟨fun u s side => ?_, ?_⟩
  · obtain hside | ⟨book, rfl, hside⟩ := md.venueSide_next call u s side
    · rw [hside]
      exact ho.sorted u s side
    · rw [hside]
      exact ha side
  · cases call with
    | registerVenue v => exact ha
    | onBookUpdate v symbol book => exact ho.few

structure Settled (md : MarketDataAggregator) : Prop where
  orderly : Orderly md
  cached : ∀ symbol side, Represents side (nbboSide (md.getNbbo symbol) side) (best (md.fronts symbol side))

theorem register_agrees (hs : Settled md) (ha : md.Admissible (.registerVenue v)) :
    (∀ symbol side, (md.next (.registerVenue v)).Agrees P symbol side) ↔ md.Harmless (.registerVenue v) := by
  by_cases hknown : v ∈ md.venues
  · have hsame : md.next (.registerVenue v) = md := if_pos hknown
    rw [hsame]
    refine iff_of_true (fun symbol side => ?_) (.inl hknown)
    exact (agrees_iff hs.orderly (hs.cached symbol side)).mpr rfl
  · have ho := hs.orderly.next ha
    have hnext : md.next (.registerVenue v) = { md with venues := md.venues ++ [v] } := if_neg hknown
    have hfronts (symbol : Symbol) (side : Side) : (md.next (.registerVenue v)).fronts symbol side =
        md.fronts symbol side ++ ((validLevels (md.venueSide symbol side v)).head?.map (keyed side)).toList := by
      rw [hnext]
      change (md.venues ++ [v]).filterMap (fun u =>
        ((validLevels (md.venueSide symbol side u)).head?).map (keyed side)) = _
      rw [List.filterMap_append, List.filterMap_cons, List.filterMap_nil]
      cases (validLevels (md.venueSide symbol side v)).head? <;> rfl
    have hstep (symbol : Symbol) (side : Side) : (md.next (.registerVenue v)).Agrees P symbol side ↔
        ∀ lvl ∈ (validLevels (md.venueSide symbol side v)).head?,
          ∃ y ∈ md.fronts symbol side, worth side lvl.price < y.1 := by
      have hcached : Represents side (nbboSide ((md.next (.registerVenue v)).getNbbo symbol) side)
          (best (md.fronts symbol side)) := by
        rw [hnext]
        exact hs.cached symbol side
      have hpositive : ∀ x ∈ ((validLevels (md.venueSide symbol side v)).head?.map (keyed side)).toList, 0 < x.2 := by
        intro x hx
        have hmem : x ∈ (md.next (.registerVenue v)).fronts symbol side := by
          rw [hfronts]
          exact List.mem_append_right _ hx
        exact (front_valid hmem).1
      rw [agrees_iff ho hcached, hfronts, eq_comm, best_append_iff hpositive]
      simp [keyed]
    simp only [hstep, Harmless, hknown, false_or]

theorem shownTop_front {b : BookSide} (hs : Sorted side b) {lvl : PriceLevel} (h : shownTop b = some lvl) :
    (validLevels b).head? = some lvl := by
  obtain ⟨hhead, hprice⟩ := Option.filter_eq_some_iff.mp h
  unfold validLevels
  cases hlevels : b.levels with
  | nil => simp [hlevels] at hhead
  | cons first rest =>
    obtain rfl : first = lvl := by simpa [hlevels] using hhead
    have hpos := hs.positive first (by simp [hlevels])
    rw [List.filter_cons_of_pos]
    · rfl
    · simpa [PriceLevel.valid, hpos] using hprice

theorem tops_best_iff (ho : Orderly md) : best (md.tops symbol side) = best (md.fronts symbol side) ↔
    ∀ v ∈ md.venues, shownTop (md.venueSide symbol side v) = none →
      ∀ lvl ∈ (validLevels (md.venueSide symbol side v)).head?,
        ∃ y ∈ md.tops symbol side, worth side lvl.price < y.1 := by
  have hperm := filterMap_perm_split (fun v => ((validLevels (md.venueSide symbol side v)).head?).map (keyed side))
    (fun v => (shownTop (md.venueSide symbol side v)).map (keyed side)) (fun v x hx => by
      obtain ⟨lvl, hlvl, rfl⟩ := Option.map_eq_some_iff.mp hx
      rw [shownTop_front (ho.sorted v symbol side) hlvl]
      rfl) md.venues
  have hmasked (x : ℤ × ℤ) : x ∈ md.venues.filterMap (fun v =>
      if ((shownTop (md.venueSide symbol side v)).map (keyed side)).isSome then none
      else ((validLevels (md.venueSide symbol side v)).head?).map (keyed side)) ↔
      ∃ v ∈ md.venues, shownTop (md.venueSide symbol side v) = none ∧
        ∃ lvl ∈ (validLevels (md.venueSide symbol side v)).head?, x = keyed side lvl := by
    rw [List.mem_filterMap]
    apply exists_congr
    intro v
    apply and_congr_right
    intro _
    cases shownTop (md.venueSide symbol side v) with
    | some lvl => simp
    | none =>
      simp only [Option.map_none, Option.isSome_none, Bool.false_eq_true, ↓reduceIte, true_and,
        Option.map_eq_some_iff, Option.mem_def]
      exact exists_congr fun lvl => and_congr_right fun _ => eq_comm
  have hsplit : best (md.fronts symbol side) = _ := best_perm hperm
  rw [hsplit, eq_comm]
  refine (best_append_iff fun x hx => ?_).trans ?_
  · obtain ⟨v, hv, -, lvl, hlvl, rfl⟩ := (hmasked x).mp hx
    exact (front_valid (List.mem_filterMap.mpr ⟨v, hv, by rw [hlvl]; rfl⟩)).1
  · constructor
    · intro h v hv hnone lvl hlvl
      exact h _ ((hmasked _).mpr ⟨v, hv, hnone, lvl, hlvl, rfl⟩)
    · intro h x hx
      obtain ⟨v, hv, hnone, lvl, hlvl, rfl⟩ := (hmasked x).mp hx
      exact h v hv hnone lvl hlvl

theorem update_cached (symbol : Symbol) (side : Side) :
    Represents side (nbboSide ((md.next (.onBookUpdate v symbol book)).getNbbo symbol) side)
      (best ((md.storeBook v symbol book).tops symbol side)) := by
  have hcache : (md.next (.onBookUpdate v symbol book)).getNbbo symbol =
      (md.storeBook v symbol book).bestAcrossVenues symbol := if_pos rfl
  rw [hcache]
  exact bestAcrossVenues_represents _ symbol side

theorem update_other (hs : Settled md) (hne : s ≠ symbol) (side : Side) :
    Represents side (nbboSide ((md.next (.onBookUpdate v symbol book)).getNbbo s) side)
      (best ((md.next (.onBookUpdate v symbol book)).fronts s side)) := by
  have hcache : (md.next (.onBookUpdate v symbol book)).getNbbo s = md.getNbbo s := if_neg hne
  have hfronts : (md.next (.onBookUpdate v symbol book)).fronts s side = md.fronts s side := by
    have hside (u : ℕ) : (md.next (.onBookUpdate v symbol book)).venueSide s side u = md.venueSide s side u :=
      venueSide_storeBook_other fun h => hne h.2
    simp only [fronts, hside]
    rfl
  rw [hcache, hfronts]
  exact hs.cached s side

theorem update_agrees (hs : Settled md) (ha : md.Admissible (.onBookUpdate v symbol book)) :
    (∀ s side, (md.next (.onBookUpdate v symbol book)).Agrees P s side) ↔
      md.Harmless (.onBookUpdate v symbol book) := by
  have ho := hs.orderly.next ha
  have hself (side : Side) : (md.next (.onBookUpdate v symbol book)).Agrees P symbol side ↔
      best ((md.storeBook v symbol book).tops symbol side) =
        best ((md.storeBook v symbol book).fronts symbol side) :=
    agrees_iff ho (update_cached symbol side)
  have hstored : Orderly (md.storeBook v symbol book) := ⟨ho.sorted, ho.few⟩
  constructor
  · intro h side
    exact (tops_best_iff hstored).mp ((hself side).mp (h symbol side))
  · intro h s side
    by_cases hne : s = symbol
    · subst hne
      exact (hself side).mpr ((tops_best_iff hstored).mpr (h side))
    · exact (agrees_iff ho (update_other hs hne side)).mpr rfl

theorem exists_cached (hs : Settled md) (call : FeedCall) (s : Symbol) (side : Side) :
    ∃ b, Represents side (nbboSide ((md.next call).getNbbo s) side) b := by
  cases call with
  | registerVenue v =>
    refine ⟨best (md.fronts s side), ?_⟩
    have hsame : (md.next (.registerVenue v)).getNbbo s = md.getNbbo s := by
      simp only [MarketDataAggregator.next, registerVenue]
      split_ifs <;> rfl
    rw [hsame]
    exact hs.cached s side
  | onBookUpdate v symbol book =>
    by_cases hne : s = symbol
    · subst hne
      exact ⟨_, update_cached s side⟩
    · exact ⟨_, update_other hs hne side⟩

theorem Settled.next (hs : Settled md) (ha : md.Admissible call)
    (hq : ∀ symbol side, (md.next call).Agrees P symbol side) : Settled (md.next call) := by
  have ho := hs.orderly.next ha
  refine ⟨ho, fun symbol side => ?_⟩
  obtain ⟨b, hb⟩ := exists_cached hs call symbol side
  rw [← (agrees_iff ho hb).mp (hq symbol side)]
  exact hb

theorem settled_initial : Settled {} :=
  ⟨⟨fun _ _ side => by cases side <;> exact ⟨List.Pairwise.nil, fun _ h => by cases h⟩, by simp⟩,
    fun _ side => ⟨by cases side <;> rfl, fun _ h => by cases h⟩⟩

/-- The cached NBBO follows book updates and no registrations. -/
theorem nbbo_agrees_iff (P : Platform) (calls : List FeedCall)
    (ha : Along next Admissible ({} : MarketDataAggregator) calls) :
    Along next (fun md call => ∀ symbol side, (md.next call).Agrees P symbol side)
        ({} : MarketDataAggregator) calls ↔
      Along next Harmless ({} : MarketDataAggregator) calls := by
  refine ha.congr_keep settled_initial (fun md call hs ha => ?_) fun md call hs ha hq => hs.next ha hq
  cases call with
  | registerVenue v => exact register_agrees hs ha
  | onBookUpdate v symbol book => exact update_agrees hs ha

def oneLevel (lvl : PriceLevel) : BookSide := ⟨[lvl], by simp [maxDepth]⟩

def quoteOf (bid ask qty : ℤ) : OrderBook := ⟨oneLevel ⟨bid, qty⟩, oneLevel ⟨ask, qty⟩⟩

theorem sorted_quoteOf {bid ask qty : ℤ} (hq : 0 < qty) (side : Side) :
    Sorted side (bookSide side (quoteOf bid ask qty)) := by
  cases side <;> exact ⟨List.pairwise_singleton _ _, by simpa [bookSide, quoteOf, oneLevel] using hq⟩

def quotedSymbol : Symbol := .assign [65]

def twoVenues : List FeedCall :=
  [.registerVenue 1, .registerVenue 2, .onBookUpdate 1 quotedSymbol (quoteOf 99 101 10),
    .onBookUpdate 2 quotedSymbol (quoteOf 99 102 5)]

def lateVenue : List FeedCall :=
  [.onBookUpdate 1 quotedSymbol (quoteOf 99 101 10), .registerVenue 1]

theorem admissible_quoteOf {bid ask qty : ℤ} (hq : 0 < qty) :
    md.Admissible (.onBookUpdate v symbol (quoteOf bid ask qty)) := sorted_quoteOf hq

theorem harmless_unseen (h : ∀ symbol, md.venueBooks v symbol = none) : md.Harmless (.registerVenue v) := by
  refine .inr fun symbol side lvl hlvl => ?_
  simp [venueSide, h, validLevels] at hlvl

theorem harmless_shown (h : ∀ side, ∀ u ∈ md.venues, (validLevels (md.venueSide symbol side u)).head? = none ∨
      (shownTop (md.venueSide symbol side u)).isSome)
    (hbook : ∀ side, (shownTop (bookSide side book)).isSome) : md.Harmless (.onBookUpdate v symbol book) := by
  intro side u hu hnone lvl hlvl
  by_cases huv : u = v
  · rw [huv, venueSide_storeBook_self] at hnone
    have hsome := hbook side
    rw [hnone] at hsome
    cases hsome
  · rw [venueSide_storeBook_other fun h => huv h.1] at hnone hlvl
    rcases h side u hu with hempty | hsome
    · rw [hempty] at hlvl
      cases hlvl
    · rw [hnone] at hsome
      cases hsome

theorem nbbo_agrees_twoVenues : Along next (fun md call => ∀ symbol side, (md.next call).Agrees .exact symbol side)
    ({} : MarketDataAggregator) twoVenues := by
  refine (nbbo_agrees_iff .exact twoVenues ?_).mpr ?_
  · exact ⟨Nat.le_of_ble_eq_true rfl, Nat.le_of_ble_eq_true rfl, admissible_quoteOf (by decide), admissible_quoteOf (by decide), trivial⟩
  · refine ⟨harmless_unseen fun _ => rfl, harmless_unseen fun _ => rfl, harmless_shown ?_ ?_,
      harmless_shown ?_ ?_, trivial⟩
    · intro side u hu
      exact .inl (by cases side <;> rfl)
    · intro side
      cases side <;> rfl
    · intro side u hu
      rcases List.mem_pair.mp hu with rfl | rfl
      · exact .inr (by cases side <;> rfl)
      · exact .inl (by cases side <;> rfl)
    · intro side
      cases side <;> rfl

/-- The venue registers after its first book: the aggregated book has it, the NBBO does not. -/
theorem nbbo_misses_lateVenue : Along next Admissible ({} : MarketDataAggregator) lateVenue ∧
    ¬Along next (fun md call => ∀ symbol side, (md.next call).Agrees .exact symbol side)
      ({} : MarketDataAggregator) lateVenue := by
  refine ⟨⟨admissible_quoteOf (by decide), Nat.le_of_ble_eq_true rfl, trivial⟩, fun h => ?_⟩
  have hbid := (h.2.1 quotedSymbol .buy).1
  revert hbid
  decide

end Runs

end Klett.Sor.MarketDataAggregator

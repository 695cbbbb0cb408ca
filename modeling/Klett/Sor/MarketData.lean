import Klett.Lib.Platform
import Klett.Sor.Types

namespace Klett.Sor

open Klett.Lib

def maxDepth : ℕ := 20
def maxLevelVenues : ℕ := 16

structure PriceLevel where
  price : ℤ := invalidPrice
  quantity : ℤ := 0

structure BookSide where
  levels : List PriceLevel := []
  fits : levels.length ≤ maxDepth := by decide

structure OrderBook where
  bids : BookSide := {}
  asks : BookSide := {}

structure Nbbo where
  bestBid : ℤ := invalidPrice
  bestBidQty : ℤ := 0
  bestBidVenue : ℕ := 0
  bestAsk : ℤ := invalidPrice
  bestAskQty : ℤ := 0
  bestAskVenue : ℕ := 0

structure VenueQuantity where
  venueId : ℕ
  quantity : ℤ

structure AggregatedLevel where
  price : ℤ := invalidPrice
  totalQuantity : ℤ := 0
  venueBreakdown : List VenueQuantity := []
  fits : venueBreakdown.length ≤ maxLevelVenues := by decide

structure AggregatedBook where
  bids : List AggregatedLevel := []
  asks : List AggregatedLevel := []
  bidsFit : bids.length ≤ maxDepth := by decide
  asksFit : asks.length ≤ maxDepth := by decide

def PriceLevel.valid (level : PriceLevel) : Bool := level.price ≠ invalidPrice ∧ level.quantity > 0

namespace BookSide

variable (s : BookSide)

def best : PriceLevel := s.levels.headD {}

def empty : Bool := s.levels.isEmpty

end BookSide

namespace OrderBook

variable (b : OrderBook)

def bestBid : ℤ := if b.bids.empty then invalidPrice else b.bids.best.price

def bestAsk : ℤ := if b.asks.empty then invalidPrice else b.asks.best.price

end OrderBook

def Nbbo.valid (n : Nbbo) : Bool :=
  n.bestBid ≠ invalidPrice ∧ n.bestAsk ≠ invalidPrice ∧ n.bestBid < n.bestAsk ∧ n.bestBidQty > 0 ∧
    n.bestAskQty > 0

namespace AggregatedLevel

variable (level : AggregatedLevel)

/-- A level beyond the capacity of the array drops the venue. -/
def addVenue (venueId : ℕ) (qty : ℤ) : AggregatedLevel :=
  if h : level.venueBreakdown.length < maxLevelVenues then
    { level with
      venueBreakdown := level.venueBreakdown ++ [⟨venueId, qty⟩]
      totalQuantity := level.totalQuantity + qty
      fits := by rw [List.length_append]; exact h }
  else level

/-- What every strategy asks of a level before it looks at its venues. -/
def displayed : Prop := level.price ≠ invalidPrice ∧ 0 < level.totalQuantity

instance : Decidable level.displayed := inferInstanceAs (Decidable (_ ∧ _))

end AggregatedLevel

def AggregatedBook.opposite (book : AggregatedBook) : Side → List AggregatedLevel
  | .buy => book.asks
  | .sell => book.bids

structure TaggedLevel where
  price : ℤ
  quantity : ℤ
  venueId : ℕ

/-- `merge` of `build_aggregated_book`, with the last level opened kept in front. -/
def mergeLevels : List TaggedLevel → List AggregatedLevel → List AggregatedLevel
  | [], out => out
  | tl :: rest, last :: out =>
    if last.price = tl.price then mergeLevels rest (last.addVenue tl.venueId tl.quantity :: out)
    else if (last :: out).length ≥ maxDepth then last :: out
    else mergeLevels rest
      (AggregatedLevel.addVenue { price := tl.price } tl.venueId tl.quantity :: last :: out)
  | tl :: rest, [] =>
    mergeLevels rest [AggregatedLevel.addVenue { price := tl.price } tl.venueId tl.quantity]

theorem mergeLevels_length (sorted : List TaggedLevel) (out : List AggregatedLevel)
    (h : out.length ≤ maxDepth) : (mergeLevels sorted out).length ≤ maxDepth := by
  induction sorted generalizing out with
  | nil => exact h
  | cons tl rest ih =>
    cases out with
    | nil => exact ih _ (by simp [maxDepth])
    | cons last out =>
      simp only [List.length_cons] at h
      unfold mergeLevels
      split_ifs with hsame hfull
      · exact ih _ h
      · exact h
      · apply ih
        simp only [List.length_cons] at hfull ⊢
        omega

def merge (sorted : List TaggedLevel) : List AggregatedLevel := (mergeLevels sorted []).reverse

theorem merge_length (sorted : List TaggedLevel) : (merge sorted).length ≤ maxDepth := by
  unfold merge
  rw [List.length_reverse]
  exact mergeLevels_length sorted [] (Nat.zero_le _)

structure MarketDataAggregator where
  venueBooks : ℕ → Symbol → Option OrderBook := fun _ _ => none
  nbboCache : Symbol → Nbbo := fun _ => {}
  venues : List ℕ := []

namespace MarketDataAggregator

variable (md : MarketDataAggregator)

def registerVenue (venueId : ℕ) : MarketDataAggregator :=
  if venueId ∈ md.venues then md else { md with venues := md.venues ++ [venueId] }

def improveBid (book : OrderBook) (venueId : ℕ) (nbbo : Nbbo) : Nbbo :=
  let bb := book.bestBid
  if bb = invalidPrice then nbbo
  else if nbbo.bestBid = invalidPrice ∨ bb > nbbo.bestBid then
    { nbbo with bestBid := bb, bestBidQty := book.bids.best.quantity, bestBidVenue := venueId }
  else if bb = nbbo.bestBid then
    { nbbo with bestBidQty := nbbo.bestBidQty + book.bids.best.quantity }
  else nbbo

def improveAsk (book : OrderBook) (venueId : ℕ) (nbbo : Nbbo) : Nbbo :=
  let ba := book.bestAsk
  if ba = invalidPrice then nbbo
  else if nbbo.bestAsk = invalidPrice ∨ ba < nbbo.bestAsk then
    { nbbo with bestAsk := ba, bestAskQty := book.asks.best.quantity, bestAskVenue := venueId }
  else if ba = nbbo.bestAsk then
    { nbbo with bestAskQty := nbbo.bestAskQty + book.asks.best.quantity }
  else nbbo

/-- `recalculate_nbbo`, before the result is cached. -/
def bestAcrossVenues (symbol : Symbol) : Nbbo :=
  md.venues.foldl (fun nbbo venueId =>
    match md.venueBooks venueId symbol with
    | none => nbbo
    | some book => improveAsk book venueId (improveBid book venueId nbbo)) {}

def recalculateNbbo (symbol : Symbol) : MarketDataAggregator :=
  { md with nbboCache := fun s => if s = symbol then md.bestAcrossVenues symbol else md.nbboCache s }

def onBookUpdate (venueId : ℕ) (symbol : Symbol) (book : OrderBook) : MarketDataAggregator :=
  recalculateNbbo
    { md with venueBooks := fun v s =>
        if v = venueId ∧ s = symbol then some book else md.venueBooks v s } symbol

def getNbbo (symbol : Symbol) : Nbbo := md.nbboCache symbol

def taggedLevels (symbol : Symbol) (side : OrderBook → BookSide) : List TaggedLevel :=
  md.venues.flatMap fun venueId =>
    match md.venueBooks venueId symbol with
    | none => []
    | some book => ((side book).levels.filter PriceLevel.valid).map fun lvl =>
        ⟨lvl.price, lvl.quantity, venueId⟩

def getAggregatedBook (P : Platform) (symbol : Symbol) : AggregatedBook where
  bids := merge (P.sort (fun a b => a.price > b.price) (md.taggedLevels symbol OrderBook.bids))
  asks := merge (P.sort (fun a b => a.price < b.price) (md.taggedLevels symbol OrderBook.asks))
  bidsFit := merge_length _
  asksFit := merge_length _

def quoting (venueId : ℕ) (symbol : Symbol) (bid ask qty : ℤ) : MarketDataAggregator :=
  (({} : MarketDataAggregator).registerVenue venueId).onBookUpdate venueId symbol
    ⟨⟨[⟨bid, qty⟩], by simp [maxDepth]⟩, ⟨[⟨ask, qty⟩], by simp [maxDepth]⟩⟩

end MarketDataAggregator

end Klett.Sor

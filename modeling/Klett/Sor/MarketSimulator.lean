import Mathlib.Data.List.MinMax
import Klett.Lib.Rounding
import Klett.Sor.BookQueue

/-!
The simulated market of several venues, in exact arithmetic. Its generator reads numbers between 0 and 1 from a
stream, and what the clock shows is given for each order that is submitted.
-/

namespace Klett.Sor.Simulation

open Klett.Lib OrderBookSimulator

structure VenueConfig where
  venueId : ℤ
  name : String
  feeRate : ℚ := 1 / 1000
  latencyUs : ℚ := 50
  fillProbability : ℚ := 95 / 100

structure RoutedOrder where
  venueId : ℤ
  order : SimOrder
  routeTime : ℚ := 0
  ackTime : ℚ := 0
  fills : List Fill := []
  fees : ℚ := 0

/-- `venues` is a dictionary, and `books` has the same keys. -/
structure MarketSimulator where
  symbol : String
  venues : List VenueConfig
  nodup : (venues.map VenueConfig.venueId).Nodup
  books : ℤ → OrderBookSimulator
  midPrice : ℚ := 100
  routedOrders : List RoutedOrder := []
  rng : List ℚ
  clocks : List (List ℚ)

namespace OrderBookSimulator

variable (b : OrderBookSimulator)

def bestBid : Option ℚ := b.bids.keys.max?

def bestAsk : Option ℚ := b.asks.keys.min?

/-- The side that an order trades against. -/
def bestOpposite : Side → Option ℚ
  | .buy => b.bestAsk
  | .sell => b.bestBid

def totalQty (book : BookSide) (p : ℚ) : ℚ := ((ordersAt book p).map Entry.quantity).sum

def depthOf (book : BookSide) (prices : List ℚ) : List (ℚ × ℚ) :=
  (prices.map fun p => (p, totalQty book p)).filter fun level => level.2 > 0

structure Depth where
  bids : List (ℚ × ℚ)
  asks : List (ℚ × ℚ)

def getDepth (levels : ℕ) : Depth where
  bids := depthOf b.bids ((bestFirst .sell b.bids.keys).take levels)
  asks := depthOf b.asks ((bestFirst .buy b.asks.keys).take levels)

def Depth.opposite (depth : Depth) : Side → List (ℚ × ℚ)
  | .buy => depth.asks
  | .sell => depth.bids

/-- How the simulated market empties a book. The fills and the ids go on. -/
def wipe : OrderBookSimulator := { b with bids := ∅, asks := ∅, orders := fun _ => none }

end OrderBookSimulator

def notional (fills : List Fill) : ℚ := (fills.map fun f => f.price * f.quantity).sum

/-- The fills of an order as the aggressor. -/
def ownFills (orderId : ℕ) (fills : List Fill) : List Fill := fills.filter fun f => f.orderId = orderId ∧ f.aggressor

namespace MarketSimulator

def initial (symbol : String) (venues : List VenueConfig) (nodup : (venues.map VenueConfig.venueId).Nodup)
    (rng : List ℚ) (clocks : List (List ℚ)) : MarketSimulator :=
  { symbol, venues, nodup, books := fun _ => { symbol }, rng, clocks }

variable (sim : MarketSimulator)

section Generator

def random : ℚ × MarketSimulator := (sim.rng.headD 0, { sim with rng := sim.rng.tail })

def uniform (low high : ℚ) : ℚ × MarketSimulator :=
  let (u, sim) := sim.random
  (low + (high - low) * u, sim)

def integers (low high : ℤ) : ℤ × MarketSimulator :=
  let (u, sim) := sim.random
  (low + ⌊u * (high - low)⌋, sim)

end Generator

def setBook (id : ℤ) (book : OrderBookSimulator) : MarketSimulator :=
  { sim with books := Function.update sim.books id book }

section Books

def submit (id : ℤ) (side : Side) (orderType : OrderType) (price quantity : ℚ) : MarketSimulator :=
  { sim.setBook id ((sim.books id).submitOrder side orderType price quantity (sim.clocks.headD [])) with
    clocks := sim.clocks.tail }

def populateLevel (id : ℤ) (halfSpread : ℚ) (level : ℕ) : MarketSimulator :=
  let offset := halfSpread + level * (sim.books id).tickSize
  let bidPrice := roundDigits (sim.midPrice - offset) 2
  let askPrice := roundDigits (sim.midPrice + offset) 2
  let baseQty : ℤ := max 10 (1000 / (level + 1))
  let (bidNoise, sim) := sim.integers (-50) 50
  let (askNoise, sim) := sim.integers (-50) 50
  let sim := sim.submit id .buy .limit bidPrice (max 10 (baseQty + bidNoise) : ℤ)
  sim.submit id .sell .limit askPrice (max 10 (baseQty + askNoise) : ℤ)

def populateBook (depth : ℕ) (cfg : VenueConfig) : MarketSimulator :=
  let sim := sim.setBook cfg.venueId (sim.books cfg.venueId).wipe
  let spreadNoise := cfg.latencyUs / 100000
  let (noise, sim) := sim.uniform 0 (5 / 1000)
  let halfSpread := 1 / 100 + spreadNoise + noise
  (List.range depth).foldl (fun sim level => sim.populateLevel cfg.venueId halfSpread level) sim

def populateBooks (depth : ℕ) : MarketSimulator :=
  sim.venues.foldl (fun sim cfg => sim.populateBook depth cfg) sim

/-- The factor `exp(z / 1000)` of the random walk is a number of the stream. -/
def step : MarketSimulator :=
  let (factor, sim) := sim.random
  { sim with midPrice := roundDigits (max (sim.midPrice * factor) (1 / 100)) 2 }.populateBooks 5

end Books

section Sending

/-- What reaches the book of an order that may miss. -/
def effectiveQty (cfg : VenueConfig) (quantity : ℚ) : ℚ × MarketSimulator :=
  let (u, sim) := sim.random
  if u > cfg.fillProbability then
    let (share, sim) := sim.uniform 0 (1 / 2)
    (roundDigits (quantity * share) 2, sim)
  else (quantity, sim)

/-- `_send_to_venue`. The first reading of the clock is its own. -/
def sendToVenue (cfg : VenueConfig) (side : Side) (orderType : OrderType) (price quantity : ℚ) :
    RoutedOrder × MarketSimulator :=
  let book := sim.books cfg.venueId
  let clock := sim.clocks.headD []
  let routeTime := clock.headD 0
  let latencyS := cfg.latencyUs / 1000000
  let (effectiveQty, sim) := sim.effectiveQty cfg quantity
  let order := book.incoming side orderType price effectiveQty (clock.tail.headD 0)
  let book := book.submitOrder side orderType price effectiveQty clock.tail
  let ackTime := routeTime + latencyS
  let filledNotional := notional (ownFills order.orderId (book.fills.drop (book.fills.length - 2)))
  let fees := filledNotional * cfg.feeRate
  let routed : RoutedOrder :=
    { venueId := cfg.venueId
      order := (book.orders order.orderId).getD order
      routeTime
      ackTime
      fills := ownFills order.orderId book.fills
      fees }
  (routed, { sim.setBook cfg.venueId book with
    clocks := sim.clocks.tail, routedOrders := sim.routedOrders ++ [routed] })

end Sending

section Routing

/-- An order for a venue, with the quantity that was asked for. -/
structure Child where
  requested : ℚ
  routed : RoutedOrder

def requested (children : List Child) : ℚ := (children.map Child.requested).sum

def sendChild (cfg : VenueConfig) (side : Side) (price : Option ℚ) (bestP quantity : ℚ) : Child × MarketSimulator :=
  let orderPrice := price.getD bestP
  let orderType := if price.isSome then .limit else .market
  let (routed, sim) := sim.sendToVenue cfg side orderType orderPrice quantity
  ({ requested := quantity, routed }, sim)

def bestVenue (side : Side) : List VenueConfig → Option (VenueConfig × ℚ) → Option (VenueConfig × ℚ)
  | [], best => best
  | cfg :: venues, best =>
    match (sim.books cfg.venueId).bestOpposite side with
    | none => bestVenue side venues best
    | some p => bestVenue side venues (if best.all fun q => Better side p q.2 then some (cfg, p) else best)

def routeBestPrice (side : Side) (quantity : ℚ) (price : Option ℚ) : List Child × MarketSimulator :=
  match sim.bestVenue side sim.venues none with
  | none => ([], sim)
  | some (cfg, bestP) =>
    let (child, sim) := sim.sendChild cfg side price bestP quantity
    ([child], sim)

def venueLiq (side : Side) : List (VenueConfig × ℚ) :=
  sim.venues.filterMap fun cfg =>
    (((sim.books cfg.venueId).getDepth 1).opposite side).head?.map fun level => (cfg, level.2)

def sendShares (side : Side) (quantity totalLiq : ℚ) (price : Option ℚ) :
    List (VenueConfig × ℚ) → ℚ → MarketSimulator → List Child × MarketSimulator
  | [], _, sim => ([], sim)
  | (cfg, liq) :: rest, remaining, sim =>
    let share := quantity * (liq / totalLiq)
    let childQty := min (roundDigits share 2) remaining
    if childQty ≤ 0 then sendShares side quantity totalLiq price rest remaining sim
    else
      -- a venue with depth has a best price
      let bestP := ((sim.books cfg.venueId).bestOpposite side).getD 0
      let (child, sim) := sim.sendChild cfg side price bestP childQty
      let (children, sim) := sendShares side quantity totalLiq price rest (remaining - childQty) sim
      (child :: children, sim)

def routeProRata (side : Side) (quantity : ℚ) (price : Option ℚ) : List Child × MarketSimulator :=
  let venueLiq := sim.venueLiq side
  let totalLiq := (venueLiq.map Prod.snd).sum
  if totalLiq ≤ 0 then ([], sim) else sendShares side quantity totalLiq price venueLiq quantity sim

inductive ValueError
  | unknownStrategy (text : String)
  | emptyMin

def routeLowestFee (side : Side) (quantity : ℚ) (price : Option ℚ) :
    Except ValueError (List Child × MarketSimulator) :=
  match sim.venues.argmin VenueConfig.feeRate with
  | none => .error .emptyMin
  | some cfg =>
    match (sim.books cfg.venueId).bestOpposite side with
    | none => .ok ([], sim)
    | some bestP =>
      let (child, sim) := sim.sendChild cfg side price bestP quantity
      .ok ([child], sim)

/-- Every venue is sent `childQty`, but for the last. It is sent what remains. -/
def sendEqually (side : Side) (childQty : ℚ) (price : Option ℚ) :
    List VenueConfig → ℚ → MarketSimulator → List Child × MarketSimulator
  | [], _, sim => ([], sim)
  | cfg :: venues, remaining, sim =>
    let qty := if venues.isEmpty then remaining else childQty
    if qty ≤ 0 then sendEqually side childQty price venues remaining sim
    else
      match (sim.books cfg.venueId).bestOpposite side with
      | none => sendEqually side childQty price venues remaining sim
      | some bestP =>
        let (child, sim) := sim.sendChild cfg side price bestP qty
        let (children, sim) := sendEqually side childQty price venues (remaining - qty) sim
        (child :: children, sim)

def routeRoundRobin (side : Side) (quantity : ℚ) (price : Option ℚ) : List Child × MarketSimulator :=
  let childQty := roundDigits (quantity / sim.venues.length) 2
  sendEqually side childQty price sim.venues quantity sim

inductive Strategy
  | bestPrice
  | splitProRata
  | lowestFee
  | roundRobin
  deriving DecidableEq

def Strategy.name : Strategy → String
  | .bestPrice => "best_price"
  | .splitProRata => "split_pro_rata"
  | .lowestFee => "lowest_fee"
  | .roundRobin => "round_robin"

def routeOrder (side : Side) (quantity : ℚ) (price : Option ℚ) (strategy : String) :
    Except ValueError (List Child × MarketSimulator) :=
  if strategy = Strategy.bestPrice.name then .ok (sim.routeBestPrice side quantity price)
  else if strategy = Strategy.splitProRata.name then .ok (sim.routeProRata side quantity price)
  else if strategy = Strategy.lowestFee.name then sim.routeLowestFee side quantity price
  else if strategy = Strategy.roundRobin.name then .ok (sim.routeRoundRobin side quantity price)
  else .error (.unknownStrategy ("Unknown routing strategy: " ++ strategy))

end Routing

end MarketSimulator

end Klett.Sor.Simulation

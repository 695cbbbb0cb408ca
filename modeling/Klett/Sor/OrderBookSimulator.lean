import Mathlib.Algebra.Order.Ring.Unbundled.Rat
import Mathlib.Data.List.AList
import Mathlib.Data.List.Sort
import Klett.Sor.Types

/-!
The order book of the Python simulation, with exact prices and quantities. The clock is read from a stream.
-/

namespace Klett.Sor.Simulation

def opposite : Side → Side
  | .buy => .sell
  | .sell => .buy

inductive OrderStatus
  | new
  | accepted
  | partiallyFilled
  | filled
  | canceled
  | rejected
  deriving DecidableEq

structure SimOrder where
  orderId : ℕ
  symbol : String
  side : Side
  orderType : OrderType
  price : ℚ
  quantity : ℚ
  filledQty : ℚ := 0
  status : OrderStatus := .new
  timestamp : ℚ

def SimOrder.leavesQty (o : SimOrder) : ℚ := o.quantity - o.filledQty

structure Fill where
  orderId : ℕ
  price : ℚ
  quantity : ℚ
  side : Side
  timestamp : ℚ
  aggressor : Bool
  deriving DecidableEq

structure Entry where
  timestamp : ℚ
  orderId : ℕ
  quantity : ℚ
  deriving DecidableEq

structure PriceLevel where
  price : ℚ
  orders : List Entry := []
  deriving DecidableEq

abbrev BookSide := AList fun _ : ℚ => PriceLevel

abbrev OrderTable := ℕ → Option SimOrder

/-- Changes an order object wherever it is held. -/
def OrderTable.modify (orders : OrderTable) (id : ℕ) (f : SimOrder → SimOrder) : OrderTable :=
  Function.update orders id ((orders id).map f)

def OrderTable.leavesQty (orders : OrderTable) (id : ℕ) : ℚ := (orders id).elim 0 SimOrder.leavesQty

structure OrderBookSimulator where
  symbol : String
  tickSize : ℚ := 1 / 100
  bids : BookSide := ∅
  asks : BookSide := ∅
  orders : OrderTable := fun _ => none
  fills : List Fill := []
  nextId : ℕ := 1

section Matching

/-- Which prices an order trades at, and in which order it comes to them. -/
def priceOk (order : SimOrder) (p : ℚ) : Bool :=
  order.orderType = .market || match order.side with
    | .buy => p ≤ order.price
    | .sell => p ≥ order.price

def bestFirst : Side → List ℚ → List ℚ
  | .buy, prices => prices.insertionSort (· ≤ ·)
  | .sell, prices => prices.insertionSort (· ≥ ·)

def availableIn (quantity : ℚ) : List Entry → ℚ → ℚ
  | [], total => total
  | e :: es, total =>
    if total + e.quantity ≥ quantity then total + e.quantity else availableIn quantity es (total + e.quantity)

/-- `_available_liquidity`. It stops within a level as soon as there is enough. -/
def availableLiquidity (order : SimOrder) (book : BookSide) : List ℚ → ℚ → ℚ
  | [], total => total
  | price :: prices, total =>
    if !priceOk order price then total
    else
      let total := availableIn order.quantity ((book.lookup price).elim [] PriceLevel.orders) total
      if total ≥ order.quantity then total else availableLiquidity order book prices total

structure Matching where
  orders : OrderTable
  fills : List Fill := []
  clock : List ℚ

/-- The order that is matched is an object of the table. -/
def fillEntry (order : SimOrder) (price : ℚ) (e : Entry) (m : Matching) : List Entry × Matching :=
  let fillQty := min (m.orders.leavesQty order.orderId) e.quantity
  let fillTs := m.clock.headD 0
  let orders := m.orders.modify order.orderId fun o => { o with filledQty := o.filledQty + fillQty }
  let orders := orders.modify e.orderId fun o =>
    let o := { o with filledQty := o.filledQty + fillQty }
    { o with status := if o.leavesQty ≤ 0 then .filled else .partiallyFilled }
  let fills := m.fills ++
    [{ orderId := order.orderId, price := price, quantity := fillQty, side := order.side, timestamp := fillTs,
       aggressor := true },
     { orderId := e.orderId, price := price, quantity := fillQty, side := opposite order.side,
       timestamp := fillTs, aggressor := false }]
  let leftover := e.quantity - fillQty
  (if leftover > 0 then [{ e with quantity := leftover }] else [], { orders, fills, clock := m.clock.tail })

def matchEntries (order : SimOrder) (price : ℚ) : List Entry → Matching → List Entry × Matching
  | [], m => ([], m)
  | e :: es, m =>
    if m.orders.leavesQty order.orderId ≤ 0 then
      let (rest, m) := matchEntries order price es m
      (e :: rest, m)
    else
      let (kept, m) := fillEntry order price e m
      let (rest, m) := matchEntries order price es m
      (kept ++ rest, m)

/-- The levels in turn. The last result is `empty_levels`. -/
def matchPrices (order : SimOrder) : List ℚ → BookSide → Matching → BookSide × Matching × List ℚ
  | [], book, m => (book, m, [])
  | price :: prices, book, m =>
    if m.orders.leavesQty order.orderId ≤ 0 then (book, m, [])
    else if !priceOk order price then (book, m, [])
    else
      match book.lookup price with
      | none => matchPrices order prices book m
      | some level =>
        let (remaining, m) := matchEntries order price level.orders m
        let (book, m, emptyLevels) := matchPrices order prices (book.insert price { level with orders := remaining }) m
        (book, m, if remaining.isEmpty then price :: emptyLevels else emptyLevels)

end Matching

namespace OrderBookSimulator

variable (b : OrderBookSimulator)

def bookSide : Side → BookSide
  | .buy => b.bids
  | .sell => b.asks

def setBookSide (side : Side) (book : BookSide) : OrderBookSimulator :=
  match side with
  | .buy => { b with bids := book }
  | .sell => { b with asks := book }

/-- `_match`, with the extension of `self.fills` that follows it. -/
def matchOrder (order : SimOrder) (clock : List ℚ) : OrderBookSimulator :=
  let book := b.bookSide (opposite order.side)
  let (book, m, emptyLevels) := matchPrices order (bestFirst order.side book.keys) book { orders := b.orders, clock }
  let book := emptyLevels.foldl (fun book price => book.erase price) book
  let orders := m.orders.modify order.orderId fun o =>
    if o.leavesQty ≤ 0 then { o with status := .filled }
    else if o.filledQty > 0 then { o with status := .partiallyFilled }
    else o
  { b.setBookSide (opposite order.side) book with orders, fills := b.fills ++ m.fills }

def addToBook (order : SimOrder) : OrderBookSimulator :=
  let book := b.bookSide order.side
  let level := (book.lookup order.price).getD { price := order.price }
  b.setBookSide order.side
    (book.insert order.price
      { level with orders := level.orders ++ [⟨order.timestamp, order.orderId, order.leavesQty⟩] })

def removeFromBook (orderId : ℕ) : OrderBookSimulator :=
  match b.orders orderId with
  | none => b
  | some order =>
    let book := b.bookSide order.side
    match book.lookup order.price with
    | none => b
    | some level =>
      let orders := level.orders.filter fun e => e.orderId ≠ orderId
      b.setBookSide order.side
        (if orders.isEmpty then book.erase order.price else book.insert order.price { level with orders })

/-- What is left of an order that was matched. -/
def handleResidual (orderId : ℕ) : OrderBookSimulator :=
  match b.orders orderId with
  | none => b
  | some order =>
    if order.leavesQty > 0 then
      if order.orderType = .limit then b.addToBook order
      else
        { b with orders := b.orders.modify orderId fun o =>
            { o with status := if o.filledQty > 0 then .partiallyFilled else .canceled } }
    else b

/-- The first reading of the clock is the order's own, the others are for its fills. -/
def submitOrder (side : Side) (orderType : OrderType) (price quantity : ℚ) (clock : List ℚ) : OrderBookSimulator :=
  let order : SimOrder :=
    { orderId := b.nextId
      symbol := b.symbol
      side := side
      orderType := orderType
      price := price
      quantity := quantity
      status := .accepted
      timestamp := clock.headD 0 }
  let b := { b with nextId := b.nextId + 1, orders := Function.update b.orders order.orderId (some order) }
  let book := b.bookSide (opposite side)
  if orderType = .fok ∧ availableLiquidity order book (bestFirst side book.keys) 0 < quantity then
    { b with orders := b.orders.modify order.orderId fun o => { o with status := .rejected } }
  else (b.matchOrder order clock.tail).handleResidual order.orderId

def cancelOrder (orderId : ℕ) : Bool × OrderBookSimulator :=
  match b.orders orderId with
  | none => (false, b)
  | some order =>
    if order.status = .filled ∨ order.status = .canceled ∨ order.status = .rejected then (false, b)
    else
      let b := b.removeFromBook orderId
      (true, { b with orders := b.orders.modify orderId fun o => { o with status := .canceled } })

inductive Call
  | submitOrder (side : Side) (orderType : OrderType) (price quantity : ℚ) (clock : List ℚ)
  | cancelOrder (orderId : ℕ)

def call : Call → OrderBookSimulator
  | .submitOrder side orderType price quantity clock => b.submitOrder side orderType price quantity clock
  | .cancelOrder orderId => (b.cancelOrder orderId).2

def run (calls : List Call) : OrderBookSimulator := calls.foldl call b

end OrderBookSimulator

end Klett.Sor.Simulation

import Klett.Lib.Fifo
import Klett.Lib.Machine
import Klett.Sor.ExecutionHandler
import Klett.Sor.RoutingEngine
import Klett.Sor.SimulatedExchange

namespace Klett.Sor

open Klett.Lib

/-- The interface of a venue connection. The lists are the reports that an operation hands to the
execution callback, in order; `run` is whatever the venue does on its own threads. -/
class VenueAdapter (V : Type) where
  Op : Type
  disconnect : V → V
  sendOrder : V → Order → Bool × V × List ExecutionReport
  cancelOrder : V → CancelRequest → Bool × V × List ExecutionReport
  run : Platform → V → Op → Option (V × List ExecutionReport)

inductive ExchangeOp
  | connect
  | disconnect
  | setMarketPrice (bid ask : ℤ)
  | processMatching (draws : ℕ → Draws)

instance : VenueAdapter SimulatedExchange where
  Op := ExchangeOp
  disconnect := SimulatedExchange.disconnect
  sendOrder := SimulatedExchange.sendOrder
  cancelOrder x request := ((x.cancelOrder request).1, (x.cancelOrder request).2, [])
  run P x
    | .connect => some (x.connect.2, [])
    | .disconnect => some (x.disconnect, [])
    | .setMarketPrice bid ask => some (x.setMarketPrice bid ask, [])
    | .processMatching draws => x.processMatching P draws

inductive Event
  | submitted (order : Order)
  | tracked (order : Order)
  | childCreated (parentId : ℕ) (child : Order)
  | childSent (child : Order) (accepted : Bool)
  | reported (report : ExecutionReport) (running queued : Bool)
  /-- The execution loop is done with a report; `applied` when it was about a known order and not
  ignored. -/
  | processed (report : ExecutionReport) (applied : Bool)
  | cancelTaken (orderId : ℕ)
  | completed (order : Order)
  | stopReturned
  deriving DecidableEq

structure Gateway (V : Type) where
  running : Bool := false
  orderQueue : Fifo Order 8192 := .empty
  cancelQueue : Fifo CancelRequest 4096 := .empty
  reportQueue : Fifo ExecutionReport 8192 := .empty
  mdAggregator : MarketDataAggregator := {}
  riskManager : RiskManager
  routingEngine : RoutingEngine := {}
  execHandler : ExecutionHandler := {}
  fillManager : FillManager := {}
  venues : ℕ → Option V := fun _ => none
  nextOrderId : ℕ := 1

/-- The clock as `process_single_order` reads it: for its own risk check, for the engine's, and for
the VWAP strategy. -/
structure Readings where
  riskSecond : ℤ := 0
  routeSecond : ℤ := 0
  beginNow : ℤ := 0
  progressNow : ℤ := 0

namespace Gateway

variable {V : Type} [VenueAdapter V] (P : Platform) (g : Gateway V)

/-- The callback of every venue. The result of `try_push` is not looked at. -/
def onExecutionReport (report : ExecutionReport) : Gateway V × List Event :=
  match g.reportQueue.tryPush report with
  | some queue => ({ g with reportQueue := queue }, [.reported report g.running true])
  | none => (g, [.reported report g.running false])

def onExecutionReports : Gateway V → List ExecutionReport → Gateway V × List Event
  | g, [] => (g, [])
  | g, report :: reports =>
    let (g, es) := g.onExecutionReport report
    let (g, es') := onExecutionReports g reports
    (g, es ++ es')

def childOf (order : Order) (slice : Slice) (id : ℕ) : Order :=
  Order.apply
    { id := id
      clientOrderId := order.clientOrderId
      parentOrderId := order.id
      symbol := order.symbol
      side := order.side
      type := slice.type
      tif := slice.tif
      price := slice.price
      quantity := slice.quantity
      remainingQuantity := slice.quantity
      targetVenue := slice.venueId
      strategy := order.strategy
      clientId := order.clientId
      state := .new }
    .submit

/-- The child is tracked and reserved before it is sent. -/
def createChild (order : Order) (slice : Slice) : Gateway V :=
  let child := childOf order slice g.nextOrderId
  { g with
    nextOrderId := g.nextOrderId + 1
    execHandler := g.execHandler.trackChildOrder order.id child
    riskManager := g.riskManager.onOrderAccepted child }

/-- The result of `send_order` is not looked at. -/
def sendChild (child : Order) (venueId : ℕ) : Gateway V × List Event :=
  match g.venues venueId with
  | none => (g, [])
  | some venue =>
    let (sent, venue, reports) := VenueAdapter.sendOrder venue child
    let (g, es) := { g with venues := Function.update g.venues venueId (some venue) }.onExecutionReports
      reports
    (g, .childSent child sent :: es)

def dispatchSlice (order : Order) (slice : Slice) : Gateway V × List Event :=
  let child := childOf order slice g.nextOrderId
  let (g, es) := (g.createChild order slice).sendChild child slice.venueId
  (g, .childCreated order.id child :: es)

def dispatchSlices (order : Order) : Gateway V → List Slice → Gateway V × List Event
  | g, [] => (g, [])
  | g, slice :: slices =>
    let (g, es) := g.dispatchSlice order slice
    let (g, es') := dispatchSlices order g slices
    (g, es ++ es')

def routeInput (order : Order) (t : Readings) : RouteInput where
  riskSecond := t.routeSecond
  beginNow := t.beginNow
  progressNow := t.progressNow
  nbbo := g.mdAggregator.getNbbo order.symbol
  book := g.mdAggregator.getAggregatedBook P order.symbol

def routeOrder (order : Order) (t : Readings) : RoutingEngine × RiskManager × RoutingDecision :=
  g.routingEngine.routeOrder P g.riskManager order (g.routeInput P order t)

/-- `process_single_order` once the order has passed the risk check. An empty decision marks only
the local copy of the order as rejected. -/
def routeTracked (order : Order) (t : Readings) : Gateway V × List Event :=
  let g := { g with execHandler := g.execHandler.trackOrder order }
  let (engine, risk, decision) := g.routeOrder P order t
  let g := { g with routingEngine := engine, riskManager := risk }
  if !decision.valid then (g, [.tracked order])
  else
    let (g, es) := dispatchSlices order g decision.slices
    (g, .tracked order :: es)

def processSingleOrder (order : Order) (t : Readings) : Gateway V × List Event :=
  let order := order.apply .submit
  let (risk, result) := g.riskManager.checkOrder order t.riskSecond
  let g := { g with riskManager := risk }
  if result ≠ .passed then (g, []) else g.routeTracked P order t

def recordFill (order : Order) (report : ExecutionReport) : Gateway V :=
  { g with
    fillManager := g.fillManager.recordFill
      { orderId := report.orderId
        execId := report.execId
        symbol := order.symbol
        side := order.side
        price := report.lastPrice
        quantity := report.lastQuantity
        venueId := report.venueId }
    riskManager := g.riskManager.onFill order.symbol order.side report.lastQuantity report.lastPrice }

/-- The copy of a parent that the reroute callback sends through `process_single_order`. -/
def rerouteOrder (parent : Order) : Order :=
  { parent with
    quantity := parent.remainingQuantity
    filledQuantity := 0
    remainingQuantity := parent.remainingQuantity
    state := .new }

def applies (report : ExecutionReport) : Bool :=
  match g.execHandler.orders report.orderId with
  | none => false
  | some o => (o.onReport report).isSome

def applyReport (report : ExecutionReport) : Gateway V :=
  let (handler, deferred) := g.execHandler.onExecutionReport report
  let g := { g with execHandler := handler }
  match deferred.fill with
  | some (order, report) => g.recordFill order report
  | none => g

def rerouteDue (report : ExecutionReport) : Option Order :=
  let (handler, deferred) := g.execHandler.onExecutionReport report
  handler.rerouted deferred

def processReport (report : ExecutionReport) (t : Readings) : Gateway V × List Event :=
  let (g', es) :=
    match g.rerouteDue report with
    | some parent => (g.applyReport report).processSingleOrder P (rerouteOrder parent) t
    | none => (g.applyReport report, [])
  let done :=
    match (g.execHandler.onExecutionReport report).2.completion with
    | some order => [.completed order]
    | none => []
  (g', .processed report (g.applies report) :: es ++ done)

def cancelChild (request : CancelRequest) (childId : ℕ) : Gateway V × List Event :=
  match g.execHandler.getOrder childId with
  | none => (g, [])
  | some child =>
    if child.isActive then
      match g.venues child.targetVenue with
      | none => (g, [])
      | some venue =>
        let (_, venue, reports) := VenueAdapter.cancelOrder venue { request with orderId := childId }
        { g with venues := Function.update g.venues child.targetVenue (some venue) }.onExecutionReports
          reports
    else (g, [])

def cancelChildren (request : CancelRequest) : Gateway V → List ℕ → Gateway V × List Event
  | g, [] => (g, [])
  | g, childId :: childIds =>
    let (g, es) := g.cancelChild request childId
    let (g, es') := cancelChildren request g childIds
    (g, es ++ es')

/-- The cancel is forwarded for each active child. No order is put into `PendingCancel`. -/
def processCancel (request : CancelRequest) : Gateway V × List Event :=
  match g.execHandler.getOrder request.orderId with
  | none => (g, [])
  | some _ =>
    let (g, es) := cancelChildren request g (g.execHandler.getChildren request.orderId)
    (g, .cancelTaken request.orderId :: es)

end Gateway

inductive OrderPc
  | exited
  | head
  | orders
  | cancels
  deriving DecidableEq

inductive ExecPc
  | exited
  | head
  | reports
  deriving DecidableEq

/-- The gateway with its threads, the reports that a venue thread has yet to hand over, and the ids
from `allocate_order_id` that clients have not used yet. -/
structure System (V : Type) where
  gateway : Gateway V
  orderThread : OrderPc := .exited
  execThread : ExecPc := .exited
  /-- `stop` waits for the threads. -/
  stopping : Bool := false
  outbox : ℕ → List ExecutionReport := fun _ => []
  unused : List ℕ := []

inductive Action (V : Type) [VenueAdapter V]
  | start
  | stop
  | joinStop
  | allocateOrderId
  | submitOrder (order : Order)
  | cancelOrder (request : CancelRequest)
  /-- One step of the order loop: a queue operation with the work on what it took. -/
  | orderLoop (t : Readings)
  | execLoop (t : Readings)
  | venue (venueId : ℕ) (op : VenueAdapter.Op V)
  | notify (venueId : ℕ)
  | onBookUpdate (venueId : ℕ) (symbol : Symbol) (book : OrderBook)
  | updateVenueScore (venueId : ℕ) (score : VenueScore)
  | removeVenue (venueId : ℕ)
  | setGlobalLimits (limits : RiskLimits) (nowSec : ℤ)
  | setSymbolLimits (symbol : Symbol) (limits : RiskLimits)
  | activateKillSwitch
  | deactivateKillSwitch

namespace Action

variable {V : Type} [VenueAdapter V]

def isExecLoop : Action V → Bool
  | execLoop _ => true
  | _ => false

def submits : Action V → Option Order
  | submitOrder order => some order
  | _ => none

end Action

namespace System

variable {V : Type} [VenueAdapter V] (P : Platform) (s : System V)

def setGateway (g : Gateway V) : System V := { s with gateway := g }

def assignId (order : Order) : Order × ℕ :=
  if order.id = invalidOrderId then
    ({ order with id := s.gateway.nextOrderId }, s.gateway.nextOrderId + 1)
  else (order, s.gateway.nextOrderId)

def submitOrder (order : Order) : System V × List Event :=
  if !s.gateway.running then (s, [])
  else
    let (order, nextOrderId) := s.assignId order
    let s := s.setGateway { s.gateway with nextOrderId := nextOrderId }
    match s.gateway.orderQueue.tryPush order with
    | none => (s, [])
    | some queue =>
      ({ s with
        gateway := { s.gateway with orderQueue := queue }
        unused := s.unused.filter (· ≠ order.id) }, [.submitted order])

def cancelOrder (request : CancelRequest) : System V :=
  if !s.gateway.running then s
  else
    match s.gateway.cancelQueue.tryPush request with
    | none => s
    | some queue => s.setGateway { s.gateway with cancelQueue := queue }

def orderLoop (t : Readings) : Option (System V × List Event) :=
  match s.orderThread with
  | .exited => none
  | .head => some ({ s with orderThread := if s.gateway.running then .orders else .exited }, [])
  | .orders =>
    match s.gateway.orderQueue.tryPop with
    | none => some ({ s with orderThread := .cancels }, [])
    | some (order, queue) =>
      let (g, es) := { s.gateway with orderQueue := queue }.processSingleOrder P order t
      some (s.setGateway g, es)
  | .cancels =>
    match s.gateway.cancelQueue.tryPop with
    | none => some ({ s with orderThread := .head }, [])
    | some (request, queue) =>
      let (g, es) := { s.gateway with cancelQueue := queue }.processCancel request
      some (s.setGateway g, es)

def execLoop (t : Readings) : Option (System V × List Event) :=
  match s.execThread with
  | .exited => none
  | .head => some ({ s with execThread := if s.gateway.running then .reports else .exited }, [])
  | .reports =>
    match s.gateway.reportQueue.tryPop with
    | none => some ({ s with execThread := .head }, [])
    | some (report, queue) =>
      let (g, es) := { s.gateway with reportQueue := queue }.processReport P report t
      some (s.setGateway g, es)

/-- The running flag, the threads and the queues are the gateway's own; everything else belongs to
its clients and venues. -/
def step : Action V → Option (System V × List Event)
  | .start =>
    if s.gateway.running then some (s, [])
    else if s.stopping then none
    else some ({ s with
      gateway := { s.gateway with running := true }, orderThread := .head, execThread := .head }, [])
  | .stop =>
    if s.gateway.running then
      some ({ s with gateway := { s.gateway with running := false }, stopping := true }, [])
    else some (s, [])
  | .joinStop =>
    if s.stopping ∧ s.orderThread = .exited ∧ s.execThread = .exited then
      some ({ s with
        gateway := { s.gateway with
          venues := fun v => (s.gateway.venues v).map VenueAdapter.disconnect }
        stopping := false }, [.stopReturned])
    else none
  | .allocateOrderId =>
    some ({ s with
      gateway := { s.gateway with nextOrderId := s.gateway.nextOrderId + 1 }
      unused := s.gateway.nextOrderId :: s.unused }, [])
  | .submitOrder order => some (s.submitOrder order)
  | .cancelOrder request => some (s.cancelOrder request, [])
  | .orderLoop t => s.orderLoop P t
  | .execLoop t => s.execLoop P t
  | .venue venueId op =>
    match s.gateway.venues venueId with
    | none => none
    | some venue =>
      (VenueAdapter.run P venue op).map fun (venue, reports) =>
        ({ s with
          gateway := { s.gateway with
            venues := Function.update s.gateway.venues venueId (some venue) }
          outbox := Function.update s.outbox venueId (s.outbox venueId ++ reports) }, [])
  | .notify venueId =>
    match s.outbox venueId with
    | [] => none
    | report :: reports =>
      let (g, es) := s.gateway.onExecutionReport report
      some ({ s with gateway := g, outbox := Function.update s.outbox venueId reports }, es)
  | .onBookUpdate venueId symbol book =>
    some (s.setGateway { s.gateway with
      mdAggregator := s.gateway.mdAggregator.onBookUpdate venueId symbol book }, [])
  | .updateVenueScore venueId score =>
    some (s.setGateway { s.gateway with
      routingEngine := s.gateway.routingEngine.updateVenueScore venueId score }, [])
  | .removeVenue venueId =>
    some (s.setGateway { s.gateway with
      routingEngine := s.gateway.routingEngine.removeVenue venueId }, [])
  | .setGlobalLimits limits nowSec =>
    some (s.setGateway { s.gateway with
      riskManager := s.gateway.riskManager.setGlobalLimits limits nowSec }, [])
  | .setSymbolLimits symbol limits =>
    some (s.setGateway { s.gateway with
      riskManager := s.gateway.riskManager.setSymbolLimits symbol limits }, [])
  | .activateKillSwitch =>
    some (s.setGateway { s.gateway with riskManager := s.gateway.riskManager.activateKillSwitch }, [])
  | .deactivateKillSwitch =>
    some (s.setGateway { s.gateway with riskManager := s.gateway.riskManager.deactivateKillSwitch }, [])

def machine : Machine (System V) (Action V) Event where
  step := step P

/-- A gateway with its venues connected, its callbacks set by `initialize` and no order yet. -/
def initialized (venues : ℕ → Option V) (engine : RoutingEngine) (md : MarketDataAggregator)
    (limits : RiskLimits) (symbolLimits : Symbol → Option RiskLimits) (limiter : RateLimiter) :
    System V where
  gateway :=
    { mdAggregator := md
      riskManager :=
        { globalLimits := limits, symbolLimits := symbolLimits, rateLimiter := limiter }
      routingEngine := engine
      execHandler :=
        { hasFillCallback := true, hasCompletionCallback := true, hasRerouteCallback := true }
      venues := venues }

def exchanges (configs : ℕ → Option ExchangeConfig) (v : ℕ) : Option SimulatedExchange :=
  (configs v).map fun config => (SimulatedExchange.connect { config := config }).2

def oneExchange (config : ExchangeConfig) (strategy : Strategy) (symbol : Symbol) (shown : ℤ) :
    System SimulatedExchange :=
  initialized (exchanges fun v => if v = 1 then some config else none)
    ((({} : RoutingEngine).registerStrategy strategy).updateVenueScore 1 {})
    (.quoting 1 symbol (99 * priceScale) (101 * priceScale) shown) {} (fun _ => none)
    { maxPerSecond := 10000, windowStart := 0 }

def calm : System SimulatedExchange := oneExchange {} .bestPrice (.assign [65]) 10

def buyTen : Order :=
  { symbol := .assign [65], price := 101 * priceScale, quantity := 10 }

def sending (order : Order) : List (Action SimulatedExchange) :=
  [.venue 1 (.setMarketPrice (99 * priceScale) (101 * priceScale)), .start, .submitOrder order,
    .orderLoop {}, .orderLoop {}]

end System

end Klett.Sor

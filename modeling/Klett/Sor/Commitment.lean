import Klett.Lib.Machine
import Klett.Sor.RoutingEngine

namespace Klett.Sor

open Klett.Lib

namespace Strategy

def setMinSliceQuantity (qty : ℤ) : Strategy → Strategy
  | liquiditySweep _ => liquiditySweep qty
  | s => s

def setSlippageTicks (ticks : ℤ) : Strategy → Strategy
  | smartIoc _ => smartIoc ticks
  | s => s

def onVwap (f : Vwap → Vwap) : Strategy → Strategy
  | vwap v => vwap (f v)
  | s => s

end Strategy

namespace Commitment

inductive Call
  | routeOrder (risk : RiskManager) (order : Order) (input : RouteInput)
  | registerStrategy (strategy : Strategy)
  | updateVenueScore (venueId : ℕ) (score : VenueScore)
  | removeVenue (venueId : ℕ)
  | setMinSliceQuantity (qty : ℤ)
  | setSlippageTicks (ticks : ℤ)
  | vwapBegin (totalQuantity startTime : ℤ)
  | vwapOnFill (filledQty : ℤ)
  | vwapSetConfig (config : VwapConfig)

inductive Event
  | decided (order : Order) (decision : RoutingDecision)
  deriving DecidableEq

variable (P : Platform)

def adjust (engine : RoutingEngine) (f : Strategy → Strategy) : RoutingEngine :=
  { engine with strategies := fun tag => (engine.strategies tag).map f }

def step (engine : RoutingEngine) : Call → RoutingEngine × List Event
  | .routeOrder risk order input =>
    let (engine, _, decision) := engine.routeOrder P risk order input
    (engine, [.decided order decision])
  | .registerStrategy strategy => (engine.registerStrategy strategy, [])
  | .updateVenueScore venueId score => (engine.updateVenueScore venueId score, [])
  | .removeVenue venueId => (engine.removeVenue venueId, [])
  | .setMinSliceQuantity qty => (adjust engine (.setMinSliceQuantity qty), [])
  | .setSlippageTicks ticks => (adjust engine (.setSlippageTicks ticks), [])
  | .vwapBegin totalQuantity startTime =>
    (adjust engine (.onVwap fun v => v.begin totalQuantity startTime), [])
  | .vwapOnFill filledQty => (adjust engine (.onVwap fun v => v.onFill filledQty), [])
  | .vwapSetConfig config => (adjust engine (.onVwap fun v => v.setConfig config), [])

def machine : Machine RoutingEngine Call Event where
  step engine call := some (step P engine call)

/-- The order is not overfilled, and if it goes to VWAP, its own open quantity covers what the
schedule then under way may send. -/
def Covered : Machine.Guard RoutingEngine Call Event
  | _, engine, .routeOrder _ order input =>
    0 ≤ order.leavesQty ∧ ∀ v, engine.strategies order.strategy = some (.vwap v) →
      (v.scheduled order input.beginNow).Covers P order input.progressNow
  | _, _, _ => True

variable {P} {order : Order} {input : RouteInput} {venues : List VenueScore}

theorem route_total_le {strategy : Strategy} (h : 0 ≤ order.leavesQty)
    (hv : ∀ v, strategy = .vwap v → (v.scheduled order input.beginNow).Covers P order input.progressNow) :
    (strategy.route P order input venues).2.totalQuantity ≤ order.leavesQty := by
  cases strategy with
  | bestPrice => exact BestPrice.route_total_le h
  | liquiditySweep minSlice => exact LiquiditySweep.route_total_le h
  | smartIoc ticks => exact SmartIoc.route_total_le h
  | vwap v => exact Vwap.getNextSlice_total_le h (hv v rfl)

theorem decision_le {engine : RoutingEngine} {risk : RiskManager} (h : 0 ≤ order.leavesQty)
    (hv : ∀ v, engine.strategies order.strategy = some (.vwap v) →
      (v.scheduled order input.beginNow).Covers P order input.progressNow) :
    (engine.routeOrder P risk order input).2.2.totalQuantity ≤ order.leavesQty := by
  obtain hempty | ⟨-, strategy, hstrategy, hrouted⟩ := RoutingEngine.routeOrder_cases P engine risk
    order input
  · rw [hempty]
    exact h
  · rw [hrouted]
    exact route_total_le h fun v hv' => hv v (by rw [hstrategy, hv'])

/-- No decision of a run commits more than its order leaves open, as long as no order is cut from
another order's schedule. -/
theorem decisions_within_leaves {engine engine' : RoutingEngine} {h : Trace Call Event}
    (hr : (machine P).Reach (Covered P) engine h engine') {order : Order} {decision : RoutingDecision}
    (he : .decided order decision ∈ h.events) : decision.totalQuantity ≤ order.leavesQty := by
  refine hr.invariant (I := fun h _ => ∀ order decision, Event.decided order decision ∈ h.events →
    decision.totalQuantity ≤ order.leavesQty) (by simp) ?_ order decision he
  intro k e call u es ih hc hstep order decision hmem
  obtain ⟨rfl, rfl⟩ : (step P e call).1 = u ∧ (step P e call).2 = es := by
    simpa [machine, Prod.ext_iff] using hstep
  rw [Trace.events_append, Trace.events_single] at hmem
  rcases List.mem_append.mp hmem with hold | hnew
  · exact ih order decision hold
  · cases call with
    | routeOrder risk ordered input =>
      obtain ⟨rfl, rfl⟩ : order = ordered ∧ decision = _ := by simpa [step] using hnew
      exact decision_le hc.1 hc.2
    | _ => simp [step] at hnew

def vwapOrder (id : ℕ) (quantity : ℤ) : Order :=
  { id := id, symbol := .assign [65], price := 100 * priceScale, quantity := quantity, strategy := .vwap }

def vwapEngine : RoutingEngine :=
  (({} : RoutingEngine).registerStrategy (.vwap {})).updateVenueScore 1 {}

def routeAt (order : Order) (now : ℤ) : Call :=
  .routeOrder (.initial 0) order <|
    (MarketDataAggregator.quoting 1 order.symbol (99 * priceScale) (101 * priceScale) 10).routeInput
      .exact order.symbol now

def slice (quantity : ℤ) : RoutingDecision := ⟨[⟨1, 101 * priceScale, quantity, .limit, .ioc⟩]⟩

theorem decisions_within_leaves_first_slice :
    (slice 100).totalQuantity ≤ (vwapOrder 1 3000).leavesQty := by
  have hr : (machine .exact).Reach (Covered .exact) vwapEngine
      [(routeAt (vwapOrder 1 3000) 1, (step .exact vwapEngine (routeAt (vwapOrder 1 3000) 1)).2)]
      (step .exact vwapEngine (routeAt (vwapOrder 1 3000) 1)).1 := by
    refine .step .refl ⟨by decide, fun v hv => ?_⟩ rfl
    obtain rfl : ({} : Vwap) = v := Strategy.vwap.inj (Option.some.inj hv)
    exact .inr ⟨by decide, .inl (by decide)⟩
  exact decisions_within_leaves hr (by decide +kernel)

/-- The schedule of the first VWAP order goes on with the second: an order over one gets a slice of
a hundred. -/
theorem vwap_overcommits : ∃ h engine, (machine .exact).Run vwapEngine h engine ∧
    .decided (vwapOrder 2 1) (slice 100) ∈ h.events ∧
    (vwapOrder 2 1).leavesQty < (slice 100).totalQuantity :=
  ⟨_, _, Machine.run_of_exec [routeAt (vwapOrder 1 3000) 1, routeAt (vwapOrder 2 1) 2] rfl,
    by decide +kernel, by decide⟩

end Commitment

end Klett.Sor

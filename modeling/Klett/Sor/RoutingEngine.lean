import Klett.Sor.BestPrice
import Klett.Sor.LiquiditySweep
import Klett.Sor.RiskManager
import Klett.Sor.SmartIoc
import Klett.Sor.Vwap

namespace Klett.Sor

open Klett.Lib

inductive Strategy
  | bestPrice
  | liquiditySweep (minSliceQuantity : ℤ)
  | smartIoc (slippageTicks : ℤ)
  | vwap (state : Vwap)

/-- What one call of `route_order` reads of the world: the second of its risk check, the two clock
readings of the VWAP strategy and the two views of the market. -/
structure RouteInput where
  riskSecond : ℤ
  beginNow : ℤ
  progressNow : ℤ
  nbbo : Nbbo
  book : AggregatedBook

def MarketDataAggregator.routeInput (P : Platform) (md : MarketDataAggregator) (symbol : Symbol)
    (now : ℤ) : RouteInput :=
  ⟨now, now * 1000000000, now * 1000000000, md.getNbbo symbol, md.getAggregatedBook P symbol⟩

namespace Strategy

variable (P : Platform)

def type : Strategy → RoutingStrategy
  | bestPrice => .bestPrice
  | liquiditySweep _ => .liquiditySweep
  | smartIoc _ => .smartIoc
  | vwap _ => .vwap

def route (order : Order) (input : RouteInput) (venues : List VenueScore) :
    Strategy → Strategy × RoutingDecision
  | bestPrice => (bestPrice, BestPrice.route P order input.nbbo input.book venues)
  | liquiditySweep minSlice =>
    (liquiditySweep minSlice, LiquiditySweep.route P minSlice order input.nbbo input.book venues)
  | smartIoc ticks => (smartIoc ticks, SmartIoc.route P ticks order input.nbbo input.book venues)
  | vwap v =>
    let (v, decision) := v.route P order input.nbbo input.book venues input.beginNow input.progressNow
    (vwap v, decision)

end Strategy

structure RoutingEngine where
  strategies : RoutingStrategy → Option Strategy := fun _ => none
  venueScores : List VenueScore := []

namespace RoutingEngine

variable (P : Platform) (engine : RoutingEngine)

def registerStrategy (strategy : Strategy) : RoutingEngine :=
  { engine with strategies := Function.update engine.strategies strategy.type (some strategy) }

def updateVenueScore (venueId : ℕ) (score : VenueScore) : RoutingEngine :=
  { engine with
    venueScores := engine.venueScores.filter (fun vs => vs.venueId ≠ venueId) ++
      [{ score with venueId := venueId }] }

def removeVenue (venueId : ℕ) : RoutingEngine :=
  { engine with venueScores := engine.venueScores.filter fun vs => vs.venueId ≠ venueId }

def getAvailableVenues : List VenueScore :=
  (P.iterate engine.venueScores).filter VenueScore.isAvailable

/-- Dispatch to the strategy registered under the order's tag, which may change its state. -/
def dispatch (order : Order) (input : RouteInput) : RoutingEngine × RoutingDecision :=
  match engine.strategies order.strategy with
  | none => (engine, {})
  | some strategy =>
    if (engine.getAvailableVenues P).isEmpty then (engine, {})
    else
      let (strategy, decision) := strategy.route P order input (engine.getAvailableVenues P)
      ({ engine with
        strategies := Function.update engine.strategies order.strategy (some strategy) }, decision)

/-- An empty decision is a rejection. -/
def routeOrder (risk : RiskManager) (order : Order) (input : RouteInput) :
    RoutingEngine × RiskManager × RoutingDecision :=
  if order.symbol.empty then (engine, risk, {})
  else if order.quantity ≤ 0 then (engine, risk, {})
  else if order.type = .limit ∧ order.price ≤ 0 then (engine, risk, {})
  else
    let (risk, result) := risk.checkOrder order input.riskSecond
    if result ≠ .passed then (engine, risk, {})
    else if !input.nbbo.valid then (engine, risk, {})
    else
      let (engine, decision) := engine.dispatch P order input
      (engine, risk, decision)

variable {P} {engine} {risk : RiskManager} {order : Order} {input : RouteInput}

theorem dispatch_cases : (engine.dispatch P order input).2 = {} ∨
    ∃ strategy, engine.strategies order.strategy = some strategy ∧
      (engine.dispatch P order input).2 =
        (strategy.route P order input (engine.getAvailableVenues P)).2 := by
  unfold dispatch
  split
  · exact .inl rfl
  next strategy hstrategy =>
    split_ifs
    · exact .inl rfl
    · exact .inr ⟨strategy, hstrategy, rfl⟩

variable (P engine risk order input) in
/-- A routed order took the decision of the strategy registered for it; a rejected one took none. -/
theorem routeOrder_cases :
    (engine.routeOrder P risk order input).2.2 = {} ∨
      ((order.type = .limit → 0 < order.price) ∧
        ∃ strategy, engine.strategies order.strategy = some strategy ∧
          (engine.routeOrder P risk order input).2.2 =
            (strategy.route P order input (engine.getAvailableVenues P)).2) := by
  unfold routeOrder
  simp only
  split_ifs with _ _ hprice
  · exact .inl rfl
  · exact .inl rfl
  · exact .inl rfl
  · exact .inl rfl
  · exact .inl rfl
  · refine dispatch_cases.imp_right fun hrouted => ⟨fun hlimit => ?_, hrouted⟩
    exact not_le.mp fun hle => hprice ⟨hlimit, hle⟩

theorem routeOrder_nonneg : ∀ s ∈ (engine.routeOrder P risk order input).2.2.slices, 0 ≤ s.quantity := by
  obtain hempty | ⟨-, strategy, -, hrouted⟩ := routeOrder_cases P engine risk order input
  · rw [hempty]
    simp
  · rw [hrouted]
    cases strategy with
    | bestPrice => exact BestPrice.route_nonneg
    | liquiditySweep minSlice => exact LiquiditySweep.route_nonneg
    | smartIoc ticks => exact SmartIoc.route_nonneg
    | vwap v => exact Vwap.getNextSlice_nonneg

variable (P engine risk order input) in
theorem routeOrder_accepted (strategy : Strategy) (hsymbol : order.symbol.empty = false)
    (hq : 0 < order.quantity) (hp : order.type = .limit → 0 < order.price)
    (hcheck : (risk.checkOrder order input.riskSecond).2 = .passed) (hn : input.nbbo.valid = true)
    (hs : engine.strategies order.strategy = some strategy)
    (hv : (engine.getAvailableVenues P).isEmpty = false) :
    (engine.routeOrder P risk order input).2.2 =
      (strategy.route P order input (engine.getAvailableVenues P)).2 := by
  have hprice : ¬(order.type = .limit ∧ order.price ≤ 0) := fun h => not_le.mpr (hp h.1) h.2
  unfold routeOrder dispatch
  simp [hsymbol, not_le.mpr hq, hprice, hcheck, hn, hs, hv]

theorem routeOrder_checked (hsymbol : order.symbol.empty = false) (hq : 0 < order.quantity)
    (hp : ¬(order.type = .limit ∧ order.price ≤ 0)) :
    (engine.routeOrder P risk order input).2.1 = (risk.checkOrder order input.riskSecond).1 := by
  unfold routeOrder
  simp only [hsymbol, not_le.mpr hq, hp]
  split_ifs <;> first | contradiction | rfl

theorem routeOrder_refused (h : (risk.checkOrder order input.riskSecond).2 ≠ .passed) :
    (engine.routeOrder P risk order input).2.2 = {} := by
  unfold routeOrder
  simp only
  split_ifs <;> rfl

variable (P engine risk order input) in
theorem routeOrder_risk : ∃ limiter,
    (engine.routeOrder P risk order input).2.1 = { risk with rateLimiter := limiter } := by
  obtain ⟨limiter, hcheck⟩ := risk.checkOrder_frame order input.riskSecond
  unfold routeOrder
  simp only
  split_ifs
  · exact ⟨risk.rateLimiter, rfl⟩
  · exact ⟨risk.rateLimiter, rfl⟩
  · exact ⟨risk.rateLimiter, rfl⟩
  · exact ⟨limiter, hcheck⟩
  · exact ⟨limiter, hcheck⟩
  · exact ⟨limiter, hcheck⟩

end RoutingEngine

end Klett.Sor

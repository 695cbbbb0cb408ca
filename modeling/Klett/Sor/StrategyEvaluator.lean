import Klett.Lib.Search
import Klett.Sor.MarketSimulator

/-!
The evaluation of a routing strategy over a simulated market. The market may do anything: what it returns for an
order is a parameter.
-/

namespace Klett.Sor.Simulation

open Klett.Lib

section Model

structure Nbbo where
  bestBid : Option ℚ
  bestAsk : Option ℚ

/-- What the evaluator uses of a simulator. `latencyUs` is that of a venue, or the default for an unknown one. -/
structure Market (S : Type*) where
  populateBooks : S → S
  getNbbo : S → Nbbo
  routeOrder : Side → ℚ → Option ℚ → String → S → List RoutedOrder × S
  step : S → S
  latencyUs : ℤ → ℚ

/-- An order as a dictionary with optional keys. -/
structure OrderDict where
  side : Option String := none
  quantity : Option ℚ := none
  price : Option ℚ := none

/-- `vwap` is `none` where the fills add up to nothing, and the division gives no number. -/
structure StrategyResult where
  strategyName : String
  totalOrders : ℕ := 0
  totalFills : ℕ := 0
  totalQuantity : ℚ := 0
  totalNotional : ℚ := 0
  avgFillPrice : ℚ := 0
  vwap : Option ℚ := some 0
  totalFees : ℚ := 0
  avgLatencyUs : ℚ := 0
  fillRate : ℚ := 0
  slippageBps : ℚ := 0
  implementationShortfall : ℚ := 0
  p50LatencyUs : ℚ := 0
  p99LatencyUs : ℚ := 0
  minFillPrice : ℚ := 0
  maxFillPrice : ℚ := 0

/-- The lists and counters that the loops fill. -/
structure Totals where
  allFillPrices : List ℚ := []
  allFillQtys : List ℚ := []
  allLatencies : List ℚ := []
  totalOrders : ℕ := 0
  totalFillsCount : ℕ := 0
  totalFees : ℚ := 0
  arrivalPrices : List (Option ℚ) := []

/-- What happens to one order: the best price it finds, and where it is routed. -/
structure Outcome where
  arrival : Option ℚ
  routed : List RoutedOrder

variable {S : Type*} (market : Market S) (strategyName : String)

def outcome (order : OrderDict) (s : S) : Outcome × S :=
  let side := if (order.side.getD "buy").toLower = "buy" then .buy else .sell
  let quantity := order.quantity.getD 100
  let nbbo := market.getNbbo s
  let arrival := match side with
    | .buy => nbbo.bestAsk
    | .sell => nbbo.bestBid
  let (routed, s) := market.routeOrder side quantity order.price strategyName s
  ({ arrival, routed }, s)

namespace Totals

def addFill (routed : RoutedOrder) (t : Totals) (f : Fill) : Totals :=
  { t with
    allFillPrices := t.allFillPrices ++ [f.price]
    allFillQtys := t.allFillQtys ++ [f.quantity]
    allLatencies := t.allLatencies ++ [market.latencyUs routed.venueId]
    totalFees := t.totalFees + routed.fees }

def addRouted (t : Totals) (routed : RoutedOrder) : Totals := routed.fills.foldl (addFill market routed) t

def add (t : Totals) (o : Outcome) : Totals :=
  let t := { t with arrivalPrices := t.arrivalPrices ++ [o.arrival], totalOrders := t.totalOrders + 1 }
  if o.routed.isEmpty then t
  else o.routed.foldl (addRouted market) { t with totalFillsCount := t.totalFillsCount + 1 }

end Totals

def runOrders : List OrderDict → Totals → S → Totals × S
  | [], t, s => (t, s)
  | order :: orders, t, s =>
    let (o, s) := outcome market strategyName order s
    runOrders orders (t.add market o) s

def runSimulations (orders : List OrderDict) : ℕ → Totals → S → Totals × S
  | 0, t, s => (t, s)
  | n + 1, t, s =>
    let (t, s) := runOrders market strategyName orders t (market.populateBooks s)
    runSimulations orders n t (market.step s)

def mean (values : List ℚ) : ℚ := values.sum / values.length

/-- `np.percentile`, with linear interpolation. -/
def percentile (values : List ℚ) (q : ℚ) : ℚ :=
  let sorted := values.insertionSort (· ≤ ·)
  let position := (values.length - 1) * q / 100
  let i := ⌊position⌋.toNat
  let low := sorted.getD i 0
  low + (sorted.getD (i + 1) low - low) * (position - i)

/-- The arrival prices that are averaged. A missing one among them raises a `TypeError`. -/
def Totals.averagedArrivals (t : Totals) : Option (List ℚ) := (t.arrivalPrices.take t.totalFillsCount).mapM id

def slippageBps (avgFillPrice : ℚ) (arrivals : List ℚ) : ℚ :=
  if arrivals.length > 0 ∧ mean arrivals > 0 then (avgFillPrice - mean arrivals) / mean arrivals * 10000 else 0

def Totals.result (strategyName : String) (t : Totals) : Option StrategyResult :=
  let result : StrategyResult := { strategyName, totalOrders := t.totalOrders, totalFills := t.totalFillsCount }
  if t.allFillQtys.isEmpty then some result
  else do
    let totalNotional := (List.zipWith (· * ·) t.allFillPrices t.allFillQtys).sum
    let avgFillPrice := mean t.allFillPrices
    let arrivals ← t.averagedArrivals
    let slippage := slippageBps avgFillPrice arrivals
    some
      { result with
        totalQuantity := t.allFillQtys.sum
        totalNotional
        vwap := if t.allFillQtys.sum = 0 then none else some (totalNotional / t.allFillQtys.sum)
        avgFillPrice
        minFillPrice := t.allFillPrices.min?.getD 0
        maxFillPrice := t.allFillPrices.max?.getD 0
        totalFees := t.totalFees
        fillRate := if t.totalOrders > 0 then t.totalFillsCount / t.totalOrders else 0
        avgLatencyUs := mean t.allLatencies
        p50LatencyUs := percentile t.allLatencies 50
        p99LatencyUs := percentile t.allLatencies 99
        slippageBps := slippage
        implementationShortfall := slippage * totalNotional / 10000 }

/-- The loops over simulations and orders. -/
def evaluatedTotals (orders : List OrderDict) (numSimulations : ℕ) (s : S) : Totals :=
  (runSimulations market strategyName orders numSimulations {} s).1

def evaluateStrategy (orders : List OrderDict) (numSimulations : ℕ) (s : S) : Option StrategyResult :=
  (evaluatedTotals market strategyName orders numSimulations s).result strategyName

end Model

section Outcomes

variable {S : Type*} (market : Market S) (strategyName : String)

def orderOutcomes : List OrderDict → S → List Outcome × S
  | [], s => ([], s)
  | order :: orders, s =>
    let (o, s) := outcome market strategyName order s
    let (os, s) := orderOutcomes orders s
    (o :: os, s)

/-- What the market does with the orders, in all simulations. -/
def outcomes (orders : List OrderDict) : ℕ → S → List Outcome
  | 0, _ => []
  | n + 1, s =>
    let (os, s) := orderOutcomes market strategyName orders (market.populateBooks s)
    os ++ outcomes orders n (market.step s)

theorem runOrders_eq (orders : List OrderDict) (t : Totals) (s : S) :
    runOrders market strategyName orders t s =
      ((orderOutcomes market strategyName orders s).1.foldl (Totals.add market) t,
        (orderOutcomes market strategyName orders s).2) := by
  induction orders generalizing t s with
  | nil => rfl
  | cons order orders ih => exact ih _ _

theorem runSimulations_totals (orders : List OrderDict) (n : ℕ) (t : Totals) (s : S) :
    (runSimulations market strategyName orders n t s).1 =
      (outcomes market strategyName orders n s).foldl (Totals.add market) t := by
  induction n generalizing t s with
  | zero => rfl
  | succ n ih =>
    rw [runSimulations, outcomes, runOrders_eq]
    simp only [List.foldl_append]
    exact ih _ _

/-- The fills of an order, each with the routed order it belongs to. -/
def Outcome.fills (o : Outcome) : List (RoutedOrder × Fill) := o.routed.flatMap fun r => r.fills.map (r, ·)

namespace Totals

variable {market} {t : Totals}

/-- The totals with more fills. -/
def more (market : Market S) (t : Totals) (l : List (RoutedOrder × Fill)) : Totals :=
  { t with
    allFillPrices := t.allFillPrices ++ l.map fun f => f.2.price
    allFillQtys := t.allFillQtys ++ l.map fun f => f.2.quantity
    allLatencies := t.allLatencies ++ l.map fun f => market.latencyUs f.1.venueId
    totalFees := t.totalFees + (l.map fun f => f.1.fees).sum }

theorem more_nil : t.more market [] = t := by
  simp [more]

theorem more_more (l l' : List (RoutedOrder × Fill)) : (t.more market l).more market l' = t.more market (l ++ l') := by
  simp [more, add_assoc]

theorem addFill_eq (r : RoutedOrder) (f : Fill) : addFill market r t f = t.more market [(r, f)] := by
  simp [addFill, more]

theorem addRouted_eq (r : RoutedOrder) : t.addRouted market r = t.more market (r.fills.map (r, ·)) := by
  unfold addRouted
  induction r.fills generalizing t with
  | nil => exact more_nil.symm
  | cons f fills ih => rw [List.foldl_cons, ih, addFill_eq, more_more, List.map_cons, List.singleton_append]

theorem foldl_addRouted (routed : List RoutedOrder) :
    routed.foldl (addRouted market) t = t.more market (routed.flatMap fun r => r.fills.map (r, ·)) := by
  induction routed generalizing t with
  | nil => exact more_nil.symm
  | cons r routed ih => rw [List.foldl_cons, ih, addRouted_eq, more_more, List.flatMap_cons]

theorem add_eq (o : Outcome) : t.add market o =
    { t.more market o.fills with
      arrivalPrices := t.arrivalPrices ++ [o.arrival]
      totalOrders := t.totalOrders + 1
      totalFillsCount := t.totalFillsCount + if o.routed.isEmpty then 0 else 1 } := by
  unfold add
  simp only
  split_ifs with hempty
  · have hnone : o.fills = [] := by rw [Outcome.fills, List.isEmpty_iff.mp hempty, List.flatMap_nil]
    rw [hnone, more_nil, add_zero]
  · rw [foldl_addRouted]
    rfl

theorem foldl_add (os : List Outcome) : os.foldl (add market) t =
    { t.more market (os.flatMap Outcome.fills) with
      arrivalPrices := t.arrivalPrices ++ os.map Outcome.arrival
      totalOrders := t.totalOrders + os.length
      totalFillsCount := t.totalFillsCount + os.countP fun o => !o.routed.isEmpty } := by
  induction os generalizing t with
  | nil => simp [more_nil]
  | cons o os ih =>
    rw [List.foldl_cons, ih, add_eq, List.countP_cons]
    simp only [more, List.flatMap_cons, List.map_append, List.sum_append, List.map_cons, List.length_cons,
      List.append_assoc, List.singleton_append, add_assoc]
    cases o.routed.isEmpty <;> simp [add_comm]

end Totals

end Outcomes

section Attribution

variable {S : Type*} {os : List Outcome}

def RoutedOrder.hasFills (r : RoutedOrder) : Bool := !r.fills.isEmpty

/-- The order received a fill. -/
def Outcome.filled (o : Outcome) : Bool := o.routed.any RoutedOrder.hasFills

/-- How many orders were routed to some venue, with a fill or without. -/
def routedCount (os : List Outcome) : ℕ := os.countP fun o => !o.routed.isEmpty

def routedWithFills (os : List Outcome) : List RoutedOrder := (os.flatMap Outcome.routed).filter RoutedOrder.hasFills

/-- Everything is counted for the orders it belongs to. -/
structure Attributed (os : List Outcome) (t : Totals) (result : StrategyResult) : Prop where
  fees : result.totalFees = ((routedWithFills os).map RoutedOrder.fees).sum
  quantity : result.totalQuantity = ((os.flatMap Outcome.fills).map fun f => f.2.quantity).sum
  notional : result.totalNotional = ((os.flatMap Outcome.fills).map fun f => f.2.price * f.2.quantity).sum
  arrivals : ∃ arrivals, t.averagedArrivals = some arrivals ∧
    (arrivals.map some).Perm ((os.filter Outcome.filled).map Outcome.arrival)

/-- Fees are not repeated to any effect, and as for arrival prices the orders with fills might have come first. -/
structure Attributable (os : List Outcome) : Prop where
  once : ((routedWithFills os).map fun r => ((r.fills.length : ℚ) - 1) * r.fees).sum = 0
  quoted : ∀ o ∈ os.take (routedCount os), o.arrival.isSome
  early : (((os.take (routedCount os)).filter fun o => !o.filled).map Outcome.arrival).Perm
    (((os.drop (routedCount os)).filter Outcome.filled).map Outcome.arrival)

theorem sum_fees (rs : List RoutedOrder) :
    ((rs.flatMap fun r => r.fills.map (r, ·)).map fun f : RoutedOrder × Fill => f.1.fees).sum =
      ((rs.filter RoutedOrder.hasFills).map RoutedOrder.fees).sum +
        ((rs.filter RoutedOrder.hasFills).map fun r => ((r.fills.length : ℚ) - 1) * r.fees).sum := by
  induction rs with
  | nil => exact (add_zero 0).symm
  | cons r rs ih =>
    have hhead : ((r.fills.map (r, ·)).map fun f : RoutedOrder × Fill => f.1.fees).sum = r.fills.length * r.fees := by
      simp [Function.comp_def]
    rw [List.flatMap_cons, List.map_append, List.sum_append, hhead, ih, List.filter_cons]
    split_ifs with hfills
    · simp only [List.map_cons, List.sum_cons]
      ring
    · have hnone : r.fills = [] := by simpa [RoutedOrder.hasFills] using hfills
      rw [hnone, List.length_nil, Nat.cast_zero, zero_mul, zero_add]

theorem arrivals_iff (os : List Outcome) :
    (∃ arrivals, ((os.map Outcome.arrival).take (routedCount os)).mapM id = some arrivals ∧
        (arrivals.map some).Perm ((os.filter Outcome.filled).map Outcome.arrival)) ↔
      (∀ o ∈ os.take (routedCount os), o.arrival.isSome) ∧
        (((os.take (routedCount os)).filter fun o => !o.filled).map Outcome.arrival).Perm
          (((os.drop (routedCount os)).filter Outcome.filled).map Outcome.arrival) := by
  have hquoted : (∀ o ∈ os.take (routedCount os), o.arrival.isSome) ↔
      ∃ arrivals : List ℚ, (os.take (routedCount os)).map Outcome.arrival = arrivals.map some := by
    rw [exists_map_some_iff]
    simp only [List.forall_mem_map]
  rw [← take_perm_filter_iff, hquoted, List.map_take]
  constructor
  · rintro ⟨arrivals, hsome, hperm⟩
    have hmap := mapM_id_eq_some.mp hsome
    exact ⟨⟨arrivals, hmap⟩, hmap ▸ hperm⟩
  · rintro ⟨⟨arrivals, hmap⟩, hperm⟩
    exact ⟨arrivals, mapM_id_eq_some.mpr hmap, hmap ▸ hperm⟩

theorem fills_eq_nil_iff {o : Outcome} : o.fills = [] ↔ o.filled = false := by
  simp [Outcome.fills, Outcome.filled, RoutedOrder.hasFills]

theorem sum_fees_fills (os : List Outcome) : ((os.flatMap Outcome.fills).map fun f => f.1.fees).sum =
    ((routedWithFills os).map RoutedOrder.fees).sum +
      ((routedWithFills os).map fun r => ((r.fills.length : ℚ) - 1) * r.fees).sum := by
  have hflat : os.flatMap Outcome.fills = (os.flatMap Outcome.routed).flatMap fun r => r.fills.map (r, ·) := by
    rw [List.flatMap_assoc]
    rfl
  rw [hflat, sum_fees]
  rfl

theorem Totals.result_cases (strategyName : String) {t : Totals} (h : t.allFillQtys ≠ []) :
    (t.averagedArrivals = none ∧ t.result strategyName = none) ∨
      ∃ arrivals result, t.averagedArrivals = some arrivals ∧ t.result strategyName = some result ∧
        result.totalFees = t.totalFees ∧ result.totalQuantity = t.allFillQtys.sum ∧
        result.totalNotional = (List.zipWith (· * ·) t.allFillPrices t.allFillQtys).sum := by
  have hsome : t.allFillQtys.isEmpty = false := by simpa using h
  unfold Totals.result
  simp only [hsome, Bool.false_eq_true, if_false]
  cases t.averagedArrivals with
  | none => exact .inl ⟨rfl, rfl⟩
  | some arrivals => exact .inr ⟨arrivals, _, rfl, rfl, rfl, rfl, rfl⟩

/-- Quantity and notional are always those of the fills, fees and arrival prices only in such an outcome. -/
theorem result_attributed_iff {market : Market S} (strategyName : String) {t : Totals}
    (ht : t = os.foldl (Totals.add market) {}) (hfilled : ∃ o ∈ os, o.filled) :
    (∃ result, t.result strategyName = some result ∧ Attributed os t result) ↔ Attributable os := by
  obtain ⟨o, ho, hfills⟩ := hfilled
  have hsome : os.flatMap Outcome.fills ≠ [] := by
    intro hnone
    have hnil := List.flatMap_eq_nil_iff.mp hnone o ho
    rw [fills_eq_nil_iff, hfills] at hnil
    cases hnil
  have hqtys : t.allFillQtys = (os.flatMap Outcome.fills).map fun f => f.2.quantity := by
    rw [ht, Totals.foldl_add]
    rfl
  have hprices : t.allFillPrices = (os.flatMap Outcome.fills).map fun f => f.2.price := by
    rw [ht, Totals.foldl_add]
    rfl
  have hfees : t.totalFees = ((os.flatMap Outcome.fills).map fun f => f.1.fees).sum := by
    rw [ht, Totals.foldl_add]
    exact zero_add _
  have haveraged : t.averagedArrivals = ((os.map Outcome.arrival).take (routedCount os)).mapM id := by
    rw [ht, Totals.foldl_add, Totals.averagedArrivals]
    simp only [List.nil_append, zero_add]
    rfl
  have harrivals := arrivals_iff os
  rw [← haveraged] at harrivals
  have hne : t.allFillQtys ≠ [] := by
    rw [hqtys]
    simpa using hsome
  constructor
  · rintro ⟨result, hresult, hfees', -, -, hattributed⟩
    obtain ⟨hquoted, hearly⟩ := harrivals.mp hattributed
    refine ⟨?_, hquoted, hearly⟩
    rcases Totals.result_cases strategyName hne with ⟨-, hnone⟩ | ⟨arrivals, result', -, hresult', htotal, -⟩
    · rw [hnone] at hresult
      cases hresult
    · obtain rfl := Option.some.inj (hresult'.symm.trans hresult)
      rw [htotal, hfees, sum_fees_fills] at hfees'
      exact add_eq_left.mp hfees'
  · rintro ⟨honce, hquoted, hearly⟩
    obtain ⟨arrivals, haveraged', hperm⟩ := harrivals.mpr ⟨hquoted, hearly⟩
    rcases Totals.result_cases strategyName hne with ⟨hnone, -⟩ | ⟨-, result, -, hresult, htotal, hquantity, hnotional⟩
    · rw [hnone] at haveraged'
      cases haveraged'
    · refine ⟨result, hresult, ?_, ?_, ?_, arrivals, haveraged', hperm⟩
      · rw [htotal, hfees, sum_fees_fills, honce, add_zero]
      · rw [hquantity, hqtys]
      · rw [hnotional, hprices, hqtys, List.zipWith_map, List.zipWith_self]

theorem evaluateStrategy_attributes_iff (market : Market S) (strategyName : String) (orders : List OrderDict)
    (numSimulations : ℕ) (s : S)
    (hfilled : ∃ o ∈ outcomes market strategyName orders numSimulations s, o.filled) :
    let os := outcomes market strategyName orders numSimulations s
    (∃ result, evaluateStrategy market strategyName orders numSimulations s = some result ∧
      Attributed os (evaluatedTotals market strategyName orders numSimulations s) result) ↔ Attributable os :=
  result_attributed_iff strategyName (runSimulations_totals market strategyName orders numSimulations {} s) hfilled

/-- A market that plays outcomes in turn. -/
def scripted : Market (List Outcome) where
  populateBooks s := s
  getNbbo s := { bestBid := s.head?.bind Outcome.arrival, bestAsk := s.head?.bind Outcome.arrival }
  routeOrder _ _ _ _ s := ((s.head?.map Outcome.routed).getD [], s.tail)
  step s := s
  latencyUs _ := 50

/-- A market order that bought one at each of the prices, for a fee of 1. -/
def boughtAt (prices : List ℚ) : RoutedOrder where
  venueId := 1
  order :=
    { orderId := 1, symbol := "ABC", side := .buy, orderType := .market, price := 0, quantity := prices.length
      filledQty := prices.length, status := .filled, timestamp := 0 }
  fills := prices.map fun p =>
    { orderId := 1, price := p, quantity := 1, side := .buy, timestamp := 0, aggressor := true }
  fees := 1

theorem evaluateStrategy_attributes_iff_filled_first :
    let script : List Outcome := [⟨some 100, [boughtAt [100]]⟩, ⟨some 101, []⟩]
    ∃ result, evaluateStrategy scripted "best_price" [{}, {}] 1 script = some result ∧
      Attributed (outcomes scripted "best_price" [{}, {}] 1 script)
        (evaluatedTotals scripted "best_price" [{}, {}] 1 script) result := by
  intro script
  apply (evaluateStrategy_attributes_iff scripted "best_price" [{}, {}] 1 script (by decide +kernel)).mpr
  exact ⟨by decide +kernel, by decide +kernel, by decide +kernel⟩

theorem evaluateStrategy_misattributes :
    let script : List Outcome := [⟨some 100, []⟩, ⟨some 110, [boughtAt [110, 111]]⟩]
    let os := outcomes scripted "best_price" [{}, {}] 1 script
    (evaluateStrategy scripted "best_price" [{}, {}] 1 script).map StrategyResult.totalFees = some 2 ∧
      ((routedWithFills os).map RoutedOrder.fees).sum = 1 ∧
      (evaluatedTotals scripted "best_price" [{}, {}] 1 script).averagedArrivals = some [100] ∧
      (os.filter Outcome.filled).map Outcome.arrival = [some 110] := by
  decide +kernel

end Attribution

end Klett.Sor.Simulation

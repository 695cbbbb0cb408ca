import Klett.Sor.Routing

namespace Klett.Sor

open Klett.Lib

/-- Duration in microseconds. -/
structure VwapConfig where
  duration : ℤ := 1800000000
  numSlices : ℕ := 30
  urgency : ℚ := 1 / 2
  maxParticipationRate : ℚ := 1 / 4

/-- The one VWAP strategy object, shared by all orders. Times are in nanoseconds. -/
structure Vwap where
  config : VwapConfig := {}
  totalQuantity : ℤ := 0
  filledSoFar : ℤ := 0
  startTime : ℤ := 0
  endTime : ℤ := 0

namespace Vwap

variable (P : Platform) (v : Vwap)

def begin (totalQuantity startTime : ℤ) : Vwap :=
  { v with
    totalQuantity := totalQuantity
    filledSoFar := 0
    startTime := startTime
    endTime := startTime + v.config.duration * 1000 }

def onFill (filledQty : ℤ) : Vwap :=
  { v with filledSoFar :=
      if v.filledSoFar + filledQty > v.totalQuantity then v.totalQuantity
      else v.filledSoFar + filledQty }

def setConfig (config : VwapConfig) : Vwap := { v with config := config }

def fillProgress : ℚ :=
  if v.totalQuantity ≤ 0 then 1 else P.div (P.ofInt v.filledSoFar) (P.ofInt v.totalQuantity)

def timeProgress (now : ℤ) : ℚ :=
  if now ≥ v.endTime then 1
  else if now ≤ v.startTime then 0
  else
    let elapsed := (now - v.startTime).tdiv 1000
    let total := (v.endTime - v.startTime).tdiv 1000
    if total ≤ 0 then 1 else P.div (P.ofInt elapsed) (P.ofInt total)

def isComplete : Bool := v.filledSoFar ≥ v.totalQuantity

def remaining : ℤ := v.totalQuantity - v.filledSoFar

def acceleration (now : ℤ) : ℚ :=
  let drift := P.sub (v.timeProgress P now) (v.fillProgress P)
  if drift > 0 then min (P.add 1 (P.mul (P.mul v.config.urgency drift) 2)) 3
  else max (P.add 1 (P.mul (P.sub 1 v.config.urgency) drift)) (1 / 4)

def pacedQuantity (now : ℤ) : ℤ :=
  let baseSlice := max 1 (v.totalQuantity.tdiv v.config.numSlices)
  let sliceQty := Platform.truncate (P.mul (P.ofInt baseSlice) (v.acceleration P now))
  if v.config.maxParticipationRate > 0 ∧ v.config.maxParticipationRate < 1 then
    let maxQty := Platform.truncate (P.mul (P.ofInt v.totalQuantity) v.config.maxParticipationRate)
    min sliceQty (max 1 maxQty)
  else sliceQty

def computeSliceQuantity (now : ℤ) : ℤ :=
  if v.totalQuantity ≤ 0 ∨ v.config.numSlices = 0 then 0
  else if v.remaining ≤ 0 then 0
  else max 1 (min (v.pacedQuantity P now) v.remaining)

structure Candidate where
  venueId : ℕ
  price : ℤ
  quality : ℚ

/-- The best so far is priced again with the fee of the venue it is compared with. -/
def isBetter (side : Side) (adj : ℤ) (quality : ℚ) (feeRate : ℚ) : Option Candidate → Bool
  | none => true
  | some best =>
    let bestAdj := feePrice P best.price feeRate side
    match side with
    | .buy => adj < bestAdj ∨ adj = bestAdj ∧ quality > best.quality
    | .sell => adj > bestAdj ∨ adj = bestAdj ∧ quality > best.quality

def consider (side : Side) (venues : List VenueScore) (price : ℤ) (best : Option Candidate)
    (vq : VenueQuantity) : Option Candidate :=
  if vq.quantity ≤ 0 then best
  else
    match findScore venues vq.venueId with
    | none => best
    | some score =>
      let adj := feePrice P price score.feeRate side
      let quality := blendedQuality P (7 / 10) (3 / 10) score
      if isBetter P side adj quality score.feeRate best then some ⟨vq.venueId, price, quality⟩ else best

/-- Unless urgent, the first level with a venue decides. -/
def scan (side : Side) (venues : List VenueScore) :
    List AggregatedLevel → Option Candidate → Option Candidate
  | [], best => best
  | level :: levels, best =>
    if level.displayed then
      let best := level.venueBreakdown.foldl (consider P side venues level.price) best
      if best.isSome ∧ v.config.urgency < P.round (8 / 10) then best else scan side venues levels best
    else scan side venues levels best

def getNextSlice (order : Order) (nbbo : Nbbo) (book : AggregatedBook) (venues : List VenueScore)
    (now : ℤ) : RoutingDecision :=
  if v.isComplete ∨ venues.isEmpty ∨ !nbbo.valid then {}
  else if v.computeSliceQuantity P now ≤ 0 then {}
  else
    match v.scan P order.side venues (book.opposite order.side) none with
    | none => {}
    | some best => ⟨[{
        venueId := best.venueId
        price := best.price
        quantity := v.computeSliceQuantity P now
        type := .limit
        tif := .ioc }]⟩

/-- A schedule begins by itself with the first order that finds none. -/
def scheduled (order : Order) (beginNow : ℤ) : Vwap :=
  if v.totalQuantity = 0 ∧ order.leavesQty > 0 then v.begin order.quantity beginNow else v

/-- `begin` and `time_progress` read the clock one after the other. -/
def route (order : Order) (nbbo : Nbbo) (book : AggregatedBook) (venues : List VenueScore)
    (beginNow progressNow : ℤ) : Vwap × RoutingDecision :=
  let v := v.scheduled order beginNow
  (v, v.getNextSlice P order nbbo book venues progressNow)

variable {P} {v} {side : Side} {venues : List VenueScore} {order : Order} {nbbo : Nbbo}
  {book : AggregatedBook} {now : ℤ}

variable (P side venues) in
theorem consider_cases (price : ℤ) (best : Option Candidate) (vq : VenueQuantity) :
    consider P side venues price best vq = best ∨
      0 < vq.quantity ∧ ∃ c, consider P side venues price best vq = some c ∧ c.price = price := by
  unfold consider
  split_ifs with hq
  · exact .inl rfl
  · split
    · exact .inl rfl
    · simp only
      split_ifs
      · exact .inr ⟨not_le.mp hq, _, rfl, rfl⟩
      · exact .inl rfl

theorem scan_offered {p : ℤ → Prop} {levels : List AggregatedLevel} {best : Option Candidate}
    (hb : ∀ c ∈ best, p c.price) (hp : ∀ price, Offered levels price → p price) :
    ∀ c ∈ v.scan P side venues levels best, p c.price := by
  induction levels generalizing best with
  | nil => exact hb
  | cons level levels ih =>
    have hrest := fun price (h : Offered levels price) => hp price (h.cons level)
    unfold scan
    split_ifs with hd
    · have hlevel := foldl_chosen (consider_cases P side venues level.price) hb
        fun vq hvq hq => hp _ (.of_mem List.mem_cons_self hd hvq hq)
      simp only
      split_ifs
      · exact hlevel
      · exact ih hlevel hrest
    · exact ih hb hrest

theorem mem_getNextSlice {s : Slice} (hs : s ∈ (v.getNextSlice P order nbbo book venues now).slices) :
    0 < v.computeSliceQuantity P now ∧ s.quantity = v.computeSliceQuantity P now ∧
      ∃ best ∈ v.scan P order.side venues (book.opposite order.side) none, s.price = best.price := by
  unfold getNextSlice at hs
  split_ifs at hs with _ hslice
  · simp at hs
  · simp at hs
  · split at hs
    · simp at hs
    next best hbest =>
      obtain rfl : s = _ := by simpa using hs
      exact ⟨not_le.mp hslice, rfl, best, hbest, rfl⟩

theorem getNextSlice_offered : ∀ s ∈ (v.getNextSlice P order nbbo book venues now).slices,
    Offered (book.opposite order.side) s.price := by
  intro s hs
  obtain ⟨-, -, best, hbest, hprice⟩ := mem_getNextSlice hs
  rw [hprice]
  exact scan_offered (by simp) (fun _ h => h) best hbest

theorem route_offered {beginNow : ℤ} : ∀ s ∈ (v.route P order nbbo book venues beginNow now).2.slices,
    Offered (book.opposite order.side) s.price := getNextSlice_offered

theorem getNextSlice_nonneg : ∀ s ∈ (v.getNextSlice P order nbbo book venues now).slices,
    0 ≤ s.quantity := by
  intro s hs
  obtain ⟨hslice, hquantity, -⟩ := mem_getNextSlice hs
  rw [hquantity]
  exact hslice.le

theorem computeSliceQuantity_le {bound : ℤ} (h : 1 ≤ bound)
    (hp : v.remaining ≤ bound ∨ v.pacedQuantity P now ≤ bound) :
    v.computeSliceQuantity P now ≤ bound := by
  unfold computeSliceQuantity
  split_ifs
  · omega
  · omega
  · rcases hp with hp | hp
    · exact max_le h ((min_le_right _ _).trans hp)
    · exact max_le h ((min_le_left _ _).trans hp)

def Covers (v : Vwap) (P : Platform) (order : Order) (now : ℤ) : Prop :=
  v.isComplete = true ∨ 1 ≤ order.leavesQty ∧
    (v.remaining ≤ order.leavesQty ∨ v.pacedQuantity P now ≤ order.leavesQty)

theorem getNextSlice_total_le (h : 0 ≤ order.leavesQty) (hc : v.Covers P order now) :
    (v.getNextSlice P order nbbo book venues now).totalQuantity ≤ order.leavesQty := by
  unfold getNextSlice
  split_ifs with hempty
  · simpa using h
  · simpa using h
  · split
    · simpa using h
    · obtain hcomplete | ⟨hone, hpace⟩ := hc
      · exact absurd (.inl hcomplete) hempty
      · simpa using computeSliceQuantity_le hone hpace

end Vwap

end Klett.Sor

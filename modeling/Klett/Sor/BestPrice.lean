import Klett.Sor.Routing

namespace Klett.Sor.BestPrice

open Klett.Lib

variable (P : Platform)

def feeAdjusted (rawPrice : ℤ) (feeRate : ℚ) (side : Side) : ℤ :=
  if rawPrice = invalidPrice then invalidPrice else feePrice P rawPrice feeRate side

def computeVenueQuality (vs : VenueScore) : ℚ := blendedQuality P (7 / 10) (3 / 10) vs

structure Candidate where
  venueId : ℕ
  feeAdjPrice : ℤ
  rawPrice : ℤ
  quality : ℚ
  available : ℤ

def isBetter (side : Side) (adj : ℤ) (quality : ℚ) : Option Candidate → Bool
  | none => true
  | some best =>
    match side with
    | .buy => adj < best.feeAdjPrice ∨ adj = best.feeAdjPrice ∧ quality > best.quality
    | .sell => adj > best.feeAdjPrice ∨ adj = best.feeAdjPrice ∧ quality > best.quality

def consider (side : Side) (venues : List VenueScore) (price : ℤ) (best : Option Candidate)
    (vq : VenueQuantity) : Option Candidate :=
  if vq.quantity ≤ 0 then best
  else
    match findScore venues vq.venueId with
    | none => best
    | some score =>
      let adj := feeAdjusted P price score.feeRate side
      let quality := computeVenueQuality P score
      if isBetter side adj quality best then some ⟨vq.venueId, adj, price, quality, vq.quantity⟩
      else best

def scan (side : Side) (venues : List VenueScore) :
    List AggregatedLevel → Option Candidate → Option Candidate
  | [], best => best
  | level :: levels, best =>
    if level.displayed then
      scan side venues levels (level.venueBreakdown.foldl (consider P side venues level.price) best)
    else scan side venues levels best

def route (order : Order) (nbbo : Nbbo) (book : AggregatedBook) (venues : List VenueScore) :
    RoutingDecision :=
  if venues.isEmpty ∨ !nbbo.valid then {}
  else if order.leavesQty ≤ 0 then {}
  else
    match scan P order.side venues (book.opposite order.side) none with
    | none => {}
    | some best => ⟨[{
        venueId := best.venueId
        price := best.rawPrice
        quantity := order.leavesQty
        type := order.type
        tif := order.tif }]⟩

variable {P} {side : Side} {venues : List VenueScore} {order : Order} {nbbo : Nbbo}
  {book : AggregatedBook}

theorem consider_cases (price : ℤ) (best : Option Candidate) (vq : VenueQuantity) :
    consider P side venues price best vq = best ∨
      0 < vq.quantity ∧ ∃ c, consider P side venues price best vq = some c ∧ c.rawPrice = price := by
  unfold consider
  split_ifs with hq
  · exact .inl rfl
  · split
    · exact .inl rfl
    · simp only
      split_ifs
      · exact .inr ⟨not_le.mp hq, _, rfl, rfl⟩
      · exact .inl rfl

theorem scan_offered {p : ℤ → Prop} {levels : List AggregatedLevel} {best : Option Candidate}
    (hb : ∀ c ∈ best, p c.rawPrice) (hp : ∀ price, Offered levels price → p price) :
    ∀ c ∈ scan P side venues levels best, p c.rawPrice := by
  induction levels generalizing best with
  | nil => exact hb
  | cons level levels ih =>
    have hrest := fun price (h : Offered levels price) => hp price (h.cons level)
    unfold scan
    split_ifs with hd
    · refine ih (foldl_chosen (consider_cases level.price) hb fun vq hvq hq => ?_) hrest
      exact hp _ (.of_mem List.mem_cons_self hd hvq hq)
    · exact ih hb hrest

theorem mem_route {s : Slice} (hs : s ∈ (route P order nbbo book venues).slices) :
    0 < order.leavesQty ∧ s.quantity = order.leavesQty ∧
      ∃ best ∈ scan P order.side venues (book.opposite order.side) none, s.price = best.rawPrice := by
  unfold route at hs
  split_ifs at hs with _ hleaves
  · simp at hs
  · simp at hs
  · split at hs
    · simp at hs
    next best hbest =>
      obtain rfl : s = _ := by simpa using hs
      exact ⟨not_le.mp hleaves, rfl, best, hbest, rfl⟩

theorem route_offered : ∀ s ∈ (route P order nbbo book venues).slices,
    Offered (book.opposite order.side) s.price := by
  intro s hs
  obtain ⟨-, -, best, hbest, hprice⟩ := mem_route hs
  rw [hprice]
  exact scan_offered (by simp) (fun _ h => h) best hbest

theorem route_nonneg : ∀ s ∈ (route P order nbbo book venues).slices, 0 ≤ s.quantity := by
  intro s hs
  obtain ⟨hleaves, hquantity, -⟩ := mem_route hs
  rw [hquantity]
  exact hleaves.le

theorem route_total_le (h : 0 ≤ order.leavesQty) :
    (route P order nbbo book venues).totalQuantity ≤ order.leavesQty := by
  unfold route
  split_ifs
  · simpa using h
  · simpa using h
  · split
    · simpa using h
    · simp

end Klett.Sor.BestPrice

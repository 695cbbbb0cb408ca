import Klett.Lib.Double
import Klett.Lib.Ledger
import Klett.Sor.MarketData

namespace Klett.Sor

open Klett.Lib

structure Slice where
  venueId : ℕ
  price : ℤ
  quantity : ℤ
  type : OrderType := .limit
  tif : TimeInForce := .ioc
  deriving DecidableEq

structure RoutingDecision where
  slices : List Slice := []
  deriving DecidableEq

namespace RoutingDecision

variable (d : RoutingDecision)

def valid : Bool := !d.slices.isEmpty

def totalQuantity : ℤ := (d.slices.map Slice.quantity).sum

@[simp] theorem totalQuantity_nil : totalQuantity {} = 0 := rfl

@[simp] theorem totalQuantity_single (s : Slice) : totalQuantity ⟨[s]⟩ = s.quantity := by
  simp [totalQuantity]

end RoutingDecision

structure VenueScore where
  venueId : ℕ := 0
  latencyUs : ℚ := 0
  fillRate : ℚ := 0
  feeRate : ℚ := 0
  isAvailable : Bool := true

def findScore (venues : List VenueScore) (venueId : ℕ) : Option VenueScore :=
  venues.find? fun vs => vs.venueId = venueId && vs.isAvailable

def available (venues : List VenueScore) (venueId : ℕ) : Bool := (findScore venues venueId).isSome

variable (P : Platform)

/-- The double that `to_price` casts. -/
def scaledPrice (d : ℚ) : ℚ := P.add (P.mul d (P.ofInt priceScale)) (if d ≥ 0 then 1 / 2 else -1 / 2)

def toPrice (d : ℚ) : ℤ := Platform.castInt 64 (scaledPrice P d)

/-- `to_price` of any double. Scaling leaves NaN and the infinities as they are, and the cast has no range for them. -/
def doubleToPrice : Double → ℤ
  | .finite x => toPrice P x
  | _ => -2 ^ 63

def parsePrice (s : List UInt8) : Option ℤ := (Binary64.stod P s).map (doubleToPrice P)

theorem parsePrice_of_number {s : List UInt8} {x : ℚ} (h : Decimal.stod P s = some x) :
    parsePrice P s = some (toPrice P x) := by
  rw [parsePrice, Binary64.stod_of_number h]
  rfl

def toDouble (p : ℤ) : ℚ := P.div (P.ofInt p) (P.ofInt priceScale)

def feePrice (raw : ℤ) (feeRate : ℚ) : Side → ℤ
  | .buy => toPrice P (P.mul (toDouble P raw) (P.add 1 feeRate))
  | .sell => toPrice P (P.mul (toDouble P raw) (P.sub 1 feeRate))

def blendedQuality (fillWeight latencyWeight : ℚ) (vs : VenueScore) : ℚ :=
  P.add (P.mul (P.round fillWeight) vs.fillRate)
    (P.mul (P.round latencyWeight) (P.div 1000 (if vs.latencyUs > 0 then vs.latencyUs else 1000)))

def sortSlices (side : Side) (slices : List Slice) : List Slice :=
  match side with
  | .buy => P.sort (fun a b => a.price < b.price) slices
  | .sell => P.sort (fun a b => a.price > b.price) slices

theorem sortSlices_perm (side : Side) (slices : List Slice) :
    (sortSlices P side slices).Perm slices := by
  cases side <;> exact P.sort_perm _ _

def Offered (levels : List AggregatedLevel) (price : ℤ) : Prop :=
  ∃ level ∈ levels, level.displayed ∧ level.price = price ∧ ∃ vq ∈ level.venueBreakdown, 0 < vq.quantity

theorem Offered.of_mem {levels : List AggregatedLevel} {level : AggregatedLevel} {vq : VenueQuantity}
    (hl : level ∈ levels) (hd : level.displayed) (hv : vq ∈ level.venueBreakdown)
    (hq : 0 < vq.quantity) : Offered levels level.price :=
  ⟨level, hl, hd, rfl, vq, hv, hq⟩

theorem Offered.cons {levels : List AggregatedLevel} {price : ℤ} (h : Offered levels price)
    (level : AggregatedLevel) : Offered (level :: levels) price := by
  obtain ⟨l, hl, hrest⟩ := h
  exact ⟨l, List.mem_cons_of_mem _ hl, hrest⟩

/-- A scan over the venues of a level that takes a candidate only from a venue with something to
show, and at the level's price. -/
theorem foldl_chosen {C : Type} {priceOf : C → ℤ} {choose : Option C → VenueQuantity → Option C}
    {p : ℤ → Prop} {price : ℤ} {vqs : List VenueQuantity} {best : Option C}
    (hc : ∀ best vq, choose best vq = best ∨
      0 < vq.quantity ∧ ∃ c, choose best vq = some c ∧ priceOf c = price)
    (hb : ∀ c ∈ best, p (priceOf c)) (hp : ∀ vq ∈ vqs, 0 < vq.quantity → p price) :
    ∀ c ∈ vqs.foldl choose best, p (priceOf c) := by
  induction vqs generalizing best with
  | nil => exact hb
  | cons vq vqs ih =>
    apply ih _ fun x hx => hp x (List.mem_cons_of_mem _ hx)
    obtain hsame | ⟨hq, c, hchosen, hprice⟩ := hc best vq
    · rw [hsame]
      exact hb
    · rw [hchosen]
      rintro d ⟨⟩
      rw [hprice]
      exact hp vq List.mem_cons_self hq

abbrev Allocations := Ledger ℕ ℤ ℤ

def maxSlices : ℕ := 10

/-- The end of every sweep: one slice for each allocation worth keeping, capped in number. -/
def Allocations.decision (keep : ℤ → Bool) (side : Side) (allocations : Allocations) :
    RoutingDecision where
  slices := sortSlices P side <|
    (((P.iterate allocations).filter fun a => keep a.total).take maxSlices).map fun a =>
      { venueId := a.key, price := a.mark, quantity := a.total, type := .limit, tif := .ioc }

namespace Allocations

variable {P} {keep : ℤ → Bool} {side : Side} {allocations : Allocations}

theorem exists_of_slice {s : Slice} (hs : s ∈ (decision P keep side allocations).slices) :
    ∃ a ∈ allocations, keep a.total = true ∧ s.venueId = a.key ∧ s.price = a.mark ∧ s.quantity = a.total := by
  obtain ⟨a, hkept, rfl⟩ := List.mem_map.mp ((sortSlices_perm P side _).mem_iff.mp hs)
  obtain ⟨hiterated, hkeep⟩ := List.mem_filter.mp (List.mem_of_mem_take hkept)
  exact ⟨a, P.mem_iterate.mp hiterated, hkeep, rfl, rfl, rfl⟩

theorem decision_price {p : ℤ → Prop} (ha : ∀ a ∈ allocations, p a.mark) :
    ∀ s ∈ (decision P keep side allocations).slices, p s.price := by
  intro s hs
  obtain ⟨a, hmem, -, -, hprice, -⟩ := exists_of_slice hs
  rw [hprice]
  exact ha a hmem

theorem decision_nonneg (hn : ∀ a ∈ allocations, 0 ≤ a.total) :
    ∀ s ∈ (decision P keep side allocations).slices, 0 ≤ s.quantity := by
  intro s hs
  obtain ⟨a, hmem, -, -, -, hquantity⟩ := exists_of_slice hs
  rw [hquantity]
  exact hn a hmem

theorem decision_total_le (hn : ∀ a ∈ allocations, 0 ≤ a.total) :
    (decision P keep side allocations).totalQuantity ≤ allocations.sum := by
  have hsub : (((P.iterate allocations).filter fun a => keep a.total).take maxSlices).Sublist
      (P.iterate allocations) := (List.take_sublist _ _).trans List.filter_sublist
  calc (decision P keep side allocations).totalQuantity
      = ((((P.iterate allocations).filter fun a => keep a.total).take maxSlices).map
          LedgerEntry.total).sum := by
        refine ((sortSlices_perm P side _).map Slice.quantity).sum_eq.trans ?_
        simp [Function.comp_def]
    _ ≤ allocations.sum := sum_le_of_sublist_perm hsub (P.iterate_perm _) hn

section Kept

variable (hkeep : ∀ a ∈ allocations, keep a.total = true) (hlen : allocations.length ≤ maxSlices)
include hkeep hlen

variable (P) in
theorem kept_eq : ((P.iterate allocations).filter fun a => keep a.total).take maxSlices = P.iterate allocations := by
  rw [List.filter_eq_self.mpr fun a ha => hkeep a (P.mem_iterate.mp ha), List.take_of_length_le]
  rwa [(P.iterate_perm allocations).length_eq]

variable (side) in
theorem slice_of_mem {a : LedgerEntry ℕ ℤ ℤ} (ha : a ∈ allocations) :
    ∃ s ∈ (decision P keep side allocations).slices, s.price = a.mark := by
  refine ⟨{ venueId := a.key, price := a.mark, quantity := a.total, type := .limit, tif := .ioc }, ?_, rfl⟩
  rw [decision, kept_eq P hkeep hlen]
  exact (sortSlices_perm P side _).mem_iff.mpr (List.mem_map_of_mem (P.mem_iterate.mpr ha))

/-- Nothing is lost when every allocation is worth keeping and there are not too many. -/
theorem decision_total : (decision P keep side allocations).totalQuantity = allocations.sum := by
  have hsorted := (sortSlices_perm P side ((P.iterate allocations).map fun a =>
    { venueId := a.key, price := a.mark, quantity := a.total, type := .limit, tif := .ioc })).map Slice.quantity
  calc (decision P keep side allocations).totalQuantity
      = ((P.iterate allocations).map LedgerEntry.total).sum := by
        rw [RoutingDecision.totalQuantity, decision, kept_eq P hkeep hlen]
        refine hsorted.sum_eq.trans ?_
        simp [Function.comp_def]
    _ = allocations.sum := ((P.iterate_perm allocations).map LedgerEntry.total).sum_eq

end Kept

end Allocations

end Klett.Sor

import Mathlib.Algebra.Order.Field.Rat
import Klett.Sor.Configuration

namespace Klett.Sor

open Klett.Lib

namespace RiskLimits

variable (limits : RiskLimits) (order : Order) (pos : PositionInfo)

def ExceedsOrderQuantity : Prop := 0 < limits.maxOrderQuantity ∧ limits.maxOrderQuantity < order.quantity

def ExceedsOrderNotional : Prop := 0 < limits.maxOrderNotional ∧ order.price ≠ invalidPrice ∧
  limits.maxOrderNotional < wideMulDiv order.price order.quantity priceScale

def ExceedsPositionQuantity : Prop :=
  0 < limits.maxPositionQuantity ∧ limits.maxPositionQuantity < |pos.projected order|

def ExceedsPositionNotional : Prop := 0 < limits.maxPositionNotional ∧ order.price ≠ invalidPrice ∧
  limits.maxPositionNotional < wideMulDiv |pos.netQuantity + PositionInfo.orderDelta order| order.price priceScale

def ExceedsOpenOrders : Prop := 0 < limits.maxOpenOrders ∧ limits.maxOpenOrders ≤ pos.openOrderCount

def ExceedsLoss : Prop := 0 < limits.maxLoss ∧ limits.maxLoss < -(pos.realizedPnl + pos.unrealizedPnl)

def ExceedsForPosition : Prop :=
  limits.ExceedsPositionQuantity order pos ∨ limits.ExceedsPositionNotional order pos ∨
    limits.ExceedsOpenOrders pos ∨ limits.ExceedsLoss pos

variable {limits order pos}

theorem checkLimits_failed_iff (he : limits.enabled = true) : checkLimits order limits pos ≠ .passed ↔
    limits.ExceedsOrderQuantity order ∨ limits.ExceedsOrderNotional order ∨
      limits.ExceedsForPosition order pos := by
  unfold checkLimits ExceedsForPosition
  unfold ExceedsOrderQuantity ExceedsOrderNotional ExceedsPositionQuantity ExceedsPositionNotional
    ExceedsOpenOrders ExceedsLoss
  simp only [he, Bool.not_true, Bool.false_eq_true, ↓reduceIte, gt_iff_lt, ge_iff_le]
  split_ifs with hquantity hnotional hposition hpositionNotional hopen hloss
  · exact ⟨fun _ => .inl hquantity, fun _ => by simp⟩
  · exact ⟨fun _ => .inr (.inl hnotional), fun _ => by simp⟩
  · exact ⟨fun _ => .inr (.inr (.inl hposition)), fun _ => by simp⟩
  · exact ⟨fun _ => .inr (.inr (.inr (.inl hpositionNotional))), fun _ => by simp⟩
  · exact ⟨fun _ => .inr (.inr (.inr (.inr (.inl hopen)))), fun _ => by simp⟩
  · exact ⟨fun _ => .inr (.inr (.inr (.inr (.inr ⟨hloss.1, hloss.2.2⟩)))), fun _ => by simp⟩
  · constructor
    · intro h
      exact (h rfl).elim
    · rintro (h | h | h | h | h | h)
      · exact (hquantity h).elim
      · exact (hnotional h).elim
      · exact (hposition h).elim
      · exact (hpositionNotional h).elim
      · exact (hopen h).elim
      · obtain ⟨hpos, hless⟩ := h
        exact (hloss ⟨hpos, by omega, hless⟩).elim

end RiskLimits

namespace RiskManager

variable (rm : RiskManager) (order : Order) (nowSec : ℤ)

def HeldBack : Prop :=
  rm.killSwitch = true ∨
    (0 < rm.globalLimits.maxOrdersPerSecond ∧ (rm.rateLimiter.tryAcquire nowSec).2 = false) ∨
    ∃ limits, rm.symbolLimits order.symbol = some limits ∧
      checkLimits order limits (rm.positions order.symbol) ≠ .passed

variable {rm order nowSec}

theorem checkPosition_failed_iff : rm.checkPosition order ≠ .passed ↔
    checkLimits order rm.globalLimits (rm.positions order.symbol) ≠ .passed ∨
      ∃ limits, rm.symbolLimits order.symbol = some limits ∧
        checkLimits order limits (rm.positions order.symbol) ≠ .passed := by
  unfold checkPosition
  cases hglobal : checkLimits order rm.globalLimits (rm.positions order.symbol) with
  | passed => cases rm.symbolLimits order.symbol <;> simp
  | _ => simp

theorem checkOrder_failed_iff : (rm.checkOrder order nowSec).2 ≠ .passed ↔
    rm.HeldBack order nowSec ∨ checkLimits order rm.globalLimits (rm.positions order.symbol) ≠ .passed := by
  have hchecks : (rm.checkOrder order nowSec).2 ≠ .passed ↔ rm.killSwitch = true ∨
      (0 < rm.globalLimits.maxOrdersPerSecond ∧ (rm.rateLimiter.tryAcquire nowSec).2 = false) ∨
        rm.checkPosition order ≠ .passed := by
    unfold checkOrder
    obtain ⟨limiter, granted⟩ := rm.rateLimiter.tryAcquire nowSec
    cases granted <;> split_ifs <;> simp_all
  rw [hchecks, checkPosition_failed_iff, HeldBack]
  constructor
  · rintro (hkill | hrate | hlimits | hsymbol)
    · exact .inl (.inl hkill)
    · exact .inl (.inr (.inl hrate))
    · exact .inr hlimits
    · exact .inl (.inr (.inr hsymbol))
  · rintro ((hkill | hrate | hsymbol) | hlimits)
    · exact .inl hkill
    · exact .inr (.inl hrate)
    · exact .inr (.inr (.inr hsymbol))
    · exact .inr (.inr (.inl hlimits))

end RiskManager

theorem wideMulDiv_notional {price quantity : ℤ} (hprice : 0 < price) (hquantity : 0 < quantity)
    (hfits : price * quantity / priceScale < 2 ^ 63) :
    wideMulDiv price quantity priceScale = price * quantity / priceScale := by
  have hproduct : 0 ≤ price * quantity := (Int.mul_pos hprice hquantity).le
  have hnonneg : 0 ≤ price * quantity / priceScale := Int.ediv_nonneg hproduct (by decide)
  unfold wideMulDiv toInt64
  rw [Int.tdiv_eq_ediv_of_nonneg hproduct]
  apply Int.bmod_eq_of_le
  · omega
  · omega

namespace ConfiguredLimits

open RiskManager

section Enforced

variable (P : Platform) (constructed set : ℤ) (calls : List RiskCall) (order : Order) (nowSec : ℤ)

/-- What stops an order at the risk manager of `main`: of the configured limits, the two on the order. -/
theorem checkOrder_failed_iff (config : RiskConfig) :
    ((after config constructed set calls).checkOrder order nowSec).2 ≠ .passed ↔
      (after config constructed set calls).HeldBack order nowSec ∨
        config.configuredLimits.ExceedsOrderQuantity order ∨
          config.configuredLimits.ExceedsOrderNotional order := by
  have hunset (pos : PositionInfo) : ¬config.globalLimits.ExceedsForPosition order pos := by
    rintro (h | h | h | h) <;> exact absurd h.1 (lt_irrefl 0)
  rw [RiskManager.checkOrder_failed_iff, after_globalLimits, RiskLimits.checkLimits_failed_iff rfl]
  simp only [hunset, or_false]
  rfl

/-- An order that the configured limits would stop is stopped, except when nothing but a limit on the
position, its orders or its loss would stop it. -/
theorem enforced_iff (r : RiskSection) :
    let config := r.parse P
    let rm := after config constructed set calls
    let pos := rm.getPosition order.symbol
    (checkLimits order config.configuredLimits pos ≠ .passed → (rm.checkOrder order nowSec).2 ≠ .passed) ↔
      rm.HeldBack order nowSec ∨ config.configuredLimits.ExceedsOrderQuantity order ∨
        config.configuredLimits.ExceedsOrderNotional order ∨
          ¬config.configuredLimits.ExceedsForPosition order pos := by
  simp only
  rw [checkOrder_failed_iff, RiskLimits.checkLimits_failed_iff rfl]
  tauto

/-- An order worth more than the configured notional is stopped by it exactly when its value in whole
currency units exceeds the limit in price units, a hundred million times as much. -/
theorem notional_enforced_iff (r : RiskSection) (D : ℚ) (hconfigured : r.maxOrderNotional = some D)
    (hprice : 0 < order.price) (hquantity : 0 < order.quantity)
    (hfits : order.price * order.quantity / priceScale < 2 ^ 63) :
    let rm := after (r.parse P) constructed set calls
    (D < order.price / priceScale * order.quantity → (rm.checkOrder order nowSec).2 ≠ .passed) ↔
      (D < order.price / priceScale * order.quantity →
        rm.HeldBack order nowSec ∨ (r.parse P).configuredLimits.ExceedsOrderQuantity order ∨
          order.price ≠ invalidPrice ∧ 0 < toPrice P D ∧
            toPrice P D < order.price * order.quantity / priceScale) := by
  have hlimit : (r.parse P).configuredLimits.maxOrderNotional = toPrice P D := by
    simp [RiskSection.parse, RiskConfig.configuredLimits, hconfigured]
  simp only
  rw [checkOrder_failed_iff, RiskLimits.ExceedsOrderNotional, hlimit,
    wideMulDiv_notional hprice hquantity hfits]
  tauto

end Enforced

/-- A position of ten is allowed, and an order for twenty passes. -/
theorem position_limit_dropped :
    let config := RiskSection.parse .exact { maxPositionQuantity := some 10 }
    let order : Order := { symbol := .assign [65], price := priceScale, quantity := 20 }
    config.Valid ∧ checkLimits order config.configuredLimits {} = .failedMaxPositionQuantity ∧
      ((after config 0 0 []).checkOrder order 0).2 = .passed := by
  decide +kernel

/-- An order over two currency units passes a limit of one. -/
theorem notional_limit_passed :
    let config := RiskSection.parse .exact { maxOrderNotional := some 1 }
    let order : Order := { symbol := .assign [65], price := 2 * priceScale, quantity := 1 }
    config.Valid ∧ (1 : ℚ) < order.price / priceScale * order.quantity ∧
      ((after config 0 0 []).checkOrder order 0).2 = .passed := by
  decide +kernel

/-- One currency unit stops what is worth more than a hundred million. -/
theorem notional_enforced_iff_huge :
    let r : RiskSection := { maxOrderQuantity := some 1000000000, maxOrderNotional := some 1 }
    let order : Order := { symbol := .assign [65], price := 2 * priceScale, quantity := 50000001 }
    ((after (r.parse .exact) 0 0 []).checkOrder order 0).2 = .failedMaxOrderNotional ∧
      let rm := after (r.parse .exact) 0 0 []
      ((1 : ℚ) < order.price / priceScale * order.quantity → (rm.checkOrder order 0).2 ≠ .passed) ↔
        ((1 : ℚ) < order.price / priceScale * order.quantity →
          rm.HeldBack order 0 ∨ (r.parse .exact).configuredLimits.ExceedsOrderQuantity order ∨
            order.price ≠ invalidPrice ∧ 0 < toPrice .exact 1 ∧
              toPrice .exact 1 < order.price * order.quantity / priceScale) := by
  intro r order
  exact ⟨by decide +kernel,
    notional_enforced_iff .exact 0 0 [] order 0 r 1 rfl (by decide) (by decide) (by decide)⟩

end ConfiguredLimits

end Klett.Sor

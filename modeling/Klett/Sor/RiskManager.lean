import Mathlib.Algebra.Order.Group.Unbundled.Int
import Mathlib.Logic.Function.Basic
import Klett.Sor.Types

namespace Klett.Sor

/-- `static_cast<int64_t>`. -/
def toInt64 (x : ℤ) : ℤ := x.bmod (2 ^ 64)

/-- `(a * b) / divisor` with a 128-bit product. -/
def wideMulDiv (a b divisor : ℤ) : ℤ := toInt64 ((a * b).tdiv divisor)

/-- `try_acquire` counts inside the current second only. -/
structure RateLimiter where
  maxPerSecond : ℤ
  count : ℤ := 0
  windowStart : ℤ
  deriving DecidableEq

namespace RateLimiter

def tryAcquire (r : RateLimiter) (nowSec : ℤ) : RateLimiter × Bool :=
  if nowSec > r.windowStart then ({ r with windowStart := nowSec, count := 1 }, true)
  else if r.count ≥ r.maxPerSecond then (r, false)
  else ({ r with count := r.count + 1 }, true)

def reset (r : RateLimiter) (nowSec : ℤ) : RateLimiter := { r with count := 0, windowStart := nowSec }

def setMaxRate (r : RateLimiter) (maxPerSecond nowSec : ℤ) : RateLimiter :=
  { r with maxPerSecond := maxPerSecond }.reset nowSec

end RateLimiter

/-- A limit of zero is not enforced. -/
structure RiskLimits where
  maxOrderQuantity : ℤ := 0
  maxOrderNotional : ℤ := 0
  maxPositionNotional : ℤ := 0
  maxPositionQuantity : ℤ := 0
  maxOrdersPerSecond : ℤ := 0
  maxOpenOrders : ℤ := 0
  maxLoss : ℤ := 0
  enabled : Bool := true
  deriving DecidableEq

structure PositionInfo where
  netQuantity : ℤ := 0
  avgEntryPrice : ℤ := 0
  realizedPnl : ℤ := 0
  unrealizedPnl : ℤ := 0
  openOrderCount : ℤ := 0
  pendingBuyQuantity : ℤ := 0
  pendingSellQuantity : ℤ := 0
  deriving DecidableEq

inductive RiskCheckResult
  | passed
  | failedMaxOrderQuantity
  | failedMaxOrderNotional
  | failedMaxPositionNotional
  | failedMaxPositionQuantity
  | failedMaxOrdersPerSecond
  | failedMaxOpenOrders
  | failedMaxLoss
  | failedKillSwitch
  | failedRateLimit
  | failedSymbolNotAllowed
  deriving DecidableEq, Repr

namespace PositionInfo

variable (pos : PositionInfo)

def orderDelta (order : Order) : ℤ :=
  match order.side with
  | .buy => order.quantity
  | .sell => -order.quantity

def pending (side : Side) : ℤ :=
  match side with
  | .buy => pos.pendingBuyQuantity
  | .sell => pos.pendingSellQuantity

/-- Net quantity if the order and everything pending on its side fill. -/
def projected (order : Order) : ℤ :=
  pos.netQuantity + orderDelta order +
    match order.side with
    | .buy => pos.pending order.side
    | .sell => -pos.pending order.side

def onFill (side : Side) (qty : ℤ) (price : ℤ) : PositionInfo :=
  let signedQty := if side = .buy then qty else -qty
  let reducing := (pos.netQuantity > 0 ∧ side = .sell) ∨ (pos.netQuantity < 0 ∧ side = .buy)
  let closeQty := min |signedQty| |pos.netQuantity|
  let pnlPerUnit :=
    if pos.netQuantity > 0 then price - pos.avgEntryPrice else pos.avgEntryPrice - price
  let existingAbs := |pos.netQuantity|
  { pos with
    realizedPnl :=
      if reducing ∧ pos.avgEntryPrice ≠ 0 then
        pos.realizedPnl + wideMulDiv pnlPerUnit closeQty priceScale
      else pos.realizedPnl
    avgEntryPrice :=
      if ¬reducing ∨ |signedQty| > |pos.netQuantity| then
        if |pos.netQuantity + signedQty| > 0 then
          if existingAbs > 0 ∧ ¬reducing then
            wideMulDiv pos.avgEntryPrice existingAbs (existingAbs + qty) +
              wideMulDiv price qty (existingAbs + qty)
          else price
        else 0
      else pos.avgEntryPrice
    netQuantity := pos.netQuantity + signedQty
    pendingBuyQuantity :=
      if side = .buy then max 0 (pos.pendingBuyQuantity - qty) else pos.pendingBuyQuantity
    pendingSellQuantity :=
      if side = .buy then pos.pendingSellQuantity else max 0 (pos.pendingSellQuantity - qty) }

def onOrderAccepted (order : Order) : PositionInfo :=
  match order.side with
  | .buy => { pos with
      openOrderCount := pos.openOrderCount + 1
      pendingBuyQuantity := pos.pendingBuyQuantity + order.quantity }
  | .sell => { pos with
      openOrderCount := pos.openOrderCount + 1
      pendingSellQuantity := pos.pendingSellQuantity + order.quantity }

/-- What a cancel and a reject share: `released` is the quantity that will not trade any more. -/
def release (side : Side) (released : ℤ) : PositionInfo :=
  match side with
  | .buy => { pos with
      openOrderCount := max 0 (pos.openOrderCount - 1)
      pendingBuyQuantity := max 0 (pos.pendingBuyQuantity - released) }
  | .sell => { pos with
      openOrderCount := max 0 (pos.openOrderCount - 1)
      pendingSellQuantity := max 0 (pos.pendingSellQuantity - released) }

def onOrderCanceled (order : Order) : PositionInfo :=
  pos.release order.side (order.quantity - order.filledQuantity)

def onOrderRejected (order : Order) : PositionInfo := pos.release order.side order.quantity

@[simp] theorem onFill_openOrderCount (side : Side) (qty price : ℤ) :
    (pos.onFill side qty price).openOrderCount = pos.openOrderCount := rfl

theorem onFill_pending (side other : Side) (qty price : ℤ) : (pos.onFill side qty price).pending other =
    if side = other then max 0 (pos.pending other - qty) else pos.pending other := by
  cases side <;> cases other <;> rfl

@[simp] theorem onOrderAccepted_openOrderCount (order : Order) :
    (pos.onOrderAccepted order).openOrderCount = pos.openOrderCount + 1 := by
  unfold onOrderAccepted
  split <;> rfl

theorem onOrderAccepted_pending (order : Order) (side : Side) : (pos.onOrderAccepted order).pending side =
    pos.pending side + if order.side = side then order.quantity else 0 := by
  unfold onOrderAccepted pending
  cases order.side <;> cases side <;> simp

end PositionInfo

def reserved (symbol : Symbol) (side : Side) (o : Order) : ℤ :=
  if o.symbol = symbol ∧ o.side = side then o.leavesQty else 0

def checkLimits (order : Order) (limits : RiskLimits) (pos : PositionInfo) : RiskCheckResult :=
  if !limits.enabled then .passed
  else if limits.maxOrderQuantity > 0 ∧ order.quantity > limits.maxOrderQuantity then
    .failedMaxOrderQuantity
  else if limits.maxOrderNotional > 0 ∧ order.price ≠ invalidPrice ∧
      wideMulDiv order.price order.quantity priceScale > limits.maxOrderNotional then
    .failedMaxOrderNotional
  else if limits.maxPositionQuantity > 0 ∧ |pos.projected order| > limits.maxPositionQuantity then
    .failedMaxPositionQuantity
  else if limits.maxPositionNotional > 0 ∧ order.price ≠ invalidPrice ∧
      wideMulDiv |pos.netQuantity + PositionInfo.orderDelta order| order.price priceScale >
        limits.maxPositionNotional then
    .failedMaxPositionNotional
  else if limits.maxOpenOrders > 0 ∧ pos.openOrderCount ≥ limits.maxOpenOrders then
    .failedMaxOpenOrders
  else if limits.maxLoss > 0 ∧ pos.realizedPnl + pos.unrealizedPnl < 0 ∧
      -(pos.realizedPnl + pos.unrealizedPnl) > limits.maxLoss then
    .failedMaxLoss
  else .passed

structure RiskManager where
  globalLimits : RiskLimits := {}
  symbolLimits : Symbol → Option RiskLimits := fun _ => none
  positions : Symbol → PositionInfo := fun _ => {}
  killSwitch : Bool := false
  rateLimiter : RateLimiter

namespace RiskManager

/-- The constructor: 10 000 orders a second and no limit configured. -/
def initial (nowSec : ℤ) : RiskManager := { rateLimiter := { maxPerSecond := 10000, windowStart := nowSec } }

variable (rm : RiskManager)

/-- The limit checks of `check_order`, done under its lock. -/
def checkPosition (order : Order) : RiskCheckResult :=
  match checkLimits order rm.globalLimits (rm.positions order.symbol) with
  | .passed =>
    match rm.symbolLimits order.symbol with
    | some limits => checkLimits order limits (rm.positions order.symbol)
    | none => .passed
  | failure => failure

def checkOrder (order : Order) (nowSec : ℤ) : RiskManager × RiskCheckResult :=
  if rm.killSwitch then (rm, .failedKillSwitch)
  else if rm.globalLimits.maxOrdersPerSecond > 0 then
    match rm.rateLimiter.tryAcquire nowSec with
    | (limiter, false) => ({ rm with rateLimiter := limiter }, .failedRateLimit)
    | (limiter, true) => ({ rm with rateLimiter := limiter }, rm.checkPosition order)
  else (rm, rm.checkPosition order)

def modifyPosition (symbol : Symbol) (f : PositionInfo → PositionInfo) : RiskManager :=
  { rm with positions := Function.update rm.positions symbol (f (rm.positions symbol)) }

def onFill (symbol : Symbol) (side : Side) (qty : ℤ) (price : ℤ) : RiskManager :=
  rm.modifyPosition symbol fun pos => pos.onFill side qty price

def onOrderAccepted (order : Order) : RiskManager :=
  rm.modifyPosition order.symbol fun pos => pos.onOrderAccepted order

def onOrderCanceled (order : Order) : RiskManager :=
  rm.modifyPosition order.symbol fun pos => pos.onOrderCanceled order

def onOrderRejected (order : Order) : RiskManager :=
  rm.modifyPosition order.symbol fun pos => pos.onOrderRejected order

def setGlobalLimits (limits : RiskLimits) (nowSec : ℤ) : RiskManager :=
  { rm with
    globalLimits := limits
    rateLimiter :=
      if limits.maxOrdersPerSecond > 0 then rm.rateLimiter.setMaxRate limits.maxOrdersPerSecond nowSec
      else rm.rateLimiter }

def setSymbolLimits (symbol : Symbol) (limits : RiskLimits) : RiskManager :=
  { rm with symbolLimits := Function.update rm.symbolLimits symbol (some limits) }

def getPosition (symbol : Symbol) : PositionInfo := rm.positions symbol

def activateKillSwitch : RiskManager := { rm with killSwitch := true }

def deactivateKillSwitch : RiskManager := { rm with killSwitch := false }

theorem checkOrder_frame (order : Order) (nowSec : ℤ) :
    ∃ limiter, (rm.checkOrder order nowSec).1 = { rm with rateLimiter := limiter } := by
  unfold checkOrder
  split
  · exact ⟨rm.rateLimiter, rfl⟩
  · split
    · split
      · exact ⟨_, rfl⟩
      · exact ⟨_, rfl⟩
    · exact ⟨rm.rateLimiter, rfl⟩

@[simp] theorem checkOrder_positions (order : Order) (nowSec : ℤ) :
    (rm.checkOrder order nowSec).1.positions = rm.positions := by
  obtain ⟨limiter, h⟩ := rm.checkOrder_frame order nowSec
  rw [h]

@[simp] theorem checkOrder_globalLimits (order : Order) (nowSec : ℤ) :
    (rm.checkOrder order nowSec).1.globalLimits = rm.globalLimits := by
  obtain ⟨limiter, h⟩ := rm.checkOrder_frame order nowSec
  rw [h]

theorem checkOrder_passed (order : Order) (nowSec : ℤ)
    (h : (rm.checkOrder order nowSec).2 = .passed) :
    checkLimits order rm.globalLimits (rm.positions order.symbol) = .passed := by
  have hp : rm.checkPosition order = .passed := by
    unfold checkOrder at h
    split at h
    · cases h
    · split at h
      · split at h
        · cases h
        · exact h
      · exact h
  unfold checkPosition at hp
  split at hp
  · assumption
  · contradiction

@[simp] theorem modifyPosition_self (symbol : Symbol) (f : PositionInfo → PositionInfo) :
    (rm.modifyPosition symbol f).positions symbol = f (rm.positions symbol) := by
  simp [modifyPosition]

theorem modifyPosition_other {symbol other : Symbol} (h : other ≠ symbol)
    (f : PositionInfo → PositionInfo) :
    (rm.modifyPosition symbol f).positions other = rm.positions other := by
  simp [modifyPosition, h]

theorem onOrderAccepted_openOrderCount (order : Order) (symbol : Symbol) :
    ((rm.onOrderAccepted order).positions symbol).openOrderCount =
      (rm.positions symbol).openOrderCount + if order.symbol = symbol then 1 else 0 := by
  unfold onOrderAccepted
  by_cases h : order.symbol = symbol
  · rw [← h, modifyPosition_self, PositionInfo.onOrderAccepted_openOrderCount, if_pos rfl]
  · rw [modifyPosition_other _ (Ne.symm h), if_neg h, add_zero]

theorem onOrderAccepted_pending (order : Order) (symbol : Symbol) (side : Side) :
    ((rm.onOrderAccepted order).positions symbol).pending side = (rm.positions symbol).pending side +
      if order.symbol = symbol ∧ order.side = side then order.quantity else 0 := by
  unfold onOrderAccepted
  by_cases h : order.symbol = symbol
  · rw [← h, modifyPosition_self, PositionInfo.onOrderAccepted_pending]
    simp only [true_and]
  · rw [modifyPosition_other _ (Ne.symm h), if_neg fun hboth => h hboth.1, add_zero]

theorem onFill_openOrderCount (symbol other : Symbol) (side : Side) (qty price : ℤ) :
    ((rm.onFill symbol side qty price).positions other).openOrderCount =
      (rm.positions other).openOrderCount := by
  unfold onFill
  by_cases h : other = symbol
  · rw [h, modifyPosition_self, PositionInfo.onFill_openOrderCount]
  · rw [modifyPosition_other _ h]

theorem onFill_pending (symbol other : Symbol) (side otherSide : Side) (qty price : ℤ) :
    ((rm.onFill symbol side qty price).positions other).pending otherSide =
      if symbol = other ∧ side = otherSide then max 0 ((rm.positions other).pending otherSide - qty)
      else (rm.positions other).pending otherSide := by
  unfold onFill
  by_cases h : symbol = other
  · rw [h, modifyPosition_self, PositionInfo.onFill_pending]
    simp only [true_and]
  · rw [modifyPosition_other _ (Ne.symm h), if_neg fun hboth => h hboth.1]

end RiskManager

theorem checkLimits_position {order : Order} {limits : RiskLimits} {pos : PositionInfo}
    (h : checkLimits order limits pos = .passed) (he : limits.enabled = true)
    (hl : 0 < limits.maxPositionQuantity) : |pos.projected order| ≤ limits.maxPositionQuantity := by
  unfold checkLimits at h
  by_contra hn
  simp only [he, Bool.not_true, Bool.false_eq_true, ↓reduceIte, gt_iff_lt, hl, true_and,
    not_le.mp hn] at h
  split_ifs at h

end Klett.Sor

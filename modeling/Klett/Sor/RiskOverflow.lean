import Mathlib.Algebra.Order.Group.Abs
import Klett.Sor.ConfiguredLimits

namespace Klett.Sor

section Words

def InInt64 (x : ℤ) : Prop := -2 ^ 63 ≤ x ∧ x < 2 ^ 63

instance (x : ℤ) : Decidable (InInt64 x) := inferInstanceAs (Decidable (_ ∧ _))

variable {x y : ℤ}

theorem toInt64_eq (h : InInt64 x) : toInt64 x = x := by
  obtain ⟨hlo, hhi⟩ := h
  exact Int.bmod_eq_of_le (by omega) (by omega)

theorem inInt64_toInt64 (x : ℤ) : InInt64 (toInt64 x) := by
  have hlo := Int.le_bmod (x := x) (m := 2 ^ 64) (by decide)
  have hhi := Int.bmod_lt (x := x) (m := 2 ^ 64) (by decide)
  unfold InInt64 toInt64
  omega

@[simp] theorem toInt64_toInt64_add (x y : ℤ) : toInt64 (toInt64 x + y) = toInt64 (x + y) := Int.bmod_add_bmod

@[simp] theorem toInt64_add_toInt64 (x y : ℤ) : toInt64 (x + toInt64 y) = toInt64 (x + y) := Int.add_bmod_bmod

theorem inInt64_of_abs_lt (h : |x| < 2 ^ 63) : InInt64 x := by
  obtain ⟨hlo, hhi⟩ := abs_lt.mp h
  exact ⟨hlo.le, hhi⟩

end Words

/-! `check_limits` as it is compiled: sums, negations and `std::abs` of `int64_t` keep 64 bits. -/

namespace PositionInfo

variable (pos : PositionInfo) (order : Order)

def orderDelta64 : ℤ :=
  match order.side with
  | .buy => order.quantity
  | .sell => toInt64 (-order.quantity)

def projected64 : ℤ :=
  toInt64 (toInt64 (pos.netQuantity + orderDelta64 order) +
    match order.side with
    | .buy => pos.pending order.side
    | .sell => toInt64 (-pos.pending order.side))

def totalPnl64 : ℤ := toInt64 (pos.realizedPnl + pos.unrealizedPnl)

variable {pos order}

theorem projected64_eq : pos.projected64 order = toInt64 (pos.projected order) := by
  unfold projected64 projected orderDelta64 orderDelta
  cases order.side <;> simp [add_assoc]

end PositionInfo

def checkLimits64 (order : Order) (limits : RiskLimits) (pos : PositionInfo) : RiskCheckResult :=
  if !limits.enabled then .passed
  else if limits.maxOrderQuantity > 0 ∧ order.quantity > limits.maxOrderQuantity then
    .failedMaxOrderQuantity
  else if limits.maxOrderNotional > 0 ∧ order.price ≠ invalidPrice ∧
      wideMulDiv order.price order.quantity priceScale > limits.maxOrderNotional then
    .failedMaxOrderNotional
  else if limits.maxPositionQuantity > 0 ∧ toInt64 |pos.projected64 order| > limits.maxPositionQuantity then
    .failedMaxPositionQuantity
  else if limits.maxPositionNotional > 0 ∧ order.price ≠ invalidPrice ∧
      wideMulDiv (toInt64 |toInt64 (pos.netQuantity + PositionInfo.orderDelta64 order)|) order.price priceScale >
        limits.maxPositionNotional then
    .failedMaxPositionNotional
  else if limits.maxOpenOrders > 0 ∧ pos.openOrderCount ≥ limits.maxOpenOrders then
    .failedMaxOpenOrders
  else if limits.maxLoss > 0 ∧ pos.totalPnl64 < 0 ∧ toInt64 (-pos.totalPnl64) > limits.maxLoss then
    .failedMaxLoss
  else .passed

namespace RiskOverflow

section Limits

/-- Nothing that the checks add up leaves the 64 bits. -/
structure Fits (order : Order) (pos : PositionInfo) : Prop where
  quantity : InInt64 (-order.quantity)
  held : |pos.netQuantity + PositionInfo.orderDelta order| < 2 ^ 63
  projected : |pos.projected order| < 2 ^ 63
  pnl : |pos.realizedPnl + pos.unrealizedPnl| < 2 ^ 63

variable {order : Order} {limits : RiskLimits} {pos : PositionInfo} {x : ℤ}

theorem orderDelta64_eq (h : InInt64 (-order.quantity)) :
    PositionInfo.orderDelta64 order = PositionInfo.orderDelta order := by
  unfold PositionInfo.orderDelta64 PositionInfo.orderDelta
  cases order.side with
  | buy => rfl
  | sell => exact toInt64_eq h

theorem projected64_of_abs_lt (h : |pos.projected order| < 2 ^ 63) : pos.projected64 order = pos.projected order := by
  rw [PositionInfo.projected64_eq, toInt64_eq (inInt64_of_abs_lt h)]

theorem toInt64_abs (h : |x| < 2 ^ 63) : toInt64 |x| = |x| := by
  apply toInt64_eq
  apply inInt64_of_abs_lt
  rwa [abs_abs]

theorem checkLimits64_eq (h : Fits order pos) : checkLimits64 order limits pos = checkLimits order limits pos := by
  have hprojected : toInt64 |pos.projected64 order| = |pos.projected order| := by
    rw [projected64_of_abs_lt h.projected, toInt64_abs h.projected]
  have hheld : toInt64 |toInt64 (pos.netQuantity + PositionInfo.orderDelta64 order)| =
      |pos.netQuantity + PositionInfo.orderDelta order| := by
    rw [orderDelta64_eq h.quantity, toInt64_eq (inInt64_of_abs_lt h.held), toInt64_abs h.held]
  have hpnl : pos.totalPnl64 = pos.realizedPnl + pos.unrealizedPnl := toInt64_eq (inInt64_of_abs_lt h.pnl)
  have hloss : toInt64 (-(pos.realizedPnl + pos.unrealizedPnl)) = -(pos.realizedPnl + pos.unrealizedPnl) := by
    apply toInt64_eq
    apply inInt64_of_abs_lt
    rw [abs_neg]
    exact h.pnl
  unfold checkLimits64 checkLimits
  rw [hprojected, hheld, hpnl, hloss]

end Limits

/-- The order's notional as the check has it, but exact. -/
def notional (order : Order) : ℤ := (order.price * order.quantity).tdiv priceScale

structure Admitted (order : Order) : Prop where
  price : InInt64 order.price
  priced : order.price ≠ invalidPrice
  quantity : InInt64 order.quantity

/-- The fields of a `PositionInfo` have their types' values. -/
structure Stored (pos : PositionInfo) : Prop where
  net : InInt64 pos.netQuantity
  pendingBuy : InInt64 pos.pendingBuyQuantity
  pendingSell : InInt64 pos.pendingSellQuantity
  realized : InInt64 pos.realizedPnl
  unrealized : InInt64 pos.unrealizedPnl
  openOrders : -2 ^ 31 ≤ pos.openOrderCount ∧ pos.openOrderCount < 2 ^ 31

/-- Every limit is set, to a value of its type. -/
structure Enforced (limits : RiskLimits) : Prop where
  enabled : limits.enabled = true
  orderQuantity : 0 < limits.maxOrderQuantity ∧ InInt64 limits.maxOrderQuantity
  orderNotional : 0 < limits.maxOrderNotional ∧ InInt64 limits.maxOrderNotional
  positionNotional : 0 < limits.maxPositionNotional ∧ InInt64 limits.maxPositionNotional
  positionQuantity : 0 < limits.maxPositionQuantity ∧ InInt64 limits.maxPositionQuantity
  ordersPerSecond : 0 < limits.maxOrdersPerSecond ∧ limits.maxOrdersPerSecond < 2 ^ 31
  openOrders : 0 < limits.maxOpenOrders ∧ limits.maxOpenOrders < 2 ^ 31
  loss : 0 < limits.maxLoss ∧ InInt64 limits.maxLoss

def Respected (limits : RiskLimits) (order : Order) (pos : PositionInfo) : Prop :=
  checkLimits64 order limits pos = .passed →
    notional order ≤ limits.maxOrderNotional ∧ |pos.projected order| ≤ limits.maxPositionQuantity

/-- The largest values that the limits can be set to. -/
def loosest : RiskLimits where
  maxOrderQuantity := 2 ^ 63 - 1
  maxOrderNotional := 2 ^ 63 - 1
  maxPositionNotional := 2 ^ 63 - 1
  maxPositionQuantity := 2 ^ 63 - 1
  maxOrdersPerSecond := 2 ^ 31 - 1
  maxOpenOrders := 2 ^ 31 - 1
  maxLoss := 2 ^ 63 - 1

variable {order : Order} {limits : RiskLimits} {pos : PositionInfo}

theorem enforced_loosest : Enforced loosest := by
  constructor <;> decide

theorem not_exceeds (x : ℤ) : ¬2 ^ 63 - 1 < toInt64 x := by
  have hhi := (inInt64_toInt64 x).2
  omega

theorem passed_loosest (ho : InInt64 order.quantity) (hopen : pos.openOrderCount < 2 ^ 31 - 1) :
    checkLimits64 order loosest pos = .passed := by
  have hquantity := ho.2
  simp only [checkLimits64, loosest, wideMulDiv, gt_iff_lt, ge_iff_le, not_exceeds, and_false, ↓reduceIte,
    Bool.not_true, Bool.false_eq_true]
  rw [if_neg (by omega), if_neg (by omega)]

theorem open_orders_stop (he : Enforced limits) (hopen : pos.openOrderCount = 2 ^ 31 - 1) :
    checkLimits64 order limits pos ≠ .passed := by
  have hfull : 0 < limits.maxOpenOrders ∧ limits.maxOpenOrders ≤ pos.openOrderCount := by
    have hmax := he.openOrders
    omega
  unfold checkLimits64
  simp only [he.enabled, gt_iff_lt, ge_iff_le, hfull, and_self, ↓reduceIte, Bool.not_true, Bool.false_eq_true]
  split_ifs <;> simp

theorem passed_limits (he : Enforced limits) (ho : order.price ≠ invalidPrice)
    (h : checkLimits64 order limits pos = .passed) :
    toInt64 (notional order) ≤ limits.maxOrderNotional ∧
      toInt64 |pos.projected64 order| ≤ limits.maxPositionQuantity := by
  unfold checkLimits64 at h
  simp only [he.enabled, Bool.not_true, Bool.false_eq_true, ↓reduceIte, gt_iff_lt, he.orderNotional.1,
    he.positionQuantity.1, ho, ne_eq, not_false_eq_true, true_and] at h
  split_ifs at h with _ hnotional hposition
  all_goals exact ⟨not_lt.mp hnotional, not_lt.mp hposition⟩

theorem respected_of_fits (ho : order.price ≠ invalidPrice) (hn : notional order < 2 ^ 63)
    (hp : |pos.projected order| < 2 ^ 63) (he : Enforced limits) : Respected limits order pos := by
  intro hpassed
  obtain ⟨hnotional, hposition⟩ := passed_limits he ho hpassed
  rw [projected64_of_abs_lt hp, toInt64_abs hp] at hposition
  refine ⟨?_, hposition⟩
  obtain hlo | hlo := lt_or_ge (notional order) (-2 ^ 63)
  · have hpositive := he.orderNotional.1
    omega
  · rwa [toInt64_eq ⟨hlo, hn⟩] at hnotional

/-- The limits hold back what they should, whatever they are, exactly when the exact notional and the exact
projected position are values of their types. -/
theorem respected_iff (ho : Admitted order) (hp : Stored pos) :
    (∀ limits, Enforced limits → Respected limits order pos) ↔
      pos.openOrderCount = 2 ^ 31 - 1 ∨ notional order < 2 ^ 63 ∧ |pos.projected order| < 2 ^ 63 := by
  constructor
  · intro hall
    by_contra hnot
    rw [not_or] at hnot
    obtain ⟨hopen, hfits⟩ := hnot
    have hcount := hp.openOrders.2
    obtain ⟨hnotional, hposition⟩ := hall loosest enforced_loosest (passed_loosest ho.quantity (by omega))
    apply hfits
    simp only [loosest] at hnotional hposition
    omega
  · rintro (hopen | ⟨hnotional, hposition⟩) limits he
    · intro hpassed
      exact absurd hpassed (open_orders_stop he hopen)
    · exact respected_of_fits ho.priced hnotional hposition he

theorem respected_unit_order :
    (∀ limits, Enforced limits → Respected limits { price := priceScale, quantity := 1 } {}) ↔
      ({} : PositionInfo).openOrderCount = 2 ^ 31 - 1 ∨
        notional { price := priceScale, quantity := 1 } < 2 ^ 63 ∧
          |({} : PositionInfo).projected { price := priceScale, quantity := 1 }| < 2 ^ 63 :=
  respected_iff ⟨by decide, by decide, by decide⟩
    ⟨by decide, by decide, by decide, by decide, by decide, by decide⟩

/-- 2^28 units at a price of 2^36: the notional is 2^64, and its low 64 bits are zero. -/
def wholeTurn : Order where
  price := 2 ^ 36 * priceScale
  quantity := 2 ^ 28

def modest : RiskLimits where
  maxOrderQuantity := 10 ^ 9
  maxOrderNotional := 10 ^ 15
  maxPositionNotional := 10 ^ 15
  maxPositionQuantity := 10 ^ 9
  maxOrdersPerSecond := 1000
  maxOpenOrders := 100
  maxLoss := 10 ^ 12

theorem not_respected_wholeTurn : Admitted wholeTurn ∧ Stored {} ∧ Enforced modest ∧
    checkLimits64 wholeTurn modest {} = .passed ∧ notional wholeTurn = 2 ^ 64 ∧
      ¬Respected modest wholeTurn {} := by
  have hpassed : checkLimits64 wholeTurn modest {} = .passed := by decide
  have hnotional : notional wholeTurn = 2 ^ 64 := by decide
  refine ⟨⟨by decide, by decide, by decide⟩, ?_, ?_, hpassed, hnotional, ?_⟩
  · constructor <;> decide
  · constructor <;> decide
  · intro hrespected
    have hle := (hrespected hpassed).1
    rw [hnotional] at hle
    exact absurd hle (by decide)

end RiskOverflow

end Klett.Sor

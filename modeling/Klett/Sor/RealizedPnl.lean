import Mathlib.Algebra.Order.Field.Basic
import Mathlib.Data.Rat.Cast.Order
import Mathlib.Tactic.Linarith
import Mathlib.Tactic.Ring
import Klett.Lib.Machine
import Klett.Sor.RiskOverflow

namespace Klett.Sor

open Klett.Lib

structure Trade where
  side : Side
  qty : ℤ
  price : ℤ
  positive : 0 < qty ∧ 0 < price

namespace Trade

variable (t : Trade)

def signedQty : ℤ := if t.side = .buy then t.qty else -t.qty

/-- Sell proceeds, and buy costs as what they take away, times `priceScale`. -/
def cash : ℤ := -(t.signedQty * t.price)

variable {t}

theorem signedQty_buy (h : t.side = .buy) : t.signedQty = t.qty := if_pos h

theorem signedQty_sell (h : t.side = .sell) : t.signedQty = -t.qty := by
  unfold signedQty
  rw [h, if_neg (by decide)]

variable (t)

theorem abs_signedQty : |t.signedQty| = t.qty := by
  have hqty := t.positive.1
  cases hside : t.side with
  | buy => rw [signedQty_buy hside, abs_of_pos hqty]
  | sell => rw [signedQty_sell hside, abs_neg, abs_of_pos hqty]

end Trade

namespace PositionInfo

variable (pos : PositionInfo) (t : Trade)

def take : PositionInfo := pos.onFill t.side t.qty t.price

def Reducing : Prop := (pos.netQuantity > 0 ∧ t.side = .sell) ∨ (pos.netQuantity < 0 ∧ t.side = .buy)

instance : Decidable (pos.Reducing t) := inferInstanceAs (Decidable (_ ∨ _))

/-- What the quantity that a fill closes gains over its entry, before the division by `priceScale`. -/
def closedPnl : ℤ :=
  (if pos.netQuantity > 0 then t.price - pos.avgEntryPrice else pos.avgEntryPrice - t.price) *
    min |t.signedQty| |pos.netQuantity|

def existingCost : ℤ := pos.avgEntryPrice * |pos.netQuantity|

/-- What the divisions of a fill drop, and a gain over an average of zero, which is not counted at all. -/
def fillDrops : ℤ :=
  if pos.Reducing t then
    if pos.avgEntryPrice ≠ 0 then (pos.closedPnl t).tmod priceScale else pos.closedPnl t
  else
    let dropped := (pos.existingCost).tmod (|pos.netQuantity| + t.qty) +
      (t.price * t.qty).tmod (|pos.netQuantity| + t.qty)
    match t.side with
    | .buy => -dropped
    | .sell => dropped

def QuotientsFit : Prop :=
  (pos.Reducing t ∧ pos.avgEntryPrice ≠ 0 → InInt64 ((pos.closedPnl t).tdiv priceScale)) ∧
    (¬pos.Reducing t ∧ pos.netQuantity ≠ 0 →
      InInt64 (pos.existingCost.tdiv (|pos.netQuantity| + t.qty)) ∧
        InInt64 ((t.price * t.qty).tdiv (|pos.netQuantity| + t.qty)))

instance : Decidable (pos.QuotientsFit t) := inferInstanceAs (Decidable (_ ∧ _))

def account : ℤ := priceScale * pos.realizedPnl - pos.netQuantity * pos.avgEntryPrice

variable {pos t}

theorem mul_tdiv_eq (d x : ℤ) : d * x.tdiv d = x - x.tmod d := by
  have hsplit := Int.mul_tdiv_add_tmod x d
  omega

@[simp] theorem take_netQuantity : (pos.take t).netQuantity = pos.netQuantity + t.signedQty := rfl

theorem take_realizedPnl (hfit : pos.QuotientsFit t) (h : pos.Reducing t) :
    priceScale * (pos.take t).realizedPnl = priceScale * pos.realizedPnl + pos.closedPnl t - pos.fillDrops t := by
  have hpnl : (pos.take t).realizedPnl = if pos.Reducing t ∧ pos.avgEntryPrice ≠ 0 then
      pos.realizedPnl + toInt64 ((pos.closedPnl t).tdiv priceScale) else pos.realizedPnl := rfl
  have hdrops : pos.fillDrops t =
      if pos.avgEntryPrice ≠ 0 then (pos.closedPnl t).tmod priceScale else pos.closedPnl t := if_pos h
  rw [hpnl, hdrops]
  by_cases havg : pos.avgEntryPrice ≠ 0
  · have hsplit := mul_tdiv_eq priceScale (pos.closedPnl t)
    rw [if_pos ⟨h, havg⟩, if_pos havg, toInt64_eq (hfit.1 ⟨h, havg⟩), mul_add, hsplit]
    omega
  · rw [if_neg fun hboth => havg hboth.2, if_neg havg]
    omega

theorem take_avgEntryPrice : (pos.take t).avgEntryPrice =
    if ¬pos.Reducing t ∨ |t.signedQty| > |pos.netQuantity| then
      if |pos.netQuantity + t.signedQty| > 0 then
        if |pos.netQuantity| > 0 ∧ ¬pos.Reducing t then
          wideMulDiv pos.avgEntryPrice |pos.netQuantity| (|pos.netQuantity| + t.qty) +
            wideMulDiv t.price t.qty (|pos.netQuantity| + t.qty)
        else t.price
      else 0
    else pos.avgEntryPrice := rfl

theorem take_avgEntryPrice_reducing (h : pos.Reducing t) : (pos.take t).avgEntryPrice =
    if t.qty ≤ |pos.netQuantity| then pos.avgEntryPrice else t.price := by
  have habs := t.abs_signedQty
  rw [take_avgEntryPrice, habs]
  by_cases hle : t.qty ≤ |pos.netQuantity|
  · rw [if_pos hle, if_neg]
    rintro (hadding | hflip)
    · exact hadding h
    · omega
  · -- the fill turns the position, so that something is left open
    have hopen : |pos.netQuantity + t.signedQty| > 0 := by
      apply abs_pos.mpr
      intro hzero
      rw [eq_neg_of_add_eq_zero_left hzero, abs_neg, habs] at hle
      exact hle le_rfl
    rw [if_neg hle, if_pos (.inr (not_le.mp hle)), if_pos hopen, if_neg fun hadding => hadding.2 h]

theorem take_cost_reducing (h : pos.Reducing t) :
    (pos.take t).netQuantity * (pos.take t).avgEntryPrice =
      pos.netQuantity * pos.avgEntryPrice + pos.closedPnl t - t.cash := by
  have habs := t.abs_signedQty
  rw [take_avgEntryPrice_reducing h, take_netQuantity]
  unfold closedPnl Trade.cash
  rw [habs]
  obtain ⟨hnet, hside⟩ | ⟨hnet, hside⟩ := h
  · rw [Trade.signedQty_sell hside, if_pos hnet, abs_of_pos hnet]
    split_ifs with hle
    · rw [min_eq_left hle]
      ring
    · rw [min_eq_right (not_le.mp hle).le]
      ring
  · rw [Trade.signedQty_buy hside, if_neg hnet.le.not_gt, abs_of_neg hnet]
    split_ifs with hle
    · rw [min_eq_left hle]
      ring
    · rw [min_eq_right (not_le.mp hle).le]
      ring

/-- A fill that opens a position or adds to it leaves the entry price at what the position cost,
divided by its size. -/
theorem take_avgEntryPrice_adding (hfit : pos.QuotientsFit t) (h : ¬pos.Reducing t)
    (hopen : pos.netQuantity + t.signedQty ≠ 0) :
    (|pos.netQuantity| + t.qty) * (pos.take t).avgEntryPrice = pos.existingCost + t.price * t.qty -
      (pos.existingCost.tmod (|pos.netQuantity| + t.qty) + (t.price * t.qty).tmod (|pos.netQuantity| + t.qty)) := by
  rw [take_avgEntryPrice, if_pos (.inl h), if_pos (abs_pos.mpr hopen)]
  by_cases hnet : pos.netQuantity = 0
  · have hnone : pos.existingCost = 0 := by
      unfold existingCost
      rw [hnet, abs_zero, mul_zero]
    rw [if_neg (by simp [hnet]), hnone, hnet]
    simp [mul_comm]
  · obtain ⟨hexisting, hadded⟩ := hfit.2 ⟨h, hnet⟩
    have hfirst : wideMulDiv pos.avgEntryPrice |pos.netQuantity| (|pos.netQuantity| + t.qty) =
        pos.existingCost.tdiv (|pos.netQuantity| + t.qty) := toInt64_eq hexisting
    have hsecond : wideMulDiv t.price t.qty (|pos.netQuantity| + t.qty) =
        (t.price * t.qty).tdiv (|pos.netQuantity| + t.qty) := toInt64_eq hadded
    rw [if_pos ⟨abs_pos.mpr hnet, h⟩, hfirst, hsecond, mul_add, mul_tdiv_eq, mul_tdiv_eq]
    omega

theorem take_cost_adding (hfit : pos.QuotientsFit t) (h : ¬pos.Reducing t) :
    (pos.take t).netQuantity * (pos.take t).avgEntryPrice =
      pos.netQuantity * pos.avgEntryPrice - t.cash + pos.fillDrops t := by
  obtain ⟨hbuy, hsell⟩ := not_or.mp h
  have hqty := t.positive.1
  rw [take_netQuantity]
  unfold fillDrops Trade.cash
  rw [if_neg h]
  cases hside : t.side with
  | buy =>
    have hsigned := Trade.signedQty_buy hside
    have hlong : 0 ≤ pos.netQuantity := not_lt.mp fun hneg => hsell ⟨hneg, hside⟩
    have havg := take_avgEntryPrice_adding hfit h (by omega)
    unfold existingCost at havg ⊢
    rw [abs_of_nonneg hlong] at havg ⊢
    rw [hsigned, havg]
    ring
  | sell =>
    have hsigned := Trade.signedQty_sell hside
    have hshort : pos.netQuantity ≤ 0 := not_lt.mp fun hpos => hbuy ⟨hpos, hside⟩
    have havg := take_avgEntryPrice_adding hfit h (by omega)
    unfold existingCost at havg ⊢
    rw [abs_of_nonpos hshort] at havg ⊢
    have hneg : pos.netQuantity + -t.qty = -(-pos.netQuantity + t.qty) := by ring
    rw [hsigned, hneg, neg_mul, havg]
    ring

theorem take_account (hfit : pos.QuotientsFit t) :
    (pos.take t).account = pos.account + (t.cash - pos.fillDrops t) := by
  unfold account
  by_cases h : pos.Reducing t
  · have hpnl := take_realizedPnl hfit h
    have hcost := take_cost_reducing h
    omega
  · have hpnl : (pos.take t).realizedPnl = pos.realizedPnl := if_neg fun hboth => h hboth.1
    have hcost := take_cost_adding hfit h
    rw [hpnl]
    omega

variable {trades : List Trade}

theorem foldl_take_account (h : Along take QuotientsFit pos trades) : (trades.foldl take pos).account =
    pos.account + ((trades.map Trade.cash).sum - tally take fillDrops pos trades) := by
  have hrun := h.tally account fun pos t hfit => take_account hfit
  rw [tally_sub, tally_of_action] at hrun
  exact hrun

theorem account_of_flat (h : pos.netQuantity = 0) : pos.account = priceScale * pos.realizedPnl := by
  unfold account
  rw [h, zero_mul, sub_zero]

end PositionInfo

namespace RiskManager

variable (rm : RiskManager) (symbol : Symbol) (trades : List Trade)

def takeAll : RiskManager := trades.foldl (fun rm t => rm.onFill symbol t.side t.qty t.price) rm

def PnlAccurate : Prop :=
  |(((rm.takeAll symbol trades).positions symbol).realizedPnl - (rm.positions symbol).realizedPnl : ℚ) -
    (trades.map Trade.cash).sum / priceScale| ≤ 1

theorem takeAll_position :
    (rm.takeAll symbol trades).positions symbol = trades.foldl PositionInfo.take (rm.positions symbol) := by
  induction trades generalizing rm with
  | nil => rfl
  | cons t trades ih =>
    have hself : (rm.onFill symbol t.side t.qty t.price).positions symbol = (rm.positions symbol).take t :=
      modifyPosition_self _ _ _
    refine (ih _).trans ?_
    rw [hself]
    rfl

variable {rm symbol trades}

/-- From flat to flat the realized gains are accurate just when the divisions on the way drop no more
than one unit together, rounding in either direction. -/
theorem pnlAccurate_iff (hstart : (rm.positions symbol).netQuantity = 0)
    (hend : ((rm.takeAll symbol trades).positions symbol).netQuantity = 0)
    (hfit : Along PositionInfo.take PositionInfo.QuotientsFit (rm.positions symbol) trades) :
    rm.PnlAccurate symbol trades ↔
      |tally PositionInfo.take PositionInfo.fillDrops (rm.positions symbol) trades| ≤ priceScale := by
  have hrun := PositionInfo.foldl_take_account hfit
  rw [← takeAll_position, PositionInfo.account_of_flat hstart, PositionInfo.account_of_flat hend] at hrun
  unfold PnlAccurate
  generalize tally PositionInfo.take PositionInfo.fillDrops (rm.positions symbol) trades = drops at hrun ⊢
  generalize ((rm.takeAll symbol trades).positions symbol).realizedPnl = after at hrun ⊢
  generalize (rm.positions symbol).realizedPnl = before at hrun ⊢
  generalize (trades.map Trade.cash).sum = cash at hrun ⊢
  have hscale : (0 : ℚ) < priceScale := by decide +kernel
  have hdiff : (after - before : ℚ) - cash / priceScale = -drops / priceScale := by
    have hrunq : (priceScale * after : ℚ) = priceScale * before + (cash - drops) := by exact_mod_cast hrun
    rw [sub_eq_iff_eq_add, ← add_div, eq_div_iff hscale.ne']
    linarith
  rw [hdiff, abs_div, abs_neg, abs_of_pos hscale, div_le_one hscale]
  exact_mod_cast Iff.rfl

def buyAtHundred : Trade := ⟨.buy, 1, 100 * priceScale, by decide⟩

def sellAtHundredOne : Trade := ⟨.sell, 1, 101 * priceScale, by decide⟩

def sellAtNinetyNineTen : Trade := ⟨.sell, 1, 9910000000, by decide⟩

def flatBook : RiskManager := { rateLimiter := { maxPerSecond := 0, windowStart := 0 } }

theorem pnlAccurate_iff_trip : flatBook.PnlAccurate default [buyAtHundred, sellAtHundredOne] :=
  (pnlAccurate_iff (by decide) (by decide) (by decide)).mpr (by decide)

/-- Twice bought at 100 and sold at 99.10: 1.80 are lost, and no loss is realized. -/
theorem pnl_drops_losses :
    let trades := [buyAtHundred, sellAtNinetyNineTen, buyAtHundred, sellAtNinetyNineTen]
    let after := (flatBook.takeAll default trades).positions default
    after.netQuantity = 0 ∧ after.realizedPnl = 0 ∧ (trades.map Trade.cash).sum = -180000000 ∧
      ¬flatBook.PnlAccurate default trades := by
  refine ⟨by decide, by decide, by decide, ?_⟩
  unfold PnlAccurate
  decide +kernel

end RiskManager

end Klett.Sor

import Mathlib.Algebra.Order.BigOperators.Group.List
import Mathlib.Algebra.Order.Group.Int
import Klett.Lib.Exposure
import Klett.Lib.Machine
import Klett.Sor.RiskManager

namespace Klett.Sor.PositionLimit

open Klett.Lib

structure Desk where
  risk : RiskManager
  working : List Order

inductive Call
  | check (order : Order) (nowSec : ℤ)
  /-- `check_order`, directly followed by `on_order_accepted` when it passes. -/
  | submit (order : Order) (nowSec : ℤ)
  | fill (i : ℕ) (qty : ℤ) (price : ℤ)
  | cancel (i : ℕ)
  | reject (i : ℕ)
  | setSymbolLimits (symbol : Symbol) (limits : RiskLimits)
  | activateKillSwitch
  | deactivateKillSwitch

def withFilled (order : Order) (filled : ℤ) : Order := { order with filledQuantity := filled }

def submit (d : Desk) (order : Order) (nowSec : ℤ) : Desk :=
  match d.risk.checkOrder order nowSec with
  | (risk, .passed) => ⟨risk.onOrderAccepted order, withFilled order 0 :: d.working⟩
  | (risk, _) => ⟨risk, d.working⟩

def fill (d : Desk) (i : ℕ) (order : Order) (qty : ℤ) (price : ℤ) : Desk :=
  ⟨d.risk.onFill order.symbol order.side qty price,
    withFilled order (order.filledQuantity + qty) :: d.working.eraseIdx i⟩

/-- The calls a client of the risk manager may make: only positive orders are admitted, fills stay
within the order, only an unfilled order is rejected, and a closed order is gone. -/
def step (d : Desk) : Call → Option Desk
  | .check order nowSec => some ⟨(d.risk.checkOrder order nowSec).1, d.working⟩
  | .submit order nowSec => if 0 < order.quantity then some (submit d order nowSec) else none
  | .fill i qty price =>
    match d.working[i]? with
    | some order => if 0 ≤ qty ∧ qty ≤ order.leavesQty then some (fill d i order qty price) else none
    | none => none
  | .cancel i =>
    match d.working[i]? with
    | some order => some ⟨d.risk.onOrderCanceled order, d.working.eraseIdx i⟩
    | none => none
  | .reject i =>
    match d.working[i]? with
    | some order =>
      if order.filledQuantity = 0 then some ⟨d.risk.onOrderRejected order, d.working.eraseIdx i⟩
      else none
    | none => none
  | .setSymbolLimits symbol limits => some { d with risk := d.risk.setSymbolLimits symbol limits }
  | .activateKillSwitch => some { d with risk := d.risk.activateKillSwitch }
  | .deactivateKillSwitch => some { d with risk := d.risk.deactivateKillSwitch }

def machine : Machine Desk Call Unit where
  step d c := (step d c).map fun t => (t, [])

def exposure (pos : PositionInfo) : Exposure ℤ :=
  ⟨pos.netQuantity, pos.pendingBuyQuantity, pos.pendingSellQuantity⟩

section Exposures

variable {pos : PositionInfo} {order : Order} {qty price : ℤ}

theorem accepted_buy (h : order.side = .buy) :
    exposure (pos.onOrderAccepted order) = (exposure pos).promiseUp order.quantity := by
  simp [exposure, PositionInfo.onOrderAccepted, h, Exposure.promiseUp]

theorem accepted_sell (h : order.side = .sell) :
    exposure (pos.onOrderAccepted order) = (exposure pos).promiseDown order.quantity := by
  simp [exposure, PositionInfo.onOrderAccepted, h, Exposure.promiseDown]

theorem filled_buy (h : qty ≤ pos.pendingBuyQuantity) :
    exposure (pos.onFill .buy qty price) = (exposure pos).keepUp qty := by
  simp [exposure, PositionInfo.onFill, Exposure.keepUp, h]

theorem filled_sell (h : qty ≤ pos.pendingSellQuantity) :
    exposure (pos.onFill .sell qty price) = (exposure pos).keepDown qty := by
  simp [exposure, PositionInfo.onFill, Exposure.keepDown, h, sub_eq_add_neg]

theorem released_buy (h : qty ≤ pos.pendingBuyQuantity) :
    exposure (pos.release .buy qty) = (exposure pos).dropUp qty := by
  simp [exposure, PositionInfo.release, Exposure.dropUp, h]

theorem released_sell (h : qty ≤ pos.pendingSellQuantity) :
    exposure (pos.release .sell qty) = (exposure pos).dropDown qty := by
  simp [exposure, PositionInfo.release, Exposure.dropDown, h]

theorem projected_buy (h : order.side = .buy) :
    pos.projected order = pos.netQuantity + order.quantity + pos.pendingBuyQuantity := by
  simp [PositionInfo.projected, PositionInfo.orderDelta, PositionInfo.pending, h]

theorem projected_sell (h : order.side = .sell) :
    pos.projected order = pos.netQuantity - order.quantity - pos.pendingSellQuantity := by
  simp only [PositionInfo.projected, PositionInfo.orderDelta, PositionInfo.pending, h]
  omega

end Exposures

def totalReserved (symbol : Symbol) (side : Side) (l : List Order) : ℤ :=
  (l.map (reserved symbol side)).sum

@[simp] theorem totalReserved_cons (symbol : Symbol) (side : Side) (o : Order) (l : List Order) :
    totalReserved symbol side (o :: l) = reserved symbol side o + totalReserved symbol side l := by
  simp [totalReserved]

theorem totalReserved_eraseIdx (symbol : Symbol) (side : Side) {l : List Order} {i : ℕ} {o : Order}
    (h : l[i]? = some o) :
    totalReserved symbol side l =
      reserved symbol side o + totalReserved symbol side (l.eraseIdx i) := by
  obtain ⟨hi, rfl⟩ := List.getElem?_eq_some_iff.mp h
  have hp := ((List.getElem_cons_eraseIdx_perm hi).map (reserved symbol side)).sum_eq
  simpa [totalReserved] using hp.symm

theorem reserved_self (o : Order) : reserved o.symbol o.side o = o.leavesQty := by simp [reserved]

theorem reserved_otherSymbol {symbol : Symbol} {o : Order} (h : symbol ≠ o.symbol) (side : Side) :
    reserved symbol side o = 0 := by
  simp [reserved, Ne.symm h]

theorem reserved_otherSide {side : Side} {o : Order} (h : side ≠ o.side) (symbol : Symbol) :
    reserved symbol side o = 0 := by
  simp [reserved, Ne.symm h]

@[simp] theorem withFilled_leavesQty (o : Order) (filled : ℤ) :
    (withFilled o filled).leavesQty = o.quantity - filled := rfl

theorem reserved_withFilled (symbol : Symbol) (side : Side) (o : Order) (filled : ℤ) :
    reserved symbol side (withFilled o filled) =
      if o.symbol = symbol ∧ o.side = side then o.quantity - filled else 0 := rfl

theorem totalReserved_nonneg {symbol : Symbol} {side : Side} {l : List Order}
    (h : ∀ o ∈ l, 0 ≤ o.leavesQty) : 0 ≤ totalReserved symbol side l := by
  apply List.sum_nonneg
  intro x hx
  obtain ⟨o, ho, rfl⟩ := List.mem_map.mp hx
  unfold reserved
  split_ifs
  · exact h o ho
  · exact le_rfl

/-- The pending quantities of every symbol are exactly the open reservations, so no clamping at
zero ever bites, and the exposure they add up to is within the limit. -/
structure Safe (limit : ℤ) (d : Desk) : Prop where
  enabled : d.risk.globalLimits.enabled = true
  limit_eq : d.risk.globalLimits.maxPositionQuantity = limit
  leaves : ∀ o ∈ d.working, 0 ≤ o.leavesQty
  up : ∀ s, (exposure (d.risk.positions s)).up = totalReserved s .buy d.working
  down : ∀ s, (exposure (d.risk.positions s)).down = totalReserved s .sell d.working
  within : ∀ s, (exposure (d.risk.positions s)).Within limit

variable {limit : ℤ} {d : Desk}

theorem Safe.frame {risk : RiskManager} (hs : Safe limit d) (hp : risk.positions = d.risk.positions)
    (hg : risk.globalLimits = d.risk.globalLimits) : Safe limit ⟨risk, d.working⟩ :=
  ⟨by rw [hg]; exact hs.enabled, by rw [hg]; exact hs.limit_eq, hs.leaves,
    by rw [hp]; exact hs.up, by rw [hp]; exact hs.down, by rw [hp]; exact hs.within⟩

theorem Safe.modify {symbol : Symbol} {f : PositionInfo → PositionInfo} {working : List Order}
    {e : Exposure ℤ} (hs : Safe limit d) (hleaves : ∀ o ∈ working, 0 ≤ o.leavesQty)
    (hother : ∀ s side, s ≠ symbol → totalReserved s side working = totalReserved s side d.working)
    (he : exposure (f (d.risk.positions symbol)) = e)
    (hup : e.up = totalReserved symbol .buy working)
    (hdown : e.down = totalReserved symbol .sell working) (hwithin : e.Within limit) :
    Safe limit ⟨d.risk.modifyPosition symbol f, working⟩ := by
  have hpos (s : Symbol) : exposure ((d.risk.modifyPosition symbol f).positions s) =
      if s = symbol then e else exposure (d.risk.positions s) := by
    split_ifs with h
    · rw [h, RiskManager.modifyPosition_self, he]
    · rw [RiskManager.modifyPosition_other _ h]
  refine ⟨hs.enabled, hs.limit_eq, hleaves, ?_, ?_, ?_⟩
  all_goals
    intro s
    rw [hpos]
    split_ifs with h
  · rw [h, hup]
  · rw [hs.up, hother s .buy h]
  · rw [h, hdown]
  · rw [hs.down, hother s .sell h]
  · exact hwithin
  · exact hs.within s

theorem Safe.accept {order : Order} (hs : Safe limit d) (hq : 0 < order.quantity)
    (hp : |(d.risk.positions order.symbol).projected order| ≤ limit) :
    Safe limit ⟨d.risk.onOrderAccepted order, withFilled order 0 :: d.working⟩ := by
  have hw := hs.within order.symbol
  have hup := hs.up order.symbol
  have hdown := hs.down order.symbol
  obtain ⟨hlow, hhigh⟩ := abs_le.mp hp
  have hleaves : ∀ o ∈ withFilled order 0 :: d.working, 0 ≤ o.leavesQty := by
    intro o ho
    rcases List.mem_cons.mp ho with rfl | ho
    · rw [withFilled_leavesQty]
      omega
    · exact hs.leaves o ho
  have hother (s : Symbol) (side : Side) (hne : s ≠ order.symbol) :
      totalReserved s side (withFilled order 0 :: d.working) = totalReserved s side d.working := by
    simp [reserved_withFilled, Ne.symm hne]
  cases hside : order.side with
  | buy =>
    rw [projected_buy hside] at hhigh
    refine hs.modify hleaves hother (accepted_buy hside) ?_ ?_ (hw.promiseUp hq.le hhigh)
    · simp [Exposure.promiseUp, reserved_withFilled, hside, hup, add_comm]
    · simp [Exposure.promiseUp, reserved_withFilled, hside, hdown]
  | sell =>
    rw [projected_sell hside] at hlow
    refine hs.modify hleaves hother (accepted_sell hside) ?_ ?_ (hw.promiseDown hq.le hlow)
    · simp [Exposure.promiseDown, reserved_withFilled, hside, hup]
    · simp [Exposure.promiseDown, reserved_withFilled, hside, hdown, add_comm]

theorem Safe.rest_nonneg (hs : Safe limit d) (i : ℕ) (symbol : Symbol) (side : Side) :
    0 ≤ totalReserved symbol side (d.working.eraseIdx i) :=
  totalReserved_nonneg fun x hx => hs.leaves x (List.mem_of_mem_eraseIdx hx)

/-- A working order is part of what is pending on its side. -/
theorem Safe.leaves_le_up {i : ℕ} {order : Order} (hs : Safe limit d) (ho : d.working[i]? = some order)
    (hside : order.side = .buy) : order.leavesQty ≤ (exposure (d.risk.positions order.symbol)).up := by
  have hself := reserved_self order
  rw [hside] at hself
  rw [hs.up, totalReserved_eraseIdx _ _ ho, hself]
  exact le_add_of_nonneg_right (hs.rest_nonneg i order.symbol .buy)

theorem Safe.leaves_le_down {i : ℕ} {order : Order} (hs : Safe limit d) (ho : d.working[i]? = some order)
    (hside : order.side = .sell) : order.leavesQty ≤ (exposure (d.risk.positions order.symbol)).down := by
  have hself := reserved_self order
  rw [hside] at hself
  rw [hs.down, totalReserved_eraseIdx _ _ ho, hself]
  exact le_add_of_nonneg_right (hs.rest_nonneg i order.symbol .sell)

theorem Safe.fill {i : ℕ} {order : Order} {qty price : ℤ} (hs : Safe limit d)
    (ho : d.working[i]? = some order) (hq : 0 ≤ qty) (hle : qty ≤ order.leavesQty) :
    Safe limit (fill d i order qty price) := by
  have hsplit (s : Symbol) (side : Side) := totalReserved_eraseIdx s side ho
  have hw := hs.within order.symbol
  have hup := (hs.up order.symbol).trans (hsplit _ _)
  have hdown := (hs.down order.symbol).trans (hsplit _ _)
  have hself := reserved_self order
  have hentry := fun s => reserved_withFilled order.symbol s order (order.filledQuantity + qty)
  have hleaves : ∀ o ∈ withFilled order (order.filledQuantity + qty) :: d.working.eraseIdx i,
      0 ≤ o.leavesQty := by
    intro o hmem
    rcases List.mem_cons.mp hmem with rfl | hmem
    · rw [withFilled_leavesQty]
      unfold Order.leavesQty at hle
      omega
    · exact hs.leaves o (List.mem_of_mem_eraseIdx hmem)
  have hother (s : Symbol) (side : Side) (hne : s ≠ order.symbol) :
      totalReserved s side (withFilled order (order.filledQuantity + qty) :: d.working.eraseIdx i) =
        totalReserved s side d.working := by
    rw [hsplit s side, totalReserved_cons, reserved_otherSymbol hne, reserved_withFilled,
      if_neg fun h => hne h.1.symm]
  unfold Order.leavesQty at hself
  cases hside : order.side with
  | buy =>
    have hopp : reserved order.symbol .sell order = 0 := reserved_otherSide (by simp [hside]) _
    rw [hside] at hself
    simp only [hside, true_and] at hentry
    have hbuy := hentry .buy
    have hsell := hentry .sell
    simp only [reduceCtorEq, ↓reduceIte] at hbuy hsell
    have hpend := hle.trans (hs.leaves_le_up ho hside)
    refine hs.modify (f := fun pos => pos.onFill order.side qty price) hleaves hother
      (by rw [hside]; exact filled_buy hpend) ?_ ?_ (hw.keepUp hq hpend)
    · simp only [Exposure.keepUp, totalReserved_cons, hbuy]; omega
    · simp only [Exposure.keepUp, totalReserved_cons, hsell]; omega
  | sell =>
    have hopp : reserved order.symbol .buy order = 0 := reserved_otherSide (by simp [hside]) _
    rw [hside] at hself
    simp only [hside, true_and] at hentry
    have hbuy := hentry .buy
    have hsell := hentry .sell
    simp only [reduceCtorEq, ↓reduceIte] at hbuy hsell
    have hpend := hle.trans (hs.leaves_le_down ho hside)
    refine hs.modify (f := fun pos => pos.onFill order.side qty price) hleaves hother
      (by rw [hside]; exact filled_sell hpend) ?_ ?_ (hw.keepDown hq hpend)
    · simp only [Exposure.keepDown, totalReserved_cons, hbuy]; omega
    · simp only [Exposure.keepDown, totalReserved_cons, hsell]; omega

theorem Safe.close {i : ℕ} {order : Order} {qty : ℤ} (hs : Safe limit d)
    (ho : d.working[i]? = some order) (hq : qty = order.leavesQty) :
    Safe limit ⟨d.risk.modifyPosition order.symbol fun pos => pos.release order.side qty,
      d.working.eraseIdx i⟩ := by
  have hsplit (s : Symbol) (side : Side) := totalReserved_eraseIdx s side ho
  have hw := hs.within order.symbol
  have hup := (hs.up order.symbol).trans (hsplit _ _)
  have hdown := (hs.down order.symbol).trans (hsplit _ _)
  have hself := reserved_self order
  have hnonneg : 0 ≤ qty := by rw [hq]; exact hs.leaves order (List.mem_of_getElem? ho)
  have hleaves : ∀ o ∈ d.working.eraseIdx i, 0 ≤ o.leavesQty :=
    fun o hmem => hs.leaves o (List.mem_of_mem_eraseIdx hmem)
  have hother (s : Symbol) (side : Side) (hne : s ≠ order.symbol) :
      totalReserved s side (d.working.eraseIdx i) = totalReserved s side d.working := by
    rw [hsplit s side, reserved_otherSymbol hne, zero_add]
  cases hside : order.side with
  | buy =>
    have hopp : reserved order.symbol .sell order = 0 := reserved_otherSide (by simp [hside]) _
    rw [hside] at hself
    have hpend := hq.le.trans (hs.leaves_le_up ho hside)
    refine hs.modify hleaves hother (released_buy hpend) ?_ ?_ (hw.dropUp hnonneg hpend)
    · simp only [Exposure.dropUp]; omega
    · simp only [Exposure.dropUp]; omega
  | sell =>
    have hopp : reserved order.symbol .buy order = 0 := reserved_otherSide (by simp [hside]) _
    rw [hside] at hself
    have hpend := hq.le.trans (hs.leaves_le_down ho hside)
    refine hs.modify hleaves hother (released_sell hpend) ?_ ?_ (hw.dropDown hnonneg hpend)
    · simp only [Exposure.dropDown]; omega
    · simp only [Exposure.dropDown]; omega

theorem Safe.submit {order : Order} {nowSec : ℤ} (hs : Safe limit d) (hl : 0 < limit)
    (hq : 0 < order.quantity) : Safe limit (submit d order nowSec) := by
  have hframe := hs.frame (d.risk.checkOrder_positions order nowSec)
    (d.risk.checkOrder_globalLimits order nowSec)
  have hpassed := d.risk.checkOrder_passed order nowSec
  unfold PositionLimit.submit
  split
  next risk heq =>
    rw [heq] at hframe hpassed
    have hcheck := checkLimits_position (hpassed rfl) hs.enabled (by rw [hs.limit_eq]; exact hl)
    have hsame : risk.positions = d.risk.positions := by
      simpa [heq] using d.risk.checkOrder_positions order nowSec
    rw [hs.limit_eq] at hcheck
    exact hframe.accept hq (by rw [hsame]; exact hcheck)
  next risk _ heq =>
    rw [heq] at hframe
    exact hframe

theorem Safe.step {c : Call} {t : Desk} (hs : Safe limit d) (hl : 0 < limit)
    (h : step d c = some t) : Safe limit t := by
  cases c with
  | check order nowSec =>
    cases h
    exact hs.frame (d.risk.checkOrder_positions _ _) (d.risk.checkOrder_globalLimits _ _)
  | submit order nowSec =>
    simp only [PositionLimit.step] at h
    split_ifs at h with hq
    cases h
    exact hs.submit hl hq
  | fill i qty price =>
    simp only [PositionLimit.step] at h
    split at h
    next order ho =>
      split_ifs at h with hq
      cases h
      exact hs.fill ho hq.1 hq.2
    · cases h
  | cancel i =>
    simp only [PositionLimit.step] at h
    split at h
    next order ho =>
      cases h
      exact hs.close ho rfl
    · cases h
  | reject i =>
    simp only [PositionLimit.step] at h
    split at h
    next order ho =>
      split_ifs at h with hf
      cases h
      exact hs.close ho (by simp [Order.leavesQty, hf])
    · cases h
  | setSymbolLimits symbol limits => cases h; exact hs.frame rfl rfl
  | activateKillSwitch => cases h; exact hs.frame rfl rfl
  | deactivateKillSwitch => cases h; exact hs.frame rfl rfl

def Flat (risk : RiskManager) : Prop := ∀ s, exposure (risk.positions s) = ⟨0, 0, 0⟩

theorem Safe.initial {risk : RiskManager} (he : risk.globalLimits.enabled = true)
    (hl : 0 < risk.globalLimits.maxPositionQuantity) (hf : Flat risk) :
    Safe risk.globalLimits.maxPositionQuantity ⟨risk, []⟩ where
  enabled := he
  limit_eq := rfl
  leaves := by simp
  up s := by rw [hf s]; rfl
  down s := by rw [hf s]; rfl
  within s := by rw [hf s]; exact .flat hl.le

/-- The position limit holds in every run, whatever is still pending happens. -/
theorem position_within_limit {risk : RiskManager} (he : risk.globalLimits.enabled = true)
    (hl : 0 < risk.globalLimits.maxPositionQuantity) (hf : Flat risk) {h : Trace Call Unit} {d : Desk}
    (hr : machine.Run ⟨risk, []⟩ h d) (symbol : Symbol) :
    let pos := d.risk.positions symbol
    let limit := risk.globalLimits.maxPositionQuantity
    pos.netQuantity + pos.pendingBuyQuantity ≤ limit ∧
      -limit ≤ pos.netQuantity - pos.pendingSellQuantity ∧ |pos.netQuantity| ≤ limit := by
  have hsafe : Safe risk.globalLimits.maxPositionQuantity d := by
    refine hr.invariant (I := fun _ d => Safe risk.globalLimits.maxPositionQuantity d)
      (.initial he hl hf) ?_
    intro k t c u es hs _ hstep
    obtain ⟨v, hv, heq⟩ := Option.map_eq_some_iff.mp hstep
    cases heq
    exact hs.step hl hv
  have hw := hsafe.within symbol
  exact ⟨hw.above, hw.below, hw.abs_net_le⟩

/-- An order for the whole limit, filled by four: the other six stay reserved. -/
theorem position_within_limit_partly_filled :
    let risk : RiskManager :=
      { globalLimits := { maxPositionQuantity := 10 }, rateLimiter := ⟨100, 0, 0⟩ }
    let order : Order := { quantity := 10 }
    let d := fill (submit ⟨risk, []⟩ order 0) 0 (withFilled order 0) 4 priceScale
    let pos := d.risk.positions order.symbol
    (pos.netQuantity = 4 ∧ pos.pendingBuyQuantity = 6) ∧
      pos.netQuantity + pos.pendingBuyQuantity ≤ 10 ∧
      -10 ≤ pos.netQuantity - pos.pendingSellQuantity ∧ |pos.netQuantity| ≤ 10 := by
  intro risk order d pos
  have hrun : machine.Run ⟨risk, []⟩
      [(.submit order 0, []), (.fill 0 4 priceScale, [])] d :=
    Machine.run_of_exec [.submit order 0, .fill 0 4 priceScale] rfl
  exact ⟨by decide, position_within_limit (by decide) (by decide) (fun _ => rfl) hrun order.symbol⟩

end Klett.Sor.PositionLimit

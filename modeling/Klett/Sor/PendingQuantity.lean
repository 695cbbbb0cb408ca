import Klett.Lib.Machine
import Klett.Sor.PositionLimit
import Klett.Sor.SimulatedExchange

namespace Klett.Sor.PendingQuantity

open Klett.Lib Klett.Sor.PositionLimit

section Model

/-- What an order can go through at the exchange, and how the gateway tells the risk manager. -/
inductive Call
  | check (order : Order) (nowSec : ℤ)
  | accept (order : Order)
  | fill (i : ℕ) (qty price : ℤ)
  | cancel (i : ℕ)
  | reject (i : ℕ)

/-- A full fill ends an order, as a cancel and a reject do. -/
def fill (d : Desk) (i : ℕ) (order : Order) (qty price : ℤ) : Desk where
  risk := d.risk.onFill order.symbol order.side qty price
  working :=
    if qty = order.leavesQty then d.working.eraseIdx i
    else withFilled order (order.filledQuantity + qty) :: d.working.eraseIdx i

def act (d : Desk) : Call → Desk
  | .check order nowSec => { d with risk := (d.risk.checkOrder order nowSec).1 }
  | .accept order => { risk := d.risk.onOrderAccepted order, working := order :: d.working }
  | .fill i qty price =>
    match d.working[i]? with
    | some order => fill d i order qty price
    | none => d
  | .cancel i =>
    match d.working[i]? with
    | some order => { risk := d.risk.onOrderCanceled order, working := d.working.eraseIdx i }
    | none => d
  | .reject i =>
    match d.working[i]? with
    | some order => { risk := d.risk.onOrderRejected order, working := d.working.eraseIdx i }
    | none => d

/-- The calls are those of the lifecycles that the exchange can produce. -/
def Allowed (d : Desk) : Call → Prop
  | .check _ _ => True
  | .accept order => 0 < order.quantity ∧ order.filledQuantity = 0
  | .fill i qty _ => 0 < qty ∧ ∃ order ∈ d.working[i]?, qty ≤ order.leavesQty
  | .cancel i | .reject i => (d.working[i]?).isSome

def start (nowSec : ℤ) : Desk where
  risk := .initial nowSec
  working := []

end Model

section Specification

def Exact (d : Desk) : Prop :=
  ∀ symbol side, (d.risk.positions symbol).pending side = totalReserved symbol side d.working

/-- A rejected order has not traded, or it was the last one of its symbol and side. -/
def Harmless (d : Desk) : Call → Prop
  | .reject i => ∀ order ∈ d.working[i]?, order.filledQuantity = 0 ∨
    totalReserved order.symbol order.side (d.working.eraseIdx i) = 0
  | _ => True

end Specification

section Steps

variable {d : Desk} {order : Order} {i : ℕ} {symbol : Symbol} {side : Side}

theorem pending_release (pos : PositionInfo) (side other : Side) (released : ℤ) :
    (pos.release side released).pending other =
      if side = other then max 0 (pos.pending other - released) else pos.pending other := by
  cases side <;> cases other <;> rfl

theorem pending_modify_release (rm : RiskManager) (symbol other : Symbol) (side otherSide : Side) (released : ℤ) :
    ((rm.modifyPosition symbol fun pos => pos.release side released).positions other).pending otherSide =
      if symbol = other ∧ side = otherSide then max 0 ((rm.positions other).pending otherSide - released)
      else (rm.positions other).pending otherSide := by
  by_cases h : symbol = other
  · rw [← h, RiskManager.modifyPosition_self, pending_release]
    simp only [true_and]
  · rw [RiskManager.modifyPosition_other _ (Ne.symm h), if_neg fun hboth => h hboth.1]

/-- Every working order is open, and the pending quantities are exact. -/
structure Sound (d : Desk) : Prop where
  exact : Exact d
  filled : ∀ o ∈ d.working, 0 ≤ o.filledQuantity
  leaves : ∀ o ∈ d.working, 0 < o.leavesQty

theorem Sound.rest_nonneg (hs : Sound d) (i : ℕ) (symbol : Symbol) (side : Side) :
    0 ≤ totalReserved symbol side (d.working.eraseIdx i) :=
  totalReserved_nonneg fun o ho => (hs.leaves o (List.mem_of_mem_eraseIdx ho)).le

theorem Sound.pending_split (hs : Sound d) (ho : d.working[i]? = some order) (symbol : Symbol) (side : Side) :
    (d.risk.positions symbol).pending side =
      (if order.symbol = symbol ∧ order.side = side then order.leavesQty else 0) +
      totalReserved symbol side (d.working.eraseIdx i) := by
  rw [hs.exact symbol side, totalReserved_eraseIdx symbol side ho]
  rfl

theorem Sound.of_exact {working : List Order} {risk : RiskManager} (hs : Sound d) (he : Exact ⟨risk, working⟩)
    (hworking : ∀ o ∈ working, o ∈ d.working ∨ 0 ≤ o.filledQuantity ∧ 0 < o.leavesQty) :
    Sound ⟨risk, working⟩ where
  exact := he
  filled o ho := (hworking o ho).elim (hs.filled o) And.left
  leaves o ho := (hworking o ho).elim (hs.leaves o) And.right

theorem Sound.accept (hs : Sound d) (hq : 0 < order.quantity) (hf : order.filledQuantity = 0) :
    Sound (act d (.accept order)) := by
  have hleaves : order.leavesQty = order.quantity := by rw [Order.leavesQty, hf, sub_zero]
  apply hs.of_exact
  · intro symbol side
    simp only
    rw [RiskManager.onOrderAccepted_pending, totalReserved_cons, hs.exact symbol side, reserved, hleaves, add_comm]
  · intro o ho
    obtain rfl | ho := List.mem_cons.mp ho
    · exact .inr ⟨hf.ge, by rwa [hleaves]⟩
    · exact .inl ho

theorem Sound.fill {qty price : ℤ} (hs : Sound d) (ho : d.working[i]? = some order) (hq : 0 < qty)
    (hle : qty ≤ order.leavesQty) : Sound (fill d i order qty price) := by
  apply hs.of_exact
  · intro symbol side
    have hsplit := hs.pending_split ho symbol side
    have hrest := hs.rest_nonneg i symbol side
    simp only
    rw [RiskManager.onFill_pending, hsplit]
    split_ifs with hself hfull hfull
    · omega
    · rw [totalReserved_cons, reserved_withFilled, if_pos hself]
      rw [Order.leavesQty] at hle hfull ⊢
      omega
    · omega
    · rw [totalReserved_cons, reserved_withFilled, if_neg hself]
  · intro o hmem
    split_ifs at hmem with hfull
    · exact .inl (List.mem_of_mem_eraseIdx hmem)
    · obtain rfl | hmem := List.mem_cons.mp hmem
      · have hfilled := hs.filled order (List.mem_of_getElem? ho)
        rw [withFilled_leavesQty]
        rw [Order.leavesQty] at hle hfull
        refine .inr ⟨?_, by omega⟩
        change 0 ≤ order.filledQuantity + qty
        omega
      · exact .inl (List.mem_of_mem_eraseIdx hmem)

/-- What a closed order gives back is exact when it is what the order still had open, or when nothing else is. -/
theorem Sound.exact_release_iff {released : ℤ} (hs : Sound d) (ho : d.working[i]? = some order)
    (hle : order.leavesQty ≤ released) :
    Exact ⟨d.risk.modifyPosition order.symbol fun pos => pos.release order.side released, d.working.eraseIdx i⟩ ↔
      released = order.leavesQty ∨ totalReserved order.symbol order.side (d.working.eraseIdx i) = 0 := by
  constructor
  · intro he
    have hself := he order.symbol order.side
    have hsplit := hs.pending_split ho order.symbol order.side
    have hrest := hs.rest_nonneg i order.symbol order.side
    simp only [pending_modify_release, and_self, ↓reduceIte] at hself
    rw [if_pos ⟨rfl, rfl⟩] at hsplit
    omega
  · intro hcase symbol side
    have hsplit := hs.pending_split ho symbol side
    have hrest := hs.rest_nonneg i symbol side
    simp only [pending_modify_release]
    split_ifs with hself
    · obtain ⟨rfl, rfl⟩ := hself
      rw [if_pos ⟨rfl, rfl⟩] at hsplit
      omega
    · rw [hsplit, if_neg hself, zero_add]

theorem exact_act_iff (hs : Sound d) (c : Call) (hc : Allowed d c) : Exact (act d c) ↔ Harmless d c := by
  cases c with
  | check order nowSec =>
    apply iff_of_true _ trivial
    intro symbol side
    simp only [act, RiskManager.checkOrder_positions]
    exact hs.exact symbol side
  | accept order => exact iff_of_true (hs.accept hc.1 hc.2).exact trivial
  | fill i qty price =>
    obtain ⟨hq, order, ho, hle⟩ := hc
    apply iff_of_true _ trivial
    simp only [act, Option.mem_def.mp ho]
    exact (hs.fill ho hq hle).exact
  | cancel i =>
    obtain ⟨order, ho⟩ := Option.isSome_iff_exists.mp hc
    apply iff_of_true _ trivial
    simp only [act, ho]
    exact (hs.exact_release_iff ho le_rfl).mpr (.inl rfl)
  | reject i =>
    obtain ⟨order, ho⟩ := Option.isSome_iff_exists.mp hc
    have hfilled := hs.filled order (List.mem_of_getElem? ho)
    have hle : order.leavesQty ≤ order.quantity := by
      rw [Order.leavesQty]
      omega
    have hunfilled : order.quantity = order.leavesQty ↔ order.filledQuantity = 0 := by
      rw [Order.leavesQty]
      omega
    simp only [act, Harmless, ho, Option.mem_some_iff, forall_eq', ← hunfilled]
    exact hs.exact_release_iff ho hle

theorem sound_act (hs : Sound d) (c : Call) (hc : Allowed d c) (he : Exact (act d c)) : Sound (act d c) := by
  cases c with
  | check order nowSec => exact ⟨he, hs.filled, hs.leaves⟩
  | accept order => exact hs.accept hc.1 hc.2
  | fill i qty price =>
    obtain ⟨hq, order, ho, hle⟩ := hc
    simp only [act, Option.mem_def.mp ho]
    exact hs.fill ho hq hle
  | cancel i | reject i =>
    obtain ⟨order, ho⟩ := Option.isSome_iff_exists.mp hc
    simp only [act, ho] at he ⊢
    exact hs.of_exact he fun _ ho => .inl (List.mem_of_mem_eraseIdx ho)

end Steps

section Runs

theorem sound_start (nowSec : ℤ) : Sound (start nowSec) where
  exact symbol side := by
    rw [start, totalReserved, List.map_nil, List.sum_nil]
    cases side <;> rfl
  filled := by simp [start]
  leaves := by simp [start]

/-- The pending quantities are exact after every call exactly when each order that is rejected after fills was
alone on its side of its symbol. -/
theorem exact_iff_harmless (nowSec : ℤ) (calls : List Call) (h : Along act Allowed (start nowSec) calls) :
    Along act (fun d c => Exact (act d c)) (start nowSec) calls ↔ Along act Harmless (start nowSec) calls :=
  h.congr_keep (sound_start nowSec) (fun _ c hs hc => exact_act_iff hs c hc) fun _ c hs hc he => sound_act hs c hc he

def first : Order where
  id := 1
  price := 100
  quantity := 10

def second : Order := { first with id := 2 }

/-- The second order is open when the first one is rejected after a fill of four. -/
def rejectedAfterFill : List Call := [.accept first, .accept second, .fill 1 4 100, .reject 0]

theorem exact_iff_harmless_fills :
    Along act Allowed (start 0) [.accept first, .accept second, .fill 1 4 100, .cancel 0] ∧
      (Along act (fun d c => Exact (act d c)) (start 0) [.accept first, .accept second, .fill 1 4 100, .cancel 0] ↔
        Along act Harmless (start 0) [.accept first, .accept second, .fill 1 4 100, .cancel 0]) := by
  have hallowed : Along act Allowed (start 0) [.accept first, .accept second, .fill 1 4 100, .cancel 0] :=
    ⟨⟨by decide, rfl⟩, ⟨by decide, rfl⟩, ⟨by decide, first, rfl, by decide⟩, rfl, trivial⟩
  exact ⟨hallowed, exact_iff_harmless 0 _ hallowed⟩

/-- Two cycles at an exchange that holds both orders: the first order trades four, then it is rejected. -/
def atExchange : Option (List ExecutionReport) :=
  let market : SimulatedExchange := { connected := true, marketBid := 90, marketAsk := 100 }
  let sent := ((market.sendOrder first).2.1.sendOrder second).2.1
  let draws (rejected : Bool) (i : ℕ) : Draws :=
    { reject := if rejected && i = 0 then 0 else 1, fill := if i = 0 then 0 else 1, partialFill := 0, pct := 2 / 5 }
  (sent.processMatching .exact (draws false)).bind fun (later, fills) =>
    (later.processMatching .exact (draws true)).map fun (_, rejects) => fills ++ rejects

theorem not_exact_rejectedAfterFill :
    atExchange.map (List.map fun r => (r.orderId, r.state, r.lastQuantity)) =
        some [(1, .partiallyFilled, 4), (1, .rejected, 0)] ∧
      Along act Allowed (start 0) rejectedAfterFill ∧
      let d := rejectedAfterFill.foldl act (start 0)
      (d.risk.positions first.symbol).pendingBuyQuantity = 6 ∧ d.working = [second] ∧
        ¬Along act (fun d c => Exact (act d c)) (start 0) rejectedAfterFill := by
  refine ⟨by decide +kernel, ?_, by decide, by decide, ?_⟩
  · exact ⟨⟨by decide, rfl⟩, ⟨by decide, rfl⟩, ⟨by decide, first, rfl, by decide⟩, rfl, trivial⟩
  · rintro ⟨-, -, -, hexact, -⟩
    exact absurd (hexact first.symbol .buy) (by decide)

end Runs

end Klett.Sor.PendingQuantity

import Klett.Sor.SimulatedFok
import Klett.Sor.SimulatedVenues

namespace Klett.Sor.Simulation

open Klett.Lib OrderBookSimulator

section Fills

variable {order : SimOrder} {fills : List Fill} {id : ℕ}

def worth (taken : List (Resting × ℚ)) : ℚ := (taken.map fun t => t.1.1 * t.2).sum

theorem worth_append (l r : List (Resting × ℚ)) : worth (l ++ r) = worth l + worth r := by
  simp [worth]

theorem ownFills_of_other (h : ∀ f ∈ fills, f.orderId ≠ id) : ownFills id fills = [] := by
  apply List.filter_eq_nil_iff.mpr
  intro f hf
  simp [h f hf]

theorem notional_fillsOf (order : SimOrder) (taken : List (Resting × ℚ)) (clock : List ℚ) :
    notional (ownFills order.orderId (fillsOf order taken clock)) = worth taken := by
  induction taken generalizing clock with
  | nil => rfl
  | cons t taken ih =>
    obtain ⟨x, q⟩ := t
    rw [fillsOf, ownFills, List.filter_cons_of_pos (by simp), List.filter_cons_of_neg (by simp), notional,
      List.map_cons, List.sum_cons]
    have hrest := ih clock.tail
    rw [ownFills, notional] at hrest
    rw [hrest, worth, worth, List.map_cons, List.sum_cons]

/-- The last two fills of the log are those of the last trade, if there was one. -/
theorem notional_lastTwo (taken : List (Resting × ℚ)) (hold : ∀ f ∈ fills, f.orderId ≠ order.orderId)
    (clock : List ℚ) :
    let log := fills ++ fillsOf order taken clock
    notional (ownFills order.orderId (log.drop (log.length - 2))) + worth taken.dropLast = worth taken := by
  intro log
  rcases List.eq_nil_or_concat taken with rfl | ⟨l, t, rfl⟩
  · have hlog : log = fills := List.append_nil fills
    have hnone : ownFills order.orderId (fills.drop (fills.length - 2)) = [] :=
      ownFills_of_other fun f hf => hold f (List.mem_of_mem_drop hf)
    rw [hlog, hnone]
    exact add_zero (worth [])
  · have hsplit : log = (fills ++ fillsOf order l clock) ++ fillsOf order [t] (clock.drop l.length) := by
      change fills ++ fillsOf order (l.concat t) clock = _
      rw [List.concat_eq_append, fillsOf_append, List.append_assoc]
    have hlast : log.drop (log.length - 2) = fillsOf order [t] (clock.drop l.length) := by
      rw [hsplit]
      apply List.drop_left'
      simp only [List.length_append, fillsOf, List.length_cons, List.length_nil]
      omega
    rw [hlast, notional_fillsOf, List.concat_eq_append, List.dropLast_concat, worth_append, add_comm]

end Fills

section Fees

variable {b : OrderBookSimulator} {order : SimOrder}

/-- The resting orders an order takes whole before the one it ends in, or before the last. -/
def takenWhole (b : OrderBookSimulator) (order : SimOrder) : List Resting :=
  inFront Resting.size order.leavesQty (priority order (restingOrders (b.against order)))

/-- A FOK order that the book cannot fill. -/
def Killed (b : OrderBookSimulator) (order : SimOrder) : Prop :=
  order.orderType = .fok ∧ amount (priority order (restingOrders (b.against order))) < order.quantity

theorem InOrder.worth_dropLast (h : InOrder b) (order : SimOrder) :
    worth (greedy order (restingOrders (b.against order))).dropLast =
      ((takenWhole b order).map fun x => x.1 * x.size).sum := by
  have hpos : ∀ x ∈ priority order (restingOrders (b.against order)), 0 < x.size := fun x hx =>
    h.queued.positive (opposite order.side, x.1) x.2 (mem_restingOrders.mp (mem_priority.mp hx).1)
  rw [greedy, dropLast_trades hpos, worth, List.map_map]
  rfl

theorem InOrder.submitOrder_fills (h : InOrder b) (side : Side) (orderType : OrderType) (price quantity : ℚ)
    (clock : List ℚ) :
    let order := b.incoming side orderType price quantity (clock.headD 0)
    let after := b.submitOrder side orderType price quantity clock
    (Killed b order ∧ after.fills = b.fills) ∨ ¬Killed b order ∧
      after.fills = b.fills ++ fillsOf order (greedy order (restingOrders (b.against order))) clock.tail := by
  intro order after
  have heq : after = if orderType = .fok ∧ (b.enter order).available order < quantity then
      { b.enter order with
        orders := (b.enter order).orders.modify order.orderId fun o => { o with status := .rejected } }
      else ((b.enter order).matchOrder order clock.tail).handleResidual order.orderId :=
    submitOrder_eq b side orderType price quantity clock
  have hkilled : Killed b order ↔ orderType = .fok ∧ (b.enter order).available order < quantity := by
    have havailable := h.available_iff order
    exact and_congr_right fun _ => not_iff_not.mp (by rw [not_lt, not_lt]; exact havailable.symm)
  rw [heq, hkilled]
  split_ifs with hreject
  · exact .inl ⟨hreject, rfl⟩
  · refine .inr ⟨hreject, ?_⟩
    rw [(handleResidual_same _ _).1]
    exact h.fills_eq rfl clock.tail

namespace MarketSimulator

variable {sim : MarketSimulator} {cfg : VenueConfig}

/-- The order `_send_to_venue` makes of what it is asked to send. -/
def sentOrder (sim : MarketSimulator) (cfg : VenueConfig) (side : Side) (orderType : OrderType)
    (price quantity : ℚ) : SimOrder :=
  (sim.books cfg.venueId).incoming side orderType price (sim.effectiveQty cfg quantity).1
    ((sim.clocks.headD []).tail.headD 0)

theorem sendToVenue_fees_iff (hbook : VenueBook (sim.books cfg.venueId)) (side : Side) (orderType : OrderType)
    (price quantity : ℚ) :
    let b := sim.books cfg.venueId
    let order := sim.sentOrder cfg side orderType price quantity
    let sent := sim.sendToVenue cfg side orderType price quantity
    sent.1.fees = cfg.feeRate * notional (ownFills order.orderId (newFills b (sent.2.books cfg.venueId))) ↔
      cfg.feeRate = 0 ∨ Killed b order ∨ ((takenWhole b order).map fun x => x.1 * x.size).sum = 0 := by
  intro b order sent
  have hb : InOrder b := hbook.inOrder
  have hold : ∀ f ∈ b.fills, f.orderId ≠ order.orderId := fun f hf => (hb.fresh f hf).ne
  have hbooks : sent.2.books cfg.venueId = b.submitOrder side orderType price (sim.effectiveQty cfg quantity).1
      (sim.clocks.headD []).tail := by
    rw [sendToVenue_books, Function.update_self]
  have hfees : sent.1.fees = notional (ownFills order.orderId ((sent.2.books cfg.venueId).fills.drop
      ((sent.2.books cfg.venueId).fills.length - 2))) * cfg.feeRate := by
    rw [hbooks]
    rfl
  have hcases : (Killed b order ∧ (sent.2.books cfg.venueId).fills = b.fills) ∨
      ¬Killed b order ∧ (sent.2.books cfg.venueId).fills = b.fills ++
        fillsOf order (greedy order (restingOrders (b.against order))) (sim.clocks.headD []).tail.tail := by
    rw [hbooks]
    exact hb.submitOrder_fills side orderType price _ _
  rw [hfees, newFills]
  rcases hcases with ⟨hkilled, hfills⟩ | ⟨hkilled, hfills⟩
  · have hnone : ownFills order.orderId (b.fills.drop (b.fills.length - 2)) = [] :=
      ownFills_of_other fun f hf => hold f (List.mem_of_mem_drop hf)
    refine iff_of_true ?_ (.inr (.inl hkilled))
    rw [hfills, hnone, List.drop_length, mul_comm]
    rfl
  · have hlast := notional_lastTwo (greedy order (restingOrders (b.against order))) hold
      (sim.clocks.headD []).tail.tail
    rw [hfills, List.drop_left, notional_fillsOf, ← hlast, mul_comm, mul_add, left_eq_add, mul_eq_zero,
      hb.worth_dropLast order]
    exact or_congr_right (or_iff_right hkilled).symm

/-- A venue with two levels of asks. -/
def twoLevels : MarketSimulator :=
  let sim := initial "ABC" [{ venueId := 1, name := "A" }] (List.nodup_singleton 1) [] []
  (sim.submit 1 .sell .limit 10 5).submit 1 .sell .limit 11 5

theorem twoLevels_venueBooks : twoLevels.VenueBooks :=
  VenueBooks.submit (VenueBooks.submit (fun _ => .fresh "ABC" _) 1 _ _ _ _) 1 _ _ _ _

theorem sendToVenue_fees_iff_first_level :
    let cfg : VenueConfig := { venueId := 1, name := "A" }
    let order := twoLevels.sentOrder cfg .buy .market 10 4
    let sent := twoLevels.sendToVenue cfg .buy .market 10 4
    sent.1.fees = cfg.feeRate * notional (ownFills order.orderId (newFills (twoLevels.books 1) (sent.2.books 1))) := by
  intro cfg order sent
  apply (sendToVenue_fees_iff (twoLevels_venueBooks cfg.venueId) .buy .market 10 4).mpr
  exact .inr (.inr (by decide +kernel))

theorem fees_of_last_level :
    let cfg : VenueConfig := { venueId := 1, name := "A" }
    let order := twoLevels.sentOrder cfg .buy .market 10 8
    let sent := twoLevels.sendToVenue cfg .buy .market 10 8
    sent.1.fees = 33 / 1000 ∧ cfg.feeRate *
      notional (ownFills order.orderId (newFills (twoLevels.books 1) (sent.2.books 1))) = 83 / 1000 := by
  decide +kernel

end MarketSimulator

end Fees

end Klett.Sor.Simulation

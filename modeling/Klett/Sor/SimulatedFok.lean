import Klett.Sor.PriceTime

namespace Klett.Sor.Simulation

open Klett.Lib OrderBookSimulator

section Liquidity

variable {b : OrderBookSimulator} {order : SimOrder} {book : BookSide} {prices : List ℚ} {q total : ℚ}
  {es : List Entry}

def amount (waiting : List Resting) : ℚ := (waiting.map Resting.size).sum

theorem sum_nonneg_of_pos {l : List ℚ} (h : ∀ q ∈ l, 0 < q) : 0 ≤ l.sum := List.sum_nonneg fun q hq => (h q hq).le

theorem availableIn_spec (hpos : ∀ e ∈ es, 0 < e.quantity) (total : ℚ) :
    (q ≤ availableIn q es total ↔ q ≤ total + (es.map Entry.quantity).sum) ∧
      (availableIn q es total < q → availableIn q es total = total + (es.map Entry.quantity).sum) := by
  induction es generalizing total with
  | nil => simp [availableIn]
  | cons e es ih =>
    have hes : ∀ e' ∈ es, 0 < e'.quantity := fun e' he' => hpos e' (List.mem_cons_of_mem e he')
    have hsum : 0 ≤ (es.map Entry.quantity).sum := by
      apply sum_nonneg_of_pos
      intro x hx
      obtain ⟨e', he', rfl⟩ := List.mem_map.mp hx
      exact hes e' he'
    rw [availableIn, List.map_cons, List.sum_cons, ← add_assoc]
    split_ifs with henough
    · exact ⟨iff_of_true henough (le_add_of_le_of_nonneg henough hsum), fun hlt => absurd henough hlt.not_ge⟩
    · exact ih hes (total + e.quantity)

theorem amount_cons (p : ℚ) (prices : List ℚ) (book : BookSide) : amount (queue (p :: prices) book) =
    ((ordersAt book p).map Entry.quantity).sum + amount (queue prices book) := by
  rw [amount, queue_cons, List.map_append, List.sum_append, List.map_map]
  rfl

theorem amount_nonneg {waiting : List Resting} (h : ∀ x ∈ waiting, 0 < x.size) : 0 ≤ amount waiting := by
  apply sum_nonneg_of_pos
  intro q hq
  obtain ⟨x, hx, rfl⟩ := List.mem_map.mp hq
  exact h x hx

/-- The separately written loops of the pre-check add up the same queue that `_match` goes through. -/
theorem availableLiquidity_spec
    (hp : prices.Pairwise fun p q => priceOk order q = true → priceOk order p = true)
    (hpos : ∀ p ∈ prices, ∀ e ∈ ordersAt book p, 0 < e.quantity) (total : ℚ) :
    order.quantity ≤ availableLiquidity order book prices total ↔
      order.quantity ≤ total + amount (queue (prices.filter (priceOk order)) book) := by
  induction prices generalizing total with
  | nil => simp [availableLiquidity, amount, queue]
  | cons price prices ih =>
    obtain ⟨hhead, hlater⟩ := List.pairwise_cons.mp hp
    have hlaterpos : ∀ p ∈ prices, ∀ e ∈ ordersAt book p, 0 < e.quantity := fun p hmem =>
      hpos p (List.mem_cons_of_mem price hmem)
    rw [availableLiquidity]
    cases hok : priceOk order price with
    | false =>
      have hnone : (price :: prices).filter (priceOk order) = [] := filter_priceOk_of_worse hok hhead
      rw [hnone]
      simp [amount, queue]
    | true =>
      obtain ⟨henough, hall⟩ := availableIn_spec (q := order.quantity) (hpos price List.mem_cons_self) total
      have hrest : 0 ≤ amount (queue (prices.filter (priceOk order)) book) := by
        apply amount_nonneg
        intro x hx
        obtain ⟨hp, he⟩ := mem_queue.mp hx
        exact hlaterpos x.1 (List.mem_of_mem_filter hp) x.2 he
      rw [List.filter_cons_of_pos hok, amount_cons, ← add_assoc]
      simp only [Bool.not_true, Bool.false_eq_true, if_false]
      change order.quantity ≤ (if availableIn order.quantity (ordersAt book price) total ≥ order.quantity then
        availableIn order.quantity (ordersAt book price) total
        else availableLiquidity order book prices (availableIn order.quantity (ordersAt book price) total)) ↔ _
      split_ifs with hdone
      · exact iff_of_true hdone (le_add_of_le_of_nonneg (henough.mp hdone) hrest)
      · rw [hall (not_le.mp hdone)]
        exact ih hlater hlaterpos _

end Liquidity

section FillOrKill

variable {b : OrderBookSimulator} {order : SimOrder}

theorem InOrder.available_iff (h : InOrder b) (order : SimOrder) : order.quantity ≤ (b.enter order).available order ↔
    order.quantity ≤ amount (priority order (restingOrders (b.against order))) := by
  have hpos : ∀ p ∈ bestFirst order.side (b.against order).keys, ∀ e ∈ ordersAt (b.against order) p,
      0 < e.quantity := fun p _ => h.queued.positive (opposite order.side, p)
  have hspec := availableLiquidity_spec (bestFirst_priceOk order _) hpos 0
  rw [zero_add] at hspec
  rw [OrderBookSimulator.available, enter_against, ← h.queued.queue_eq_priority order]
  exact hspec

theorem InOrder.traded_eq (h : InOrder b) (hpos : 0 ≤ order.leavesQty) :
    traded (greedy order (restingOrders (b.against order))) =
      min order.leavesQty (amount (priority order (restingOrders (b.against order)))) := by
  apply traded_trades _ hpos
  intro x hx
  exact h.queued.positive (opposite order.side, x.1) x.2 (mem_restingOrders.mp (mem_priority.mp hx).1)

theorem InOrder.filledQty_eq (h : InOrder b) (hid : order.orderId = b.nextId) (clock : List ℚ) :
    (((b.enter order).matchOrder order clock).orders order.orderId).map SimOrder.filledQty =
      some (order.filledQty + traded (greedy order (restingOrders (b.against order)))) := by
  rw [(h.matched hid clock).taker, Option.map_some, enter_against, h.queued.queue_eq_priority order, markMatched_same]
  congr 1
  rw [greedy, SimOrder.leavesQty]
  ring

theorem fok_all_or_nothing (symbol : String) (tickSize : ℚ) (calls : List Call) (side : Side)
    (price : ℚ) {quantity : ℚ} (hquantity : 0 < quantity) (clock : List ℚ) :
    let b := ({ symbol, tickSize } : OrderBookSimulator).run calls
    let order := b.incoming side .fok price quantity (clock.headD 0)
    let matched := (b.enter order).matchOrder order clock.tail
    (quantity ≤ (b.enter order).available order ↔
        (matched.orders order.orderId).map SimOrder.filledQty = some quantity) ∧
      ((b.enter order).available order < quantity →
        let after := b.submitOrder side .fok price quantity clock
        after.bids = b.bids ∧ after.asks = b.asks ∧ after.fills = b.fills ∧
          (∀ id, id ≠ order.orderId → after.orders id = b.orders id) ∧
          (after.orders order.orderId).map SimOrder.status = some .rejected) := by
  intro b order matched
  have hb : InOrder b := run_inOrder symbol tickSize calls
  have hleaves : order.leavesQty = quantity := sub_zero quantity
  constructor
  · have hfilled : (matched.orders order.orderId).map SimOrder.filledQty =
        some (0 + traded (greedy order (restingOrders (b.against order)))) := hb.filledQty_eq rfl clock.tail
    have htraded := hb.traded_eq (hleaves.symm ▸ hquantity.le)
    rw [hfilled, zero_add, htraded, hleaves, Option.some.injEq, min_eq_left_iff]
    exact hb.available_iff order
  · intro hlt after
    have hafter : after = { b.enter order with
        orders := (b.enter order).orders.modify order.orderId fun o => { o with status := .rejected } } :=
      (submitOrder_eq b side .fok price quantity clock).trans (if_pos ⟨rfl, hlt⟩)
    rw [hafter]
    refine ⟨rfl, rfl, rfl, fun id hid => ?_, ?_⟩
    · exact (modify_of_ne hid).trans (Function.update_of_ne hid _ _)
    · have hself : (b.enter order).orders order.orderId = some order := Function.update_self ..
      exact congrArg (Option.map SimOrder.status) (modify_self hself)

theorem fok_all_or_nothing_two_levels :
    let b := ({ symbol := "ABC", tickSize := 1 / 100 } : OrderBookSimulator).run
      [.submitOrder .sell .limit 10 5 [], .submitOrder .sell .limit 11 5 []]
    let order := b.incoming .buy .fok 11 10 0
    (10 ≤ (b.enter order).available order ↔
      (((b.enter order).matchOrder order []).orders order.orderId).map SimOrder.filledQty = some 10) :=
  (fok_all_or_nothing "ABC" (1 / 100) _ .buy 11 (by norm_num) []).1

end FillOrKill

end Klett.Sor.Simulation

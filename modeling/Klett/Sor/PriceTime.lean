import Klett.Sor.BookQueue

namespace Klett.Sor.Simulation

open Klett.Lib OrderBookSimulator

section Priority

variable {b b' : OrderBookSimulator} {order : SimOrder} {bound : ℕ} {clock : List ℚ} {x y : Resting}

theorem enter_against (b : OrderBookSimulator) (order : SimOrder) : (b.enter order).against order = b.against order :=
  with_bookSide b _ b.fills _ _

theorem Ahead.eligible {side : Side} (h : Ahead side x y) (hside : order.side = side) (hy : priceOk order y.1 = true) :
    priceOk order x.1 = true := by
  rcases h with h | ⟨hp, -⟩
  · unfold priceOk at hy ⊢
    subst hside
    cases hs : order.side with
    | buy =>
      rw [hs] at h hy
      simp only [Bool.or_eq_true, decide_eq_true_eq] at hy ⊢
      exact hy.imp_right (le_of_lt h).trans
    | sell =>
      rw [hs] at h hy
      simp only [Bool.or_eq_true, decide_eq_true_eq] at hy ⊢
      exact hy.imp_right fun hle => hle.trans (le_of_lt h)
  · rw [hp]
    exact hy

theorem mem_restingOrders {book : BookSide} : x ∈ restingOrders book ↔ x.2 ∈ ordersAt book x.1 := by
  constructor
  · intro hx
    exact (mem_queue.mp hx).2
  · intro hx
    refine mem_queue.mpr ⟨?_, hx⟩
    by_contra hnot
    have hnone : book.lookup x.1 = none := AList.lookup_eq_none.mpr fun h => hnot (AList.mem_keys.mp h)
    rw [ordersAt, hnone] at hx
    cases hx

theorem mem_priority {resting : List Resting} :
    x ∈ priority order resting ↔ x ∈ resting ∧ priceOk order x.1 = true := by
  rw [priority, List.mem_insertionSort, List.mem_filter]

theorem exists_fill {t : Resting × ℚ} {taken : List (Resting × ℚ)} (h : t ∈ taken) (clock : List ℚ) :
    ∃ f ∈ fillsOf order taken clock, f.aggressor = false ∧ f.orderId = t.1.2.orderId ∧ f.price = t.1.1 ∧
      f.quantity = t.2 := by
  induction taken generalizing clock with
  | nil => cases h
  | cons t' taken ih =>
    rcases List.mem_cons.mp h with rfl | h
    · exact ⟨_, List.mem_cons_of_mem _ List.mem_cons_self, rfl, rfl, rfl, rfl⟩
    · obtain ⟨f, hf, hfill⟩ := ih h clock.tail
      exact ⟨f, List.mem_cons_of_mem _ (List.mem_cons_of_mem _ hf), hfill⟩

theorem exists_trade {f : Fill} {taken : List (Resting × ℚ)} {clock : List ℚ} (h : f ∈ fillsOf order taken clock)
    (hmaker : f.aggressor = false) : ∃ t ∈ taken, f.orderId = t.1.2.orderId := by
  induction taken generalizing clock with
  | nil => cases h
  | cons t taken ih =>
    rcases List.mem_cons.mp h with rfl | h
    · cases hmaker
    · rcases List.mem_cons.mp h with rfl | h
      · exact ⟨t, List.mem_cons_self, rfl⟩
      · obtain ⟨t', ht', hid⟩ := ih h
        exact ⟨t', List.mem_cons_of_mem t ht', hid⟩

theorem priority_sorted (order : SimOrder) (resting : List Resting) :
    (priority order resting).Pairwise (Ahead order.side) := List.pairwise_insertionSort _ _

/-- Who stands in front of an order that trades has been used up. -/
theorem Matched.used_up (h : Matched b order clock b') (hq : Queued bound b.rest b.orders)
    (hx : x ∈ restingOrders (b.against order)) (hahead : Ahead order.side x y) (hne : x.2.orderId ≠ y.2.orderId)
    {q : ℚ} (hy : (y, q) ∈ greedy order (restingOrders (b.against order))) :
    (x, x.2.quantity) ∈ greedy order (restingOrders (b.against order)) ∧
      ∀ e ∈ b'.rest (opposite order.side, x.1), e.orderId ≠ x.2.orderId := by
  have hqueue := hq.queue_eq_priority order
  have hleft := h.left
  have hsorted := priority_sorted order (restingOrders (b.against order))
  have hyin := mem_of_mem_trades hy
  have hxin : x ∈ priority order (restingOrders (b.against order)) :=
    mem_priority.mpr ⟨hx, hahead.eligible rfl (mem_priority.mp hyin).2⟩
  have hpos : ∀ z ∈ priority order (restingOrders (b.against order)), 0 < z.size := fun z hz =>
    hq.positive (opposite order.side, z.1) z.2 (mem_restingOrders.mp (mem_priority.mp hz).1)
  have hprice : x.1 ∈ eligiblePrices order (b.against order) := by
    rw [← hqueue] at hxin
    exact (mem_queue.mp hxin).1
  rw [hqueue] at hleft
  rw [greedy] at hy ⊢
  generalize priority order (restingOrders (b.against order)) = waiting at hleft hsorted hyin hxin hpos hy ⊢
  obtain ⟨front, back, rfl, hnot⟩ := List.eq_append_cons_of_mem hyin
  obtain ⟨-, hback, hfront⟩ := List.pairwise_append.mp hsorted
  have hbehind : ∀ z ∈ y :: back, z.1 = x.1 → z.2.orderId ≠ x.2.orderId := by
    intro z hz hzp hid
    rcases List.mem_cons.mp hz with rfl | hz
    · exact hne hid.symm
    · have hyz := (List.pairwise_cons.mp hback).1 z hz
      have hzx : Ahead order.side z x := .inr ⟨hzp, hid.le⟩
      exact hne (hahead.antisymm (trans_of (Ahead order.side) hyz hzx)).2
  have hxfront : x ∈ front := by
    rcases List.mem_append.mp hxin with hx | hx
    · exact hx
    · exact absurd rfl (hbehind x hx rfl)
  obtain ⟨htrades, hgone⟩ : _ ∧ leave Resting.size Resting.shrink order.leavesQty front = [] :=
    trades_priority hpos hy hnot
  constructor
  · rw [trades_append, htrades]
    exact List.mem_append_left _ (List.mem_map.mpr ⟨x, hxfront, rfl⟩)
  · intro e he hid
    rw [leave_append, hgone, List.nil_append] at hleft
    have hmem : ((x.1, e) : Resting) ∈ queue (eligiblePrices order (b.against order)) (b'.against order) :=
      mem_queue.mpr ⟨hprice, he⟩
    rw [hleft] at hmem
    have hsub := leave_keys (order.leavesQty - traded (trades Resting.size order.leavesQty front)) (y :: back)
    obtain ⟨z, hz, hkey⟩ := List.mem_map.mp (hsub.subset (List.mem_map_of_mem hmem))
    obtain ⟨hp, hid'⟩ := Prod.mk.inj hkey
    exact hbehind z hz hp (hid'.trans hid)

/-- The fills a call has appended. -/
def newFills (b b' : OrderBookSimulator) : List Fill := b'.fills.drop b.fills.length

theorem InOrder.fills_eq (h : InOrder b) (hid : order.orderId = b.nextId) (clock : List ℚ) :
    ((b.enter order).matchOrder order clock).fills =
      b.fills ++ fillsOf order (greedy order (restingOrders (b.against order))) clock := by
  have hqueue := h.queued.queue_eq_priority order
  rw [(h.matched hid clock).fills, enter_against, hqueue]
  rfl

theorem matchOrder_price_time (symbol : String) (tickSize : ℚ) (calls : List Call) (side : Side)
    (orderType : OrderType) (price quantity timestamp : ℚ) (clock : List ℚ) :
    let b := ({ symbol, tickSize } : OrderBookSimulator).run calls
    let order := b.incoming side orderType price quantity timestamp
    let after := (b.enter order).matchOrder order clock
    let resting := restingOrders (b.bookSide (opposite side))
    after.fills = b.fills ++ fillsOf order (greedy order resting) clock ∧
      ∀ x ∈ resting, ∀ y ∈ resting, Ahead side x y → x.2.orderId ≠ y.2.orderId →
        (∃ f ∈ newFills b after, f.aggressor = false ∧ f.orderId = y.2.orderId) →
        (∃ f ∈ newFills b after, f.aggressor = false ∧ f.orderId = x.2.orderId ∧ f.price = x.1 ∧
            f.quantity = x.2.quantity) ∧
          ∀ e ∈ after.rest (opposite side, x.1), e.orderId ≠ x.2.orderId := by
  intro b order after resting
  have hb : InOrder b := run_inOrder symbol tickSize calls
  have hfills : after.fills = b.fills ++ fillsOf order (greedy order resting) clock := hb.fills_eq rfl clock
  refine ⟨hfills, fun x hx y hy hahead hne htraded => ?_⟩
  have hmatched : Matched (b.enter order) order clock after := hb.matched rfl clock
  have hentered : Queued b.nextId (b.enter order).rest (b.enter order).orders := hb.enter rfl
  have hresting : restingOrders ((b.enter order).against order) = resting :=
    congrArg restingOrders (enter_against b order)
  have hnew : newFills b after = fillsOf order (greedy order resting) clock := by
    rw [newFills, hfills, List.drop_left]
  rw [hnew] at htraded ⊢
  obtain ⟨f, hf, hmaker, hid⟩ := htraded
  obtain ⟨⟨z, q⟩, ht, hid'⟩ := exists_trade hf hmaker
  have hz : z ∈ resting := (mem_priority.mp (mem_of_mem_trades ht)).1
  have hzy : z = y := by
    have hsame : z.2.orderId = y.2.orderId := hid'.symm.trans hid
    have hzrest : z.2 ∈ b.rest (opposite side, z.1) := mem_restingOrders.mp hz
    have hyrest : y.2 ∈ b.rest (opposite side, y.1) := mem_restingOrders.mp hy
    have hplace := hb.queued.place_eq hzrest hyrest hsame
    have hp : z.1 = y.1 := congrArg Prod.snd hplace
    exact Prod.ext hp (hb.queued.entry_eq hzrest (hp ▸ hyrest) hsame)
  rw [hzy, ← hresting] at ht
  obtain ⟨hwhole, hgone⟩ := hmatched.used_up hentered (hresting ▸ hx) hahead hne ht
  rw [hresting] at hwhole
  exact ⟨exists_fill hwhole clock, hgone⟩

end Priority

end Klett.Sor.Simulation

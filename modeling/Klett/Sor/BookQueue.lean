import Klett.Lib.Sweep
import Klett.Sor.BookInvariant

namespace Klett.Sor.Simulation

open Klett.Lib

section Reference

/-- A resting order with the price of its level. -/
abbrev Resting := ℚ × Entry

def Resting.size (x : Resting) : ℚ := x.2.quantity

def Entry.shrink (e : Entry) (q : ℚ) : Entry := { e with quantity := e.quantity - q }

def Resting.shrink (x : Resting) (q : ℚ) : Resting := (x.1, x.2.shrink q)

def Resting.key (x : Resting) : ℚ × ℕ := (x.1, x.2.orderId)

def restingOrders (book : BookSide) : List Resting := book.keys.flatMap fun p => (ordersAt book p).map (p, ·)

/-- Which of two prices an order of this side trades at first. -/
def Better : Side → ℚ → ℚ → Prop
  | .buy, p, q => p < q
  | .sell, p, q => p > q

instance (side : Side) : DecidableRel (Better side) := fun p q =>
  match side with
  | .buy => inferInstanceAs (Decidable (p < q))
  | .sell => inferInstanceAs (Decidable (p > q))

/-- `x` comes no later than `y`: its price is better, or the same and it arrived first. -/
def Ahead (side : Side) (x y : Resting) : Prop := Better side x.1 y.1 ∨ x.1 = y.1 ∧ x.2.orderId ≤ y.2.orderId

instance (side : Side) : DecidableRel (Ahead side) := fun _ _ => inferInstanceAs (Decidable (_ ∨ _))

def priority (order : SimOrder) (resting : List Resting) : List Resting :=
  (resting.filter fun x => priceOk order x.1).insertionSort (Ahead order.side)

/-- The two fills of each trade, with the clock read once a trade. -/
def fillsOf (order : SimOrder) : List (Resting × ℚ) → List ℚ → List Fill
  | [], _ => []
  | (x, q) :: taken, clock =>
    { orderId := order.orderId, price := x.1, quantity := q, side := order.side, timestamp := clock.headD 0,
      aggressor := true } ::
    { orderId := x.2.orderId, price := x.1, quantity := q, side := opposite order.side,
      timestamp := clock.headD 0, aggressor := false } :: fillsOf order taken clock.tail

/-- What an order trades when it takes the eligible resting orders from the first on. -/
def greedy (order : SimOrder) (resting : List Resting) : List (Resting × ℚ) :=
  trades Resting.size order.leavesQty (priority order resting)

theorem fillsOf_append (order : SimOrder) (l r : List (Resting × ℚ)) (clock : List ℚ) :
    fillsOf order (l ++ r) clock = fillsOf order l clock ++ fillsOf order r (clock.drop l.length) := by
  induction l generalizing clock with
  | nil => rfl
  | cons t l ih =>
    obtain ⟨x, q⟩ := t
    rw [List.cons_append, fillsOf, fillsOf, ih, List.length_cons, List.cons_append, List.cons_append]
    cases clock with
    | nil => simp
    | cons c clock => rfl

end Reference

section Sweeping

variable {order o : SimOrder} {w : ℚ} {taken taken' : List (Resting × ℚ)} {m m' m'' : Matching} {p : ℚ} {e : Entry}

def SimOrder.terms (o : SimOrder) : ℕ × Side × OrderType × ℚ := (o.orderId, o.side, o.orderType, o.price)

/-- The order that is matched still wants `w`. -/
def Wants (order : SimOrder) (w : ℚ) (m : Matching) : Prop :=
  m.orders order.orderId = some { order with filledQty := order.quantity - w }

structure Swept (order : SimOrder) (w : ℚ) (taken : List (Resting × ℚ)) (m m' : Matching) : Prop where
  wants : Wants order (w - traded taken) m'
  fills : m'.fills = m.fills ++ fillsOf order taken m.clock
  clock : m'.clock = m.clock.drop taken.length
  terms : ∀ id, (m'.orders id).map SimOrder.terms = (m.orders id).map SimOrder.terms

theorem Wants.leavesQty (h : Wants order w m) : m.orders.leavesQty order.orderId = w := by
  rw [leavesQty_of_some h, SimOrder.leavesQty, sub_sub_cancel]

theorem Swept.nil (h : Wants order w m) : Swept order w [] m m where
  wants := by rwa [traded_nil, sub_zero]
  fills := (List.append_nil _).symm
  clock := rfl
  terms _ := rfl

theorem Swept.trans (h : Swept order w taken m m') (h' : Swept order (w - traded taken) taken' m' m'') :
    Swept order w (taken ++ taken') m m'' where
  wants := by
    have hsum : traded (taken ++ taken') = traded taken + traded taken' := by simp [traded]
    rw [hsum, ← sub_sub]
    exact h'.wants
  fills := by rw [h'.fills, h.fills, h.clock, fillsOf_append, List.append_assoc]
  clock := by rw [h'.clock, h.clock, List.drop_drop, List.length_append]
  terms id := (h'.terms id).trans (h.terms id)

theorem modify_terms {f : SimOrder → SimOrder} (hf : ∀ o, (f o).terms = o.terms) (orders : OrderTable) (id other : ℕ) :
    (orders.modify id f other).map SimOrder.terms = (orders other).map SimOrder.terms := by
  by_cases h : other = id
  · rw [h, OrderTable.modify, Function.update_self, Option.map_map]
    congr 1
    funext o
    exact hf o
  · rw [modify_of_ne h]

theorem fillEntry_swept (p : ℚ) (hne : e.orderId ≠ order.orderId) (h : Wants order w m) :
    (fillEntry order p e m).1 = (if min w e.quantity < e.quantity then [e.shrink (min w e.quantity)] else []) ∧
      Swept order w [((p, e), min w e.quantity)] m (fillEntry order p e m).2 := by
  have hleaves := h.leavesQty
  unfold fillEntry
  rw [hleaves]
  refine ⟨by simp only [gt_iff_lt, sub_pos, Entry.shrink], ?_, rfl, ?_, fun id => ?_⟩
  · simp only [Wants, traded_cons, traded_nil, add_zero]
    rw [modify_of_ne hne.symm, modify_self h]
    congr 2
    ring
  · simp [List.drop_one]
  · simp only
    rw [modify_terms, modify_terms]
    · exact fun o => rfl
    · exact fun o => rfl

theorem matchEntries_swept (p : ℚ) (es : List Entry) (hne : ∀ e ∈ es, e.orderId ≠ order.orderId)
    (h : Wants order w m) :
    (matchEntries order p es m).1 = leave Entry.quantity Entry.shrink w es ∧
      Swept order w ((trades Entry.quantity w es).map (Prod.map (p, ·) id)) m (matchEntries order p es m).2 := by
  induction es generalizing w m with
  | nil => exact ⟨rfl, .nil h⟩
  | cons e es ih =>
    have hes : ∀ e' ∈ es, e'.orderId ≠ order.orderId := fun e' he' => hne e' (List.mem_cons_of_mem e he')
    rw [matchEntries, h.leavesQty, trades, leave]
    by_cases hdone : w ≤ 0
    · obtain ⟨hleft, hswept⟩ := ih hes h
      rw [leave_of_nonpos hdone] at hleft
      rw [trades_of_nonpos hdone] at hswept
      rw [if_pos hdone, if_pos hdone, if_pos hdone]
      exact ⟨by simp only [hleft], hswept⟩
    · obtain ⟨hkept, hfill⟩ := fillEntry_swept p (hne e List.mem_cons_self) h
      have hwants : Wants order (w - min w e.quantity) (fillEntry order p e m).2 := by simpa using hfill.wants
      obtain ⟨hleft, hswept⟩ := ih hes hwants
      rw [if_neg hdone, if_neg hdone, if_neg hdone]
      exact ⟨by simp only [hkept, hleft], hfill.trans (by simpa using hswept)⟩

end Sweeping

section Levels

variable {order : SimOrder} {w : ℚ} {m : Matching} {book book' : BookSide} {prices : List ℚ} {p : ℚ}

def queue (prices : List ℚ) (book : BookSide) : List Resting := prices.flatMap fun p => (ordersAt book p).map (p, ·)

theorem queue_cons : queue (p :: prices) book = (ordersAt book p).map (p, ·) ++ queue prices book := List.flatMap_cons

theorem queue_congr (h : ∀ p ∈ prices, ordersAt book' p = ordersAt book p) : queue prices book' = queue prices book :=
  List.flatMap_congr fun p hp => by rw [h p hp]

theorem mem_queue {x : Resting} : x ∈ queue prices book ↔ x.1 ∈ prices ∧ x.2 ∈ ordersAt book x.1 := by
  constructor
  · intro hx
    obtain ⟨p, hp, hx⟩ := List.mem_flatMap.mp hx
    obtain ⟨e, he, rfl⟩ := List.mem_map.mp hx
    exact ⟨hp, he⟩
  · rintro ⟨hp, he⟩
    exact List.mem_flatMap.mpr ⟨x.1, hp, List.mem_map.mpr ⟨x.2, he, rfl⟩⟩

theorem trades_level (p : ℚ) (w : ℚ) (es : List Entry) :
    trades Resting.size w (es.map (p, ·)) = (trades Entry.quantity w es).map (Prod.map (p, ·) id) :=
  trades_map (p, ·) w es

theorem leave_level (p : ℚ) (w : ℚ) (es : List Entry) :
    leave Resting.size Resting.shrink w (es.map (p, ·)) = (leave Entry.quantity Entry.shrink w es).map (p, ·) :=
  leave_map (p, ·) (fun _ _ => rfl) w es

theorem leave_keys (w : ℚ) (xs : List Resting) :
    ((leave Resting.size Resting.shrink w xs).map Resting.key).Sublist (xs.map Resting.key) :=
  leave_sublist Resting.key (fun x q => (rfl : (x.shrink q).key = x.key)) w xs

theorem filter_priceOk_of_worse (hbad : priceOk order p = false)
    (hlater : ∀ q ∈ prices, priceOk order q = true → priceOk order p = true) :
    (p :: prices).filter (priceOk order) = [] := by
  apply List.filter_eq_nil_iff.mpr
  intro q hq hok
  rcases List.mem_cons.mp hq with rfl | hq
  · exact absurd (hbad.symm.trans hok) Bool.false_ne_true
  · exact absurd (hbad.symm.trans (hlater q hq hok)) Bool.false_ne_true

/-- The prices in turn are one pass over the queue of the eligible ones. -/
theorem matchPrices_swept (hn : prices.Nodup)
    (hp : prices.Pairwise fun p q => priceOk order q = true → priceOk order p = true)
    (hne : ∀ p ∈ prices, ∀ e ∈ ordersAt book p, e.orderId ≠ order.orderId) (h : Wants order w m) :
    let next := matchPrices order prices book m
    queue (prices.filter (priceOk order)) next.1 =
        leave Resting.size Resting.shrink w (queue (prices.filter (priceOk order)) book) ∧
      (∀ p ∉ prices.filter (priceOk order), ordersAt next.1 p = ordersAt book p) ∧
      Swept order w (trades Resting.size w (queue (prices.filter (priceOk order)) book)) m next.2.1 := by
  induction prices generalizing book w m with
  | nil => exact ⟨rfl, fun _ _ => rfl, .nil h⟩
  | cons price prices ih =>
    obtain ⟨hnot, hrest⟩ := List.nodup_cons.mp hn
    obtain ⟨hhead, hlater⟩ := List.pairwise_cons.mp hp
    unfold matchPrices
    rw [h.leavesQty]
    by_cases hdone : w ≤ 0
    · rw [if_pos hdone, leave_of_nonpos hdone, trades_of_nonpos hdone]
      exact ⟨rfl, fun _ _ => rfl, .nil h⟩
    rw [if_neg hdone]
    cases hok : priceOk order price with
    | false =>
      have hnone : (price :: prices).filter (priceOk order) = [] := filter_priceOk_of_worse hok hhead
      rw [hnone]
      exact ⟨rfl, fun _ _ => rfl, .nil h⟩
    | true =>
      rw [List.filter_cons_of_pos hok, queue_cons]
      have hrestne : ∀ p ∈ prices, ∀ e ∈ ordersAt book p, e.orderId ≠ order.orderId := fun p hmem =>
        hne p (List.mem_cons_of_mem price hmem)
      have hout : price ∉ prices.filter (priceOk order) := fun hmem => hnot (List.mem_of_mem_filter hmem)
      cases hlevel : book.lookup price with
      | none =>
        have hempty : ordersAt book price = [] := by rw [ordersAt, hlevel, Option.elim_none]
        obtain ⟨hleft, hothers, hswept⟩ := ih hrest hlater hrestne h
        rw [hempty, List.map_nil, List.nil_append]
        refine ⟨?_, fun p hp => hothers p fun hmem => hp (List.mem_cons_of_mem price hmem), hswept⟩
        simp only [Bool.not_true, Bool.false_eq_true, if_false]
        rw [queue_cons, hothers price hout, hempty]
        exact hleft
      | some level =>
        have hat : ordersAt book price = level.orders := by rw [ordersAt, hlevel, Option.elim_some]
        obtain ⟨hkept, hentries⟩ := matchEntries_swept price level.orders
          (fun e he => hne price List.mem_cons_self e (hat ▸ he)) h
        simp only [Bool.not_true, Bool.false_eq_true, if_false]
        generalize matchEntries order price level.orders m = entries at hkept hentries
        obtain ⟨remaining, m'⟩ := entries
        have hsame : ∀ p ≠ price, ordersAt (book.insert price { level with orders := remaining }) p = ordersAt book p :=
          fun p hp => ordersAt_insert_of_ne hp _
        have hqueue : queue (prices.filter (priceOk order)) (book.insert price { level with orders := remaining }) =
            queue (prices.filter (priceOk order)) book :=
          queue_congr fun p hmem => hsame p fun heq => hout (heq ▸ hmem)
        have hnew : ∀ p ∈ prices, ∀ e ∈ ordersAt (book.insert price { level with orders := remaining }) p,
            e.orderId ≠ order.orderId := by
          intro p hmem
          rw [hsame p fun heq => hnot (heq ▸ hmem)]
          exact hrestne p hmem
        obtain ⟨hleft, hothers, hswept⟩ := ih hrest hlater hnew hentries.wants
        rw [hqueue, traded_map] at hleft hswept
        rw [hat, trades_append, leave_append, trades_level, leave_level, traded_map]
        simp only at hkept ⊢
        refine ⟨?_, fun p hp => ?_, hentries.trans (by rw [traded_map]; exact hswept)⟩
        · rw [queue_cons, hothers price hout, ordersAt_insert, hleft, ← hkept]
        · obtain ⟨hpp, hp⟩ := not_or.mp fun hmem => hp (List.mem_cons.mpr hmem)
          rw [hothers p hp, hsame p hpp]

end Levels

section Arrival

/-- The prices `_match` may trade at, in the order it comes to them. -/
def eligiblePrices (order : SimOrder) (book : BookSide) : List ℚ :=
  (bestFirst order.side book.keys).filter (priceOk order)

def OrderBookSimulator.against (b : OrderBookSimulator) (order : SimOrder) : BookSide :=
  b.bookSide (opposite order.side)

variable {bound : ℕ} {rest rest' : Side × ℚ → List Entry} {orders orders' : OrderTable} {place : Side × ℚ}
  {order : SimOrder}

/-- What rests is known at its place, and every level has its orders as they arrived. -/
structure Queued (bound : ℕ) (rest : Side × ℚ → List Entry) (orders : OrderTable) : Prop where
  placed : ∀ place, ∀ e ∈ rest place, ∃ o, orders e.orderId = some o ∧ (o.side, o.price) = place
  old : ∀ place, ∀ e ∈ rest place, e.orderId < bound
  positive : ∀ place, ∀ e ∈ rest place, 0 < e.quantity
  arrival : ∀ place, ((rest place).map Entry.orderId).Pairwise (· < ·)

theorem Queued.place_eq (h : Queued bound rest orders) {place' : Side × ℚ} {e e' : Entry} (he : e ∈ rest place)
    (he' : e' ∈ rest place') (hid : e.orderId = e'.orderId) : place = place' := by
  obtain ⟨o, ho, hplace⟩ := h.placed place e he
  obtain ⟨o', ho', hplace'⟩ := h.placed place' e' he'
  rw [← hid, ho] at ho'
  rw [← hplace, ← hplace', Option.some.inj ho']

theorem Queued.entry_eq (h : Queued bound rest orders) {e e' : Entry} (he : e ∈ rest place) (he' : e' ∈ rest place)
    (hid : e.orderId = e'.orderId) : e = e' := by
  have hnodup : ((rest place).map Entry.orderId).Nodup := (h.arrival place).imp fun hlt => hlt.ne
  exact List.inj_on_of_nodup_map hnodup he he' hid

theorem Queued.retable (h : Queued bound rest orders)
    (hterms : ∀ id < bound, (orders' id).map SimOrder.terms = (orders id).map SimOrder.terms) :
    Queued bound rest orders' where
  placed place e he := by
    obtain ⟨o, ho, hplace⟩ := h.placed place e he
    have hid := hterms e.orderId (h.old place e he)
    rw [ho, Option.map_some] at hid
    obtain ⟨o', ho', heq⟩ := Option.map_eq_some_iff.mp hid
    refine ⟨o', ho', ?_⟩
    rw [← hplace]
    exact congrArg (fun t : ℕ × Side × OrderType × ℚ => (t.2.1, t.2.2.2)) heq
  old := h.old
  positive := h.positive
  arrival := h.arrival

theorem Queued.mono (h : Queued bound rest orders) {bound' : ℕ} (hle : bound ≤ bound') :
    Queued bound' rest orders where
  placed := h.placed
  old place e he := (h.old place e he).trans_le hle
  positive := h.positive
  arrival := h.arrival

theorem Queued.shrink (h : Queued bound rest orders)
    (hids : ∀ place, ((rest' place).map Entry.orderId).Sublist ((rest place).map Entry.orderId))
    (hpos : ∀ place, ∀ e ∈ rest' place, 0 < e.quantity) : Queued bound rest' orders := by
  have hold {place : Side × ℚ} {e : Entry} (he : e ∈ rest' place) : ∃ e' ∈ rest place, e'.orderId = e.orderId :=
    List.mem_map.mp ((hids place).subset (List.mem_map_of_mem he))
  constructor
  case placed =>
    intro place e he
    obtain ⟨e', he', hid⟩ := hold he
    rw [← hid]
    exact h.placed place e' he'
  case old =>
    intro place e he
    obtain ⟨e', he', hid⟩ := hold he
    rw [← hid]
    exact h.old place e' he'
  case positive => exact hpos
  case arrival => exact fun place => (h.arrival place).sublist (hids place)

/-- The order that arrives now comes behind all others. -/
theorem Queued.add (h : Queued bound rest orders) {o : SimOrder} (ho : orders bound = some o) (t : ℚ) {q : ℚ}
    (hq : 0 < q) : Queued (bound + 1)
      (Function.update rest (o.side, o.price) (rest (o.side, o.price) ++ [⟨t, bound, q⟩])) orders := by
  have hmem {place : Side × ℚ} {e : Entry}
      (he : e ∈ Function.update rest (o.side, o.price) (rest (o.side, o.price) ++ [⟨t, bound, q⟩]) place) :
      e ∈ rest place ∨ e = ⟨t, bound, q⟩ ∧ place = (o.side, o.price) := by
    by_cases hplace : place = (o.side, o.price)
    · rw [hplace, Function.update_self] at he
      rw [hplace]
      exact (List.mem_append.mp he).imp_right fun he => ⟨List.mem_singleton.mp he, rfl⟩
    · rw [Function.update_of_ne hplace] at he
      exact .inl he
  constructor
  case placed =>
    intro place e he
    rcases hmem he with he | ⟨rfl, rfl⟩
    · exact h.placed place e he
    · exact ⟨o, ho, rfl⟩
  case old =>
    intro place e he
    rcases hmem he with he | ⟨rfl, -⟩
    · exact (h.old place e he).trans (Nat.lt_succ_self bound)
    · exact Nat.lt_succ_self bound
  case positive =>
    intro place e he
    rcases hmem he with he | ⟨rfl, -⟩
    · exact h.positive place e he
    · exact hq
  case arrival =>
    intro place
    by_cases hplace : place = (o.side, o.price)
    · rw [hplace, Function.update_self, List.map_append, List.map_singleton]
      refine List.pairwise_append.mpr ⟨h.arrival _, List.pairwise_singleton _ _, fun id hid new hnew => ?_⟩
      obtain ⟨e, he, rfl⟩ := List.mem_map.mp hid
      rw [List.mem_singleton.mp hnew]
      exact h.old _ e he
    · rw [Function.update_of_ne hplace]
      exact h.arrival place

theorem Better.trans {side : Side} {p q r : ℚ} (h : Better side p q) (h' : Better side q r) : Better side p r := by
  cases side with
  | buy => exact lt_trans h h'
  | sell => exact gt_trans h h'

theorem Better.ne {side : Side} {p q : ℚ} (h : Better side p q) : p ≠ q := by
  cases side with
  | buy => exact ne_of_lt h
  | sell => exact ne_of_gt h

theorem better_total (side : Side) {p q : ℚ} (h : p ≠ q) : Better side p q ∨ Better side q p := by
  cases side with
  | buy => exact lt_or_gt_of_ne h
  | sell => exact (lt_or_gt_of_ne h).symm

instance (side : Side) : Std.Total (Ahead side) := ⟨fun x y => by
  by_cases hp : x.1 = y.1
  · exact (le_total x.2.orderId y.2.orderId).imp (fun hid => .inr ⟨hp, hid⟩) fun hid => .inr ⟨hp.symm, hid⟩
  · exact (better_total side hp).imp .inl .inl⟩

instance (side : Side) : IsTrans Resting (Ahead side) := ⟨fun x y z hxy hyz => by
  rcases hxy with hxy | ⟨hp, hid⟩
  · rcases hyz with hyz | ⟨hp, -⟩
    · exact .inl (hxy.trans hyz)
    · exact .inl (hp ▸ hxy)
  · rcases hyz with hyz | ⟨hp', hid'⟩
    · exact .inl (hp ▸ hyz)
    · exact .inr ⟨hp.trans hp', hid.trans hid'⟩⟩

theorem Ahead.antisymm {side : Side} {x y : Resting} (hxy : Ahead side x y) (hyx : Ahead side y x) :
    x.1 = y.1 ∧ x.2.orderId = y.2.orderId := by
  rcases hxy with hxy | ⟨hp, hid⟩
  · rcases hyx with hyx | ⟨hp, -⟩
    · exact absurd rfl (hxy.trans hyx).ne
    · exact absurd hp.symm hxy.ne
  · rcases hyx with hyx | ⟨-, hid'⟩
    · exact absurd hp.symm hyx.ne
    · exact ⟨hp, le_antisymm hid hid'⟩

theorem bestFirst_better (side : Side) {prices : List ℚ} (hn : prices.Nodup) :
    (bestFirst side prices).Pairwise (Better side) := by
  have hne : (bestFirst side prices).Nodup := bestFirst_nodup hn
  cases side with
  | buy => exact ((List.pairwise_insertionSort (· ≤ ·) prices).and hne).imp fun h => lt_of_le_of_ne h.1 h.2
  | sell => exact ((List.pairwise_insertionSort (· ≥ ·) prices).and hne).imp fun h => lt_of_le_of_ne h.1 h.2.symm

theorem bestFirst_perm (side : Side) (prices : List ℚ) : (bestFirst side prices).Perm prices := by
  cases side with
  | buy => exact List.perm_insertionSort _ _
  | sell => exact List.perm_insertionSort _ _

theorem filter_restingOrders (order : SimOrder) (book : BookSide) :
    (restingOrders book).filter (fun x => priceOk order x.1) = queue (book.keys.filter (priceOk order)) book := by
  rw [restingOrders, queue]
  generalize book.keys = prices
  induction prices with
  | nil => rfl
  | cons p prices ih =>
    rw [List.flatMap_cons, List.filter_append, ih, List.filter_map]
    cases hok : priceOk order p with
    | false => simp [hok, Function.comp_def]
    | true => simp [hok, Function.comp_def]

/-- The prices from the best on with the orders of each level as they arrived are the eligible orders in priority. -/
theorem Queued.queue_eq_priority {b : OrderBookSimulator} (h : Queued bound b.rest orders) (order : SimOrder) :
    queue (eligiblePrices order (b.against order)) (b.against order) =
      priority order (restingOrders (b.against order)) := by
  apply @List.Perm.eq_of_pairwise _ (Ahead order.side)
  · intro x y hx hy hxy hyx
    obtain ⟨hp, hid⟩ := hxy.antisymm hyx
    have hx' : x.2 ∈ b.rest (opposite order.side, x.1) := (mem_queue.mp hx).2
    rw [priority, List.mem_insertionSort, filter_restingOrders] at hy
    have hy' : y.2 ∈ b.rest (opposite order.side, y.1) := (mem_queue.mp hy).2
    exact Prod.ext hp (h.entry_eq hx' (hp ▸ hy') hid)
  · apply List.pairwise_flatMap.mpr
    constructor
    · intro p _
      have harrival := h.arrival (opposite order.side, p)
      rw [List.pairwise_map] at harrival ⊢
      exact harrival.imp fun hid => .inr ⟨rfl, hid.le⟩
    · have hbetter := bestFirst_better order.side (b.against order).keys_nodup
      refine (hbetter.sublist List.filter_sublist).imp fun hpq x hx y hy => ?_
      obtain ⟨e, -, rfl⟩ := List.mem_map.mp hx
      obtain ⟨e', -, rfl⟩ := List.mem_map.mp hy
      exact .inl hpq
  · exact List.pairwise_insertionSort _ _
  · rw [priority, filter_restingOrders]
    exact (((bestFirst_perm _ _).filter _).flatMap_right _).trans (List.perm_insertionSort _ _).symm

end Arrival

section Matched

open OrderBookSimulator

variable {b : OrderBookSimulator} {order : SimOrder}

/-- What `_match` takes and what it leaves, with the queue it goes through. -/
structure Matched (b : OrderBookSimulator) (order : SimOrder) (clock : List ℚ) (b' : OrderBookSimulator) : Prop where
  fills : b'.fills = b.fills ++ fillsOf order
    (trades Resting.size order.leavesQty (queue (eligiblePrices order (b.against order)) (b.against order))) clock
  left : queue (eligiblePrices order (b.against order)) (b'.against order) = leave Resting.size Resting.shrink
    order.leavesQty (queue (eligiblePrices order (b.against order)) (b.against order))
  others : ∀ side p, (side = opposite order.side → p ∉ eligiblePrices order (b.against order)) →
    b'.rest (side, p) = b.rest (side, p)
  taker : b'.orders order.orderId = some (markMatched { order with filledQty := order.quantity - (order.leavesQty -
    traded (trades Resting.size order.leavesQty (queue (eligiblePrices order (b.against order)) (b.against order)))) })
  terms : ∀ id, (b'.orders id).map SimOrder.terms = (b.orders id).map SimOrder.terms
  nextId : b'.nextId = b.nextId

theorem markMatched_terms (o : SimOrder) : (markMatched o).terms = o.terms := by
  rw [markMatched_same]
  rfl

theorem matchOrder_eq (b : OrderBookSimulator) (order : SimOrder) (clock : List ℚ) {book : BookSide} {m : Matching}
    {emptyLevels : List ℚ} (h : matchPrices order (bestFirst order.side (b.against order).keys) (b.against order)
      { orders := b.orders, clock := clock } = (book, m, emptyLevels)) :
    b.matchOrder order clock = { b.setBookSide (opposite order.side)
        (emptyLevels.foldl (fun book price => book.erase price) book) with
      orders := m.orders.modify order.orderId markMatched
      fills := b.fills ++ m.fills } := by
  unfold OrderBookSimulator.against at h
  rw [matchOrder]
  simp only [h]
  rfl

theorem matchOrder_matched (ho : b.orders order.orderId = some order)
    (hne : ∀ p, ∀ e ∈ b.rest (opposite order.side, p), e.orderId ≠ order.orderId) (clock : List ℚ) :
    Matched b order clock (b.matchOrder order clock) := by
  have hn : (bestFirst order.side (b.against order).keys).Nodup := bestFirst_nodup (b.against order).keys_nodup
  have hwants : Wants order order.leavesQty { orders := b.orders, clock := clock } := by
    rw [Wants, SimOrder.leavesQty, sub_sub_cancel]
    exact ho
  have hids : ∀ p ∈ bestFirst order.side (b.against order).keys, ∀ e ∈ ordersAt (b.against order) p,
      e.orderId ≠ order.orderId := fun p _ => hne p
  obtain ⟨hleft, hothers, hswept⟩ := matchPrices_swept hn (bestFirst_priceOk order _) hids hwants
  have hthinned := matchPrices_thinned order (b.against order) { orders := b.orders, clock := clock } hn
  obtain ⟨⟨book, m, emptyLevels⟩, hnext⟩ : ∃ next, matchPrices order (bestFirst order.side (b.against order).keys)
    (b.against order) { orders := b.orders, clock := clock } = next := ⟨_, rfl⟩
  rw [matchOrder_eq b order clock hnext]
  simp only [hnext] at hleft hothers hswept hthinned
  have hcleaned := hthinned.cleaned_ordersAt (lookup_eraseAll emptyLevels book)
  have hrest (place : Side × ℚ) : ({ b.setBookSide (opposite order.side)
      (emptyLevels.foldl (fun book price => book.erase price) book) with
        orders := m.orders.modify order.orderId markMatched, fills := b.fills ++ m.fills } :
          OrderBookSimulator).rest place =
      if place.1 = opposite order.side then ordersAt book place.2 else b.rest place := by
    rw [with_rest _ _ _ _, setBookSide_rest, withSide, hcleaned]
  constructor
  case fills => rw [hswept.fills, List.nil_append]; rfl
  case left =>
    rw [eligiblePrices, ← hleft]
    apply queue_congr
    intro p _
    have hp := hrest (opposite order.side, p)
    rw [if_pos rfl] at hp
    exact hp
  case others =>
    intro side p hp
    rw [hrest]
    split_ifs with hside
    · rw [hothers p (hp hside)]
      have hs : side = opposite order.side := hside
      rw [hs]
      rfl
    · rfl
  case taker => exact modify_self hswept.wants
  case terms =>
    intro id
    simp only
    rw [modify_terms markMatched_terms, hswept.terms]
  case nextId => exact setBookSide_nextId

theorem queue_level {prices : List ℚ} (hn : prices.Nodup) {p : ℚ} (hp : p ∈ prices) (book : BookSide) :
    (queue prices book).filter (fun x => x.1 = p) = (ordersAt book p).map (p, ·) := by
  induction prices with
  | nil => cases hp
  | cons q prices ih =>
    obtain ⟨hnot, hrest⟩ := List.nodup_cons.mp hn
    rw [queue_cons, List.filter_append, List.filter_map]
    by_cases hq : q = p
    · have hnone : (queue prices book).filter (fun x => x.1 = p) = [] := by
        apply List.filter_eq_nil_iff.mpr
        intro x hx hxp
        have hxp : x.1 = p := by simpa using hxp
        exact hnot (hq ▸ hxp ▸ (mem_queue.mp hx).1)
      rw [hnone, List.append_nil, hq]
      congr 1
      exact List.filter_eq_self.mpr fun e _ => by simp
    · have hnone : (ordersAt book q).filter ((fun x : Resting => decide (x.1 = p)) ∘ (q, ·)) = [] := by
        apply List.filter_eq_nil_iff.mpr
        intro e _
        simpa using hq
      rw [hnone, List.map_nil, List.nil_append]
      exact ih hrest ((List.mem_cons.mp hp).resolve_left (Ne.symm hq))

theorem eligiblePrices_nodup (order : SimOrder) (book : BookSide) : (eligiblePrices order book).Nodup :=
  (bestFirst_nodup book.keys_nodup).filter _

section Steps

variable {clock : List ℚ} {b' : OrderBookSimulator} {bound : ℕ} {p : ℚ}

theorem Matched.level (h : Matched b order clock b') (hp : p ∈ eligiblePrices order (b.against order)) :
    (b'.rest (opposite order.side, p)).map (p, ·) = (leave Resting.size Resting.shrink order.leavesQty
      (queue (eligiblePrices order (b.against order)) (b.against order))).filter fun x => x.1 = p := by
  rw [← h.left, queue_level (eligiblePrices_nodup order _) hp]
  rfl

theorem Matched.same_or_level (h : Matched b order clock b') (place : Side × ℚ) : b'.rest place = b.rest place ∨
    place.1 = opposite order.side ∧ place.2 ∈ eligiblePrices order (b.against order) := by
  by_cases hplace : place.1 = opposite order.side ∧ place.2 ∈ eligiblePrices order (b.against order)
  · exact .inr hplace
  · exact .inl (h.others place.1 place.2 fun hside hmem => hplace ⟨hside, hmem⟩)

theorem Matched.sublist (h : Matched b order clock b') (place : Side × ℚ) :
    ((b'.rest place).map Entry.orderId).Sublist ((b.rest place).map Entry.orderId) := by
  rcases h.same_or_level place with hsame | ⟨hside, hp⟩
  · rw [hsame]
  · obtain ⟨side, p⟩ := place
    obtain rfl : side = opposite order.side := hside
    change p ∈ _ at hp
    have hsub := leave_keys order.leavesQty (queue (eligiblePrices order (b.against order)) (b.against order))
    have hfilter := (hsub.filter fun k => k.1 = p).map Prod.snd
    rw [List.filter_map, List.filter_map] at hfilter
    change ((List.map Resting.key (List.filter (fun x => x.1 = p) _)).map Prod.snd).Sublist
      ((List.map Resting.key (List.filter (fun x => x.1 = p) _)).map Prod.snd) at hfilter
    rw [← h.level hp, queue_level (eligiblePrices_nodup order _) hp] at hfilter
    simp only [List.map_map] at hfilter
    exact hfilter

theorem Matched.positive (h : Matched b order clock b') (hq : Queued bound b.rest b.orders) (place : Side × ℚ) :
    ∀ e ∈ b'.rest place, 0 < e.quantity := by
  rcases h.same_or_level place with hsame | ⟨hside, hp⟩
  · rw [hsame]
    exact hq.positive place
  · obtain ⟨side, p⟩ := place
    obtain rfl : side = opposite order.side := hside
    change p ∈ _ at hp
    intro e he
    have hmem := List.mem_map_of_mem (f := fun e : Entry => ((p, e) : Resting)) he
    rw [h.level hp] at hmem
    apply leave_pos (fun _ _ => rfl) (fun x hx => ?_) _ (List.mem_of_mem_filter hmem)
    exact hq.positive (opposite order.side, x.1) x.2 (mem_queue.mp hx).2

/-- Matching keeps the places, and in each the order of arrival. -/
theorem Matched.queued (h : Matched b order clock b') (hq : Queued bound b.rest b.orders) :
    Queued bound b'.rest b'.orders :=
  have hshrunk : Queued bound b'.rest b.orders := hq.shrink h.sublist (h.positive hq)
  hshrunk.retable fun id _ => h.terms id

end Steps

end Matched

section Calls

open OrderBookSimulator

namespace OrderBookSimulator

variable (b : OrderBookSimulator) (side : Side) (orderType : OrderType) (price quantity timestamp : ℚ)

/-- The object `submit_order` makes. -/
def incoming : SimOrder where
  orderId := b.nextId
  symbol := b.symbol
  side := side
  orderType := orderType
  price := price
  quantity := quantity
  status := .accepted
  timestamp := timestamp

def enter (order : SimOrder) : OrderBookSimulator :=
  { b with nextId := b.nextId + 1, orders := Function.update b.orders order.orderId (some order) }

def available (order : SimOrder) : ℚ :=
  availableLiquidity order (b.against order) (bestFirst order.side (b.against order).keys) 0

end OrderBookSimulator

variable {b : OrderBookSimulator} {order : SimOrder}

theorem submitOrder_eq (b : OrderBookSimulator) (side : Side) (orderType : OrderType) (price quantity : ℚ)
    (clock : List ℚ) :
    let order := b.incoming side orderType price quantity (clock.headD 0)
    b.submitOrder side orderType price quantity clock =
      if orderType = .fok ∧ (b.enter order).available order < quantity then
        { b.enter order with
          orders := (b.enter order).orders.modify order.orderId fun o => { o with status := .rejected } }
      else ((b.enter order).matchOrder order clock.tail).handleResidual order.orderId := rfl

/-- What every run of calls keeps, whatever the quantities: the queues, and that ids are new. -/
structure InOrder (b : OrderBookSimulator) : Prop where
  queued : Queued b.nextId b.rest b.orders
  fresh : ∀ f ∈ b.fills, f.orderId < b.nextId

theorem enter_rest (order : SimOrder) : (b.enter order).rest = b.rest := with_rest b _ b.fills _

theorem InOrder.enter (h : InOrder b) (hid : order.orderId = b.nextId) :
    Queued b.nextId (b.enter order).rest (b.enter order).orders := by
  rw [enter_rest]
  apply h.queued.retable
  intro id hlt
  have hne : id ≠ order.orderId := hid ▸ hlt.ne
  exact congrArg (Option.map SimOrder.terms) (Function.update_of_ne hne _ _)

theorem InOrder.matched (h : InOrder b) (hid : order.orderId = b.nextId) (clock : List ℚ) :
    Matched (b.enter order) order clock ((b.enter order).matchOrder order clock) := by
  apply matchOrder_matched (Function.update_self ..)
  intro p e he
  rw [enter_rest] at he
  rw [hid]
  exact (h.queued.old _ e he).ne

theorem mem_fillsOf {f : Fill} {taken : List (Resting × ℚ)} {clock : List ℚ} (h : f ∈ fillsOf order taken clock) :
    f.orderId = order.orderId ∨ ∃ t ∈ taken, f.orderId = t.1.2.orderId := by
  induction taken generalizing clock with
  | nil => cases h
  | cons t taken ih =>
    rcases List.mem_cons.mp h with rfl | h
    · exact .inl rfl
    · rcases List.mem_cons.mp h with rfl | h
      · exact .inr ⟨t, List.mem_cons_self, rfl⟩
      · exact (ih h).imp_right fun ⟨t', ht', hid⟩ => ⟨t', List.mem_cons_of_mem t ht', hid⟩

theorem Matched.fresh {clock : List ℚ} {b' : OrderBookSimulator} {bound : ℕ} (h : Matched b order clock b')
    (hq : Queued bound b.rest b.orders) (hid : order.orderId = bound) (hf : ∀ f ∈ b.fills, f.orderId < bound) :
    ∀ f ∈ b'.fills, f.orderId < bound + 1 := by
  intro f hmem
  rw [h.fills] at hmem
  rcases List.mem_append.mp hmem with hmem | hmem
  · exact (hf f hmem).trans (Nat.lt_succ_self bound)
  · rcases mem_fillsOf hmem with heq | ⟨t, ht, heq⟩
    · rw [heq, hid]
      exact Nat.lt_succ_self bound
    · rw [heq]
      have hx := mem_queue.mp (mem_of_mem_trades ht)
      exact (hq.old (opposite order.side, t.1.1) t.1.2 hx.2).trans (Nat.lt_succ_self bound)

theorem handleResidual_same (b : OrderBookSimulator) (id : ℕ) :
    (b.handleResidual id).fills = b.fills ∧ (b.handleResidual id).nextId = b.nextId := by
  unfold handleResidual
  split
  · exact ⟨rfl, rfl⟩
  · split_ifs
    · exact ⟨setBookSide_fills, setBookSide_nextId⟩
    · exact ⟨rfl, rfl⟩
    · exact ⟨rfl, rfl⟩

theorem handleResidual_queued (hq : Queued order.orderId b.rest b.orders) (hid : b.nextId = order.orderId + 1)
    (hfound : ∃ o, b.orders order.orderId = some o ∧ o.orderId = order.orderId) :
    Queued (b.handleResidual order.orderId).nextId (b.handleResidual order.orderId).rest
      (b.handleResidual order.orderId).orders := by
  obtain ⟨o, ho, hsame⟩ := hfound
  unfold handleResidual
  rw [ho]
  simp only
  split_ifs with hpos
  · have hadded := hq.add ho o.timestamp hpos
    rw [addToBook_rest, hsame]
    simp only [addToBook, setBookSide_nextId, setBookSide_orders, hid]
    exact hadded
  · rw [with_rest _ _ _ _, hid]
    refine (hq.mono (Nat.le_succ _)).retable fun id _ => ?_
    simp only
    apply modify_terms
    intro o
    rfl
  · rw [hid]
    exact hq.mono (Nat.le_succ _)

theorem submitOrder_inOrder (h : InOrder b) (side : Side) (orderType : OrderType) (price quantity : ℚ)
    (clock : List ℚ) : InOrder (b.submitOrder side orderType price quantity clock) := by
  have heq := submitOrder_eq b side orderType price quantity clock
  simp only at heq
  rw [heq]
  generalize hnew : b.incoming side orderType price quantity (clock.headD 0) = order
  have hid : order.orderId = b.nextId := by rw [← hnew]; rfl
  have hentered := h.enter hid
  have hold : ∀ f ∈ b.fills, f.orderId < b.nextId + 1 := fun f hf => (h.fresh f hf).trans (Nat.lt_succ_self _)
  split_ifs
  · refine ⟨?_, hold⟩
    rw [with_rest _ _ _ _]
    refine (hentered.mono (Nat.le_succ _)).retable fun id _ => ?_
    simp only
    apply modify_terms
    intro o
    rfl
  · have hmatched := h.matched hid clock.tail
    have hqueued := hmatched.queued hentered
    have hfresh := hmatched.fresh hentered hid h.fresh
    have hterms := hmatched.terms order.orderId
    have hself : (b.enter order).orders order.orderId = some order := Function.update_self ..
    rw [hself, Option.map_some] at hterms
    obtain ⟨o, ho, hsame⟩ := Option.map_eq_some_iff.mp hterms
    have hnext : ((b.enter order).matchOrder order clock.tail).nextId = order.orderId + 1 := by
      rw [hmatched.nextId, hid]
      rfl
    rw [← hid] at hqueued
    obtain ⟨hfills, hnext'⟩ := handleResidual_same ((b.enter order).matchOrder order clock.tail) order.orderId
    refine ⟨handleResidual_queued hqueued hnext ⟨o, ho, congrArg Prod.fst hsame⟩, ?_⟩
    rw [hfills, hnext', hnext, hid]
    exact hfresh

theorem cancelOrder_inOrder (h : InOrder b) (id : ℕ) : InOrder (b.cancelOrder id).2 := by
  unfold cancelOrder
  cases ho : b.orders id with
  | none => exact h
  | some o =>
    simp only
    split_ifs
    · exact h
    · obtain ⟨horders, hfills, hnext⟩ := removeFromBook_same b id
      have hremoved : Queued b.nextId (b.removeFromBook id).rest b.orders := by
        apply h.queued.shrink
        · intro place
          rw [removeFromBook_rest ho]
          by_cases hplace : place = (o.side, o.price)
          · rw [hplace, Function.update_self]
            exact List.filter_sublist.map _
          · rw [Function.update_of_ne hplace]
        · intro place e he
          rw [removeFromBook_rest ho] at he
          by_cases hplace : place = (o.side, o.price)
          · rw [hplace, Function.update_self] at he
            exact h.queued.positive _ e (List.mem_of_mem_filter he)
          · rw [Function.update_of_ne hplace] at he
            exact h.queued.positive _ e he
      constructor
      · rw [with_rest _ _ _ _]
        simp only [hnext, horders]
        refine hremoved.retable fun other _ => ?_
        apply modify_terms
        intro o
        rfl
      · simp only [hfills, hnext]
        exact h.fresh

theorem inOrder_of_empty (hbids : b.bids = ∅) (hasks : b.asks = ∅) (hfresh : ∀ f ∈ b.fills, f.orderId < b.nextId) :
    InOrder b where
  queued := by
    rw [rest_of_empty hbids hasks]
    exact ⟨fun _ => List.forall_mem_nil _, fun _ => List.forall_mem_nil _, fun _ => List.forall_mem_nil _,
      fun _ => List.Pairwise.nil⟩
  fresh := hfresh

theorem call_inOrder (h : InOrder b) (c : Call) : InOrder (b.call c) := by
  cases c with
  | submitOrder side orderType price quantity clock => exact submitOrder_inOrder h side orderType price quantity clock
  | cancelOrder id => exact cancelOrder_inOrder h id

theorem run_inOrder (symbol : String) (tickSize : ℚ) (calls : List Call) :
    InOrder (({ symbol, tickSize } : OrderBookSimulator).run calls) :=
  List.foldlRecOn calls call (inOrder_of_empty rfl rfl (List.forall_mem_nil _)) fun _ hb c _ => call_inOrder hb c

end Calls

end Klett.Sor.Simulation

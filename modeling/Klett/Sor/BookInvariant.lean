import Mathlib.Algebra.Order.Ring.Rat
import Mathlib.Tactic.Linarith
import Mathlib.Tactic.Ring
import Klett.Sor.OrderBookSimulator

namespace Klett.Sor.Simulation

section Invariant

def OrderStatus.terminal : OrderStatus → Prop
  | .filled | .canceled | .rejected => True
  | _ => False

/-- Fills come in pairs, the aggressor's and the resting order's. -/
inductive Paired : List Fill → Prop
  | nil : Paired []
  | cons {taker maker : Fill} {fills : List Fill} (htaker : taker.aggressor = true) (hmaker : maker.aggressor = false)
      (hside : maker.side = opposite taker.side) (hprice : taker.price = maker.price)
      (hquantity : taker.quantity = maker.quantity) (hpos : 0 < taker.quantity) (h : Paired fills) :
      Paired (taker :: maker :: fills)

def filledBy (id : ℕ) (fills : List Fill) : ℚ := ((fills.filter fun f => f.orderId = id).map Fill.quantity).sum

/-- An order stands in the book at this side and price, with this entry. -/
structure Rests (orders : OrderTable) (place : Side × ℚ) (e : Entry) (o : SimOrder) : Prop where
  found : orders e.orderId = some o
  at_place : (o.side, o.price) = place
  limit : o.orderType = .limit
  live : ¬o.status.terminal
  leaves : e.quantity = o.leavesQty
  positive : 0 < e.quantity

/-- The book, the table and the fills agree on every order, but for one that is being matched. -/
structure Sound (nextId : ℕ) (rest : Side × ℚ → List Entry) (orders : OrderTable) (fills : List Fill)
    (taker : Option ℕ) : Prop where
  own : ∀ id o, orders id = some o → o.orderId = id
  fresh : ∀ id, nextId ≤ id → orders id = none
  rests : ∀ place, ∀ e ∈ rest place, e.orderId ∉ taker ∧ ∃ o, Rests orders place e o
  once : ∀ place, ((rest place).map Entry.orderId).Nodup
  kept : ∀ id o, orders id = some o → id ∉ taker → o.orderType = .limit → ¬o.status.terminal →
    ∃ e ∈ rest (o.side, o.price), e.orderId = id
  filled : ∀ id o, orders id = some o → o.filledQty = filledBy id fills ∧ o.filledQty ≤ o.quantity
  known : ∀ f ∈ fills, (orders f.orderId).isSome
  paired : Paired fills

def ordersAt (book : BookSide) (p : ℚ) : List Entry := (book.lookup p).elim [] PriceLevel.orders

def OrderBookSimulator.rest (b : OrderBookSimulator) (place : Side × ℚ) : List Entry :=
  ordersAt (b.bookSide place.1) place.2

/-- What holds of a simulator, but for an order that is being matched. -/
structure BookInvariant (taker : Option ℕ) (b : OrderBookSimulator) : Prop where
  uncrossed : ∀ p ∈ b.bookSide .buy, ∀ q ∈ b.bookSide .sell, p < q
  levels : ∀ side p level, (b.bookSide side).lookup p = some level → level.price = p ∧ level.orders ≠ []
  sound : Sound b.nextId b.rest b.orders b.fills taker

end Invariant

section Tables

variable {orders : OrderTable} {id other : ℕ} {f : SimOrder → SimOrder} {fills more : List Fill}

theorem modify_self {o : SimOrder} (h : orders id = some o) : orders.modify id f id = some (f o) := by
  rw [OrderTable.modify, Function.update_self, h, Option.map_some]

theorem modify_of_ne (h : other ≠ id) : orders.modify id f other = orders other := Function.update_of_ne h _ _

theorem modify_isSome : (orders.modify id f other).isSome = (orders other).isSome := by
  by_cases h : other = id
  · subst h
    rw [OrderTable.modify, Function.update_self, Option.isSome_map]
  · rw [modify_of_ne h]

theorem leavesQty_of_some {o : SimOrder} (h : orders id = some o) : orders.leavesQty id = o.leavesQty := by
  rw [OrderTable.leavesQty, h, Option.elim_some]

theorem filledBy_append : filledBy id (fills ++ more) = filledBy id fills + filledBy id more := by
  simp [filledBy]

theorem Paired.append (h : Paired fills) (hm : Paired more) : Paired (fills ++ more) := by
  induction h with
  | nil => exact hm
  | cons htaker hmaker hside hprice hquantity hpos _ ih =>
    exact .cons htaker hmaker hside hprice hquantity hpos ih

theorem filledBy_of_unknown (h : ∀ f ∈ fills, f.orderId ≠ id) : filledBy id fills = 0 := by
  have hnone : fills.filter (fun f => f.orderId = id) = [] :=
    List.filter_eq_nil_iff.mpr fun f hf => by simpa using h f hf
  rw [filledBy, hnone]
  rfl

end Tables

section Filling

variable {nextId : ℕ} {rest : Side × ℚ → List Entry} {orders : OrderTable} {fills base : List Fill} {taker : Option ℕ}
  {place place' : Side × ℚ} {e e' : Entry} {before after : List Entry} {order o r : SimOrder} {m : Matching}

/-- An order has one entry only, wherever it stands. -/
theorem Sound.place_eq (h : Sound nextId rest orders fills taker) (he : e ∈ rest place) (he' : e' ∈ rest place')
    (hid : e.orderId = e'.orderId) : place = place' := by
  obtain ⟨-, o, ho⟩ := h.rests place e he
  obtain ⟨-, o', ho'⟩ := h.rests place' e' he'
  have hsame : o = o' := Option.some.inj (ho.found.symm.trans (hid ▸ ho'.found))
  rw [← ho.at_place, ← ho'.at_place, hsame]

/-- What one fill does. -/
structure Filled (order : SimOrder) (e : Entry) (m m' : Matching) (kept : List Entry) (o r : SimOrder) (q : ℚ) :
    Prop where
  taken : m'.orders order.orderId = some { o with filledQty := o.filledQty + q }
  made : m'.orders e.orderId = some { r with
    filledQty := r.filledQty + q
    status := if r.quantity - (r.filledQty + q) ≤ 0 then .filled else .partiallyFilled }
  others : ∀ id, id ≠ order.orderId → id ≠ e.orderId → m'.orders id = m.orders id
  kept : kept = if q < e.quantity then [{ e with quantity := e.quantity - q }] else []
  fills : ∃ taker maker : Fill, m'.fills = m.fills ++ [taker, maker] ∧ Paired [taker, maker] ∧
    taker.orderId = order.orderId ∧ maker.orderId = e.orderId ∧ taker.quantity = q ∧ maker.quantity = q

theorem fillEntry_filled (p : ℚ) (ho : m.orders order.orderId = some o) (hr : m.orders e.orderId = some r)
    (hne : e.orderId ≠ order.orderId) (hpos : 0 < min o.leavesQty e.quantity) :
    Filled order e m (fillEntry order p e m).2 (fillEntry order p e m).1 o r (min o.leavesQty e.quantity) := by
  have hleaves : m.orders.leavesQty order.orderId = o.leavesQty := leavesQty_of_some ho
  unfold fillEntry
  rw [hleaves]
  generalize min o.leavesQty e.quantity = q at hpos
  refine ⟨?_, ?_, ?_, ?_, ?_⟩
  · simp only
    rw [modify_of_ne hne.symm, modify_self ho]
  · have hr' : (m.orders.modify order.orderId fun o => { o with filledQty := o.filledQty + q }) e.orderId = some r := by
      rw [modify_of_ne hne, hr]
    simp only
    rw [modify_self hr']
    rfl
  · intro id hid hid'
    simp only
    rw [modify_of_ne hid', modify_of_ne hid]
  · simp only [gt_iff_lt, sub_pos]
  · exact ⟨_, _, rfl, .cons rfl rfl rfl rfl rfl hpos .nil, rfl, rfl, rfl, rfl⟩

section Fill

variable {m' : Matching} {kept : List Entry} {q : ℚ} {id : ℕ}

theorem Filled.order_cases (hf : Filled order e m m' kept o r q) {o' : SimOrder} (h : m'.orders id = some o') :
    (id = order.orderId ∧ o' = { o with filledQty := o.filledQty + q }) ∨
    (id ≠ order.orderId ∧ id = e.orderId ∧ o' = { r with
      filledQty := r.filledQty + q
      status := if r.quantity - (r.filledQty + q) ≤ 0 then .filled else .partiallyFilled }) ∨
    (id ≠ order.orderId ∧ id ≠ e.orderId ∧ m.orders id = some o') := by
  by_cases hid : id = order.orderId
  · subst hid
    exact .inl ⟨rfl, Option.some.inj (h.symm.trans hf.taken)⟩
  · by_cases hid' : id = e.orderId
    · subst hid'
      exact .inr (.inl ⟨hid, rfl, Option.some.inj (h.symm.trans hf.made)⟩)
    · rw [hf.others id hid hid'] at h
      exact .inr (.inr ⟨hid, hid', h⟩)

theorem Filled.filledBy_eq (hf : Filled order e m m' kept o r q) (id : ℕ) : filledBy id (base ++ m'.fills) =
    filledBy id (base ++ m.fills) + ((if order.orderId = id then q else 0) + if e.orderId = id then q else 0) := by
  obtain ⟨taker, maker, hfills, -, htaker, hmaker, htq, hmq⟩ := hf.fills
  rw [hfills, ← List.append_assoc, filledBy_append]
  congr 1
  unfold filledBy
  rw [← htaker, ← hmaker, ← hmq]
  by_cases h : taker.orderId = id <;> by_cases h' : maker.orderId = id <;> simp [h, h', htq, hmq]

theorem Filled.known (hf : Filled order e m m' kept o r q)
    (h : ∀ f ∈ base ++ m.fills, (m.orders f.orderId).isSome) :
    ∀ f ∈ base ++ m'.fills, (m'.orders f.orderId).isSome := by
  obtain ⟨taker, maker, hfills, -, htaker, hmaker, -⟩ := hf.fills
  have htaken : (m'.orders order.orderId).isSome := by rw [hf.taken, Option.isSome_some]
  have hmade : (m'.orders e.orderId).isSome := by rw [hf.made, Option.isSome_some]
  intro f hmem
  rw [hfills, ← List.append_assoc] at hmem
  rcases List.mem_append.mp hmem with hold | hnew
  · by_cases hid : f.orderId = order.orderId
    · rwa [hid]
    · by_cases hid' : f.orderId = e.orderId
      · rwa [hid']
      · rw [hf.others _ hid hid']
        exact h f hold
  · rcases List.mem_cons.mp hnew with rfl | hnew
    · rwa [htaker]
    · rwa [List.mem_singleton.mp hnew, hmaker]

theorem Filled.mem_cases (hf : Filled order e m m' kept o r q)
    (he : e' ∈ Function.update rest place (before ++ kept ++ after) place') :
    e' ∈ Function.update rest place (before ++ after) place' ∨
      place' = place ∧ q < e.quantity ∧ e' = { e with quantity := e.quantity - q } := by
  by_cases hplace : place' = place
  · subst hplace
    rw [Function.update_self] at he ⊢
    simp only [List.mem_append, hf.kept, true_and] at he ⊢
    rcases he with (h | h) | h
    · exact .inl (.inl h)
    · split_ifs at h with hlt
      · exact .inr ⟨hlt, List.mem_singleton.mp h⟩
      · cases h
    · exact .inl (.inr h)
  · rw [Function.update_of_ne hplace] at he ⊢
    exact .inl he

theorem Sound.besides (hs : Sound nextId (Function.update rest place (before ++ e :: after)) orders fills taker)
    (he' : e' ∈ Function.update rest place (before ++ after) place') :
    e'.orderId ≠ e.orderId ∧ e' ∈ Function.update rest place (before ++ e :: after) place' := by
  have he : e ∈ Function.update rest place (before ++ e :: after) place := by
    rw [Function.update_self]
    exact List.mem_append_right _ List.mem_cons_self
  by_cases hplace : place' = place
  · subst hplace
    have honce := hs.once place'
    rw [Function.update_self] at he' honce ⊢
    rw [List.map_append, List.map_cons] at honce
    have hperm := List.perm_middle.nodup_iff.mp honce
    rw [← List.map_append] at hperm
    refine ⟨fun hid => (List.nodup_cons.mp hperm).1 (hid ▸ List.mem_map_of_mem he'), ?_⟩
    rcases List.mem_append.mp he' with h | h
    · exact List.mem_append_left _ h
    · exact List.mem_append_right _ (List.mem_cons_of_mem _ h)
  · have hsame : e' ∈ Function.update rest place (before ++ e :: after) place' := by
      rw [Function.update_of_ne hplace] at he' ⊢
      exact he'
    exact ⟨fun hid => hplace (hs.place_eq hsame he hid), hsame⟩

/-- A fill keeps the book sound. The entry that is hit shrinks with its order, or goes when its order is done. -/
theorem Sound.fill
    (hs : Sound nextId (Function.update rest place (before ++ e :: after)) m.orders (base ++ m.fills)
      (some order.orderId))
    (hf : Filled order e m m' kept o r q) (ho : m.orders order.orderId = some o) (hr : m.orders e.orderId = some r)
    (hle : q ≤ o.leavesQty) (hle' : q ≤ e.quantity) :
    Sound nextId (Function.update rest place (before ++ kept ++ after)) m'.orders (base ++ m'.fills)
      (some order.orderId) := by
  have he : e ∈ Function.update rest place (before ++ e :: after) place := by
    rw [Function.update_self]
    exact List.mem_append_right _ List.mem_cons_self
  obtain ⟨hown, r', hrests⟩ := hs.rests place e he
  obtain rfl : r = r' := Option.some.inj (hr.symm.trans hrests.found)
  have hne : e.orderId ≠ order.orderId := fun h => hown (by rw [h]; rfl)
  have hleaves := hrests.leaves
  unfold SimOrder.leavesQty at hle hleaves
  constructor
  case own =>
    intro id o' ho'
    rcases hf.order_cases ho' with ⟨rfl, rfl⟩ | ⟨-, rfl, rfl⟩ | ⟨-, -, hold⟩
    · exact hs.own _ o ho
    · exact hs.own _ r hr
    · exact hs.own id o' hold
  case fresh =>
    intro id hid
    have hnone := hs.fresh id hid
    rw [hf.others id _ _, hnone]
    · rintro rfl
      rw [ho] at hnone
      cases hnone
    · rintro rfl
      rw [hr] at hnone
      cases hnone
  case rests =>
    intro place' e' he'
    rcases hf.mem_cases he' with h | ⟨rfl, hlt, rfl⟩
    · obtain ⟨hid, hold⟩ := hs.besides h
      obtain ⟨htaker, o', ho'⟩ := hs.rests place' e' hold
      have hid' : e'.orderId ≠ order.orderId := fun h => htaker (by rw [h]; rfl)
      exact ⟨htaker, o', { ho' with found := by rw [hf.others _ hid' hid, ho'.found] }⟩
    · refine ⟨hown, _, hf.made, hrests.at_place, hrests.limit, ?_, ?_, ?_⟩
      · have hnot : ¬r.quantity - (r.filledQty + q) ≤ 0 := by linarith
        simp only [hnot, ↓reduceIte]
        exact id
      · unfold SimOrder.leavesQty
        simp only
        linarith
      · simp only
        linarith
  case once =>
    intro place'
    have honce := hs.once place'
    by_cases hplace : place' = place
    · subst hplace
      have hsub : (kept.map Entry.orderId).Sublist [e.orderId] := by
        rw [hf.kept]
        split_ifs
        · exact List.Sublist.refl _
        · exact List.nil_sublist _
      rw [Function.update_self, List.map_append, List.map_cons] at honce
      rw [Function.update_self, List.map_append, List.map_append, List.append_assoc]
      exact honce.sublist ((List.Sublist.refl _).append (hsub.append (List.Sublist.refl _)))
    · rw [Function.update_of_ne hplace] at honce ⊢
      exact honce
  case kept =>
    intro id o' ho' hid hlimit hlive
    rcases hf.order_cases ho' with ⟨rfl, -⟩ | ⟨-, rfl, rfl⟩ | ⟨-, hide, hold⟩
    · exact absurd rfl hid
    · have hlt : q < e.quantity := by
        by_contra hnot
        have hdone : r.quantity - (r.filledQty + q) ≤ 0 := by linarith
        simp only [hdone, ↓reduceIte] at hlive
        exact hlive trivial
      refine ⟨{ e with quantity := e.quantity - q }, ?_, rfl⟩
      rw [show (r.side, r.price) = place from hrests.at_place, Function.update_self, hf.kept, if_pos hlt]
      simp
    · obtain ⟨e', he', rfl⟩ := hs.kept id o' hold hid hlimit hlive
      refine ⟨e', ?_, rfl⟩
      by_cases hplace : (o'.side, o'.price) = place
      · rw [hplace, Function.update_self] at he' ⊢
        rcases List.mem_append.mp he' with h | h
        · exact List.mem_append_left _ (List.mem_append_left _ h)
        · rcases List.mem_cons.mp h with rfl | h
          · exact absurd rfl hide
          · exact List.mem_append_right _ h
      · rw [Function.update_of_ne hplace] at he' ⊢
        exact he'
  case filled =>
    intro id o' ho'
    rw [hf.filledBy_eq]
    rcases hf.order_cases ho' with ⟨rfl, rfl⟩ | ⟨hid, rfl, rfl⟩ | ⟨hid, hide, hold⟩
    · obtain ⟨hsum, hmost⟩ := hs.filled _ o ho
      rw [if_pos rfl, if_neg hne, ← hsum]
      simp only
      exact ⟨by ring, by linarith⟩
    · obtain ⟨hsum, hmost⟩ := hs.filled _ r hr
      rw [if_pos rfl, if_neg (Ne.symm hid), ← hsum]
      simp only
      exact ⟨by ring, by linarith⟩
    · rw [if_neg (Ne.symm hid), if_neg (Ne.symm hide), add_zero, add_zero]
      exact hs.filled id o' hold
  case known => exact hf.known hs.known
  case paired =>
    obtain ⟨taker, maker, hfills, hpair, -⟩ := hf.fills
    rw [hfills, ← List.append_assoc]
    exact hs.paired.append hpair

end Fill

variable (before) in
/-- Going through a level keeps the book sound, and uses the level up unless the order is done. -/
theorem matchEntries_sound (p : ℚ) (es : List Entry) {filled : ℚ}
    (hs : Sound nextId (Function.update rest place (before ++ es)) m.orders (base ++ m.fills) (some order.orderId))
    (ho : m.orders order.orderId = some { order with filledQty := filled }) :
    let next := matchEntries order p es m
    Sound nextId (Function.update rest place (before ++ next.1)) next.2.orders (base ++ next.2.fills)
        (some order.orderId) ∧
      ∃ filled', next.2.orders order.orderId = some { order with filledQty := filled' } ∧ filled ≤ filled' ∧
        (filled' < order.quantity → next.1 = []) := by
  induction es generalizing before m filled with
  | nil => exact ⟨hs, filled, ho, le_rfl, fun _ => rfl⟩
  | cons e es ih =>
    have hleaves : m.orders.leavesQty order.orderId = order.quantity - filled := leavesQty_of_some ho
    unfold matchEntries
    by_cases hdone : m.orders.leavesQty order.orderId ≤ 0
    · have hkeep : before ++ e :: es = before ++ [e] ++ es := by simp
      rw [hkeep] at hs
      obtain ⟨hsound, filled', hfound, hle, -⟩ := ih _ hs ho
      simp only [hdone, ↓reduceIte]
      refine ⟨?_, filled', hfound, hle, fun hlt => ?_⟩
      · rwa [List.append_assoc, List.singleton_append] at hsound
      · rw [hleaves] at hdone
        linarith
    · have he : e ∈ Function.update rest place (before ++ e :: es) place := by
        rw [Function.update_self]
        exact List.mem_append_right _ List.mem_cons_self
      obtain ⟨hown, r, hrests⟩ := hs.rests place e he
      have hne : e.orderId ≠ order.orderId := fun h => hown (by rw [h]; rfl)
      have hq : 0 < min (order.quantity - filled) e.quantity :=
        lt_min (hleaves ▸ not_le.mp hdone) hrests.positive
      have hf := fillEntry_filled p ho hrests.found hne hq
      have hnext := hs.fill hf ho hrests.found (min_le_left _ _) (min_le_right _ _)
      obtain ⟨hsound, filled', hfound, hle, hempty⟩ := ih _ hnext hf.taken
      simp only [hdone, ↓reduceIte]
      refine ⟨by rwa [List.append_assoc] at hsound, filled', hfound, ?_, fun hlt => ?_⟩
      · change filled + min (order.quantity - filled) e.quantity ≤ filled' at hle
        linarith
      · change filled + min (order.quantity - filled) e.quantity ≤ filled' at hle
        have hsmall : e.quantity ≤ order.quantity - filled := by
          by_contra hbig
          rw [min_eq_left (not_le.mp hbig).le] at hle
          linarith
        have hkept := hf.kept
        change _ = if min (order.quantity - filled) e.quantity < e.quantity then _ else _ at hkept
        rw [min_eq_right hsmall, if_neg (lt_irrefl _)] at hkept
        rw [hkept, hempty hlt, List.append_nil]

end Filling

section Levels

variable {order : SimOrder} {book : BookSide} {m : Matching} {prices : List ℚ} {p q : ℚ} {side : Side}
  {nextId : ℕ} {rest : Side × ℚ → List Entry} {base : List Fill}

/-- What going through prices does to a side of the book. -/
structure Thinned (prices : List ℚ) (book book' : BookSide) (emptyLevels : List ℚ) : Prop where
  keys : ∀ p, p ∈ book' ↔ p ∈ book
  outside : ∀ p ∉ prices, book'.lookup p = book.lookup p
  price : ∀ p level', book'.lookup p = some level' → ∃ level, book.lookup p = some level ∧ level'.price = level.price
  empty : ∀ p ∈ emptyLevels, ordersAt book' p = []
  emptied : ∀ p ∈ book', ordersAt book' p = [] → p ∈ emptyLevels ∨ ordersAt book p = []

theorem Thinned.refl (prices : List ℚ) (book : BookSide) : Thinned prices book book [] where
  keys _ := Iff.rfl
  outside _ _ := rfl
  price _ level h := ⟨level, h, rfl⟩
  empty _ h := by cases h
  emptied _ _ h := .inr h

theorem ordersAt_insert (p : ℚ) (level : PriceLevel) : ordersAt (book.insert p level) p = level.orders := by
  rw [ordersAt, AList.lookup_insert, Option.elim_some]

theorem ordersAt_insert_of_ne (h : q ≠ p) (level : PriceLevel) :
    ordersAt (book.insert p level) q = ordersAt book q := by
  rw [ordersAt, AList.lookup_insert_ne h, ordersAt]

variable (order book m) in
theorem matchPrices_thinned (hn : prices.Nodup) :
    Thinned prices book (matchPrices order prices book m).1 (matchPrices order prices book m).2.2 := by
  induction prices generalizing book m with
  | nil => exact .refl _ _
  | cons price prices ih =>
    obtain ⟨hnot, hrest⟩ := List.nodup_cons.mp hn
    unfold matchPrices
    split_ifs
    · exact .refl _ _
    · exact .refl _ _
    · cases hlevel : book.lookup price with
      | none =>
        obtain ⟨hkeys, houtside, hprice, hempty, hemptied⟩ := ih book m hrest
        exact ⟨hkeys, fun p hp => houtside p fun h => hp (List.mem_cons_of_mem _ h), hprice, hempty, hemptied⟩
      | some level =>
        simp only
        generalize matchEntries order price level.orders m = next
        obtain ⟨remaining, m'⟩ := next
        obtain ⟨hkeys, houtside, hprice, hempty, hemptied⟩ := ih (book.insert price { level with
          orders := remaining }) m' hrest
        have hmem : price ∈ book := AList.lookup_isSome.mp (by rw [hlevel]; rfl)
        simp only
        generalize matchPrices order prices (book.insert price { level with orders := remaining }) m' = last
          at hkeys houtside hprice hempty hemptied ⊢
        have hhead : ordersAt last.1 price = remaining := by
          rw [ordersAt, houtside price hnot, AList.lookup_insert, Option.elim_some]
        refine ⟨fun p => ?_, fun p hp => ?_, fun p level' h => ?_, fun p h => ?_, fun p hp h => ?_⟩
        · rw [hkeys, AList.mem_insert]
          exact or_iff_right_of_imp fun h => h ▸ hmem
        · obtain ⟨hne, hp⟩ := not_or.mp fun h => hp (List.mem_cons.mpr h)
          rw [houtside p hp, AList.lookup_insert_ne hne]
        · obtain ⟨level'', hlookup, hsame⟩ := hprice p level' h
          by_cases hp : p = price
          · subst hp
            rw [AList.lookup_insert] at hlookup
            obtain rfl := Option.some.inj hlookup
            exact ⟨level, hlevel, hsame⟩
          · rw [AList.lookup_insert_ne hp] at hlookup
            exact ⟨level'', hlookup, hsame⟩
        · split_ifs at h with hnone
          · rcases List.mem_cons.mp h with rfl | h
            · rw [hhead, List.isEmpty_iff.mp hnone]
            · exact hempty p h
          · exact hempty p h
        · by_cases hpp : p = price
          · subst hpp
            rw [hhead] at h
            rw [h]
            exact .inl List.mem_cons_self
          · rw [← ordersAt_insert_of_ne hpp { level with orders := remaining }]
            refine (hemptied p hp h).imp_left fun h => ?_
            split_ifs
            · exact List.mem_cons_of_mem _ h
            · exact h

/-- The entries of a side are those of a dictionary, the others' are given. -/
def withSide (rest : Side × ℚ → List Entry) (side : Side) (book : BookSide) (place : Side × ℚ) : List Entry :=
  if place.1 = side then ordersAt book place.2 else rest place

theorem withSide_update {book' : BookSide} {entries : List Entry} (hat : ordersAt book' p = entries)
    (hothers : ∀ q, q ≠ p → ordersAt book' q = ordersAt book q) :
    withSide rest side book' = Function.update (withSide rest side book) (side, p) entries := by
  funext place
  obtain ⟨s, q⟩ := place
  by_cases hs : s = side
  · subst hs
    by_cases hq : q = p
    · subst hq
      rw [Function.update_self, withSide, if_pos rfl, hat]
    · have hne : (s, q) ≠ (s, p) := fun h => hq (Prod.mk.inj h).2
      rw [Function.update_of_ne hne, withSide, withSide, if_pos rfl, if_pos rfl, hothers q hq]
  · have hne : (s, q) ≠ (side, p) := fun h => hs (Prod.mk.inj h).1
    rw [Function.update_of_ne hne, withSide, withSide, if_neg hs, if_neg hs]

theorem withSide_insert (level : PriceLevel) : withSide rest side (book.insert p level) =
    Function.update (withSide rest side book) (side, p) level.orders :=
  withSide_update (ordersAt_insert p level) fun _ hq => ordersAt_insert_of_ne hq level

theorem withSide_erase : withSide rest side (book.erase p) = Function.update (withSide rest side book) (side, p) [] :=
  withSide_update (by rw [ordersAt, AList.lookup_erase, Option.elim_none]) fun q hq => by
    rw [ordersAt, AList.lookup_erase_ne hq, ordersAt]

/-- Going through the prices keeps the book sound, and leaves nothing the order could still trade with. -/
theorem matchPrices_sound {filled : ℚ} (hn : prices.Nodup)
    (hp : prices.Pairwise fun p q => priceOk order q = true → priceOk order p = true)
    (hs : Sound nextId (withSide rest side book) m.orders (base ++ m.fills) (some order.orderId))
    (ho : m.orders order.orderId = some { order with filledQty := filled }) :
    let next := matchPrices order prices book m
    Sound nextId (withSide rest side next.1) next.2.1.orders (base ++ next.2.1.fills) (some order.orderId) ∧
      ∃ filled', next.2.1.orders order.orderId = some { order with filledQty := filled' } ∧ filled ≤ filled' ∧
        (filled' < order.quantity → ∀ p ∈ prices, priceOk order p = true → ordersAt next.1 p = []) := by
  induction prices generalizing book m filled with
  | nil => exact ⟨hs, filled, ho, le_rfl, fun _ _ h => by cases h⟩
  | cons price prices ih =>
    obtain ⟨hnot, hrest⟩ := List.nodup_cons.mp hn
    obtain ⟨hhead, hlater⟩ := List.pairwise_cons.mp hp
    have hleaves : m.orders.leavesQty order.orderId = order.quantity - filled := leavesQty_of_some ho
    unfold matchPrices
    split_ifs with hdone hbad
    · refine ⟨hs, filled, ho, le_rfl, fun hlt => ?_⟩
      rw [hleaves] at hdone
      linarith
    · refine ⟨hs, filled, ho, le_rfl, fun _ p hmem hok => ?_⟩
      have hprice : priceOk order price = true := by
        rcases List.mem_cons.mp hmem with rfl | h
        · exact hok
        · exact hhead p h hok
      rw [hprice] at hbad
      cases hbad
    · cases hlevel : book.lookup price with
      | none =>
        obtain ⟨hsound, filled', hfound, hle, hempty⟩ := ih hrest hlater hs ho
        refine ⟨hsound, filled', hfound, hle, fun hlt p hmem hok => ?_⟩
        rcases List.mem_cons.mp hmem with rfl | h
        · simp only
          rw [ordersAt, (matchPrices_thinned _ _ _ hrest).outside p hnot, hlevel, Option.elim_none]
        · exact hempty hlt p h hok
      | some level =>
        have hsame :
            Function.update (withSide rest side book) (side, price) level.orders = withSide rest side book := by
          apply Function.update_eq_self_iff.mpr
          rw [withSide, if_pos rfl, ordersAt, hlevel, Option.elim_some]
        obtain ⟨hsound, filled', hfound, hle, hempty⟩ := matchEntries_sound [] price level.orders
          (by rw [List.nil_append, hsame]; exact hs) ho
        simp only
        generalize matchEntries order price level.orders m = next at hsound hfound hempty ⊢
        obtain ⟨remaining, m'⟩ := next
        rw [List.nil_append] at hsound
        have hbook : Function.update (withSide rest side book) (side, price) remaining =
            withSide rest side (book.insert price { level with orders := remaining }) :=
              (withSide_insert { level with orders := remaining }).symm
        rw [hbook] at hsound
        obtain ⟨hlast, filled'', hfound', hle', hempty'⟩ := ih hrest hlater hsound hfound
        refine ⟨hlast, filled'', hfound', hle.trans hle', fun hlt p hmem hok => ?_⟩
        rcases List.mem_cons.mp hmem with rfl | h
        · simp only
          rw [ordersAt, (matchPrices_thinned _ _ _ hrest).outside p hnot, AList.lookup_insert, Option.elim_some]
          exact hempty (hle'.trans_lt hlt)
        · exact hempty' hlt p h hok

end Levels

section Matching

variable {b : OrderBookSimulator} {order o : SimOrder} {side : Side} {book : BookSide} {taker : Option ℕ}
  {nextId : ℕ} {rest : Side × ℚ → List Entry} {orders : OrderTable} {fills : List Fill} {id : ℕ}
  {f : SimOrder → SimOrder}

theorem bookSide_setBookSide (b : OrderBookSimulator) (side s : Side) (book : BookSide) :
    (b.setBookSide side book).bookSide s = if s = side then book else b.bookSide s := by
  cases side <;> cases s <;> rfl

@[simp] theorem setBookSide_orders : (b.setBookSide side book).orders = b.orders := by cases side <;> rfl
@[simp] theorem setBookSide_fills : (b.setBookSide side book).fills = b.fills := by cases side <;> rfl
@[simp] theorem setBookSide_nextId : (b.setBookSide side book).nextId = b.nextId := by cases side <;> rfl

theorem setBookSide_rest : (b.setBookSide side book).rest = withSide b.rest side book := by
  funext place
  unfold OrderBookSimulator.rest withSide
  rw [bookSide_setBookSide]
  split_ifs <;> rfl

theorem withSide_self (b : OrderBookSimulator) (side : Side) : withSide b.rest side (b.bookSide side) = b.rest := by
  funext place
  unfold OrderBookSimulator.rest withSide
  split_ifs with h
  · rw [h]
  · rfl

/-- The order that is being matched may change in whatever is not counted. -/
theorem Sound.modify_taker (hs : Sound nextId rest orders fills (some id)) (hid : ∀ o, (f o).orderId = o.orderId)
    (hquantity : ∀ o, (f o).quantity = o.quantity)
    (hfilled : ∀ o, (f o).filledQty = o.filledQty) : Sound nextId rest (orders.modify id f) fills (some id) := by
  have hne {other : ℕ} (h : other ∉ some id) : other ≠ id := fun heq => h (by rw [heq]; rfl)
  constructor
  case own =>
    intro other o ho
    by_cases h : other = id
    · subst h
      rw [OrderTable.modify, Function.update_self] at ho
      obtain ⟨o', ho', rfl⟩ := Option.map_eq_some_iff.mp ho
      rw [hid]
      exact hs.own other o' ho'
    · rw [modify_of_ne h] at ho
      exact hs.own other o ho
  case fresh =>
    intro other hother
    rw [← Option.isNone_iff_eq_none, ← Option.not_isSome, modify_isSome, hs.fresh other hother]
    rfl
  case rests =>
    intro place e he
    obtain ⟨hown, o, ho⟩ := hs.rests place e he
    exact ⟨hown, o, { ho with found := by rw [modify_of_ne (hne hown), ho.found] }⟩
  case once => exact hs.once
  case kept =>
    intro other o ho hother
    rw [modify_of_ne (hne hother)] at ho
    exact hs.kept other o ho hother
  case filled =>
    intro other o ho
    by_cases h : other = id
    · subst h
      rw [OrderTable.modify, Function.update_self] at ho
      obtain ⟨o', ho', rfl⟩ := Option.map_eq_some_iff.mp ho
      rw [hfilled, hquantity]
      exact hs.filled other o' ho'
    · rw [modify_of_ne h] at ho
      exact hs.filled other o ho
  case known =>
    intro f hf
    rw [modify_isSome]
    exact hs.known f hf
  case paired => exact hs.paired

theorem Sound.release (hs : Sound nextId rest orders fills (some id))
    (h : ∀ o, orders id = some o → o.orderType = .limit → o.status.terminal) : Sound nextId rest orders fills none where
  own := hs.own
  fresh := hs.fresh
  rests place e he := ⟨by simp, (hs.rests place e he).2⟩
  once := hs.once
  kept other o ho _ hlimit hlive := by
    refine hs.kept other o ho (fun hother => ?_) hlimit hlive
    obtain rfl : id = other := by simpa using hother
    exact hlive (h o ho hlimit)
  filled := hs.filled
  known := hs.known
  paired := hs.paired

theorem Sound.addEntry (hs : Sound nextId rest orders fills (some id)) (ho : orders id = some o)
    (hlimit : o.orderType = .limit)
    (hlive : ¬o.status.terminal) (hleaves : 0 < o.leavesQty) (t : ℚ) :
    Sound nextId (Function.update rest (o.side, o.price) (rest (o.side, o.price) ++ [⟨t, id, o.leavesQty⟩])) orders
      fills
      none := by
  have hown : ∀ e ∈ rest (o.side, o.price), e.orderId ≠ id := fun e he h =>
    (hs.rests _ e he).1 (by rw [h]; rfl)
  have hmem : ∀ place, ∀ e ∈ rest place,
      e ∈ Function.update rest (o.side, o.price) (rest (o.side, o.price) ++ [⟨t, id, o.leavesQty⟩]) place := by
    intro place e he
    by_cases hplace : place = (o.side, o.price)
    · subst hplace
      rw [Function.update_self]
      exact List.mem_append_left _ he
    · rwa [Function.update_of_ne hplace]
  constructor
  case own => exact hs.own
  case fresh => exact hs.fresh
  case rests =>
    intro place e he
    refine ⟨by simp, ?_⟩
    by_cases hplace : place = (o.side, o.price)
    · subst hplace
      rw [Function.update_self] at he
      rcases List.mem_append.mp he with h | h
      · exact (hs.rests _ e h).2
      · obtain rfl := List.mem_singleton.mp h
        exact ⟨o, ho, rfl, hlimit, hlive, rfl, hleaves⟩
    · rw [Function.update_of_ne hplace] at he
      exact (hs.rests place e he).2
  case once =>
    intro place
    by_cases hplace : place = (o.side, o.price)
    · subst hplace
      rw [Function.update_self, List.map_append, List.map_singleton]
      refine List.nodup_append.mpr ⟨hs.once _, List.nodup_singleton _, fun a ha c hc => ?_⟩
      obtain ⟨e, he, rfl⟩ := List.mem_map.mp ha
      rw [List.mem_singleton.mp hc]
      exact hown e he
    · rw [Function.update_of_ne hplace]
      exact hs.once place
  case kept =>
    intro other o' ho' _ hlimit' hlive'
    by_cases hother : other = id
    · subst hother
      obtain rfl := Option.some.inj (ho.symm.trans ho')
      refine ⟨⟨t, other, o.leavesQty⟩, ?_, rfl⟩
      rw [Function.update_self]
      exact List.mem_append_right _ (List.mem_singleton_self _)
    · obtain ⟨e, he, hid⟩ := hs.kept other o' ho' (fun h => hother (Option.some.inj h).symm) hlimit' hlive'
      exact ⟨e, hmem _ e he, hid⟩
  case filled => exact hs.filled
  case known => exact hs.known
  case paired => exact hs.paired

theorem lookup_eraseAll (levels : List ℚ) (book : BookSide) (p : ℚ) :
    (levels.foldl (fun book price => book.erase price) book).lookup p =
      if p ∈ levels then none else book.lookup p := by
  induction levels generalizing book with
  | nil => simp
  | cons price levels ih =>
    rw [List.foldl_cons, ih]
    by_cases hp : p = price
    · subst hp
      simp [AList.lookup_erase]
    · simp [hp, AList.lookup_erase_ne hp]

section Cleaned

variable {prices emptyLevels : List ℚ} {book' cleaned : BookSide} {p : ℚ}

theorem Thinned.cleaned_ordersAt (h : Thinned prices book book' emptyLevels)
    (hcleaned : ∀ p, cleaned.lookup p = if p ∈ emptyLevels then none else book'.lookup p) (p : ℚ) :
    ordersAt cleaned p = ordersAt book' p := by
  have hempty := h.empty p
  unfold ordersAt at hempty ⊢
  rw [hcleaned]
  split_ifs with hp
  · exact (hempty hp).symm
  · rfl

theorem Thinned.cleaned_subset (h : Thinned prices book book' emptyLevels)
    (hcleaned : ∀ p, cleaned.lookup p = if p ∈ emptyLevels then none else book'.lookup p) (hp : p ∈ cleaned) :
    p ∈ book := by
  rw [← AList.lookup_isSome, hcleaned] at hp
  split_ifs at hp
  · cases hp
  · exact (h.keys p).mp (AList.lookup_isSome.mp hp)

theorem Thinned.cleaned_levels (h : Thinned prices book book' emptyLevels)
    (hcleaned : ∀ p, cleaned.lookup p = if p ∈ emptyLevels then none else book'.lookup p)
    (hlevels : ∀ p level, book.lookup p = some level → level.price = p ∧ level.orders ≠ []) {level : PriceLevel}
    (hp : cleaned.lookup p = some level) : level.price = p ∧ level.orders ≠ [] := by
  have hat : ordersAt cleaned p = level.orders := by rw [ordersAt, hp, Option.elim_some]
  rw [h.cleaned_ordersAt hcleaned] at hat
  rw [hcleaned] at hp
  split_ifs at hp with hnot
  obtain ⟨old, hold, hsame⟩ := h.price p level hp
  obtain ⟨hpp, hne⟩ := hlevels p old hold
  refine ⟨hsame.trans hpp, fun hnil => ?_⟩
  rcases h.emptied p (AList.lookup_isSome.mp (by rw [hp]; rfl)) (by rw [hat, hnil]) with hempty | hempty
  · exact hnot hempty
  · rw [ordersAt, hold, Option.elim_some] at hempty
    exact hne hempty

end Cleaned

theorem bestFirst_nodup {prices : List ℚ} (h : prices.Nodup) : (bestFirst side prices).Nodup := by
  cases side
  · exact (List.perm_insertionSort _ _).nodup_iff.mpr h
  · exact (List.perm_insertionSort _ _).nodup_iff.mpr h

theorem mem_bestFirst {prices : List ℚ} {p : ℚ} : p ∈ bestFirst side prices ↔ p ∈ prices := by
  cases side
  · exact (List.perm_insertionSort _ _).mem_iff
  · exact (List.perm_insertionSort _ _).mem_iff

/-- Behind a price that is not good enough, none is. -/
theorem bestFirst_priceOk (order : SimOrder) (prices : List ℚ) : (bestFirst order.side prices).Pairwise
    fun p q => priceOk order q = true → priceOk order p = true := by
  unfold priceOk
  cases order.side with
  | buy =>
    refine (List.pairwise_insertionSort (· ≤ ·) prices).imp fun {p q} hle h => ?_
    simp only [Bool.or_eq_true, decide_eq_true_eq] at h ⊢
    exact h.imp_right hle.trans
  | sell =>
    refine (List.pairwise_insertionSort (· ≥ ·) prices).imp fun {p q} hle h => ?_
    simp only [Bool.or_eq_true, decide_eq_true_eq] at h ⊢
    exact h.imp_right fun h => h.trans hle

/-- What an order has become when it has been matched. -/
structure WasMatched (b : OrderBookSimulator) (order o : SimOrder) : Prop where
  found : b.orders order.orderId = some o
  same : o.orderId = order.orderId ∧ o.side = order.side ∧ o.orderType = order.orderType ∧ o.price = order.price
  live : 0 < o.leavesQty → ¬o.status.terminal
  done : ¬0 < o.leavesQty → o.status.terminal
  beaten : 0 < o.leavesQty → ∀ p ∈ b.bookSide (opposite order.side), priceOk order p = false

theorem with_bookSide (b : OrderBookSimulator) (orders : OrderTable) (fills : List Fill) (next : ℕ) (s : Side) :
    ({ b with orders, fills, nextId := next } : OrderBookSimulator).bookSide s = b.bookSide s := by
  cases s <;> rfl

theorem with_rest (b : OrderBookSimulator) (orders : OrderTable) (fills : List Fill) (next : ℕ) :
    ({ b with orders, fills, nextId := next } : OrderBookSimulator).rest = b.rest := by
  funext place
  unfold OrderBookSimulator.rest
  rw [with_bookSide]

theorem BookInvariant.with_orders {taker' : Option ℕ} (hb : BookInvariant taker b)
    (hs : Sound b.nextId b.rest orders b.fills taker') : BookInvariant taker' { b with orders } where
  uncrossed := by
    simp only [with_bookSide b orders b.fills b.nextId]
    exact hb.uncrossed
  levels := by
    simp only [with_bookSide b orders b.fills b.nextId]
    exact hb.levels
  sound := by
    rw [with_rest b orders b.fills b.nextId]
    exact hs

/-- `_match` sets the status of the order last. -/
def markMatched (o : SimOrder) : SimOrder :=
  if o.leavesQty ≤ 0 then { o with status := .filled }
  else if o.filledQty > 0 then { o with status := .partiallyFilled }
  else o

theorem markMatched_same (o : SimOrder) : markMatched o = { o with status := (markMatched o).status } := by
  unfold markMatched
  split_ifs <;> rfl

theorem markMatched_live (hlive : ¬o.status.terminal) (hpos : 0 < o.leavesQty) :
    ¬(markMatched o).status.terminal := by
  unfold markMatched
  rw [if_neg (not_le.mpr hpos)]
  split_ifs
  · exact id
  · exact hlive

theorem markMatched_done (h : ¬0 < o.leavesQty) : (markMatched o).status.terminal := by
  unfold markMatched
  rw [if_pos (not_lt.mp h)]
  exact trivial

theorem matchOrder_invariant (hb : BookInvariant (some order.orderId) b) (ho : b.orders order.orderId = some order)
    (hlive : ¬order.status.terminal) (clock : List ℚ) :
    BookInvariant (some order.orderId) (b.matchOrder order clock) ∧
      ∃ o, WasMatched (b.matchOrder order clock) order o := by
  have hn : (bestFirst order.side (b.bookSide (opposite order.side)).keys).Nodup :=
    bestFirst_nodup (b.bookSide (opposite order.side)).keys_nodup
  have hs : Sound b.nextId (withSide b.rest (opposite order.side) (b.bookSide (opposite order.side))) b.orders
      (b.fills ++ []) (some order.orderId) := by
    rw [withSide_self, List.append_nil]
    exact hb.sound
  have hstart : b.orders order.orderId = some { order with filledQty := order.filledQty } := ho
  obtain ⟨hsound, filled, hfound, -, hbeaten⟩ := matchPrices_sound (m := { orders := b.orders, clock := clock }) hn
    (bestFirst_priceOk order _) hs hstart
  have hthinned := matchPrices_thinned order (b.bookSide (opposite order.side))
    { orders := b.orders, clock := clock } hn
  unfold OrderBookSimulator.matchOrder
  simp only
  generalize matchPrices order (bestFirst order.side (b.bookSide (opposite order.side)).keys)
    (b.bookSide (opposite order.side)) { orders := b.orders, clock := clock } = next
    at hsound hfound hbeaten hthinned ⊢
  obtain ⟨book, m, emptyLevels⟩ := next
  simp only at hsound hfound hbeaten hthinned ⊢
  have hlookup := lookup_eraseAll emptyLevels book
  generalize emptyLevels.foldl (fun book price => book.erase price) book = cleaned at hlookup ⊢
  have hrest : withSide b.rest (opposite order.side) cleaned = withSide b.rest (opposite order.side) book := by
    funext place
    unfold withSide
    rw [hthinned.cleaned_ordersAt hlookup]
  have hmark : (fun o : SimOrder => if o.leavesQty ≤ 0 then { o with status := .filled }
      else if o.filledQty > 0 then { o with status := .partiallyFilled } else o) = markMatched := rfl
  rw [hmark]
  have hbook (s : Side) : ({ b.setBookSide (opposite order.side) cleaned with
      orders := m.orders.modify order.orderId markMatched, fills := b.fills ++ m.fills } :
        OrderBookSimulator).bookSide s = if s = opposite order.side then cleaned else b.bookSide s := by
    rw [← bookSide_setBookSide]
    exact with_bookSide _ _ _ _ s
  have hshrunk (s : Side) : ∀ p ∈ if s = opposite order.side then cleaned else b.bookSide s, p ∈ b.bookSide s := by
    intro p hp
    split_ifs at hp with hside
    · rw [hside]
      exact hthinned.cleaned_subset hlookup hp
    · exact hp
  have hleaves : (markMatched { order with filledQty := filled }).leavesQty = order.quantity - filled := by
    rw [markMatched_same]
    rfl
  refine ⟨⟨?_, ?_, ?_⟩, markMatched { order with filledQty := filled }, ?_, ?_, ?_, ?_, ?_⟩
  · rw [hbook, hbook]
    exact fun p hp q hq => hb.uncrossed p (hshrunk _ p hp) q (hshrunk _ q hq)
  · intro s p level hp
    rw [hbook] at hp
    split_ifs at hp
    · exact hthinned.cleaned_levels hlookup (hb.levels _) hp
    · exact hb.levels s p level hp
  · have hmarked := hsound.modify_taker (f := markMatched) (fun o => by rw [markMatched_same])
      (fun o => by rw [markMatched_same]) (fun o => by rw [markMatched_same])
    rw [← hrest, ← setBookSide_rest] at hmarked
    rw [with_rest]
    simp only [setBookSide_nextId]
    exact hmarked
  · exact modify_self hfound
  · rw [markMatched_same]
    exact ⟨rfl, rfl, rfl, rfl⟩
  · intro hpos
    rw [hleaves] at hpos
    exact markMatched_live hlive hpos
  · intro hnot
    rw [hleaves] at hnot
    exact markMatched_done hnot
  · intro hpos p hp
    rw [hleaves] at hpos
    rw [hbook, if_pos rfl] at hp
    obtain ⟨level, hlevel⟩ := Option.isSome_iff_exists.mp (AList.lookup_isSome.mpr hp)
    cases hok : priceOk order p with
    | false => rfl
    | true =>
      have hmem := hthinned.cleaned_subset hlookup hp
      have hnone := hbeaten (by linarith) p (mem_bestFirst.mpr (AList.mem_keys.mp hmem)) hok
      rw [← hthinned.cleaned_ordersAt hlookup, ordersAt, hlevel, Option.elim_some] at hnone
      exact absurd hnone (hthinned.cleaned_levels hlookup (hb.levels _) hlevel).2

theorem addToBook_rest (b : OrderBookSimulator) (o : SimOrder) : (b.addToBook o).rest =
    Function.update b.rest (o.side, o.price)
      (b.rest (o.side, o.price) ++ [⟨o.timestamp, o.orderId, o.leavesQty⟩]) := by
  have hlevel : (((b.bookSide o.side).lookup o.price).getD { price := o.price }).orders = b.rest (o.side, o.price) := by
    unfold OrderBookSimulator.rest ordersAt
    cases (b.bookSide o.side).lookup o.price <;> rfl
  unfold OrderBookSimulator.addToBook
  simp only
  rw [setBookSide_rest, withSide_insert, withSide_self, hlevel]

/-- An order that nothing on the other side can trade with may be added without crossing the book. -/
theorem addToBook_uncrossed (hu : ∀ p ∈ b.bookSide .buy, ∀ q ∈ b.bookSide .sell, p < q)
    (hlimit : o.orderType = .limit) (hbeaten : ∀ p ∈ b.bookSide (opposite o.side), priceOk o p = false) :
    ∀ p ∈ (b.addToBook o).bookSide .buy, ∀ q ∈ (b.addToBook o).bookSide .sell, p < q := by
  unfold OrderBookSimulator.addToBook
  simp only [bookSide_setBookSide]
  unfold priceOk at hbeaten
  rw [hlimit] at hbeaten
  cases hside : o.side with
  | buy =>
    rw [hside] at hbeaten
    intro p hp q hq
    rcases (AList.mem_insert _).mp hp with rfl | hp
    · have hbad := hbeaten q hq
      simp only [reduceCtorEq, decide_false, Bool.false_or, decide_eq_false_iff_not, not_le] at hbad
      exact hbad
    · exact hu p hp q hq
  | sell =>
    rw [hside] at hbeaten
    intro p hp q hq
    rcases (AList.mem_insert _).mp hq with rfl | hq
    · have hbad := hbeaten p hp
      simp only [reduceCtorEq, decide_false, Bool.false_or, decide_eq_false_iff_not, not_le] at hbad
      exact hbad
    · exact hu p hp q hq

theorem addToBook_levels (hl : ∀ side p level, (b.bookSide side).lookup p = some level →
      level.price = p ∧ level.orders ≠ []) :
    ∀ side p level, ((b.addToBook o).bookSide side).lookup p = some level → level.price = p ∧ level.orders ≠ [] := by
  intro side p level h
  unfold OrderBookSimulator.addToBook at h
  simp only [bookSide_setBookSide] at h
  split_ifs at h with hside
  · by_cases hp : p = o.price
    · subst hp
      rw [AList.lookup_insert] at h
      obtain rfl := Option.some.inj h
      refine ⟨?_, by simp⟩
      cases hlevel : (b.bookSide o.side).lookup o.price with
      | none => rfl
      | some level => exact (hl _ _ _ hlevel).1
    · rw [AList.lookup_insert_ne hp] at h
      exact hl _ _ _ h
  · exact hl _ _ _ h

/-- What is left of a matched order rests or goes, and nothing is exempt any more. -/
theorem handleResidual_invariant (hb : BookInvariant (some order.orderId) b) (hm : WasMatched b order o) :
    BookInvariant none (b.handleResidual order.orderId) := by
  obtain ⟨hfound, ⟨hid, hside, htype, hprice⟩, hlive, hdone, hbeaten⟩ := hm
  unfold OrderBookSimulator.handleResidual
  rw [hfound]
  simp only
  split_ifs with hpos hlimit
  · have hbad : ∀ p ∈ b.bookSide (opposite o.side), priceOk o p = false := by
      intro p hp
      rw [hside] at hp
      have hp := hbeaten hpos p hp
      unfold priceOk at hp ⊢
      rwa [htype, hside, hprice]
    refine ⟨addToBook_uncrossed hb.uncrossed hlimit hbad, addToBook_levels hb.levels, ?_⟩
    have hsound := hb.sound.addEntry hfound hlimit (hlive hpos) hpos o.timestamp
    rw [← hid, ← addToBook_rest] at hsound
    simpa only [OrderBookSimulator.addToBook, setBookSide_orders, setBookSide_fills, setBookSide_nextId] using hsound
  · have hmarked := hb.sound.modify_taker (f := fun o => { o with
      status := if o.filledQty > 0 then .partiallyFilled else .canceled }) (fun _ => rfl) (fun _ => rfl) fun _ => rfl
    refine hb.with_orders (hmarked.release fun o' ho' hlimit' => ?_)
    rw [modify_self hfound] at ho'
    obtain rfl := Option.some.inj ho'
    exact absurd hlimit' hlimit
  · refine ⟨hb.uncrossed, hb.levels, hb.sound.release fun o' ho' _ => ?_⟩
    rw [hfound] at ho'
    exact Option.some.inj ho' ▸ hdone hpos

end Matching

section Calls

open OrderBookSimulator

variable {b : OrderBookSimulator} {o : SimOrder} {id : ℕ} {rest : Side × ℚ → List Entry} {orders : OrderTable}
  {fills : List Fill} {nextId : ℕ}

theorem Sound.insert (hs : Sound nextId rest orders fills none) (hid : o.orderId = nextId) (hzero : o.filledQty = 0)
    (hq : 0 < o.quantity) :
    Sound (nextId + 1) rest (Function.update orders nextId (some o)) fills (some nextId) := by
  have hnone := hs.fresh nextId le_rfl
  have hne {other : ℕ} (h : (orders other).isSome) : other ≠ nextId := by
    rintro rfl
    rw [hnone] at h
    cases h
  constructor
  case own =>
    intro other o' ho'
    by_cases h : other = nextId
    · subst h
      rw [Function.update_self] at ho'
      rw [← Option.some.inj ho', hid]
    · rw [Function.update_of_ne h] at ho'
      exact hs.own other o' ho'
  case fresh =>
    intro other hother
    rw [Function.update_of_ne (by omega)]
    exact hs.fresh other (by omega)
  case rests =>
    intro place e he
    obtain ⟨-, o', ho'⟩ := hs.rests place e he
    have hother : e.orderId ≠ nextId := hne (by rw [ho'.found]; rfl)
    exact ⟨fun h => hother (Option.some.inj h).symm, o', { ho' with
      found := by rw [Function.update_of_ne hother, ho'.found] }⟩
  case once => exact hs.once
  case kept =>
    intro other o' ho' hother
    have h : other ≠ nextId := fun heq => hother (by rw [heq]; rfl)
    rw [Function.update_of_ne h] at ho'
    exact hs.kept other o' ho' (by simp)
  case filled =>
    intro other o' ho'
    by_cases h : other = nextId
    · subst h
      rw [Function.update_self] at ho'
      obtain rfl := Option.some.inj ho'
      rw [hzero, filledBy_of_unknown fun f hf => hne (hs.known f hf)]
      exact ⟨rfl, hq.le⟩
    · rw [Function.update_of_ne h] at ho'
      exact hs.filled other o' ho'
  case known =>
    intro f hf
    rw [Function.update_of_ne (hne (hs.known f hf))]
    exact hs.known f hf
  case paired => exact hs.paired

theorem Sound.remove (hs : Sound nextId rest orders fills none) (ho : orders id = some o) :
    Sound nextId (Function.update rest (o.side, o.price)
      ((rest (o.side, o.price)).filter fun e => e.orderId ≠ id)) orders fills (some id) := by
  have hmem : ∀ place, ∀ e, e ∈ Function.update rest (o.side, o.price)
      ((rest (o.side, o.price)).filter fun e => e.orderId ≠ id) place ↔ e ∈ rest place ∧ e.orderId ≠ id := by
    intro place e
    by_cases hplace : place = (o.side, o.price)
    · subst hplace
      rw [Function.update_self, List.mem_filter, decide_eq_true_eq]
    · rw [Function.update_of_ne hplace]
      refine ⟨fun he => ⟨he, fun h => hplace ?_⟩, And.left⟩
      obtain ⟨-, o', ho'⟩ := hs.rests place e he
      rw [← ho'.at_place, Option.some.inj (ho'.found.symm.trans (h ▸ ho))]
  constructor
  case own => exact hs.own
  case fresh => exact hs.fresh
  case rests =>
    intro place e he
    obtain ⟨he, hne⟩ := (hmem place e).mp he
    exact ⟨fun h => hne (Option.some.inj h).symm, (hs.rests place e he).2⟩
  case once =>
    intro place
    by_cases hplace : place = (o.side, o.price)
    · subst hplace
      rw [Function.update_self]
      exact (hs.once _).sublist (List.filter_sublist.map _)
    · rw [Function.update_of_ne hplace]
      exact hs.once place
  case kept =>
    intro other o' ho' hother hlimit hlive
    obtain ⟨e, he, rfl⟩ := hs.kept other o' ho' (by simp) hlimit hlive
    exact ⟨e, (hmem _ e).mpr ⟨he, fun h => hother (by rw [h]; rfl)⟩, rfl⟩
  case filled => exact hs.filled
  case known => exact hs.known
  case paired => exact hs.paired

theorem submitOrder_invariant (hb : BookInvariant none b) (side : Side) (orderType : OrderType) (price : ℚ)
    {quantity : ℚ} (hq : 0 < quantity) (clock : List ℚ) :
    BookInvariant none (b.submitOrder side orderType price quantity clock) := by
  unfold submitOrder
  simp only
  generalize hnew : SimOrder.mk b.nextId b.symbol side orderType price quantity 0 .accepted (clock.headD 0) = order
  have hid : order.orderId = b.nextId := by rw [← hnew]
  have hinsert := hb.sound.insert (o := order) hid (by rw [← hnew]) (by rw [← hnew]; exact hq)
  rw [← hid] at hinsert ⊢
  have hfound : Function.update b.orders order.orderId (some order) order.orderId = some order :=
    Function.update_self ..
  have hadded : BookInvariant (some order.orderId) { b with
      nextId := order.orderId + 1, orders := Function.update b.orders order.orderId (some order) } := by
    refine ⟨?_, ?_, ?_⟩
    · simp only [with_bookSide b _ b.fills]
      exact hb.uncrossed
    · simp only [with_bookSide b _ b.fills]
      exact hb.levels
    · rw [with_rest b _ b.fills]
      exact hinsert
  split_ifs
  · have hrejected := hadded.sound.modify_taker (f := fun o => { o with status := .rejected }) (fun _ => rfl)
      (fun _ => rfl) fun _ => rfl
    refine hadded.with_orders (hrejected.release fun o ho _ => ?_)
    rw [modify_self hfound] at ho
    obtain rfl := Option.some.inj ho
    exact trivial
  · obtain ⟨hmatched, o, ho⟩ := matchOrder_invariant hadded hfound (by rw [← hnew]; exact id) clock.tail
    exact handleResidual_invariant hmatched ho

theorem removeFromBook_rest (ho : b.orders id = some o) : (b.removeFromBook id).rest =
    Function.update b.rest (o.side, o.price) ((b.rest (o.side, o.price)).filter fun e => e.orderId ≠ id) := by
  unfold removeFromBook
  rw [ho]
  simp only
  cases hlevel : (b.bookSide o.side).lookup o.price with
  | none =>
    have hnone : b.rest (o.side, o.price) = [] := by
      unfold OrderBookSimulator.rest ordersAt
      rw [hlevel, Option.elim_none]
    rw [hnone, List.filter_nil, ← hnone, Function.update_eq_self]
  | some level =>
    have hat : b.rest (o.side, o.price) = level.orders := by
      unfold OrderBookSimulator.rest ordersAt
      rw [hlevel, Option.elim_some]
    simp only
    rw [setBookSide_rest, hat]
    split_ifs with hempty
    · rw [withSide_erase, withSide_self, List.isEmpty_iff.mp hempty]
    · rw [withSide_insert, withSide_self]

theorem removeFromBook_level (hb : BookInvariant none b) {side : Side} {p : ℚ} {level : PriceLevel}
    (h : ((b.removeFromBook id).bookSide side).lookup p = some level) :
    level.price = p ∧ level.orders ≠ [] ∧ p ∈ b.bookSide side := by
  have hold {level : PriceLevel} (h : (b.bookSide side).lookup p = some level) :
      level.price = p ∧ level.orders ≠ [] ∧ p ∈ b.bookSide side := by
    obtain ⟨hprice, hne⟩ := hb.levels side p level h
    exact ⟨hprice, hne, AList.lookup_isSome.mp (by rw [h]; rfl)⟩
  unfold removeFromBook at h
  cases ho : b.orders id with
  | none =>
    rw [ho] at h
    exact hold h
  | some o =>
    rw [ho] at h
    simp only at h
    cases hlevel : (b.bookSide o.side).lookup o.price with
    | none =>
      rw [hlevel] at h
      exact hold h
    | some found =>
      rw [hlevel] at h
      simp only [bookSide_setBookSide] at h
      split_ifs at h with hside hempty
      · subst hside
        by_cases hp : p = o.price
        · subst hp
          rw [AList.lookup_erase] at h
          cases h
        · rw [AList.lookup_erase_ne hp] at h
          exact hold h
      · subst hside
        by_cases hp : p = o.price
        · subst hp
          rw [AList.lookup_insert] at h
          obtain rfl := Option.some.inj h
          obtain ⟨hprice, -, hmem⟩ := hold hlevel
          exact ⟨hprice, fun hnil => hempty (List.isEmpty_iff.mpr hnil), hmem⟩
        · rw [AList.lookup_insert_ne hp] at h
          exact hold h
      · exact hold h

theorem removeFromBook_same (b : OrderBookSimulator) (id : ℕ) : (b.removeFromBook id).orders = b.orders ∧
    (b.removeFromBook id).fills = b.fills ∧ (b.removeFromBook id).nextId = b.nextId := by
  unfold removeFromBook
  split
  · exact ⟨rfl, rfl, rfl⟩
  · simp only
    split
    · exact ⟨rfl, rfl, rfl⟩
    · exact ⟨setBookSide_orders, setBookSide_fills, setBookSide_nextId⟩

theorem removeFromBook_invariant (hb : BookInvariant none b) (ho : b.orders id = some o) :
    BookInvariant (some id) (b.removeFromBook id) := by
  have hmem (side : Side) : ∀ p ∈ (b.removeFromBook id).bookSide side, p ∈ b.bookSide side := by
    intro p hp
    obtain ⟨level, hlevel⟩ := Option.isSome_iff_exists.mp (AList.lookup_isSome.mpr hp)
    exact (removeFromBook_level hb hlevel).2.2
  obtain ⟨horders, hfills, hnext⟩ := removeFromBook_same b id
  refine ⟨fun p hp q hq => hb.uncrossed p (hmem _ p hp) q (hmem _ q hq), fun side p level h => ?_, ?_⟩
  · obtain ⟨hprice, hne, -⟩ := removeFromBook_level hb h
    exact ⟨hprice, hne⟩
  · rw [removeFromBook_rest ho, horders, hfills, hnext]
    exact hb.sound.remove ho

theorem cancelOrder_invariant (hb : BookInvariant none b) (id : ℕ) : BookInvariant none (b.cancelOrder id).2 := by
  unfold cancelOrder
  cases ho : b.orders id with
  | none => exact hb
  | some o =>
    simp only
    split_ifs
    · exact hb
    · have hremoved := removeFromBook_invariant hb ho
      have hcanceled := hremoved.sound.modify_taker (f := fun o => { o with status := .canceled }) (fun _ => rfl)
        (fun _ => rfl) fun _ => rfl
      refine hremoved.with_orders (hcanceled.release fun o' ho' _ => ?_)
      obtain ⟨horders, -, -⟩ := removeFromBook_same b id
      rw [modify_self (horders ▸ ho)] at ho'
      obtain rfl := Option.some.inj ho'
      exact trivial

theorem rest_of_empty (hbids : b.bids = ∅) (hasks : b.asks = ∅) : b.rest = fun _ => [] := by
  funext place
  unfold OrderBookSimulator.rest
  cases place.1 with
  | buy => rw [bookSide, hbids]; rfl
  | sell => rw [bookSide, hasks]; rfl

theorem initial_invariant (symbol : String) (tickSize : ℚ) :
    BookInvariant none ({ symbol, tickSize } : OrderBookSimulator) where
  uncrossed _ hp := absurd hp (AList.notMem_empty _)
  levels side p level h := by cases side <;> cases h
  sound := by
    rw [rest_of_empty rfl rfl]
    constructor
    case own =>
      intro id o h
      cases h
    case fresh => exact fun _ _ => rfl
    case rests => exact fun _ => List.forall_mem_nil _
    case once => exact fun _ => List.nodup_nil
    case kept =>
      intro id o h
      cases h
    case filled =>
      intro id o h
      cases h
    case known => exact List.forall_mem_nil _
    case paired => exact .nil

theorem run_invariant (hb : BookInvariant none b) {calls : List Call}
    (hq : ∀ side orderType price quantity clock,
      .submitOrder side orderType price quantity clock ∈ calls → 0 < quantity) : BookInvariant none (b.run calls) := by
  induction calls generalizing b with
  | nil => exact hb
  | cons c calls ih =>
    refine ih ?_ fun s t p q k h => hq s t p q k (List.mem_cons_of_mem _ h)
    cases c with
    | submitOrder side orderType price quantity clock =>
      exact submitOrder_invariant hb side orderType price (hq _ _ _ _ _ List.mem_cons_self) clock
    | cancelOrder id => exact cancelOrder_invariant hb id

theorem calls_keep_book (symbol : String) (tickSize : ℚ) (calls : List Call)
    (hq : ∀ side orderType price quantity clock,
      .submitOrder side orderType price quantity clock ∈ calls → 0 < quantity) :
    BookInvariant none (({ symbol, tickSize } : OrderBookSimulator).run calls) :=
  run_invariant (initial_invariant symbol tickSize) hq

theorem calls_keep_book_partly_filled :
    let calls : List Call := [.submitOrder .sell .limit 10 5 [], .submitOrder .buy .limit 11 8 [],
      .submitOrder .sell .ioc 11 4 [], .cancelOrder 2]
    BookInvariant none (({ symbol := "ABC", tickSize := 1 / 100 } : OrderBookSimulator).run calls) := by
  intro calls
  apply calls_keep_book
  intro side orderType price quantity clock h
  simp only [calls, List.mem_cons, List.not_mem_nil, Call.submitOrder.injEq, reduceCtorEq, or_false] at h
  rcases h with ⟨-, -, -, rfl, -⟩ | ⟨-, -, -, rfl, -⟩ | ⟨-, -, -, rfl, -⟩ <;> norm_num

end Calls

end Klett.Sor.Simulation

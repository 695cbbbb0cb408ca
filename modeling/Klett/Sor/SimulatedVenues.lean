import Klett.Sor.MarketSimulator

namespace Klett.Sor.Simulation

open Klett.Lib OrderBookSimulator

section Books

/-- The states of a venue's book: those that come of its calls, and of the simulated market emptying it. -/
inductive VenueBook : OrderBookSimulator → Prop
  | fresh (symbol : String) (tickSize : ℚ) : VenueBook { symbol, tickSize }
  | call {b : OrderBookSimulator} (h : VenueBook b) (c : Call) : VenueBook (b.call c)
  | wipe {b : OrderBookSimulator} (h : VenueBook b) : VenueBook b.wipe

variable {b : OrderBookSimulator}

theorem VenueBook.inOrder (h : VenueBook b) : InOrder b := by
  induction h with
  | fresh symbol tickSize => exact inOrder_of_empty rfl rfl (List.forall_mem_nil _)
  | call _ c ih => exact call_inOrder ih c
  | wipe _ ih => exact inOrder_of_empty rfl rfl ih.fresh

end Books

namespace MarketSimulator

section Runs

variable {sim : MarketSimulator} {side : Side} {price : Option ℚ}

def VenueBooks (sim : MarketSimulator) : Prop := ∀ id, VenueBook (sim.books id)

theorem setBook_self (sim : MarketSimulator) (id : ℤ) (book : OrderBookSimulator) :
    (sim.setBook id book).books id = book := by
  unfold setBook
  exact Function.update_self ..

theorem setBook_of_ne {id other : ℤ} (h : other ≠ id) (sim : MarketSimulator) (book : OrderBookSimulator) :
    (sim.setBook id book).books other = sim.books other := by
  unfold setBook
  exact Function.update_of_ne h ..

theorem VenueBooks.setBook (h : sim.VenueBooks) {book : OrderBookSimulator} (hbook : VenueBook book) (id : ℤ) :
    (sim.setBook id book).VenueBooks := by
  intro other
  by_cases hid : other = id
  · rw [hid, setBook_self]
    exact hbook
  · rw [setBook_of_ne hid]
    exact h other

theorem VenueBooks.submit (h : sim.VenueBooks) (id : ℤ) (side : Side) (orderType : OrderType) (price quantity : ℚ) :
    (sim.submit id side orderType price quantity).VenueBooks :=
  h.setBook ((h id).call (.submitOrder side orderType price quantity (sim.clocks.headD []))) id

theorem VenueBooks.populateBook (h : sim.VenueBooks) (depth : ℕ) (cfg : VenueConfig) :
    (sim.populateBook depth cfg).VenueBooks := by
  unfold MarketSimulator.populateBook
  apply List.foldlRecOn
  · exact h.setBook (h cfg.venueId).wipe cfg.venueId
  · intro sim h level _
    exact (VenueBooks.submit h _ _ _ _ _).submit _ _ _ _ _

theorem VenueBooks.populateBooks (h : sim.VenueBooks) (depth : ℕ) : (sim.populateBooks depth).VenueBooks :=
  List.foldlRecOn _ _ h fun _ h cfg _ => h.populateBook depth cfg

theorem VenueBooks.step (h : sim.VenueBooks) : sim.step.VenueBooks := by
  unfold MarketSimulator.step
  apply VenueBooks.populateBooks
  exact h

theorem effectiveQty_books (sim : MarketSimulator) (cfg : VenueConfig) (quantity : ℚ) :
    (sim.effectiveQty cfg quantity).2.books = sim.books := by
  unfold effectiveQty
  simp only
  split_ifs <;> rfl

theorem sendToVenue_books (sim : MarketSimulator) (cfg : VenueConfig) (side : Side) (orderType : OrderType)
    (price quantity : ℚ) :
    (sim.sendToVenue cfg side orderType price quantity).2.books = Function.update sim.books cfg.venueId
      ((sim.books cfg.venueId).submitOrder side orderType price (sim.effectiveQty cfg quantity).1
        (sim.clocks.headD []).tail) := by
  have hbooks := effectiveQty_books sim cfg quantity
  unfold sendToVenue setBook
  simp only [hbooks]

theorem VenueBooks.sendChild (h : sim.VenueBooks) (cfg : VenueConfig) (side : Side) (price : Option ℚ)
    (bestP quantity : ℚ) : (sim.sendChild cfg side price bestP quantity).2.VenueBooks := by
  intro id
  rw [MarketSimulator.sendChild]
  simp only [sendToVenue_books]
  exact h.setBook ((h cfg.venueId).call (.submitOrder side _ _ _ _)) cfg.venueId id

theorem VenueBooks.sendShares (quantity totalLiq : ℚ) (liq : List (VenueConfig × ℚ)) (remaining : ℚ)
    (h : sim.VenueBooks) :
    (MarketSimulator.sendShares side quantity totalLiq price liq remaining sim).2.VenueBooks := by
  induction liq generalizing remaining sim with
  | nil => exact h
  | cons venue rest ih =>
    unfold MarketSimulator.sendShares
    simp only
    split_ifs
    · exact ih remaining h
    · exact ih _ (h.sendChild _ _ _ _ _)

theorem VenueBooks.sendEqually (childQty : ℚ) (venues : List VenueConfig) (remaining : ℚ) (h : sim.VenueBooks) :
    (MarketSimulator.sendEqually side childQty price venues remaining sim).2.VenueBooks := by
  induction venues generalizing remaining sim with
  | nil => exact h
  | cons cfg venues ih =>
    unfold MarketSimulator.sendEqually
    simp only
    generalize (if venues.isEmpty then remaining else childQty) = qty
    split_ifs
    · exact ih remaining h
    · cases (sim.books cfg.venueId).bestOpposite side with
      | none => exact ih remaining h
      | some bestP => exact ih _ (h.sendChild _ _ _ _ _)

theorem VenueBooks.routeBestPrice (h : sim.VenueBooks) (side : Side) (quantity : ℚ) (price : Option ℚ) :
    (sim.routeBestPrice side quantity price).2.VenueBooks := by
  unfold MarketSimulator.routeBestPrice
  cases sim.bestVenue side sim.venues none with
  | none => exact h
  | some best => exact h.sendChild _ _ _ _ _

theorem VenueBooks.routeProRata (h : sim.VenueBooks) (side : Side) (quantity : ℚ) (price : Option ℚ) :
    (sim.routeProRata side quantity price).2.VenueBooks := by
  unfold MarketSimulator.routeProRata
  simp only
  split_ifs
  · exact h
  · exact h.sendShares _ _ _ _

theorem VenueBooks.routeLowestFee (h : sim.VenueBooks) {quantity : ℚ} {sent : List Child × MarketSimulator}
    (hsent : sim.routeLowestFee side quantity price = .ok sent) : sent.2.VenueBooks := by
  unfold MarketSimulator.routeLowestFee at hsent
  cases hcfg : sim.venues.argmin VenueConfig.feeRate with
  | none =>
    rw [hcfg] at hsent
    cases hsent
  | some cfg =>
    rw [hcfg] at hsent
    simp only at hsent
    cases hbest : (sim.books cfg.venueId).bestOpposite side with
    | none =>
      rw [hbest] at hsent
      obtain rfl := Except.ok.inj hsent
      exact h
    | some bestP =>
      rw [hbest] at hsent
      obtain rfl := Except.ok.inj hsent
      exact h.sendChild _ _ _ _ _

theorem VenueBooks.routeOrder (h : sim.VenueBooks) {quantity : ℚ} {strategy : String}
    {sent : List Child × MarketSimulator} (hsent : sim.routeOrder side quantity price strategy = .ok sent) :
    sent.2.VenueBooks := by
  unfold MarketSimulator.routeOrder at hsent
  split_ifs at hsent
  · obtain rfl := Except.ok.inj hsent
    exact h.routeBestPrice side quantity price
  · obtain rfl := Except.ok.inj hsent
    exact h.routeProRata side quantity price
  · exact h.routeLowestFee hsent
  · obtain rfl := Except.ok.inj hsent
    exact h.sendEqually _ _ _

inductive Operation
  | populateBooks (depth : ℕ)
  | step
  | routeOrder (side : Side) (quantity : ℚ) (price : Option ℚ) (strategy : String)

/-- An order that raises an error changes nothing. -/
def operate (sim : MarketSimulator) : Operation → MarketSimulator
  | .populateBooks depth => sim.populateBooks depth
  | .step => sim.step
  | .routeOrder side quantity price strategy =>
    match sim.routeOrder side quantity price strategy with
    | .error _ => sim
    | .ok sent => sent.2

def run (operations : List Operation) (sim : MarketSimulator) : MarketSimulator := operations.foldl operate sim

theorem VenueBooks.operate (h : sim.VenueBooks) (operation : Operation) : (sim.operate operation).VenueBooks := by
  cases operation with
  | populateBooks depth => exact h.populateBooks depth
  | step => exact h.step
  | routeOrder side quantity price strategy =>
    unfold MarketSimulator.operate
    simp only
    split
    · exact h
    · next hsent => exact h.routeOrder hsent

/-- Whatever the simulated market does, its books are those that calls and emptying lead to. -/
theorem run_venueBooks (symbol : String) (venues : List VenueConfig)
    (nodup : (venues.map VenueConfig.venueId).Nodup) (rng : List ℚ) (clocks : List (List ℚ))
    (operations : List Operation) : (run operations (initial symbol venues nodup rng clocks)).VenueBooks := by
  apply List.foldlRecOn operations operate
  · exact fun _ => .fresh symbol _
  · exact fun _ h operation _ => h.operate operation

end Runs

end MarketSimulator

end Klett.Sor.Simulation

import Klett.Sor.BookInvariant

namespace Klett.Sor.Simulation

open OrderBookSimulator

section Cancels

variable {b : OrderBookSimulator} {o : SimOrder} {id : ℕ}

def OrderBookSimulator.Rests (b : OrderBookSimulator) (id : ℕ) : Prop := ∃ place, ∃ e ∈ b.rest place, e.orderId = id

/-- What `cancel_order` promises: it cancels the orders that rest, and touches nothing else. -/
structure CancelsResting (b : OrderBookSimulator) (id : ℕ) : Prop where
  succeeds : (b.cancelOrder id).1 = true ↔ b.Rests id
  removed : (b.cancelOrder id).1 = true → ∀ place,
    (b.cancelOrder id).2.rest place = (b.rest place).filter fun e => e.orderId ≠ id
  marked : (b.cancelOrder id).1 = true → ((b.cancelOrder id).2.orders id).map SimOrder.status = some .canceled
  same : (b.cancelOrder id).1 = false → (b.cancelOrder id).2 = b

/-- A market, IOC or FOK order that counts as open. It never rests. -/
def LeftOpen (b : OrderBookSimulator) (id : ℕ) : Prop :=
  ∃ o, b.orders id = some o ∧ o.orderType ≠ .limit ∧ ¬o.status.terminal

theorem BookInvariant.rests_iff (hb : BookInvariant none b) :
    b.Rests id ↔ ∃ o, b.orders id = some o ∧ o.orderType = .limit ∧ ¬o.status.terminal := by
  constructor
  · rintro ⟨place, e, he, rfl⟩
    obtain ⟨-, o, ho⟩ := hb.sound.rests place e he
    exact ⟨o, ho.found, ho.limit, ho.live⟩
  · rintro ⟨o, ho, hlimit, hlive⟩
    obtain ⟨e, he, hid⟩ := hb.sound.kept id o ho (by simp) hlimit hlive
    exact ⟨_, e, he, hid⟩

theorem BookInvariant.removed_rest (hb : BookInvariant none b) (ho : b.orders id = some o) (place : Side × ℚ) :
    (b.removeFromBook id).rest place = (b.rest place).filter fun e => e.orderId ≠ id := by
  rw [removeFromBook_rest ho]
  by_cases hplace : place = (o.side, o.price)
  · rw [hplace, Function.update_self]
  · rw [Function.update_of_ne hplace]
    symm
    apply List.filter_eq_self.mpr
    intro e he
    obtain ⟨-, o', ho'⟩ := hb.sound.rests place e he
    rw [decide_eq_true_eq]
    intro hid
    have hfound := ho'.found
    rw [hid] at hfound
    obtain rfl := Option.some.inj (ho.symm.trans hfound)
    exact hplace ho'.at_place.symm

theorem cancelOrder_cases (b : OrderBookSimulator) (id : ℕ) :
    (b.cancelOrder id = (false, b) ∧ ∀ o, b.orders id = some o → o.status.terminal) ∨
      ∃ o, b.orders id = some o ∧ ¬o.status.terminal ∧ b.cancelOrder id = (true, { b.removeFromBook id with
        orders := (b.removeFromBook id).orders.modify id fun o => { o with status := .canceled } }) := by
  unfold cancelOrder
  cases ho : b.orders id with
  | none =>
    refine .inl ⟨rfl, fun o hfalse => ?_⟩
    cases hfalse
  | some o =>
    simp only
    split_ifs with hdone
    · refine .inl ⟨rfl, fun o' ho' => ?_⟩
      obtain rfl := Option.some.inj ho'
      rcases hdone with h | h | h <;> rw [h] <;> trivial
    · refine .inr ⟨o, rfl, fun hterminal => hdone ?_, rfl⟩
      cases hstatus : o.status <;> rw [hstatus] at hterminal <;> simp [OrderStatus.terminal] at hterminal ⊢

theorem BookInvariant.cancelsResting_iff (hb : BookInvariant none b) (id : ℕ) :
    CancelsResting b id ↔ ¬LeftOpen b id := by
  obtain ⟨hcancel, hterminal⟩ | ⟨o, ho, hlive, hcancel⟩ := cancelOrder_cases b id
  · refine iff_of_true ?_ ?_
    · constructor
      · rw [hcancel, hb.rests_iff]
        refine iff_of_false Bool.false_ne_true ?_
        rintro ⟨o, ho, -, hlive⟩
        exact hlive (hterminal o ho)
      · rw [hcancel]
        exact fun hfalse => absurd hfalse Bool.false_ne_true
      · rw [hcancel]
        exact fun hfalse => absurd hfalse Bool.false_ne_true
      · rw [hcancel]
        exact fun _ => rfl
    · rintro ⟨o, ho, -, hlive⟩
      exact hlive (hterminal o ho)
  · by_cases hlimit : o.orderType = .limit
    · refine iff_of_true ?_ ?_
      · constructor
        · rw [hcancel, hb.rests_iff]
          exact iff_of_true rfl ⟨o, ho, hlimit, hlive⟩
        · rw [hcancel]
          intro _ place
          rw [with_rest _ _ _ _]
          exact hb.removed_rest ho place
        · rw [hcancel]
          intro _
          have hfound : (b.removeFromBook id).orders id = some o := by rw [(removeFromBook_same b id).1, ho]
          exact congrArg (Option.map SimOrder.status) (modify_self hfound)
        · rw [hcancel]
          exact fun hfalse => absurd hfalse.symm Bool.false_ne_true
      · rintro ⟨o', ho', hother, -⟩
        obtain rfl := Option.some.inj (ho.symm.trans ho')
        exact hother hlimit
    · refine iff_of_false (fun h => ?_) (not_not.mpr ⟨o, ho, hlimit, hlive⟩)
      have hrests : b.Rests id := h.succeeds.mp (by rw [hcancel])
      obtain ⟨o', ho', hlimit', -⟩ := hb.rests_iff.mp hrests
      obtain rfl := Option.some.inj (ho.symm.trans ho')
      exact hlimit hlimit'

theorem cancelOrder_resting_iff (symbol : String) (tickSize : ℚ) (calls : List Call)
    (hq : ∀ side orderType price quantity clock,
      .submitOrder side orderType price quantity clock ∈ calls → 0 < quantity) (id : ℕ) :
    let b := ({ symbol, tickSize } : OrderBookSimulator).run calls
    CancelsResting b id ↔ ¬LeftOpen b id :=
  (run_invariant (initial_invariant symbol tickSize) hq).cancelsResting_iff id

theorem cancelOrder_resting_iff_partly_filled :
    let b := ({ symbol := "ABC", tickSize := 1 / 100 } : OrderBookSimulator).run
      [.submitOrder .sell .limit 10 5 [], .submitOrder .buy .limit 10 2 []]
    CancelsResting b 1 ↔ ¬LeftOpen b 1 := by
  apply cancelOrder_resting_iff
  intro side orderType price quantity clock h
  simp only [List.mem_cons, List.not_mem_nil, Call.submitOrder.injEq, or_false] at h
  rcases h with ⟨-, -, -, rfl, -⟩ | ⟨-, -, -, rfl, -⟩ <;> norm_num

theorem cancels_gone :
    let b := ({ symbol := "ABC", tickSize := 1 / 100 } : OrderBookSimulator).run
      [.submitOrder .sell .limit 10 5 [], .submitOrder .buy .ioc 10 8 []]
    (b.cancelOrder 2).1 = true ∧ ¬b.Rests 2 := by
  intro b
  refine ⟨by decide +kernel, fun hrests => ?_⟩
  have hb : BookInvariant none b := by
    apply run_invariant (initial_invariant "ABC" (1 / 100))
    intro side orderType price quantity clock h
    simp only [List.mem_cons, List.not_mem_nil, Call.submitOrder.injEq, or_false] at h
    rcases h with ⟨-, -, -, rfl, -⟩ | ⟨-, -, -, rfl, -⟩ <;> norm_num
  obtain ⟨o, ho, hlimit, -⟩ := hb.rests_iff.mp hrests
  have hioc : (b.orders 2).map SimOrder.orderType = some .ioc := by decide +kernel
  rw [ho, Option.map_some, hlimit] at hioc
  cases hioc

end Cancels

end Klett.Sor.Simulation

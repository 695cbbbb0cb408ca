import Klett.Sor.SimulatedVenues

namespace Klett.Sor.Simulation.MarketSimulator

open Klett.Lib

section Routing

variable {sim : MarketSimulator} {side : Side} {price : Option ℚ} {cfg : VenueConfig} {venues : List VenueConfig}

@[simp] theorem requested_nil : requested [] = 0 := rfl

@[simp] theorem requested_cons (child : Child) (children : List Child) :
    requested (child :: children) = child.requested + requested children := by
  simp [requested]

@[simp] theorem sendChild_requested (bestP quantity : ℚ) :
    (sim.sendChild cfg side price bestP quantity).1.requested = quantity := rfl

theorem sendChild_books_of_ne {id : ℤ} (h : id ≠ cfg.venueId) (bestP quantity : ℚ) :
    (sim.sendChild cfg side price bestP quantity).2.books id = sim.books id := by
  unfold sendChild
  simp only [sendToVenue_books]
  exact Function.update_of_ne h _ _

/-- The shares are clamped by what remains. -/
theorem sendShares_requested (quantity totalLiq : ℚ) (liq : List (VenueConfig × ℚ)) {remaining : ℚ}
    (h : 0 ≤ remaining) : requested (sendShares side quantity totalLiq price liq remaining sim).1 ≤ remaining := by
  induction liq generalizing remaining sim with
  | nil => exact h
  | cons venue rest ih =>
    unfold sendShares
    simp only
    generalize roundDigits (quantity * (venue.2 / totalLiq)) 2 = share
    split_ifs
    · exact ih h
    · rw [requested_cons, sendChild_requested]
      have hrest : 0 ≤ remaining - min share remaining := sub_nonneg.mpr (min_le_right _ _)
      exact le_sub_iff_add_le'.mp (ih hrest)

/-- The venues that an order of this side could be sent to. -/
def quoted (sim : MarketSimulator) (side : Side) (venues : List VenueConfig) : List VenueConfig :=
  venues.filter fun cfg => ((sim.books cfg.venueId).bestOpposite side).isSome

theorem quoted_congr {sim' : MarketSimulator} (h : ∀ cfg ∈ venues, sim'.books cfg.venueId = sim.books cfg.venueId) :
    sim'.quoted side venues = sim.quoted side venues :=
  List.filter_congr fun cfg hcfg => by rw [h cfg hcfg]

/-- Only the last venue is sent what remains, so the others alone decide whether too much is sent. -/
theorem sendEqually_requested {childQty : ℚ} (hchild : 0 ≤ childQty) (hvenues : venues ≠ [])
    (hn : (venues.map VenueConfig.venueId).Nodup) (remaining : ℚ) :
    requested (sendEqually side childQty price venues remaining sim).1 ≤ remaining ↔
      (sim.quoted side venues.dropLast).length * childQty ≤ remaining := by
  induction venues generalizing remaining sim with
  | nil => exact absurd rfl hvenues
  | cons cfg venues ih =>
    unfold sendEqually
    simp only
    cases venues with
    | nil =>
      simp only [List.isEmpty_nil, if_true, sendEqually, quoted, List.dropLast_singleton, List.filter_nil,
        List.length_nil, Nat.cast_zero, zero_mul]
      split_ifs with hdone
      · rfl
      · have hpos : 0 ≤ remaining := (not_le.mp hdone).le
        cases (sim.books cfg.venueId).bestOpposite side with
        | none => exact Iff.rfl
        | some bestP => simpa using hpos
    | cons next venues =>
      obtain ⟨hnot, hrest⟩ := List.nodup_cons.mp hn
      have hrest' : ∀ sim' : MarketSimulator, ∀ left : ℚ,
          requested (sendEqually side childQty price (next :: venues) left sim').1 ≤ left ↔
            (sim'.quoted side (next :: venues).dropLast).length * childQty ≤ left := fun sim' left =>
        ih (List.cons_ne_nil _ _) hrest left
      have hlast : (cfg :: next :: venues).dropLast = cfg :: (next :: venues).dropLast := rfl
      rw [hlast]
      simp only [List.isEmpty_cons, Bool.false_eq_true, if_false]
      split_ifs with hzero
      · have hchild : childQty = 0 := le_antisymm hzero hchild
        rw [hrest', hchild, mul_zero, mul_zero]
      · cases hbest : (sim.books cfg.venueId).bestOpposite side with
        | none =>
          have hskip : sim.quoted side (cfg :: (next :: venues).dropLast) =
              sim.quoted side (next :: venues).dropLast :=
            List.filter_cons_of_neg (by rw [hbest]; exact Bool.false_ne_true)
          rw [hskip]
          exact hrest' sim remaining
        | some bestP =>
          have htake : sim.quoted side (cfg :: (next :: venues).dropLast) =
              cfg :: sim.quoted side (next :: venues).dropLast :=
            List.filter_cons_of_pos (by rw [hbest]; rfl)
          have hlater : (sim.sendChild cfg side price bestP childQty).2.quoted side (next :: venues).dropLast =
              sim.quoted side (next :: venues).dropLast := by
            apply quoted_congr
            intro other hother
            have hid := List.mem_map_of_mem (f := VenueConfig.venueId) (List.dropLast_subset _ hother)
            exact sendChild_books_of_ne (fun h => hnot (h ▸ hid)) bestP childQty
          have hsent := hrest' (sim.sendChild cfg side price bestP childQty).2 (remaining - childQty)
          rw [hlater, le_sub_iff_add_le'] at hsent
          rw [htake, requested_cons, sendChild_requested, hsent, List.length_cons, Nat.cast_succ, add_mul, one_mul,
            le_sub_iff_add_le]

theorem routeBestPrice_requested {quantity : ℚ} (hq : 0 ≤ quantity) :
    requested (sim.routeBestPrice side quantity price).1 ≤ quantity := by
  unfold routeBestPrice
  cases sim.bestVenue side sim.venues none with
  | none => exact hq
  | some best => simp

theorem routeProRata_requested {quantity : ℚ} (hq : 0 ≤ quantity) :
    requested (sim.routeProRata side quantity price).1 ≤ quantity := by
  unfold routeProRata
  simp only
  split_ifs
  · exact hq
  · exact sendShares_requested _ _ _ hq

theorem routeLowestFee_requested (hvenues : sim.venues ≠ []) {quantity : ℚ} (hq : 0 ≤ quantity) :
    ∃ sent, sim.routeLowestFee side quantity price = .ok sent ∧ requested sent.1 ≤ quantity := by
  have hmin : sim.venues.argmin VenueConfig.feeRate ≠ none := fun h => hvenues (List.argmin_eq_none.mp h)
  obtain ⟨cfg, hcfg⟩ := Option.ne_none_iff_exists'.mp hmin
  unfold routeLowestFee
  rw [hcfg]
  simp only
  cases (sim.books cfg.venueId).bestOpposite side with
  | none => exact ⟨_, rfl, hq⟩
  | some bestP => exact ⟨_, rfl, by simp⟩

/-- From so large an order on, the rounding of the equal shares cannot add up to more than it. -/
theorem equal_shares_fit (hvenues : sim.venues ≠ []) {quantity : ℚ}
    (hq : (sim.venues.length : ℚ) * (sim.venues.length - 1) / 200 ≤ quantity) :
    (sim.quoted side sim.venues.dropLast).length * roundDigits (quantity / sim.venues.length) 2 ≤ quantity := by
  have hn : (1 : ℚ) ≤ sim.venues.length := by exact_mod_cast List.length_pos_iff.mpr hvenues
  have hpos : (0 : ℚ) < sim.venues.length := one_pos.trans_le hn
  have hquantity : 0 ≤ quantity := le_trans (by nlinarith) hq
  have hquoted : ((sim.quoted side sim.venues.dropLast).length : ℚ) ≤ sim.venues.length - 1 := by
    have hlength : (sim.quoted side sim.venues.dropLast).length ≤ sim.venues.length - 1 :=
      (List.length_filter_le _ _).trans List.length_dropLast.le
    rw [← Nat.cast_one, ← Nat.cast_sub (List.length_pos_iff.mpr hvenues)]
    exact_mod_cast hlength
  have hround := roundDigits_le (quantity / sim.venues.length) 2
  have hshare : 0 ≤ quantity / sim.venues.length := div_nonneg hquantity hpos.le
  have hle : roundDigits (quantity / sim.venues.length) 2 ≤ quantity / sim.venues.length + 1 / 200 :=
    hround.trans (by norm_num)
  calc
    (sim.quoted side sim.venues.dropLast).length * roundDigits (quantity / sim.venues.length) 2 ≤
        (sim.venues.length - 1) * (quantity / sim.venues.length + 1 / 200) :=
      mul_le_mul hquoted hle (roundDigits_nonneg hshare 2) (sub_nonneg.mpr hn)
    _ = quantity - (quantity - sim.venues.length * (sim.venues.length - 1) / 200) / sim.venues.length := by
      field_simp
      ring
    _ ≤ quantity := sub_le_self _ (div_nonneg (sub_nonneg.mpr hq) hpos.le)

theorem routeOrder_requested_iff (hvenues : sim.venues ≠ []) (strategy : Strategy) (side : Side) {quantity : ℚ}
    (hq : 0 < quantity) (price : Option ℚ) :
    ∃ sent, sim.routeOrder side quantity price strategy.name = .ok sent ∧
      (requested sent.1 ≤ quantity ↔ (strategy = .roundRobin →
        (sim.quoted side sim.venues.dropLast).length * roundDigits (quantity / sim.venues.length) 2 ≤ quantity)) := by
  cases strategy with
  | bestPrice =>
    refine ⟨_, rfl, iff_of_true (routeBestPrice_requested hq.le) fun h => ?_⟩
    cases h
  | splitProRata =>
    refine ⟨_, rfl, iff_of_true (routeProRata_requested hq.le) fun h => ?_⟩
    cases h
  | lowestFee =>
    obtain ⟨sent, hsent, hle⟩ : ∃ sent, sim.routeLowestFee side quantity price = .ok sent ∧
        requested sent.1 ≤ quantity := routeLowestFee_requested hvenues hq.le
    refine ⟨sent, hsent, iff_of_true hle fun h => ?_⟩
    cases h
  | roundRobin =>
    have hshare : 0 ≤ quantity / sim.venues.length := div_nonneg hq.le (Nat.cast_nonneg _)
    have hsent : requested (sim.routeRoundRobin side quantity price).1 ≤ quantity ↔
        (sim.quoted side sim.venues.dropLast).length * roundDigits (quantity / sim.venues.length) 2 ≤ quantity :=
      sendEqually_requested (roundDigits_nonneg hshare 2) hvenues sim.nodup quantity
    refine ⟨_, rfl, hsent.trans ⟨fun h _ => h, fun h => h rfl⟩⟩

/-- Five venues with an ask of 5 at 10 each. -/
def fiveAsks : MarketSimulator :=
  let venues : List VenueConfig := [{ venueId := 1, name := "A" }, { venueId := 2, name := "B" },
    { venueId := 3, name := "C" }, { venueId := 4, name := "D" }, { venueId := 5, name := "E" }]
  venues.foldl (fun sim cfg => sim.submit cfg.venueId .sell .limit 10 5)
    (initial "ABC" venues (by decide) [] [])

theorem routeOrder_requested_iff_large :
    ∃ sent, fiveAsks.routeOrder .buy 300 none (Strategy.roundRobin).name = .ok sent ∧ requested sent.1 ≤ 300 := by
  have hvenues : fiveAsks.venues ≠ [] := List.cons_ne_nil _ _
  have hq : (0 : ℚ) < 300 := by norm_num
  obtain ⟨sent, hsent, hle⟩ := routeOrder_requested_iff hvenues .roundRobin .buy hq none
  refine ⟨sent, hsent, hle.mpr fun _ => equal_shares_fit hvenues ?_⟩
  decide +kernel

theorem equal_shares_add_up_to_more :
    ∃ sent, fiveAsks.routeOrder .buy (3 / 100) none (Strategy.roundRobin).name = .ok sent ∧
      requested sent.1 = 4 / 100 :=
  ⟨_, rfl, by decide +kernel⟩

end Routing

end Klett.Sor.Simulation.MarketSimulator

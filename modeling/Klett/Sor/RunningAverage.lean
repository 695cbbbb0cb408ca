import Klett.Sor.FillAverages

namespace Klett.Sor

open Klett.Lib FillManager

def ExecutionReport.priced (r : ExecutionReport) : ℤ × ℤ := (r.lastPrice, r.lastQuantity)

/-- The fills of one order as its venue reports them, with the quantity filled so far. -/
def FillsFrom (id : ℕ) : ℤ → List ExecutionReport → Prop
  | _, [] => True
  | filled, r :: rs => (r.orderId = id ∧ (reportEvent r.state).isSome ∧ (0 < r.lastPrice ∧ 0 < r.lastQuantity) ∧
      r.cumQuantity = filled + r.lastQuantity) ∧ FillsFrom id (filled + r.lastQuantity) rs

instance fillsFromDecidable (id : ℕ) : ∀ filled rs, Decidable (FillsFrom id filled rs)
  | _, [] => isTrue trivial
  | filled, r :: rs =>
    have := fillsFromDecidable id (filled + r.lastQuantity) rs
    inferInstanceAs (Decidable (_ ∧ _))

namespace Order

variable {o o' : Order} {r : ExecutionReport}

@[simp] theorem apply_avgFillPrice (e : OrderEvent) : (o.apply e).avgFillPrice = o.avgFillPrice := by
  obtain ⟨s, v, h⟩ := o.apply_eq e
  rw [h]

@[simp] theorem beforeCancel_avgFillPrice (s : OrderState) :
    (o.beforeCancel s).avgFillPrice = o.avgFillPrice := by
  unfold beforeCancel
  split <;> simp

theorem onReport_average (h : o.onReport r = some o') (hfilled : 0 ≤ o.filledQuantity) (hlast : 0 < r.lastQuantity)
    (hcum : r.cumQuantity = o.filledQuantity + r.lastQuantity) :
    (o'.avgFillPrice, o'.filledQuantity) = updateMean (o.avgFillPrice, o.filledQuantity) r.priced := by
  obtain ⟨event, -, rfl⟩ := Option.map_eq_some_iff.mp h
  have hpos : 0 < o.filledQuantity + r.lastQuantity := by omega
  unfold recordFill updateMean ExecutionReport.priced
  rw [if_pos hlast, hcum]
  simp [hpos]

end Order

namespace RunningAverage

open ExecutionHandler HandlerCalls

variable {V : Type} {g : Gateway V} {id : ℕ} {mean : ℤ × ℤ} {l : List (ℤ × ℤ)} {r : ExecutionReport}
  {reports : List ExecutionReport}

structure Filling (g : Gateway V) (id : ℕ) (mean : ℤ × ℤ) (l : List (ℤ × ℤ)) : Prop where
  hook : g.execHandler.hasFillCallback = true
  order : ∃ o ∈ g.execHandler.orders id, (o.avgFillPrice, o.filledQuantity) = mean ∧
    g.execHandler.childToParent o.id ≠ some id
  indexed : Indexes (g.fillManager.orderFills id) g.fillManager.allFills fun f => f.orderId = id
  recorded : pricedOf g.fillManager.allFills (fun f => f.orderId = id) = l

theorem applyReport_of_fill {o : Order} (h : (g.execHandler.onExecutionReport r).2.fill = some (o, r)) :
    (g.applyReport r).execHandler = (g.execHandler.onExecutionReport r).1 ∧
      ∃ f : FillRecord, f.orderId = r.orderId ∧ f.priced = r.priced ∧
        (g.applyReport r).fillManager = g.fillManager.recordFill f := by
  unfold Gateway.applyReport
  simp only
  rw [h]
  exact ⟨rfl, _, rfl, rfl, rfl⟩

theorem Filling.applyReport (h : Filling g id mean l) (hid : r.orderId = id) (hevent : (reportEvent r.state).isSome)
    (hpos : 0 < r.lastPrice ∧ 0 < r.lastQuantity) (hmean : 0 ≤ mean.2) (hcum : r.cumQuantity = mean.2 + r.lastQuantity) :
    Filling (g.applyReport r) id (updateMean mean r.priced) (l ++ [r.priced]) := by
  subst hid
  obtain ⟨o, ho, rfl, hself⟩ := h.order
  have hacts : ActsOn g.execHandler r := ⟨Option.isSome_of_eq_some ho, hevent⟩
  obtain ⟨o', hr⟩ := Option.isSome_iff_exists.mp ((onReport_isSome o r).trans hevent)
  have hsame : o'.id = o.id := (Order.sameTerms_onReport hr).id
  have horder := onExecutionReport_self ho hr (by rw [hsame]; exact hself)
  have hfill : (g.execHandler.onExecutionReport r).2.fill = some (o', r) := by
    rw [FixDesk.fill_eq hacts, if_pos ⟨hpos.2, h.hook⟩, horder, Option.map_some]
  obtain ⟨hhandler, f, hfid, hpriced, hmanager⟩ := applyReport_of_fill hfill
  obtain ⟨orders, hframe⟩ := g.execHandler.onExecutionReport_frame r
  have hindexed := h.indexed.record f
  refine ⟨?_, ⟨o', ?_, Order.onReport_average hr hmean hpos.2 hcum, ?_⟩, ?_, ?_⟩
  · rw [hhandler, hframe]
    exact h.hook
  · rw [hhandler]
    exact horder
  · rw [hhandler, hframe, hsame]
    exact hself
  · rw [hmanager]
    simpa [FillManager.recordFill, hfid] using hindexed
  · rw [hmanager, ← h.recorded, ← hpriced]
    simp [FillManager.recordFill, pricedOf, hfid]

theorem Filling.run (h : Filling g id mean l) (hmean : 0 ≤ mean.2) (hr : FillsFrom id mean.2 reports) :
    Filling (reports.foldl Gateway.applyReport g) id ((reports.map ExecutionReport.priced).foldl updateMean mean)
      (l ++ reports.map ExecutionReport.priced) := by
  induction reports generalizing g mean l with
  | nil => simpa using h
  | cons r rs ih =>
    obtain ⟨⟨hid, hevent, hpos, hcum⟩, hrest⟩ := hr
    have hnext := h.applyReport hid hevent hpos hmean hcum
    have hrun := ih hnext (add_nonneg hmean hpos.2.le) hrest
    rw [List.map_cons, List.foldl_cons, List.foldl_cons, ← List.singleton_append, ← List.append_assoc]
    exact hrun

theorem FillsFrom.positive {filled : ℤ} (h : FillsFrom id filled reports) :
    Positive (reports.map ExecutionReport.priced) := by
  induction reports generalizing filled with
  | nil => exact List.forall_mem_nil _
  | cons r rs ih =>
    obtain ⟨⟨-, -, hpos, -⟩, hrest⟩ := h
    exact List.forall_mem_cons.mpr ⟨hpos, ih hrest⟩

theorem Filling.averageFillPrice (h : Filling g id mean l) : g.fillManager.averageFillPrice id = mean64 l := by
  rw [← h.recorded]
  exact averageOf_eq h.indexed

theorem mean64_of_fits (hl : Positive l) (hne : l ≠ []) (hfit : cost l < 2 ^ 63) :
    mean64 l = cost l / weight l := by
  obtain ⟨hweight, hcost⟩ := words_of_fits hl hfit
  unfold mean64
  rw [hweight, hcost, if_pos (weight_pos hl hne), Int.tdiv_eq_ediv_of_nonneg (cost_nonneg hl)]

/-- The order's own average is the one over its recorded fills just when the divisions on the way drop less
than the filled quantity. -/
theorem average_agrees_iff (g : Gateway V) (id : ℕ) (o : Order) (earlier : List FillRecord)
    (reports : List ExecutionReport) (hhook : g.execHandler.hasFillCallback = true)
    (ho : g.execHandler.orders id = some o) (hnew : o.filledQuantity = 0)
    (hself : g.execHandler.childToParent o.id ≠ some id) (hm : g.fillManager = recorded earlier)
    (hunfilled : ∀ f ∈ earlier, f.orderId ≠ id) (hne : reports ≠ []) (hr : FillsFrom id 0 reports)
    (hfit : cost (reports.map ExecutionReport.priced) < 2 ^ 63) :
    let g' := reports.foldl Gateway.applyReport g
    let fills := reports.map ExecutionReport.priced
    ∃ o', g'.execHandler.orders id = some o' ∧
      (o'.avgFillPrice = g'.fillManager.averageFillPrice id ↔ dropped fills < weight fills) := by
  intro g' fills
  obtain ⟨hindexed, hall⟩ := recorded_indexed earlier
  have hstart : Filling g id (o.avgFillPrice, 0) [] := by
    refine ⟨hhook, ⟨o, ho, by rw [hnew], hself⟩, ?_, ?_⟩
    · rw [hm]
      exact hindexed.orders id
    · rw [hm, hall, pricedOf, List.filter_eq_nil_iff.mpr fun f hf => by simpa using hunfilled f hf]
      rfl
  have hrun : Filling g' id (fills.foldl updateMean (o.avgFillPrice, 0)) fills := hstart.run le_rfl hr
  have hl : Positive fills := FillsFrom.positive hr
  have hfills : fills ≠ [] := by simpa [fills] using hne
  obtain ⟨o', ho', hmean, -⟩ := hrun.order
  refine ⟨o', ho', ?_⟩
  rw [hrun.averageFillPrice, mean64_of_fits hl hfills hfit, ← runningMean_eq_iff hl hfills o.avgFillPrice, ← hmean]

def openOrder : Order := { id := 1, quantity := 3, remainingQuantity := 3, state := .accepted }

def openGateway : Gateway Unit where
  riskManager := { rateLimiter := { maxPerSecond := 0, windowStart := 0 } }
  execHandler := { orders := fun id => if id = 1 then some openOrder else none, hasFillCallback := true }

def unitFill (price cumQuantity : ℤ) : ExecutionReport :=
  { orderId := 1, state := .partiallyFilled, lastPrice := price, lastQuantity := 1, cumQuantity := cumQuantity }

theorem average_agrees_even : ∃ o', ([unitFill 1 1, unitFill 3 2].foldl Gateway.applyReport openGateway).execHandler.orders 1
      = some o' ∧
    o'.avgFillPrice = ([unitFill 1 1, unitFill 3 2].foldl Gateway.applyReport openGateway).fillManager.averageFillPrice
      1 := by
  obtain ⟨o', ho', hiff⟩ := average_agrees_iff openGateway 1 openOrder [] [unitFill 1 1, unitFill 3 2] rfl rfl rfl
    (by decide) rfl (List.forall_mem_nil _) (List.cons_ne_nil _ _) (by decide) (by decide)
  exact ⟨o', ho', hiff.mpr (by decide)⟩

/-- One share each at 1, 2 and 3: the order says 1 on average, its fills say 2. -/
theorem average_differs :
    let reports := [unitFill 1 1, unitFill 2 2, unitFill 3 3]
    let g := reports.foldl Gateway.applyReport openGateway
    FillsFrom 1 0 reports ∧ cost (reports.map ExecutionReport.priced) < 2 ^ 63 ∧
      (g.execHandler.orders 1).map Order.avgFillPrice = some 1 ∧ g.fillManager.averageFillPrice 1 = 2 := by
  decide

end RunningAverage

end Klett.Sor

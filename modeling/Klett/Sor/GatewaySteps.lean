import Klett.Sor.Gateway
import Klett.Sor.Tracking

namespace Klett.Sor

open Klett.Lib

namespace Event

def OfOrder (id : ℕ) : Event → Prop
  | tracked order => order.id = id
  | childCreated parentId _ => parentId = id
  | childSent child _ => child.parentOrderId = id
  | reported .. => True
  | _ => False

def IsReported : Event → Prop
  | reported .. => True
  | _ => False

def Dispatches (parentId : ℕ) : Event → Prop
  | childCreated id _ => id = parentId
  | childSent child _ => child.parentOrderId = parentId
  | _ => False

instance (parentId : ℕ) : DecidablePred (Dispatches parentId)
  | childCreated id _ => inferInstanceAs (Decidable (id = parentId))
  | childSent child _ => inferInstanceAs (Decidable (child.parentOrderId = parentId))
  | submitted _ | tracked _ | reported .. | processed .. | cancelTaken _ | completed _ | stopReturned =>
    .isFalse id

end Event

namespace Gateway

variable {V : Type}

def VenueCalls (g g' : Gateway V) : Prop :=
  ∃ venues queue, g' = { g with venues := venues, reportQueue := queue }

theorem VenueCalls.refl (g : Gateway V) : g.VenueCalls g := ⟨_, _, rfl⟩

theorem VenueCalls.trans {g g' g'' : Gateway V} (h : g.VenueCalls g') (h' : g'.VenueCalls g'') :
    g.VenueCalls g'' := by
  obtain ⟨_, _, rfl⟩ := h
  obtain ⟨_, _, rfl⟩ := h'
  exact ⟨_, _, rfl⟩

variable {g : Gateway V}

theorem onExecutionReport_calls (report : ExecutionReport) :
    g.VenueCalls (g.onExecutionReport report).1 ∧ ∀ e ∈ (g.onExecutionReport report).2, e.IsReported := by
  unfold onExecutionReport
  split
  · exact ⟨⟨_, _, rfl⟩, by simp [Event.IsReported]⟩
  · exact ⟨.refl g, by simp [Event.IsReported]⟩

theorem onExecutionReports_calls (reports : List ExecutionReport) :
    g.VenueCalls (g.onExecutionReports reports).1 ∧
      ∀ e ∈ (g.onExecutionReports reports).2, e.IsReported := by
  induction reports generalizing g with
  | nil => exact ⟨.refl g, by simp [onExecutionReports]⟩
  | cons report reports ih =>
    obtain ⟨hcall, hevents⟩ := g.onExecutionReport_calls report
    obtain ⟨hcalls, hlater⟩ := ih (g := (g.onExecutionReport report).1)
    refine ⟨hcall.trans hcalls, fun e he => ?_⟩
    rcases List.mem_append.mp he with he | he
    · exact hevents e he
    · exact hlater e he

theorem onExecutionReports_venues (reports : List ExecutionReport) :
    (g.onExecutionReports reports).1.venues = g.venues := by
  induction reports generalizing g with
  | nil => rfl
  | cons report reports ih =>
    simp only [onExecutionReports]
    rw [ih]
    unfold onExecutionReport
    split <;> rfl

section Reports

variable {r : ExecutionReport} {p : ℕ} {o o' parent : Order}

def riskAfter (g : Gateway V) (r : ExecutionReport) : RiskManager :=
  match (g.execHandler.onExecutionReport r).2.fill with
  | some (order, report) =>
    g.riskManager.onFill order.symbol order.side report.lastQuantity report.lastPrice
  | none => g.riskManager

theorem applyReport_frame : ∃ fills, g.applyReport r = { g with
    execHandler := (g.execHandler.onExecutionReport r).1
    riskManager := g.riskAfter r
    fillManager := fills } := by
  unfold applyReport riskAfter recordFill
  simp only
  cases (g.execHandler.onExecutionReport r).2.fill with
  | none => exact ⟨_, rfl⟩
  | some filled => exact ⟨_, rfl⟩

/-- The risk managers differ in the positions only. -/
def SameSettings (g g' : Gateway V) : Prop :=
  ∃ positions, g'.riskManager = { g.riskManager with positions := positions }

theorem SameSettings.refl (g : Gateway V) : g.SameSettings g := ⟨_, rfl⟩

theorem VenueCalls.sameSettings {g g' : Gateway V} (h : g.VenueCalls g') : g.SameSettings g' := by
  obtain ⟨_, _, rfl⟩ := h
  exact .refl g

theorem applyReport_sameSettings : g.SameSettings (g.applyReport r) := by
  obtain ⟨fills, happly⟩ := g.applyReport_frame (r := r)
  rw [happly]
  simp only [SameSettings, riskAfter]
  split
  · exact ⟨_, rfl⟩
  · exact ⟨_, rfl⟩

theorem applies_ignored (hi : ∀ o, g.execHandler.orders r.orderId = some o → o.onReport r = none) :
    g.applies r = false := by
  unfold applies
  split
  · rfl
  next o ho => rw [hi o ho, Option.isSome_none]

theorem applies_applied (ho : g.execHandler.orders r.orderId = some o) (hr : o.onReport r = some o') :
    g.applies r = true := by
  unfold applies
  rw [ho]
  simp only [hr, Option.isSome_some]

theorem applies_known (h : g.applies r = true) : (g.execHandler.orders r.orderId).isSome := by
  unfold applies at h
  split at h
  · cases h
  next o ho => rw [ho, Option.isSome_some]

theorem rerouteDue_ignored (hi : ∀ o, g.execHandler.orders r.orderId = some o → o.onReport r = none) :
    g.rerouteDue r = none := by
  unfold rerouteDue
  rw [ExecutionHandler.onExecutionReport_ignored hi]
  rfl

theorem rerouteDue_root (hw : g.execHandler.WellFormed) (ho : g.execHandler.orders r.orderId = some o)
    (hr : o.onReport r = some o') (hroot : g.execHandler.childToParent r.orderId = none) :
    g.rerouteDue r = none := by
  unfold rerouteDue ExecutionHandler.rerouted
  simp only
  rw [(hw.onExecutionReport_root ho hr hroot).2]
  rfl

theorem rerouteDue_child (hw : g.execHandler.WellFormed) (hr : g.execHandler.Reports r p o o' parent) :
    g.rerouteDue r =
      if g.execHandler.dueAfter r p o' parent && g.execHandler.hasRerouteCallback then
        some (g.execHandler.parentAfter r p o' parent) else none := by
  obtain ⟨hh, hreroute, -⟩ := hw.onExecutionReport_child hr
  unfold rerouteDue ExecutionHandler.rerouted
  simp only
  rw [hreroute, hh]
  split
  · exact ExecutionHandler.setOrder_self _ _
  · rfl

theorem rerouteDue_cases (hw : g.execHandler.WellFormed) (hdue : g.rerouteDue r = some parent) :
    ∃ p o o' before, g.execHandler.Reports r p o o' before ∧
      g.execHandler.dueAfter r p o' before = true ∧
      parent = g.execHandler.parentAfter r p o' before := by
  obtain hignored | ⟨o, o', ho, hr, hroot⟩ | ⟨p, o, o', before, hr⟩ := hw.report_cases r
  · rw [rerouteDue_ignored hignored] at hdue
    cases hdue
  · rw [rerouteDue_root hw ho hr hroot] at hdue
    cases hdue
  · rw [rerouteDue_child hw hr] at hdue
    split_ifs at hdue with hcond
    rw [Bool.and_eq_true] at hcond
    exact ⟨p, o, o', before, hr, hcond.1, (Option.some.inj hdue).symm⟩

theorem rerouteDue_open (hw : g.execHandler.WellFormed) (hdue : g.rerouteDue r = some parent) :
    parent.remainingQuantity = parent.leavesQty ∧ 0 < parent.leavesQty ∧ parent.isTerminal = false := by
  obtain ⟨p, o, o', before, -, hd, rfl⟩ := rerouteDue_cases hw hdue
  exact ExecutionHandler.parentAfter_due hd

end Reports

variable [VenueAdapter V] (P : Platform) (g)

def passes (order : Order) (t : Readings) : Bool :=
  (g.riskManager.checkOrder (order.apply .submit) t.riskSecond).2 = .passed

def slicesFor (order : Order) (t : Readings) : List Slice :=
  if g.passes order t then
    let risk := (g.riskManager.checkOrder (order.apply .submit) t.riskSecond).1
    ({ g with riskManager := risk }.routeOrder P (order.apply .submit) t).2.2.slices
  else []

def admitted (order : Order) (engine : RoutingEngine) (limiter : RateLimiter) : Gateway V :=
  { g with
    execHandler := g.execHandler.trackOrder order
    routingEngine := engine
    riskManager := { g.riskManager with rateLimiter := limiter } }

def limited (limiter : RateLimiter) : Gateway V :=
  { g with riskManager := { g.riskManager with rateLimiter := limiter } }

variable {P} {g} {order : Order} {t : Readings}

theorem processSingleOrder_refused (h : g.passes order t = false) :
    ∃ limiter, g.processSingleOrder P order t = (g.limited limiter, []) := by
  obtain ⟨limiter, hlimiter⟩ := g.riskManager.checkOrder_frame (order.apply .submit) t.riskSecond
  refine ⟨limiter, ?_⟩
  unfold processSingleOrder limited
  simp only [passes, decide_eq_false_iff_not] at h
  simp only [ne_eq, h, not_false_eq_true, ↓reduceIte, hlimiter]

theorem routeTracked_eq : g.routeTracked P order t =
    let routed := g.routeOrder P order t
    let d := dispatchSlices order { g with
        execHandler := g.execHandler.trackOrder order
        routingEngine := routed.1
        riskManager := routed.2.1 } routed.2.2.slices
    (d.1, .tracked order :: d.2) := by
  have hsame : { g with execHandler := g.execHandler.trackOrder order }.routeOrder P order t =
      g.routeOrder P order t := rfl
  unfold routeTracked
  simp only [hsame]
  generalize g.routeOrder P order t = routed
  obtain ⟨engine, risk, ⟨slices⟩⟩ := routed
  cases slices with
  | nil => rfl
  | cons slice slices => rfl

theorem processSingleOrder_passed (h : g.passes order t = true) :
    ∃ engine limiter, g.processSingleOrder P order t =
      let d := dispatchSlices (order.apply .submit) (g.admitted (order.apply .submit) engine limiter)
        (g.slicesFor P order t)
      (d.1, .tracked (order.apply .submit) :: d.2) := by
  have hslices : g.slicesFor P order t = _ := if_pos h
  obtain ⟨limiter, hlimiter⟩ := g.riskManager.checkOrder_frame (order.apply .submit) t.riskSecond
  simp only [passes, decide_eq_true_eq] at h
  unfold processSingleOrder
  simp only [ne_eq, h, not_true_eq_false, ↓reduceIte, hlimiter] at hslices ⊢
  obtain ⟨limiter', hrouted⟩ := RoutingEngine.routeOrder_risk P g.routingEngine
    { g.riskManager with rateLimiter := limiter } (order.apply .submit)
    (g.routeInput P (order.apply .submit) t)
  refine ⟨(g.routingEngine.routeOrder P { g.riskManager with rateLimiter := limiter }
    (order.apply .submit) (g.routeInput P (order.apply .submit) t)).1, limiter', ?_⟩
  rw [hslices, routeTracked_eq, admitted, ← hrouted]
  rfl

omit [VenueAdapter V] in
theorem slicesFor_nonneg : ∀ s ∈ g.slicesFor P order t, 0 ≤ s.quantity := by
  unfold slicesFor
  split
  · exact RoutingEngine.routeOrder_nonneg
  · simp

theorem sendChild_calls (child : Order) (venueId : ℕ) :
    g.VenueCalls (g.sendChild child venueId).1 ∧
      ∀ e ∈ (g.sendChild child venueId).2, e.IsReported ∨ ∃ sent, e = .childSent child sent := by
  unfold sendChild
  split
  · exact ⟨.refl g, by simp⟩
  next venue _ =>
    let sent := VenueAdapter.sendOrder venue child
    obtain ⟨hcalls, hevents⟩ := onExecutionReports_calls
      (g := { g with venues := Function.update g.venues venueId (some sent.2.1) }) sent.2.2
    refine ⟨VenueCalls.trans ⟨_, _, rfl⟩ hcalls, fun e he => ?_⟩
    rcases List.mem_cons.mp he with rfl | he
    · exact .inr ⟨_, rfl⟩
    · exact .inl (hevents e he)

/-- Nothing happens, or the cancel goes to the venue of the child. -/
theorem cancelChild_cases (request : CancelRequest) (childId : ℕ) :
    g.cancelChild request childId = (g, []) ∨ ∃ child venue, g.execHandler.getOrder childId = some child ∧
      child.isActive = true ∧ g.venues child.targetVenue = some venue ∧
      let forwarded := VenueAdapter.cancelOrder venue { request with orderId := childId }
      g.cancelChild request childId = { g with
        venues := Function.update g.venues child.targetVenue (some forwarded.2.1) }.onExecutionReports
          forwarded.2.2 := by
  unfold cancelChild
  cases g.execHandler.getOrder childId with
  | none => exact .inl rfl
  | some child =>
    simp only
    split
    next hactive =>
      cases hvenue : g.venues child.targetVenue with
      | none => exact .inl rfl
      | some venue => exact .inr ⟨child, venue, rfl, hactive, hvenue, rfl⟩
    · exact .inl rfl

theorem cancelChild_calls (request : CancelRequest) (childId : ℕ) :
    g.VenueCalls (g.cancelChild request childId).1 ∧
      ∀ e ∈ (g.cancelChild request childId).2, e.IsReported := by
  obtain heq | ⟨child, venue, -, -, -, heq⟩ := g.cancelChild_cases request childId
  · rw [heq]
    exact ⟨.refl g, by simp⟩
  · rw [heq]
    obtain ⟨hcalls, hevents⟩ := onExecutionReports_calls
      (g := { g with venues := Function.update g.venues child.targetVenue _ }) _
    exact ⟨VenueCalls.trans ⟨_, _, rfl⟩ hcalls, hevents⟩

theorem cancelChildren_calls (request : CancelRequest) (childIds : List ℕ) :
    g.VenueCalls (cancelChildren request g childIds).1 ∧
      ∀ e ∈ (cancelChildren request g childIds).2, e.IsReported := by
  induction childIds generalizing g with
  | nil => exact ⟨.refl g, by simp [cancelChildren]⟩
  | cons childId childIds ih =>
    obtain ⟨hcall, hevents⟩ := g.cancelChild_calls request childId
    obtain ⟨hcalls, hlater⟩ := ih (g := (g.cancelChild request childId).1)
    refine ⟨hcall.trans hcalls, fun e he => ?_⟩
    rcases List.mem_append.mp he with he | he
    · exact hevents e he
    · exact hlater e he

theorem dispatchSlice_eq (order : Order) (slice : Slice) :
    ∃ es, (g.dispatchSlice order slice).2 = .childCreated order.id (childOf order slice g.nextOrderId) :: es ∧
      (∀ e ∈ es, e.IsReported ∨ ∃ sent, e = .childSent (childOf order slice g.nextOrderId) sent) ∧
      (g.createChild order slice).VenueCalls (g.dispatchSlice order slice).1 := by
  obtain ⟨hcalls, hevents⟩ := (g.createChild order slice).sendChild_calls
    (childOf order slice g.nextOrderId) slice.venueId
  exact ⟨_, rfl, hevents, hcalls⟩

/-- The loop rule for the slices of a decision. `Q` is what is known of all their events. -/
theorem dispatchSlices_invariant (I : Gateway V → List Event → Prop) (Q : Event → Prop)
    (order : Order) (slices : List Slice) (es : List Event)
    (hslice : ∀ g es slice, slice ∈ slices → (∀ e ∈ (g.dispatchSlice order slice).2, Q e) → I g es →
      I (g.dispatchSlice order slice).1 (es ++ (g.dispatchSlice order slice).2))
    (hi : I g es) (hq : ∀ e ∈ (dispatchSlices order g slices).2, Q e) :
    I (dispatchSlices order g slices).1 (es ++ (dispatchSlices order g slices).2) := by
  induction slices generalizing g es with
  | nil => simpa [dispatchSlices] using hi
  | cons slice slices ih =>
    have hfirst := hslice g es slice List.mem_cons_self
      (fun e he => hq e (List.mem_append_left _ he)) hi
    have hrest := ih _ (fun g es slice hm => hslice g es slice (List.mem_cons_of_mem _ hm)) hfirst
      fun e he => hq e (List.mem_append_right _ he)
    rw [List.append_assoc] at hrest
    exact hrest

section Child

variable (slice : Slice) (id : ℕ)

@[simp] theorem childOf_id : (childOf order slice id).id = id := rfl
@[simp] theorem childOf_parentOrderId : (childOf order slice id).parentOrderId = order.id := rfl
@[simp] theorem childOf_symbol : (childOf order slice id).symbol = order.symbol := rfl
@[simp] theorem childOf_side : (childOf order slice id).side = order.side := rfl
@[simp] theorem childOf_quantity : (childOf order slice id).quantity = slice.quantity := rfl
@[simp] theorem childOf_filledQuantity : (childOf order slice id).filledQuantity = 0 := rfl
@[simp] theorem childOf_targetVenue : (childOf order slice id).targetVenue = slice.venueId := rfl
@[simp] theorem childOf_state : (childOf order slice id).state = .pendingNew := rfl

end Child

theorem dispatchSlice_ofOrder (order : Order) (slice : Slice) :
    ∀ e ∈ (g.dispatchSlice order slice).2, e.OfOrder order.id := by
  obtain ⟨es, heq, hes, -⟩ := g.dispatchSlice_eq order slice
  rw [heq]
  intro e he
  rcases List.mem_cons.mp he with rfl | he
  · rfl
  · rcases hes e he with hreport | ⟨sent, rfl⟩
    · cases e <;> first | exact hreport.elim | trivial
    · rfl

theorem processSingleOrder_ofOrder (order : Order) :
    ∀ e ∈ (g.processSingleOrder P order t).2, e.OfOrder order.id := by
  cases hpass : g.passes order t with
  | false =>
    obtain ⟨limiter, heq⟩ := processSingleOrder_refused (P := P) hpass
    rw [heq]
    simp
  | true =>
    obtain ⟨engine, limiter, heq⟩ := processSingleOrder_passed (P := P) hpass
    rw [heq]
    refine dispatchSlices_invariant (fun _ es => ∀ e ∈ es, e.OfOrder order.id) (fun _ => True)
      (order.apply .submit) (g.slicesFor P order t) [.tracked (order.apply .submit)]
      (fun g es slice _ _ hi e he => ?_) (by simp [Event.OfOrder]) (by simp)
    · rcases List.mem_append.mp he with he | he
      · exact hi e he
      · rw [← order.apply_id .submit]
        exact g.dispatchSlice_ofOrder _ _ e he

theorem processSingleOrder_of_nil (h : g.slicesFor P order t = []) :
    ∀ e ∈ (g.processSingleOrder P order t).2, e = .tracked (order.apply .submit) := by
  cases hpass : g.passes order t with
  | false =>
    obtain ⟨limiter, heq⟩ := processSingleOrder_refused (P := P) hpass
    rw [heq]
    simp
  | true =>
    obtain ⟨engine, limiter, heq⟩ := processSingleOrder_passed (P := P) hpass
    rw [heq, h]
    simp [dispatchSlices]

theorem processSingleOrder_creates (h : g.slicesFor P order t ≠ []) :
    ∃ child, .childCreated order.id child ∈ (g.processSingleOrder P order t).2 := by
  obtain ⟨slice, slices, hslices⟩ := List.exists_cons_of_ne_nil h
  have hpass : g.passes order t = true := by
    by_contra hrefused
    exact h (if_neg hrefused)
  obtain ⟨engine, limiter, heq⟩ := processSingleOrder_passed (P := P) hpass
  obtain ⟨es, hes, -⟩ := (g.admitted (order.apply .submit) engine limiter).dispatchSlice_eq
    (order.apply .submit) slice
  rw [heq, hslices]
  simp only [dispatchSlices, hes, Order.apply_id]
  exact ⟨_, List.mem_cons_of_mem _ (List.mem_append_left _ List.mem_cons_self)⟩

/-- A report is handled, and then perhaps the parent goes through `process_single_order` again. -/
theorem processReport_cases (r : ExecutionReport) (t : Readings) :
    ∃ done, (∀ e ∈ done, ∃ o, e = .completed o) ∧
      (g.rerouteDue r = none ∧
          g.processReport P r t = (g.applyReport r, .processed r (g.applies r) :: done) ∨
        ∃ parent, g.rerouteDue r = some parent ∧
          let again := (g.applyReport r).processSingleOrder P (rerouteOrder parent) t
          g.processReport P r t = (again.1, .processed r (g.applies r) :: again.2 ++ done)) := by
  unfold processReport
  simp only
  generalize (g.execHandler.onExecutionReport r).2.completion = completion
  refine ⟨completion.toList.map .completed, fun e he => ?_, ?_⟩
  · obtain ⟨order, -, rfl⟩ := List.mem_map.mp he
    exact ⟨order, rfl⟩
  · cases hdue : g.rerouteDue r with
    | none => cases completion <;> exact .inl ⟨rfl, rfl⟩
    | some parent => cases completion <;> exact .inr ⟨parent, rfl, rfl⟩

theorem processCancel_cases (request : CancelRequest) :
    g.execHandler.orders request.orderId = none ∧ g.processCancel request = (g, []) ∨
      (g.execHandler.orders request.orderId).isSome ∧ ∃ es,
        (g.processCancel request).2 = .cancelTaken request.orderId :: es ∧
        g.VenueCalls (g.processCancel request).1 ∧ ∀ e ∈ es, e.IsReported := by
  unfold processCancel ExecutionHandler.getOrder
  cases g.execHandler.orders request.orderId with
  | none => exact .inl ⟨rfl, rfl⟩
  | some o =>
    obtain ⟨hcalls, hevents⟩ := cancelChildren_calls (g := g) request
      (g.execHandler.getChildren request.orderId)
    exact .inr ⟨rfl, _, rfl, hcalls, hevents⟩

end Gateway

def Action.configuresRisk {V : Type} [VenueAdapter V] : Action V → Bool
  | .setGlobalLimits .. | .setSymbolLimits .. | .activateKillSwitch | .deactivateKillSwitch => true
  | _ => false

namespace System

variable {V : Type}

structure Quiet (s s' : System V) : Prop where
  execHandler : s'.gateway.execHandler = s.gateway.execHandler
  positions : s'.gateway.riskManager.positions = s.gateway.riskManager.positions
  orderQueue : s'.gateway.orderQueue = s.gateway.orderQueue
  reportQueue : s'.gateway.reportQueue = s.gateway.reportQueue
  venues : s'.gateway.venues = s.gateway.venues
  nextOrderId : s.gateway.nextOrderId ≤ s'.gateway.nextOrderId
  outbox : s'.outbox = s.outbox
  unused : s'.unused = s.unused

variable [VenueAdapter V] {P : Platform} {s s' : System V} {es : List Event}

inductive Effect (P : Platform) (s : System V) : Action V → System V → List Event → Prop
  | quiet {a s'} (h : Quiet s s') : Effect P s a s' []
  | stopped (hthread : s.execThread = .exited) : Effect P s .joinStop { s with
      gateway := { s.gateway with venues := fun v => (s.gateway.venues v).map VenueAdapter.disconnect }
      stopping := false } [.stopReturned]
  | allocated : Effect P s .allocateOrderId { s with
      gateway := { s.gateway with nextOrderId := s.gateway.nextOrderId + 1 }
      unused := s.gateway.nextOrderId :: s.unused } []
  | submitted {request order nextOrderId queue} (hassign : s.assignId request = (order, nextOrderId))
      (hpush : s.gateway.orderQueue.tryPush order = some queue) :
      Effect P s (.submitOrder request) { s with
        gateway := { s.gateway with nextOrderId := nextOrderId, orderQueue := queue }
        unused := s.unused.filter (· ≠ order.id) } [.submitted order]
  | orderTaken {order queue} (t : Readings) (hthread : s.orderThread = .orders)
      (hpop : s.gateway.orderQueue.tryPop = some (order, queue)) :
      Effect P s (.orderLoop t)
        (s.setGateway ({ s.gateway with orderQueue := queue }.processSingleOrder P order t).1)
        ({ s.gateway with orderQueue := queue }.processSingleOrder P order t).2
  | cancelTaken {request queue} (t : Readings) :
      Effect P s (.orderLoop t)
        (s.setGateway ({ s.gateway with cancelQueue := queue }.processCancel request).1)
        ({ s.gateway with cancelQueue := queue }.processCancel request).2
  | reportTaken {report queue} (t : Readings) (hthread : s.execThread = .reports)
      (hpop : s.gateway.reportQueue.tryPop = some (report, queue)) :
      Effect P s (.execLoop t)
        (s.setGateway ({ s.gateway with reportQueue := queue }.processReport P report t).1)
        ({ s.gateway with reportQueue := queue }.processReport P report t).2
  | venueRan {venueId venue venue' op reports} (hfound : s.gateway.venues venueId = some venue)
      (hrun : VenueAdapter.run P venue op = some (venue', reports)) :
      Effect P s (.venue venueId op) { s with
        gateway := { s.gateway with venues := Function.update s.gateway.venues venueId (some venue') }
        outbox := Function.update s.outbox venueId (s.outbox venueId ++ reports) } []
  | notified {venueId report reports} (houtbox : s.outbox venueId = report :: reports) :
      Effect P s (.notify venueId) { s with
        gateway := (s.gateway.onExecutionReport report).1
        outbox := Function.update s.outbox venueId reports } (s.gateway.onExecutionReport report).2

structure Reroute (V : Type) where
  gateway : Gateway V
  parent : Order
  readings : Readings

def Reroute.slices (P : Platform) (x : Reroute V) : List Slice :=
  x.gateway.slicesFor P (Gateway.rerouteOrder x.parent) x.readings

def reroute (s : System V) : Action V → Option (Reroute V)
  | .execLoop t =>
    if s.execThread = .reports then
      match s.gateway.reportQueue.tryPop with
      | some (report, queue) =>
        let g := { s.gateway with reportQueue := queue }
        (g.rerouteDue report).map fun parent => ⟨g.applyReport report, parent, t⟩
      | none => none
    else none
  | _ => none

structure TakenUp (V : Type) where
  gateway : Gateway V
  order : Order
  readings : Readings

def takenUp (s : System V) : Action V → Option (TakenUp V)
  | .orderLoop t =>
    if s.orderThread = .orders then
      s.gateway.orderQueue.tryPop.map fun (order, queue) => ⟨{ s.gateway with orderQueue := queue }, order, t⟩
    else none
  | a => (s.reroute a).map fun x => ⟨x.gateway, Gateway.rerouteOrder x.parent, x.readings⟩

def nextReport (s : System V) (a : Action V) : Option ExecutionReport :=
  if a.isExecLoop = true ∧ s.execThread = .reports then s.gateway.reportQueue.items.head? else none

omit [VenueAdapter V] in
theorem submitOrder_frame (request : Order) : ∃ nextOrderId queue unused, (s.submitOrder request).1 = { s with
    gateway := { s.gateway with nextOrderId := nextOrderId, orderQueue := queue }
    unused := unused } := by
  unfold submitOrder
  split
  · exact ⟨_, _, _, rfl⟩
  · simp only
    split
    · exact ⟨_, _, _, rfl⟩
    · exact ⟨_, _, _, rfl⟩

omit [VenueAdapter V] in
theorem cancelOrder_frame (request : CancelRequest) :
    ∃ queue, s.cancelOrder request = s.setGateway { s.gateway with cancelQueue := queue } := by
  unfold cancelOrder
  split
  · exact ⟨_, rfl⟩
  · split
    · exact ⟨_, rfl⟩
    · exact ⟨_, rfl⟩

theorem submitOrder_effect (request : Order) :
    Effect P s (.submitOrder request) (s.submitOrder request).1 (s.submitOrder request).2 := by
  have hquiet : Quiet s (s.setGateway { s.gateway with nextOrderId := (s.assignId request).2 }) := by
    refine ⟨rfl, rfl, rfl, rfl, rfl, ?_, rfl, rfl⟩
    simp only [setGateway, assignId]
    split <;> simp
  unfold submitOrder
  split
  · exact .quiet ⟨rfl, rfl, rfl, rfl, rfl, le_rfl, rfl, rfl⟩
  · simp only
    split
    · exact .quiet hquiet
    next queue hpush => exact .submitted rfl hpush

theorem step_effect {a : Action V} (h : (machine P).step s a = some (s', es)) : Effect P s a s' es := by
  cases a with
  | start =>
    simp only [machine, step] at h
    split_ifs at h <;> cases h <;> exact .quiet ⟨rfl, rfl, rfl, rfl, rfl, le_rfl, rfl, rfl⟩
  | stop =>
    simp only [machine, step] at h
    split_ifs at h <;> cases h <;> exact .quiet ⟨rfl, rfl, rfl, rfl, rfl, le_rfl, rfl, rfl⟩
  | joinStop =>
    simp only [machine, step] at h
    split_ifs at h with hjoin
    cases h
    exact .stopped hjoin.2.2
  | allocateOrderId =>
    cases h
    exact .allocated
  | submitOrder request =>
    obtain ⟨rfl, rfl⟩ : _ = s' ∧ _ = es := by simpa [machine, step, Prod.ext_iff] using h
    exact submitOrder_effect request
  | cancelOrder request =>
    cases h
    obtain ⟨queue, hframe⟩ := s.cancelOrder_frame request
    rw [hframe]
    exact .quiet ⟨rfl, rfl, rfl, rfl, rfl, le_rfl, rfl, rfl⟩
  | orderLoop t =>
    simp only [machine, step, orderLoop] at h
    split at h
    · cases h
    · cases h
      exact .quiet ⟨rfl, rfl, rfl, rfl, rfl, le_rfl, rfl, rfl⟩
    next hthread =>
      split at h
      · cases h
        exact .quiet ⟨rfl, rfl, rfl, rfl, rfl, le_rfl, rfl, rfl⟩
      next order queue hpop =>
        cases h
        exact .orderTaken t hthread hpop
    · split at h
      · cases h
        exact .quiet ⟨rfl, rfl, rfl, rfl, rfl, le_rfl, rfl, rfl⟩
      next request queue hpop =>
        cases h
        exact .cancelTaken t
  | execLoop t =>
    simp only [machine, step, execLoop] at h
    split at h
    · cases h
    · cases h
      exact .quiet ⟨rfl, rfl, rfl, rfl, rfl, le_rfl, rfl, rfl⟩
    next hthread =>
      split at h
      · cases h
        exact .quiet ⟨rfl, rfl, rfl, rfl, rfl, le_rfl, rfl, rfl⟩
      next report queue hpop =>
        cases h
        exact .reportTaken t hthread hpop
  | venue venueId op =>
    simp only [machine, step] at h
    split at h
    · cases h
    next venue hfound =>
      obtain ⟨⟨venue', reports⟩, hrun, heq⟩ := Option.map_eq_some_iff.mp h
      cases heq
      exact .venueRan hfound hrun
  | notify venueId =>
    simp only [machine, step] at h
    split at h
    · cases h
    next report reports houtbox =>
      cases h
      exact .notified houtbox
  | _ =>
    cases h
    exact .quiet ⟨rfl, rfl, rfl, rfl, rfl, le_rfl, rfl, rfl⟩

theorem reroute_of_due {t : Readings} {report : ExecutionReport} {queue : Fifo ExecutionReport 8192}
    {parent : Order} (hthread : s.execThread = .reports)
    (hpop : s.gateway.reportQueue.tryPop = some (report, queue))
    (hdue : { s.gateway with reportQueue := queue }.rerouteDue report = some parent) :
    s.reroute (.execLoop t) =
      some ⟨{ s.gateway with reportQueue := queue }.applyReport report, parent, t⟩ := by
  unfold reroute
  simp [hthread, hpop, hdue]

theorem takenUp_of_pop {t : Readings} {order : Order} {queue : Fifo Order 8192}
    (hthread : s.orderThread = .orders) (hpop : s.gateway.orderQueue.tryPop = some (order, queue)) :
    s.takenUp (.orderLoop t) = some ⟨{ s.gateway with orderQueue := queue }, order, t⟩ := by
  unfold takenUp
  simp [hthread, hpop]

theorem takenUp_of_due {t : Readings} {x : Reroute V} (hx : s.reroute (.execLoop t) = some x) :
    s.takenUp (.execLoop t) = some ⟨x.gateway, Gateway.rerouteOrder x.parent, x.readings⟩ := by
  simp only [takenUp]
  rw [hx, Option.map_some]

/-- An order is taken up from the queue or rerouted. The limits, the kill switch and the rate limiter are used for
nothing else. -/
theorem step_takenUp {a : Action V} (h : (machine P).step s a = some (s', es)) (ha : a.configuresRisk = false) :
    s.takenUp a = none ∧ s.gateway.SameSettings s'.gateway ∨
      ∃ u, s.takenUp a = some u ∧ s.gateway.SameSettings u.gateway ∧
        s'.gateway.riskManager = (u.gateway.processSingleOrder P u.order u.readings).1.riskManager := by
  cases a with
  | submitOrder request =>
    obtain ⟨rfl, -⟩ : _ = s' ∧ _ = es := by simpa [machine, step, Prod.ext_iff] using h
    obtain ⟨nextOrderId, queue, unused, hframe⟩ := s.submitOrder_frame request
    rw [hframe]
    exact .inl ⟨rfl, .refl s.gateway⟩
  | cancelOrder request =>
    cases h
    obtain ⟨queue, hframe⟩ := s.cancelOrder_frame request
    rw [hframe]
    exact .inl ⟨rfl, .refl s.gateway⟩
  | orderLoop t =>
    simp only [machine, step, orderLoop] at h
    split at h
    · cases h
    next hthread =>
      cases h
      exact .inl ⟨by simp [takenUp, hthread], .refl s.gateway⟩
    next hthread =>
      split at h
      next hpop =>
        cases h
        exact .inl ⟨by simp [takenUp, hthread, hpop], .refl s.gateway⟩
      next order queue hpop =>
        cases h
        exact .inr ⟨_, takenUp_of_pop hthread hpop, .refl s.gateway, rfl⟩
    next hthread =>
      split at h
      · cases h
        exact .inl ⟨by simp [takenUp, hthread], .refl s.gateway⟩
      next request queue hpop =>
        cases h
        refine .inl ⟨by simp [takenUp, hthread], ?_⟩
        obtain ⟨-, heq⟩ | ⟨-, es, -, hcalls, -⟩ := Gateway.processCancel_cases
          (g := { s.gateway with cancelQueue := queue }) request
        · rw [heq]
          exact .refl s.gateway
        · exact hcalls.sameSettings
  | execLoop t =>
    simp only [machine, step, execLoop] at h
    split at h
    · cases h
    next hthread =>
      cases h
      exact .inl ⟨by simp [takenUp, reroute, hthread], .refl s.gateway⟩
    next hthread =>
      split at h
      next hpop =>
        cases h
        exact .inl ⟨by simp [takenUp, reroute, hpop], .refl s.gateway⟩
      next report queue hpop =>
        cases h
        have happly : s.gateway.SameSettings ({ s.gateway with reportQueue := queue }.applyReport report) :=
          Gateway.applyReport_sameSettings
        obtain ⟨done, -, ⟨hdue, heq⟩ | ⟨parent, hdue, heq⟩⟩ := Gateway.processReport_cases (P := P)
          (g := { s.gateway with reportQueue := queue }) report t
        · refine .inl ⟨by simp [takenUp, reroute, hthread, hpop, hdue], ?_⟩
          rw [heq]
          exact happly
        · refine .inr ⟨_, takenUp_of_due (reroute_of_due hthread hpop hdue), happly, ?_⟩
          rw [heq]
          rfl
  | start | stop | joinStop =>
    simp only [machine, step] at h
    split_ifs at h <;> cases h <;> exact .inl ⟨rfl, .refl s.gateway⟩
  | venue venueId op =>
    simp only [machine, step] at h
    split at h
    · cases h
    · obtain ⟨_, -, heq⟩ := Option.map_eq_some_iff.mp h
      cases heq
      exact .inl ⟨rfl, .refl s.gateway⟩
  | notify venueId =>
    simp only [machine, step] at h
    split at h
    · cases h
    · cases h
      exact .inl ⟨rfl, (Gateway.onExecutionReport_calls _).1.sameSettings⟩
  | setGlobalLimits | setSymbolLimits | activateKillSwitch | deactivateKillSwitch => cases ha
  | allocateOrderId | onBookUpdate | updateVenueScore | removeVenue =>
    cases h
    exact .inl ⟨rfl, .refl s.gateway⟩

theorem nextReport_of_pop {t : Readings} {report : ExecutionReport} {queue : Fifo ExecutionReport 8192}
    (hthread : s.execThread = .reports)
    (hpop : s.gateway.reportQueue.tryPop = some (report, queue)) :
    s.nextReport (.execLoop t) = some report := by
  unfold nextReport
  rw [if_pos ⟨rfl, hthread⟩, Fifo.tryPop_items hpop]
  rfl

inductive Shown (P : Platform) (s : System V) (a : Action V) (s' : System V) : Event → Prop
  | reported {e} (he : e.IsReported) : Shown P s a s' e
  | processed (report : ExecutionReport) (applied : Bool) : Shown P s a s' (.processed report applied)
  | completed (order : Order) : Shown P s a s' (.completed order)
  | stopReturned (hthread : s.execThread = .exited) : Shown P s a s' .stopReturned
  | submitted {order queue} (hpush : s.gateway.orderQueue.tryPush order = some queue)
      (hqueue : s'.gateway.orderQueue = queue) (hsame : s'.gateway.execHandler = s.gateway.execHandler) :
      Shown P s a s' (.submitted order)
  | cancelTaken {id} (hknown : (s.gateway.execHandler.orders id).isSome) : Shown P s a s' (.cancelTaken id)
  | ofOrder {order queue e} (hpop : s.gateway.orderQueue.tryPop = some (order, queue))
      (he : e.OfOrder order.id) : Shown P s a s' e
  | ofReroute {x e} (hx : x ∈ s.reroute a) (he : e.OfOrder x.parent.id)
      (hslices : x.slices P = [] → ∃ order, e = .tracked order) : Shown P s a s' e

theorem step_shown {a : Action V} {e : Event} (h : (machine P).step s a = some (s', es)) (he : e ∈ es) :
    Shown P s a s' e := by
  cases step_effect h with
  | quiet hq => simp at he
  | stopped hthread =>
    rw [List.mem_singleton.mp he]
    exact .stopReturned hthread
  | allocated => simp at he
  | submitted hassign hpush =>
    rw [List.mem_singleton.mp he]
    exact .submitted hpush rfl rfl
  | orderTaken t hthread hpop => exact .ofOrder hpop (Gateway.processSingleOrder_ofOrder _ _ he)
  | @cancelTaken request queue t =>
    obtain ⟨-, heq⟩ | ⟨hknown, es, heq, -, hes⟩ := Gateway.processCancel_cases
      (g := { s.gateway with cancelQueue := queue }) request
    · rw [heq] at he
      cases he
    · rw [heq] at he
      rcases List.mem_cons.mp he with rfl | he
      · exact .cancelTaken hknown
      · exact .reported (hes _ he)
  | @reportTaken report queue t hthread hpop =>
    obtain ⟨done, hd, ⟨-, heq⟩ | ⟨parent, hdue, heq⟩⟩ := Gateway.processReport_cases (P := P)
      (g := { s.gateway with reportQueue := queue }) report t
    · rw [heq] at he
      rcases List.mem_cons.mp he with rfl | he
      · exact .processed _ _
      · obtain ⟨o, rfl⟩ := hd _ he
        exact .completed o
    · rw [heq] at he
      rcases List.mem_append.mp he with he | he
      · rcases List.mem_cons.mp he with rfl | he
        · exact .processed _ _
        · have hparent : e.OfOrder parent.id :=
            Gateway.processSingleOrder_ofOrder (Gateway.rerouteOrder parent) e he
          exact .ofReroute (reroute_of_due hthread hpop hdue) hparent fun hnil =>
            ⟨_, Gateway.processSingleOrder_of_nil hnil _ he⟩
      · obtain ⟨o, rfl⟩ := hd _ he
        exact .completed o
  | venueRan hfound hrun => simp at he
  | notified houtbox => exact .reported ((Gateway.onExecutionReport_calls _).2 _ he)

theorem dispatches_cases {a : Action V} {e : Event} {p : ℕ} (h : (machine P).step s a = some (s', es))
    (he : e ∈ es) (hp : e.Dispatches p) :
    (∃ order queue, s.gateway.orderQueue.tryPop = some (order, queue) ∧ order.id = p) ∨
      ∃ x ∈ s.reroute a, x.parent.id = p ∧ x.slices P ≠ [] := by
  have horder {id : ℕ} {e : Event} (ho : e.OfOrder id) (hp : e.Dispatches p) : id = p := by
    cases e <;> first | exact hp.elim | exact ho.symm.trans hp
  cases step_shown h he with
  | reported hr => cases e <;> first | exact hr.elim | exact hp.elim
  | processed | completed | stopReturned | submitted | cancelTaken => exact hp.elim
  | ofOrder hpop he => exact .inl ⟨_, _, hpop, horder he hp⟩
  | ofReroute hx he hslices =>
    refine .inr ⟨_, hx, horder he hp, fun hnil => ?_⟩
    obtain ⟨order, rfl⟩ := hslices hnil
    exact hp.elim

theorem stopReturned_exited {a : Action V} (h : (machine P).step s a = some (s', es))
    (he : Event.stopReturned ∈ es) : s.execThread = .exited := by
  cases step_shown h he with
  | reported he => exact he.elim
  | stopReturned hthread => exact hthread
  | ofOrder hpop he => exact he.elim
  | ofReroute hx he hslices => exact he.elim

theorem cancelTaken_known {a : Action V} {id : ℕ} (h : (machine P).step s a = some (s', es))
    (he : Event.cancelTaken id ∈ es) : (s.gateway.execHandler.orders id).isSome := by
  cases step_shown h he with
  | reported he => exact he.elim
  | cancelTaken hknown => exact hknown
  | ofOrder hpop he => exact he.elim
  | ofReroute hx he hslices => exact he.elim

theorem submitted_queued {a : Action V} {order : Order} (h : (machine P).step s a = some (s', es))
    (he : Event.submitted order ∈ es) :
    order ∈ s'.gateway.orderQueue.items ∧ s'.gateway.execHandler = s.gateway.execHandler := by
  cases step_shown h he with
  | reported he => exact he.elim
  | submitted hpush hqueue hsame =>
    rw [hqueue, Fifo.tryPush_items hpush]
    exact ⟨List.mem_append_right _ (List.mem_singleton_self _), hsame⟩
  | ofOrder hpop he => exact he.elim
  | ofReroute hx he hslices => exact he.elim

end System

end Klett.Sor

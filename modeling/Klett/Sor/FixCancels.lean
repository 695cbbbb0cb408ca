import Klett.Lib.Machine
import Klett.Sor.FixGateway
import Klett.Sor.OrderQueues

namespace Klett.Sor

open Klett.Lib

namespace Gateway

variable {V : Type} (g : Gateway V)

def cancelable (childId : ℕ) : Bool :=
  match g.execHandler.getOrder childId with
  | some child => child.isActive && (g.venues child.targetVenue).isSome
  | none => false

def activeChildren (id : ℕ) : List ℕ := (g.execHandler.getChildren id).filter g.cancelable

def forwarded (request : CancelRequest) : List ℕ :=
  if (g.execHandler.getOrder request.orderId).isSome then g.activeChildren request.orderId else []

variable [VenueAdapter V] {g} {request : CancelRequest}

theorem cancelChild_skipped {childId : ℕ} (h : g.cancelable childId = false) :
    g.cancelChild request childId = (g, []) := by
  unfold cancelable at h
  unfold cancelChild
  cases hchild : g.execHandler.getOrder childId with
  | none => rfl
  | some child =>
    rw [hchild] at h
    simp only [Bool.and_eq_false_iff] at h
    rcases h with hdone | hvenue
    · simp [hdone]
    · rw [Option.isSome_eq_false_iff, Option.isNone_iff_eq_none] at hvenue
      simp [hvenue]

theorem cancelChild_isSome (childId v : ℕ) :
    ((g.cancelChild request childId).1.venues v).isSome = (g.venues v).isSome := by
  obtain heq | ⟨child, venue, -, -, hvenue, heq⟩ := g.cancelChild_cases request childId
  · rw [heq]
  · rw [heq, onExecutionReports_venues]
    by_cases hv : v = child.targetVenue
    · simp only [hv, Function.update_self, hvenue, Option.isSome_some]
    · simp only [Function.update_of_ne hv]

theorem cancelChild_cancelable (childId : ℕ) :
    (g.cancelChild request childId).1.cancelable = g.cancelable := by
  funext other
  have hhandler : (g.cancelChild request childId).1.execHandler = g.execHandler := by
    obtain ⟨⟨venues, queue, heq⟩, -⟩ := g.cancelChild_calls request childId
    rw [heq]
  unfold cancelable
  rw [hhandler]
  cases g.execHandler.getOrder other with
  | none => rfl
  | some child => simp only [cancelChild_isSome]

/-- The loop goes over the children, and calls on a venue for the forwarded ones alone. -/
theorem cancelChildren_filter (childIds : List ℕ) :
    cancelChildren request g childIds = cancelChildren request g (childIds.filter g.cancelable) := by
  induction childIds generalizing g with
  | nil => rfl
  | cons childId childIds ih =>
    cases hc : g.cancelable childId with
    | false =>
      rw [List.filter_cons_of_neg (by simp [hc]), ← ih]
      simp [cancelChildren, cancelChild_skipped hc]
    | true =>
      rw [List.filter_cons_of_pos hc]
      simp only [cancelChildren]
      rw [ih, cancelChild_cancelable]

/-- The loop cancels the forwarded children and no others. -/
theorem processCancel_forwarded (h : (g.execHandler.getOrder request.orderId).isSome) :
    g.processCancel request =
      let d := cancelChildren request g (g.forwarded request)
      (d.1, .cancelTaken request.orderId :: d.2) := by
  obtain ⟨order, horder⟩ := Option.isSome_iff_exists.mp h
  unfold processCancel forwarded activeChildren
  rw [if_pos h, ← cancelChildren_filter]
  simp only [horder]

end Gateway

/-- A venue with the cancels that it has got. It does what the venue does. -/
structure Logged (V : Type) where
  venue : V
  cancels : List CancelRequest := []

instance {V : Type} [VenueAdapter V] : VenueAdapter (Logged V) where
  Op := VenueAdapter.Op V
  disconnect x := { x with venue := VenueAdapter.disconnect x.venue }
  sendOrder x order :=
    let (sent, venue, reports) := VenueAdapter.sendOrder x.venue order
    (sent, { x with venue := venue }, reports)
  cancelOrder x request :=
    let (done, venue, reports) := VenueAdapter.cancelOrder x.venue request
    (done, { venue := venue, cancels := x.cancels ++ [request] }, reports)
  run P x op := (VenueAdapter.run P x.venue op).map fun (venue, reports) => ({ x with venue := venue }, reports)

namespace Gateway

variable {V : Type} (g : Gateway (Logged V))

/-- The cancels that this venue has got, in order. -/
def canceledAt (v : ℕ) : List CancelRequest := ((g.venues v).map Logged.cancels).getD []

def worksAt (v childId : ℕ) : Bool := (g.execHandler.getOrder childId).any (·.targetVenue = v)

def cancelsAt (request : CancelRequest) (v : ℕ) (childIds : List ℕ) : List CancelRequest :=
  (childIds.filter (g.worksAt v)).map fun childId => { request with orderId := childId }

variable [VenueAdapter V] {g} {request : CancelRequest}

theorem cancelChild_execHandler (childId : ℕ) : (g.cancelChild request childId).1.execHandler = g.execHandler := by
  obtain ⟨⟨venues, queue, heq⟩, -⟩ := g.cancelChild_calls request childId
  rw [heq]

theorem cancelChild_canceledAt {childId : ℕ} (h : g.cancelable childId = true) (v : ℕ) :
    (g.cancelChild request childId).1.canceledAt v = g.canceledAt v ++ g.cancelsAt request v [childId] := by
  unfold cancelable at h
  cases hchild : g.execHandler.getOrder childId with
  | none =>
    rw [hchild] at h
    cases h
  | some child =>
    rw [hchild] at h
    obtain ⟨hactive, hvenue⟩ := Bool.and_eq_true_iff.mp h
    obtain ⟨venue, hvenue⟩ := Option.isSome_iff_exists.mp hvenue
    have hworks : g.worksAt v childId = decide (child.targetVenue = v) := by
      rw [worksAt, hchild, Option.any_some]
    unfold cancelChild canceledAt cancelsAt
    simp only [hchild, hactive, if_true, hvenue]
    rw [onExecutionReports_venues]
    by_cases hv : child.targetVenue = v
    · subst hv
      simp [hworks, hvenue, VenueAdapter.cancelOrder]
    · simp [hworks, hv, Function.update_of_ne (Ne.symm hv)]

/-- Each forwarded child is cancelled at its own venue. -/
theorem cancelChildren_canceledAt {childIds : List ℕ} (h : ∀ childId ∈ childIds, g.cancelable childId = true) (v : ℕ) :
    (cancelChildren request g childIds).1.canceledAt v = g.canceledAt v ++ g.cancelsAt request v childIds := by
  induction childIds generalizing g with
  | nil => exact (List.append_nil _).symm
  | cons childId childIds ih =>
    obtain ⟨hfirst, hrest⟩ := List.forall_mem_cons.mp h
    have hworks : (g.cancelChild request childId).1.worksAt v = g.worksAt v := by
      funext other
      rw [worksAt, cancelChild_execHandler, worksAt]
    have hlater := ih (g := (g.cancelChild request childId).1) (by rwa [cancelChild_cancelable])
    simp only [cancelChildren]
    rw [hlater, cancelChild_canceledAt hfirst, List.append_assoc]
    unfold cancelsAt
    rw [hworks, ← List.map_append, ← List.filter_append, List.singleton_append]

/-- What a cancel from the queue brings to the venues. -/
theorem processCancel_canceledAt (request : CancelRequest) (v : ℕ) :
    (g.processCancel request).1.canceledAt v =
      g.canceledAt v ++ g.cancelsAt request v (g.forwarded request) := by
  by_cases hknown : (g.execHandler.getOrder request.orderId).isSome
  · have hall : ∀ childId ∈ g.forwarded request, g.cancelable childId = true := by
      intro childId hchild
      rw [forwarded, if_pos hknown] at hchild
      exact (List.mem_filter.mp hchild).2
    rw [processCancel_forwarded hknown]
    exact cancelChildren_canceledAt hall v
  · have hnone : g.execHandler.getOrder request.orderId = none := by simpa using hknown
    unfold processCancel forwarded
    rw [if_neg hknown]
    simp [hnone, cancelsAt]

end Gateway

namespace Gateway

variable {V : Type} (P : Platform) (g : Gateway (Logged V))

/-- The gateway with the venues themselves. -/
@[simps]
def unlogged : Gateway V := { g with venues := fun v => (g.venues v).map Logged.venue }

theorem unlogged_update (v : ℕ) (x : Logged V) :
    ({ g with venues := Function.update g.venues v (some x) } : Gateway (Logged V)).unlogged =
      { g.unlogged with venues := Function.update g.unlogged.venues v (some x.venue) } := by
  unfold unlogged
  congr
  funext i
  by_cases hi : i = v
  · subst hi
    simp
  · simp [Function.update_of_ne hi]

theorem unlogged_onExecutionReport (report : ExecutionReport) :
    g.unlogged.onExecutionReport report = (g.onExecutionReport report).map unlogged id := by
  unfold onExecutionReport
  rw [unlogged_reportQueue]
  cases g.reportQueue.tryPush report <;> rfl

theorem unlogged_onExecutionReports (reports : List ExecutionReport) :
    g.unlogged.onExecutionReports reports = (g.onExecutionReports reports).map unlogged id := by
  induction reports generalizing g with
  | nil => rfl
  | cons report reports ih =>
    simp only [onExecutionReports, unlogged_onExecutionReport, Prod.map_fst, ih]
    rfl

theorem unlogged_applyReport (report : ExecutionReport) :
    g.unlogged.applyReport report = (g.applyReport report).unlogged := by
  unfold applyReport
  simp only [unlogged_execHandler]
  cases (g.execHandler.onExecutionReport report).2.fill <;> rfl

variable [VenueAdapter V]

theorem unlogged_sendChild (child : Order) (v : ℕ) :
    g.unlogged.sendChild child v = (g.sendChild child v).map unlogged id := by
  unfold sendChild
  cases hvenue : g.venues v with
  | none => simp [hvenue]
  | some x =>
    simp only [unlogged_venues, hvenue, Option.map_some]
    rw [← unlogged_update g v { x with venue := (VenueAdapter.sendOrder x.venue child).2.1 },
      unlogged_onExecutionReports]
    rfl

theorem unlogged_dispatchSlice (order : Order) (slice : Slice) :
    g.unlogged.dispatchSlice order slice = (g.dispatchSlice order slice).map unlogged id := by
  have hsent : (g.unlogged.createChild order slice).sendChild (childOf order slice g.unlogged.nextOrderId)
      slice.venueId = _ := (g.createChild order slice).unlogged_sendChild _ slice.venueId
  unfold dispatchSlice
  simp only [hsent]
  rfl

theorem unlogged_dispatchSlices (order : Order) (slices : List Slice) :
    dispatchSlices order g.unlogged slices = (dispatchSlices order g slices).map unlogged id := by
  induction slices generalizing g with
  | nil => rfl
  | cons slice slices ih =>
    simp only [dispatchSlices, unlogged_dispatchSlice, Prod.map_fst, ih]
    rfl

theorem unlogged_routeTracked (order : Order) (t : Readings) :
    g.unlogged.routeTracked P order t = (g.routeTracked P order t).map unlogged id := by
  let tracked : Gateway (Logged V) := { g with execHandler := g.execHandler.trackOrder order }
  have hrouted : routeOrder P ({ g.unlogged with execHandler := g.unlogged.execHandler.trackOrder order }) order t =
      tracked.routeOrder P order t := rfl
  unfold routeTracked
  simp only [hrouted, tracked]
  split_ifs
  · rfl
  · exact congrArg (fun d : Gateway V × List Event => (d.1, Event.tracked order :: d.2))
      (unlogged_dispatchSlices { tracked with
        routingEngine := (tracked.routeOrder P order t).1
        riskManager := (tracked.routeOrder P order t).2.1 } order (tracked.routeOrder P order t).2.2.slices)

theorem unlogged_processSingleOrder (order : Order) (t : Readings) :
    g.unlogged.processSingleOrder P order t = (g.processSingleOrder P order t).map unlogged id := by
  unfold processSingleOrder
  simp only [unlogged_riskManager]
  split_ifs
  · rfl
  · exact unlogged_routeTracked P
      { g with riskManager := (g.riskManager.checkOrder (order.apply .submit) t.riskSecond).1 } (order.apply .submit) t

theorem unlogged_processReport (report : ExecutionReport) (t : Readings) :
    g.unlogged.processReport P report t = (g.processReport P report t).map unlogged id := by
  have hdue : g.unlogged.rerouteDue report = g.rerouteDue report := rfl
  unfold processReport
  cases h : g.rerouteDue report with
  | none =>
    simp only [hdue, h, unlogged_applyReport]
    rfl
  | some parent =>
    simp only [hdue, h, unlogged_applyReport, unlogged_processSingleOrder]
    rfl

theorem unlogged_cancelChild (request : CancelRequest) (childId : ℕ) :
    g.unlogged.cancelChild request childId = (g.cancelChild request childId).map unlogged id := by
  unfold cancelChild
  rw [unlogged_execHandler]
  cases g.execHandler.getOrder childId with
  | none => rfl
  | some child =>
    cases hvenue : g.venues child.targetVenue with
    | none =>
      simp only [unlogged_venues, hvenue, Option.map_none]
      split_ifs <;> rfl
    | some x =>
      simp only [unlogged_venues, hvenue, Option.map_some]
      split_ifs
      · rw [← unlogged_onExecutionReports, unlogged_update]
        rfl
      · rfl

theorem unlogged_cancelChildren (request : CancelRequest) (childIds : List ℕ) :
    cancelChildren request g.unlogged childIds = (cancelChildren request g childIds).map unlogged id := by
  induction childIds generalizing g with
  | nil => rfl
  | cons childId childIds ih =>
    simp only [cancelChildren, unlogged_cancelChild, Prod.map_fst, ih]
    rfl

theorem unlogged_processCancel (request : CancelRequest) :
    g.unlogged.processCancel request = (g.processCancel request).map unlogged id := by
  unfold processCancel
  rw [unlogged_execHandler]
  cases g.execHandler.getOrder request.orderId with
  | none => rfl
  | some order =>
    simp only [unlogged_cancelChildren]
    rfl

end Gateway

def Action.logged {V : Type} [VenueAdapter V] : Action V → Action (Logged V)
  | .start => .start
  | .stop => .stop
  | .joinStop => .joinStop
  | .allocateOrderId => .allocateOrderId
  | .submitOrder order => .submitOrder order
  | .cancelOrder request => .cancelOrder request
  | .orderLoop t => .orderLoop t
  | .execLoop t => .execLoop t
  | .venue venueId op => .venue venueId op
  | .notify venueId => .notify venueId
  | .onBookUpdate venueId symbol book => .onBookUpdate venueId symbol book
  | .updateVenueScore venueId score => .updateVenueScore venueId score
  | .removeVenue venueId => .removeVenue venueId
  | .setGlobalLimits limits nowSec => .setGlobalLimits limits nowSec
  | .setSymbolLimits symbol limits => .setSymbolLimits symbol limits
  | .activateKillSwitch => .activateKillSwitch
  | .deactivateKillSwitch => .deactivateKillSwitch

def FixAction.logged {V : Type} [VenueAdapter V] : FixAction V → FixAction (Logged V)
  | .message raw => .message raw
  | .direct a => .direct a.logged

namespace System

variable {V : Type}

@[simps]
def unlogged (s : System (Logged V)) : System V := { s with gateway := s.gateway.unlogged }

variable (P : Platform) (s : System (Logged V))

theorem unlogged_submitOrder (order : Order) :
    s.unlogged.submitOrder order = (s.submitOrder order).map unlogged id := by
  have hassign : s.unlogged.assignId order = s.assignId order := rfl
  unfold submitOrder
  simp only [hassign, setGateway, unlogged_gateway, Gateway.unlogged_running, Gateway.unlogged_orderQueue]
  split_ifs
  · rfl
  · cases s.gateway.orderQueue.tryPush (s.assignId order).1 <;> rfl

theorem unlogged_cancelOrder (request : CancelRequest) :
    s.unlogged.cancelOrder request = (s.cancelOrder request).unlogged := by
  unfold cancelOrder
  rw [unlogged_gateway, Gateway.unlogged_running, Gateway.unlogged_cancelQueue]
  split_ifs
  · rfl
  · cases s.gateway.cancelQueue.tryPush request <;> rfl

variable [VenueAdapter V]

theorem unlogged_orderLoop (t : Readings) :
    s.unlogged.orderLoop P t = (s.orderLoop P t).map (Prod.map unlogged id) := by
  unfold orderLoop
  rw [unlogged_orderThread]
  cases s.orderThread with
  | exited => rfl
  | head => rfl
  | orders =>
    simp only [unlogged_gateway, Gateway.unlogged_orderQueue]
    cases s.gateway.orderQueue.tryPop with
    | none => rfl
    | some popped =>
      have hgo := Gateway.unlogged_processSingleOrder P { s.gateway with orderQueue := popped.2 } popped.1 t
      exact congrArg (fun d => some (s.unlogged.setGateway d.1, d.2)) hgo
  | cancels =>
    simp only [unlogged_gateway, Gateway.unlogged_cancelQueue]
    cases s.gateway.cancelQueue.tryPop with
    | none => rfl
    | some popped =>
      have hgo := Gateway.unlogged_processCancel { s.gateway with cancelQueue := popped.2 } popped.1
      exact congrArg (fun d => some (s.unlogged.setGateway d.1, d.2)) hgo

theorem unlogged_execLoop (t : Readings) :
    s.unlogged.execLoop P t = (s.execLoop P t).map (Prod.map unlogged id) := by
  unfold execLoop
  rw [unlogged_execThread]
  cases s.execThread with
  | exited => rfl
  | head => rfl
  | reports =>
    simp only [unlogged_gateway, Gateway.unlogged_reportQueue]
    cases s.gateway.reportQueue.tryPop with
    | none => rfl
    | some popped =>
      have hgo := Gateway.unlogged_processReport P { s.gateway with reportQueue := popped.2 } popped.1 t
      exact congrArg (fun d => some (s.unlogged.setGateway d.1, d.2)) hgo

/-- The gateway does the same with venues that keep a log. -/
theorem unlogged_step (a : Action V) :
    s.unlogged.step P a = (s.step P a.logged).map (Prod.map unlogged id) := by
  cases a with
  | orderLoop t => exact s.unlogged_orderLoop P t
  | execLoop t => exact s.unlogged_execLoop P t
  | submitOrder order => exact congrArg some (s.unlogged_submitOrder order)
  | cancelOrder request => exact congrArg (fun s => some (s, [])) (s.unlogged_cancelOrder request)
  | venue venueId op =>
    simp only [step, Action.logged]
    cases hvenue : s.gateway.venues venueId with
    | none =>
      simp only [unlogged_gateway, Gateway.unlogged_venues, hvenue, Option.map_none]
    | some x =>
      have hrun : VenueAdapter.run P x op =
          (VenueAdapter.run P x.venue op).map fun d => ({ x with venue := d.1 }, d.2) := rfl
      simp only [unlogged_gateway, Gateway.unlogged_venues, hvenue, Option.map_some]
      rw [hrun]
      cases VenueAdapter.run P x.venue op with
      | none => rfl
      | some done =>
        refine congrArg some (Prod.ext ?_ rfl)
        have hupdate := s.gateway.unlogged_update venueId { x with venue := done.1 }
        exact congrArg (fun g => { s.unlogged with
          gateway := g, outbox := Function.update s.outbox venueId (s.outbox venueId ++ done.2) }) hupdate.symm
  | notify venueId =>
    simp only [step, Action.logged, unlogged_outbox]
    cases s.outbox venueId with
    | nil => rfl
    | cons report reports =>
      have hgo := s.gateway.unlogged_onExecutionReport report
      exact congrArg (fun d => some ({ s.unlogged with
        gateway := d.1, outbox := Function.update s.outbox venueId reports }, d.2)) hgo
  | joinStop =>
    simp only [step, Action.logged, unlogged_stopping, unlogged_orderThread, unlogged_execThread]
    split_ifs
    · refine congrArg some (Prod.ext ?_ rfl)
      simp only [unlogged, Gateway.unlogged, Option.map_map, Prod.map_fst]
      rfl
    · rfl
  | start =>
    simp only [step, Action.logged, unlogged_gateway, Gateway.unlogged_running, unlogged_stopping]
    split_ifs <;> rfl
  | stop =>
    simp only [step, Action.logged, unlogged_gateway, Gateway.unlogged_running]
    split_ifs <;> rfl
  | _ => rfl

end System

end Klett.Sor

namespace Klett.Sor.FixCancels

open Klett.Lib Klett.Sor.System

/-- A queued cancel, and the OrigClOrdID when FIX has brought it. -/
structure Ticket where
  request : CancelRequest
  origClOrdId : Option ℕ

/-- A cancel from FIX that the loop has taken: the OrigClOrdID, the id of the order that FIX had
submitted under that ClOrdID, if any, and the gateway before and after the step that took it. -/
structure Answer (V : Type) where
  origClOrdId : ℕ
  named : Option ℕ
  request : CancelRequest
  gateway : Gateway (Logged V)
  after : Gateway (Logged V)

structure History (V : Type) where
  orders : List (ℕ × ℕ) := []
  waiting : List Ticket := []
  answered : List (Answer V) := []

namespace Answer

variable {V : Type} (y : Answer V)

/-- The venues get a cancel for each active child of the order it names, and no others. -/
def Hits : Prop := ∀ v, y.after.canceledAt v = y.gateway.canceledAt v ++
  y.gateway.cancelsAt y.request v ((y.named.map y.gateway.activeChildren).getD [])

/-- The named order has its ClOrdID for an id, or neither it nor the order that has it has an active
child. -/
def Unmistaken : Prop := y.named = some y.origClOrdId ∨
  y.gateway.activeChildren y.origClOrdId = [] ∧ ∀ id ∈ y.named, y.gateway.activeChildren id = []

instance : Decidable y.Unmistaken := inferInstanceAs (Decidable (_ ∨ _))

variable {y}

theorem activeChildren_disjoint {g : Gateway V} (hw : g.execHandler.WellFormed) {p q : ℕ} (hne : p ≠ q) {child : ℕ}
    (hp : child ∈ g.activeChildren p) : child ∉ g.activeChildren q := by
  intro hq
  have hparent := hw.mem_children.mp (List.mem_of_mem_filter hp)
  rw [hw.mem_children.mp (List.mem_of_mem_filter hq)] at hparent
  exact hne (Option.some.inj hparent).symm

theorem forwarded_eq {g : Gateway V} (hw : g.execHandler.WellFormed) (request : CancelRequest) :
    g.forwarded request = g.activeChildren request.orderId := by
  unfold Gateway.forwarded
  split_ifs with hknown
  · rfl
  · symm
    apply List.eq_nil_iff_forall_not_mem.mpr
    intro child hchild
    exact hknown (hw.parentTracked (hw.mem_children.mp (List.mem_of_mem_filter hchild)))

theorem cancelsAt_mem {g : Gateway (Logged V)} {request : CancelRequest} {v child : ℕ} {childIds : List ℕ} :
    { request with orderId := child } ∈ g.cancelsAt request v childIds ↔ child ∈ childIds ∧ g.worksAt v child = true := by
  simp [Gateway.cancelsAt]

/-- Every active child is at some venue. -/
theorem exists_cancelsAt {g : Gateway (Logged V)} {id child : ℕ} (h : child ∈ g.activeChildren id)
    (request : CancelRequest) : ∃ v, { request with orderId := child } ∈ g.cancelsAt request v (g.activeChildren id) := by
  have hcancelable := (List.mem_filter.mp h).2
  unfold Gateway.cancelable at hcancelable
  cases horder : g.execHandler.getOrder child with
  | none =>
    rw [horder] at hcancelable
    cases hcancelable
  | some order =>
    refine ⟨order.targetVenue, cancelsAt_mem.mpr ⟨h, ?_⟩⟩
    simp [Gateway.worksAt, horder]

theorem cancelsAt_nil_iff {g : Gateway (Logged V)} (request : CancelRequest) {id : ℕ} :
    (∀ v, g.cancelsAt request v (g.activeChildren id) = []) ↔ g.activeChildren id = [] := by
  constructor
  · intro h
    apply List.eq_nil_iff_forall_not_mem.mpr
    intro child hchild
    obtain ⟨v, hmem⟩ := exists_cancelsAt hchild request
    rw [h] at hmem
    cases hmem
  · intro h v
    rw [h]
    rfl

/-- Orders with the same cancels at each venue are one order, or neither has an active child. -/
theorem cancelsAt_eq_iff {g : Gateway (Logged V)} (hw : g.execHandler.WellFormed) (request : CancelRequest) {p q : ℕ} :
    (∀ v, g.cancelsAt request v (g.activeChildren p) = g.cancelsAt request v (g.activeChildren q)) ↔
      p = q ∨ g.activeChildren p = [] ∧ g.activeChildren q = [] := by
  constructor
  · intro h
    by_cases hsame : p = q
    · exact .inl hsame
    · have hempty : g.activeChildren p = [] := by
        apply List.eq_nil_iff_forall_not_mem.mpr
        intro child hchild
        obtain ⟨v, hmem⟩ := exists_cancelsAt hchild request
        rw [h] at hmem
        exact activeChildren_disjoint hw hsame hchild (cancelsAt_mem.mp hmem).1
      have hnone := (cancelsAt_nil_iff request).mpr hempty
      exact .inr ⟨hempty, (cancelsAt_nil_iff request).mp fun v => (h v).symm.trans (hnone v)⟩
  · rintro (rfl | ⟨hp, hq⟩) v
    · rfl
    · rw [hp, hq]

theorem hits_iff_unmistaken (hw : y.gateway.execHandler.WellFormed) (hid : y.request.orderId = y.origClOrdId)
    (hafter : ∀ v, y.after.canceledAt v =
      y.gateway.canceledAt v ++ y.gateway.cancelsAt y.request v (y.gateway.forwarded y.request)) :
    y.Hits ↔ y.Unmistaken := by
  unfold Hits Unmistaken
  simp only [hafter, List.append_cancel_left_eq]
  rw [forwarded_eq hw, hid]
  cases hnamed : y.named with
  | none =>
    have hnone : _ ↔ y.gateway.activeChildren y.origClOrdId = [] := cancelsAt_nil_iff y.request
    simpa [Gateway.cancelsAt] using hnone
  | some id =>
    simp only [Option.map_some, Option.getD_some, Option.some.injEq, Option.mem_def, forall_eq']
    rw [cancelsAt_eq_iff hw, eq_comm]

end Answer

section Run

variable {V : Type} [VenueAdapter V] (P : Platform)

def record (x : History V) (s : System (Logged V)) (a : FixAction (Logged V)) (_ : List Event) : History V :=
  match a.toAction P with
  | none => x
  | some b =>
    let after := ((s.step P b).map fun result => result.1.gateway).getD s.gateway
    { orders := x.orders ++
        (a.clOrdId.bind fun c => (s.queuedOrder b).map fun order => (c, order.id)).toList
      waiting := x.waiting.drop (s.takenCancel b).toList.length ++
        (s.queuedCancel b).toList.map fun request => ⟨request, a.origClOrdId⟩
      answered := x.answered ++ (x.waiting.take (s.takenCancel b).toList.length).filterMap fun ticket =>
        ticket.origClOrdId.map fun c => ⟨c, x.orders.lookup c, ticket.request, s.gateway, after⟩ }

/-- The clients beside FIX leave the id of an order to the gateway or got it from there. -/
def OwnIds : Machine.Guard (System V) (FixAction V) Event := fun _ s a =>
  match a with
  | .message _ => True
  | .direct b => FreshIds [] s b

/-- The ClOrdIDs of FIX messages are pairwise distinct. -/
def NewClOrdId : Machine.Guard (System V) (FixAction V) Event := fun k _ a =>
  ∀ c ∈ a.clOrdId, c ∉ k.filterMap fun x => x.1.clOrdId

instance (k : Trace (FixAction V) Event) (s : System V) (a : FixAction V) : Decidable (OwnIds k s a) := by
  unfold OwnIds
  split <;> infer_instance

instance (k : Trace (FixAction V) Event) (s : System V) (a : FixAction V) : Decidable (NewClOrdId k s a) :=
  inferInstanceAs (Decidable (∀ c ∈ a.clOrdId, _))

structure Followed (es : List Event) (s : System (Logged V)) (x : History V) : Prop where
  numbered : Numbered es s.gateway s.unused
  supervised : s.Supervised
  cancels : x.waiting.map Ticket.request = s.gateway.cancelQueue.items
  named : ∀ t ∈ x.waiting, ∀ c ∈ t.origClOrdId, t.request.orderId = c
  answered : ∀ y ∈ x.answered, y.Hits ↔ y.Unmistaken

variable {P} {s s' : System (Logged V)} {x : History V} {a : FixAction (Logged V)} {es es' : List Event}

/-- The step that takes a cancel processes it. -/
theorem takenCancel_step {b : Action (Logged V)} {request : CancelRequest} (h : s.takenCancel b = some request)
    (hstep : s.step P b = some (s', es)) :
    ∃ queue, s'.gateway = ({ s.gateway with cancelQueue := queue }.processCancel request).1 := by
  have hthread := s.takenCancel_thread (a := b) (by simp [h])
  cases b with
  | orderLoop t =>
    simp only [takenCancel, hthread, if_true] at h
    simp only [System.step, orderLoop, hthread] at hstep
    split at hstep
    next hempty => simp [Fifo.tryPop_eq_none.mp hempty] at h
    next first queue hpop =>
      rw [Fifo.tryPop_items hpop, List.head?_cons, Option.some.injEq] at h
      subst h
      cases hstep
      exact ⟨queue, rfl⟩
  | _ => cases h

theorem freshIds_of_ownIds {k : Trace (FixAction (Logged V)) Event} {l : Trace (Action (Logged V)) Event}
    (h : OwnIds k s a) {b : Action (Logged V)} (hb : a.toAction P = some b) : FreshIds l s b := by
  cases a with
  | direct c =>
    cases hb
    exact h
  | message raw =>
    intro order horder
    obtain ⟨o, ho, rfl⟩ | ⟨request, -, rfl⟩ := FixGateway.onFixMessage_cases hb
    · cases horder
      exact .inl (FixGateway.newOrderSingle_id ho)
    · cases horder

theorem queuedCancel_orderId {b : Action (Logged V)} (hb : a.toAction P = some b) {request : CancelRequest}
    (hq : s.queuedCancel b = some request) {c : ℕ} (hc : a.origClOrdId = some c) : request.orderId = c := by
  cases a with
  | direct b => cases hc
  | message raw =>
    obtain ⟨o, -, rfl⟩ | ⟨r, hr, rfl⟩ := FixGateway.onFixMessage_cases hb
    · cases hq
    · simp only [queuedCancel] at hq
      split_ifs at hq
      cases hq
      exact FixGateway.orderCancelRequest_orderId hr hc

/-- What waits first was queued first. -/
theorem Followed.taken (h : Followed es s x) {b : Action (Logged V)} {t : Ticket}
    (ht : t ∈ x.waiting.take (s.takenCancel b).toList.length) : s.takenCancel b = some t.request := by
  cases htaken : s.takenCancel b with
  | none => simp [htaken] at ht
  | some request =>
    obtain ⟨rest, hrest⟩ := s.takenCancel_prefix b
    rw [← h.cancels, htaken] at hrest
    rw [htaken] at ht
    cases hwaiting : x.waiting with
    | nil => simp [hwaiting] at ht
    | cons first later =>
      rw [hwaiting] at hrest ht
      obtain rfl : t = first := by simpa using ht
      simp only [Option.toList_some, List.singleton_append, List.map_cons, List.cons.injEq] at hrest
      rw [hrest.1]

theorem Followed.step {k : Trace (FixAction (Logged V)) Event} (h : Followed es s x) (hown : OwnIds k s a)
    (hstep : (fixMachine P).step s a = some (s', es')) :
    Followed (es ++ es') s' (record P x s a es') := by
  unfold record
  simp only [fixMachine] at hstep
  split at hstep
  next b hb =>
    have hn : Numbered (Trace.events [(b, es)]) s.gateway s.unused := by
      rw [Trace.events_single]
      exact h.numbered
    have hnext := hn.step (freshIds_of_ownIds hown hb) hstep
    rw [Trace.events_single] at hnext
    have hm := step_moves h.supervised hstep
    rw [hb]
    refine ⟨hnext, hm.supervised, ?_, ?_, ?_⟩
    · obtain ⟨rest, hrest⟩ := s.takenCancel_prefix b
      have hcancels := hm.cancels
      rw [← hrest, List.append_assoc, List.append_cancel_left_eq] at hcancels
      rw [hcancels, List.map_append, List.map_drop, h.cancels, ← hrest, List.drop_left, List.map_map]
      simp [Function.comp_def]
    · intro t ht c hc
      rcases List.mem_append.mp ht with ht | ht
      · exact h.named t (List.mem_of_mem_drop ht) c hc
      · obtain ⟨request, hrequest, rfl⟩ := List.mem_map.mp ht
        exact queuedCancel_orderId hb (Option.mem_toList.mp hrequest) hc
    · intro y hy
      rcases List.mem_append.mp hy with hy | hy
      · exact h.answered y hy
      · obtain ⟨t, ht, hy⟩ := List.mem_filterMap.mp hy
        obtain ⟨c, hc, rfl⟩ := Option.map_eq_some_iff.mp hy
        refine Answer.hits_iff_unmistaken h.numbered.handler (h.named t (List.mem_of_mem_take ht) c hc) fun v => ?_
        obtain ⟨queue, hgateway⟩ := takenCancel_step (h.taken ht) hstep
        simp only [hstep, Option.map_some, Option.getD_some, hgateway]
        exact Gateway.processCancel_canceledAt t.request v
  next hnone =>
    cases hstep
    rw [hnone, List.append_nil]
    exact h

/-- A cancel from FIX hits the order it names exactly when it is not mistaken for another. -/
theorem hits_iff {venues : ℕ → Option (Logged V)} {engine : RoutingEngine} {md : MarketDataAggregator}
    {limits : RiskLimits} {symbolLimits : Symbol → Option RiskLimits} {limiter : RateLimiter}
    {initializedLater : Bool} {h : Trace (FixAction (Logged V)) Event}
    (hr : ((fixMachine P).recording (record P)).Reach
      (fun k y a => OwnIds k y.1 a ∧ NewClOrdId k y.1 a)
      ((initialized venues engine md limits symbolLimits limiter).withFix initializedLater, {}) h (s, x)) :
    ∀ y ∈ x.answered, y.Hits ↔ y.Unmistaken := by
  refine (hr.invariant (I := fun k y => Followed k.events y.1 y.2) ?_ fun k y a z es hi hc hstep => ?_).answered
  · refine ⟨?_, fun hlive => (hlive rfl).elim, rfl, by simp, by simp⟩
    constructor
    case handler => constructor <;> simp [initialized, withFix, setGateway, ExecutionHandler.getChildren]
    all_goals simp [initialized, withFix, setGateway, waiting]
  · obtain ⟨hmain, hrecord⟩ := Machine.recording_step.mp hstep
    rw [Trace.events_append, Trace.events_single, hrecord]
    exact hi.step hc.1 hmain

end Run

section Unlogged

variable {V : Type} [VenueAdapter V] {P : Platform}

theorem fixMachine_logged (s : System (Logged V)) (a : FixAction V) :
    (fixMachine P).step s.unlogged a = ((fixMachine P).step s a.logged).map (Prod.map unlogged id) := by
  have hsame : (a.logged.toAction P : Option (Action (Logged V))) = (a.toAction P).map Action.logged := by
    cases a with
    | direct b => rfl
    | message raw =>
      simp only [FixAction.logged, FixAction.toAction, FixGateway.onFixMessage]
      split_ifs <;> simp [Function.comp_def, Action.logged]
  simp only [fixMachine, hsame]
  cases a.toAction P with
  | none => rfl
  | some b => exact s.unlogged_step P b

theorem ownIds_logged {k : Trace (FixAction V) Event} {l : Trace (FixAction (Logged V)) Event}
    {s : System (Logged V)} {a : FixAction V} (h : OwnIds k s.unlogged a) : OwnIds l s a.logged := by
  cases a with
  | message raw => trivial
  | direct b =>
    intro order horder
    apply h
    cases b <;> exact horder

theorem newClOrdId_logged {k : Trace (FixAction V) Event} {s : System (Logged V)} {a : FixAction V}
    (h : NewClOrdId k s.unlogged a) : NewClOrdId (k.map (Prod.map FixAction.logged id)) s a.logged := by
  have hclOrdId (b : FixAction V) : b.logged.clOrdId = b.clOrdId := by cases b <;> rfl
  intro c hc
  rw [hclOrdId] at hc
  rw [List.filterMap_map]
  simpa [Function.comp_def, hclOrdId] using h c hc

/-- Every run of the gateway is one with venues that keep a log, but for the logs. -/
theorem reach_logged {s₀ : System (Logged V)} {h : Trace (FixAction V) Event} {s : System V}
    (hr : (fixMachine P).Reach (fun k s a => OwnIds k s a ∧ NewClOrdId k s a) s₀.unlogged h s) :
    ∃ t, (fixMachine P).Reach (fun k s a => OwnIds k s a ∧ NewClOrdId k s a) s₀
      (h.map (Prod.map FixAction.logged id)) t ∧ t.unlogged = s :=
  hr.lift fixMachine_logged fun _ _ _ hc => ⟨ownIds_logged hc.1, newClOrdId_logged hc.2⟩

end Unlogged

def message (fields : List String) : List UInt8 :=
  List.intercalate [1] (fields.map FixedString.ascii)

def watched : System (Logged SimulatedExchange) :=
  initialized (fun v => (calm.gateway.venues v).map fun exchange => { venue := exchange }) calm.gateway.routingEngine
    calm.gateway.mdAggregator calm.gateway.riskManager.globalLimits calm.gateway.riskManager.symbolLimits
    calm.gateway.riskManager.rateLimiter

def newOrder (clOrdId : String) : FixAction (Logged SimulatedExchange) :=
  .message (message ["35=D", "11=" ++ clOrdId, "55=A", "54=1", "38=10", "44=101", "40=2", "59=1"])

def cancel (clOrdId origClOrdId : String) : FixAction (Logged SimulatedExchange) :=
  .message (message ["35=F", "11=" ++ clOrdId, "41=" ++ origClOrdId, "55=A", "54=1"])

def sentThenCanceled (clOrdId : String) : List (FixAction (Logged SimulatedExchange)) :=
  [.direct (.venue 1 (ExchangeOp.setMarketPrice (99 * priceScale) (101 * priceScale))), .direct .start,
    newOrder clOrdId, .direct (.orderLoop {}), .direct (.orderLoop {}), .direct (.orderLoop {}), cancel "900" clOrdId,
    .direct (.orderLoop {})]

theorem hits_iff_same_number : ∃ h s x,
    ((fixMachine .exact).recording (record .exact)).Reach (fun k y a => OwnIds k y.1 a ∧ NewClOrdId k y.1 a)
        (watched.withFix true, {}) h (s, x) ∧
      x.answered.map (fun y => (y.origClOrdId, y.named, (y.after.canceledAt 1).map CancelRequest.orderId)) =
        [(1, some 1, [2])] ∧
      ∀ y ∈ x.answered, y.Hits ↔ y.Unmistaken := by
  obtain ⟨h, ⟨s, x⟩, hr, hone⟩ := Machine.exists_reach ((fixMachine .exact).recording (record .exact))
    (fun k y a => OwnIds k y.1 a ∧ NewClOrdId k y.1 a) (watched.withFix true, {})
    (fun _ y => y.2.answered.map
      (fun y => (y.origClOrdId, y.named, (y.after.canceledAt 1).map CancelRequest.orderId)) = [(1, some 1, [2])])
    (sentThenCanceled "1") (by decide +kernel)
  exact ⟨h, s, x, hr, hone, hits_iff hr⟩

/-- The first order gets id 1, whatever its ClOrdID. The cancel for ClOrdID 100 finds no order 100, and
the child works on. -/
theorem cancel_misses : ∃ h x,
    ((fixMachine .exact).recording (record .exact)).Reach (fun k y a => OwnIds k y.1 a ∧ NewClOrdId k y.1 a)
        (watched.withFix true, {}) h x ∧
      ∃ y ∈ x.2.answered, y.origClOrdId = 100 ∧ y.named = some 1 ∧ y.gateway.activeChildren 1 = [2] ∧
        y.after.canceledAt 1 = [] ∧ ¬y.Hits := by
  obtain ⟨h, x, hr, y, hy, horig, hnamed, hactive, hworks, hnone⟩ :=
    Machine.exists_reach ((fixMachine .exact).recording (record .exact))
      (fun k y a => OwnIds k y.1 a ∧ NewClOrdId k y.1 a) (watched.withFix true, {})
      (fun _ x => ∃ y ∈ x.2.answered, y.origClOrdId = 100 ∧ y.named = some 1 ∧ y.gateway.activeChildren 1 = [2] ∧
        y.gateway.worksAt 1 2 = true ∧ y.after.canceledAt 1 = []) (sentThenCanceled "100") (by decide +kernel)
  refine ⟨h, x, hr, y, hy, horig, hnamed, hactive, hnone, fun hhits => ?_⟩
  have hone := hhits 1
  rw [hnone, hnamed, Option.map_some, Option.getD_some, hactive] at hone
  have hmem : { y.request with orderId := 2 } ∈ y.gateway.cancelsAt y.request 1 [2] :=
    Answer.cancelsAt_mem.mpr ⟨List.mem_singleton_self 2, hworks⟩
  simp [(List.append_eq_nil_iff.mp hone.symm).2] at hmem

end Klett.Sor.FixCancels

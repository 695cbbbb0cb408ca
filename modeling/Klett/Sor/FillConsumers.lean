import Mathlib.Algebra.BigOperators.Group.List.Basic
import Mathlib.Algebra.Ring.Int.Defs
import Klett.Sor.FixGateway
import Klett.Sor.HandlerCalls

namespace Klett.Sor

open Klett.Lib

def FillManager.totalFilledQuantity (m : FillManager) (orderId : ℕ) : ℤ :=
  ((m.orderFills orderId).map fun idx => (m.allFills[idx]?).elim 0 FillRecord.quantity).sum

inductive FillCallback
  | gateway
  | fix
  deriving DecidableEq

/-- A gateway with the FIX gateway beside it. The handler has room for one fill callback. -/
structure FixDesk (V : Type) where
  gateway : Gateway V
  fillCallback : Option FillCallback := none
  hasSendCallback : Bool := true
  /-- What `build_execution_report` was called with for each message handed to the send callback. -/
  sent : List (Order × ExecutionReport) := []

namespace FixDesk

open ExecutionHandler HandlerCalls

variable {V : Type} (d : FixDesk V)

def setHandler (h : ExecutionHandler) : FixDesk V :=
  { d with gateway := { d.gateway with execHandler := h } }

def initializeGateway : FixDesk V :=
  { d.setHandler { d.gateway.execHandler with
      hasFillCallback := true, hasCompletionCallback := true, hasRerouteCallback := true } with
    fillCallback := some .gateway }

def constructFixGateway : FixDesk V :=
  { d.setHandler { d.gateway.execHandler with hasFillCallback := true } with fillCallback := some .fix }

def attach (g : Gateway V) (initializeFirst : Bool) : FixDesk V :=
  let d : FixDesk V := { gateway := g }
  if initializeFirst then d.initializeGateway.constructFixGateway
  else d.constructFixGateway.initializeGateway

def onFill (order : Order) (report : ExecutionReport) : FixDesk V :=
  match d.fillCallback with
  | none => d
  | some .gateway => { d with gateway := d.gateway.recordFill order report }
  | some .fix => if d.hasSendCallback then { d with sent := d.sent ++ [(order, report)] } else d

def onExecutionReport (report : ExecutionReport) : FixDesk V :=
  let (handler, deferred) := d.gateway.execHandler.onExecutionReport report
  match deferred.fill with
  | some (order, report) => (d.setHandler handler).onFill order report
  | none => d.setHandler handler

def next : Call → FixDesk V
  | .trackOrder parent => d.setHandler (d.gateway.execHandler.trackOrder parent)
  | .trackChildOrder parentId child =>
    { d with gateway := { d.gateway with
        execHandler := d.gateway.execHandler.trackChildOrder parentId child
        riskManager := d.gateway.riskManager.onOrderAccepted child } }
  | .report report => d.onExecutionReport report

def alone : Gateway V :=
  { d.gateway with execHandler := { d.gateway.execHandler with
      hasFillCallback := d.fillCallback = some .gateway } }

def Tracks : Call → Prop
  | .trackChildOrder parentId child =>
    HandlerCalls.Tracks d.gateway.execHandler (.trackChildOrder parentId child) ∧ child.filledQuantity = 0
  | call => HandlerCalls.Tracks d.gateway.execHandler call

instance : ∀ call, Decidable (d.Tracks call)
  | .trackOrder parent => inferInstanceAs (Decidable (HandlerCalls.Tracks d.gateway.execHandler (.trackOrder parent)))
  | .trackChildOrder parentId child =>
    inferInstanceAs (Decidable (HandlerCalls.Tracks d.gateway.execHandler (.trackChildOrder parentId child) ∧ _))
  | .report r => inferInstanceAs (Decidable (HandlerCalls.Tracks d.gateway.execHandler (.report r)))

def ProcessesFill : Call → Prop
  | .report r => ActsOn d.gateway.execHandler r ∧ 0 < r.lastQuantity
  | _ => False

instance : ∀ call, Decidable (d.ProcessesFill call)
  | .trackOrder _ => inferInstanceAs (Decidable False)
  | .trackChildOrder _ _ => inferInstanceAs (Decidable False)
  | .report _ => inferInstanceAs (Decidable (_ ∧ _))

def Reaches (d' : FixDesk V) (o : Order) (r : ExecutionReport) : Prop :=
  d'.gateway.fillManager = (d.gateway.recordFill o r).fillManager ∧
    d'.gateway.riskManager = (d.gateway.recordFill o r).riskManager ∧ d'.sent = d.sent ++ [(o, r)]

def TotalsAgree : Prop :=
  ∀ c o, (d.gateway.execHandler.childToParent c).isSome → d.gateway.execHandler.orders c = some o →
    d.gateway.fillManager.totalFilledQuantity c = o.filledQuantity

def KeepsFills (call : Call) : Prop :=
  (∀ r, call = .report r → d.ProcessesFill call →
    ∀ o ∈ (d.next call).gateway.execHandler.orders r.orderId, d.Reaches (d.next call) o r) ∧
  (d.next call).TotalsAgree

/-- Where the two attachments are made: the totals agree, and nothing is recorded for an id that is
not tracked. -/
structure Settled (g : Gateway V) : Prop where
  handler : g.execHandler.WellFormed
  agree : (FixDesk.mk g none true []).TotalsAgree
  unrecorded : ∀ id, g.execHandler.orders id = none → g.fillManager.totalFilledQuantity id = 0

variable {d} {g : Gateway V} {h : ExecutionHandler} {r : ExecutionReport} {o : Order} {call : Call}

theorem wellFormed_hooks (hw : h.WellFormed) (fill completion reroute : Bool) :
    WellFormed { h with
      hasFillCallback := fill, hasCompletionCallback := completion, hasRerouteCallback := reroute } :=
  ⟨hw.keyed, hw.childTracked, hw.parentTracked, hw.parentNoChild, hw.mem_children⟩

theorem fill_eq (hacts : ActsOn h r) : (h.onExecutionReport r).2.fill =
    if 0 < r.lastQuantity ∧ h.hasFillCallback = true then
      ((h.onExecutionReport r).1.orders r.orderId).map fun o => (o, r)
    else none := by
  obtain ⟨orders, hframe⟩ := h.onExecutionReport_frame r
  have hhook : (h.onExecutionReport r).1.hasFillCallback = h.hasFillCallback := by rw [hframe]
  rw [← hhook]
  obtain ⟨o, ho⟩ := Option.isSome_iff_exists.mp hacts.1
  obtain ⟨o', hr⟩ := Option.isSome_iff_exists.mp ((onReport_isSome o r).trans hacts.2)
  unfold ExecutionHandler.onExecutionReport
  simp only [ho, hr]

theorem fill_of_acts (hw : h.WellFormed) (hhook : h.hasFillCallback = true) (hacts : ActsOn h r)
    (hlast : 0 < r.lastQuantity) : ∃ o, (h.onExecutionReport r).1.orders r.orderId = some o ∧
      (h.onExecutionReport r).2.fill = some (o, r) := by
  have hsome := hw.report_isSome r r.orderId
  rw [hacts.1] at hsome
  obtain ⟨o, ho⟩ := Option.isSome_iff_exists.mp hsome
  refine ⟨o, ho, ?_⟩
  rw [fill_eq hacts, if_pos ⟨hlast, hhook⟩, ho, Option.map_some]

theorem fill_of_quiet (hw : h.WellFormed)
    (hquiet : ¬(ActsOn h r ∧ 0 < r.lastQuantity ∧ h.hasFillCallback = true)) :
    (h.onExecutionReport r).2.fill = none := by
  obtain ⟨-, hsame⟩ | ⟨hacts, -⟩ | ⟨hacts, -⟩ := HandlerCalls.report_cases hw r
  · rw [hsame]
  · rw [fill_eq hacts, if_neg fun hcond => hquiet ⟨hacts, hcond⟩]
  · rw [fill_eq hacts, if_neg fun hcond => hquiet ⟨hacts, hcond⟩]

theorem filled_of_quiet (hw : h.WellFormed) (hquiet : ¬(ActsOn h r ∧ 0 < r.lastQuantity)) {c : ℕ}
    {o' : Order} (hc : (h.childToParent c).isSome) (ho' : (h.onExecutionReport r).1.orders c = some o') :
    ∃ o, h.orders c = some o ∧ o'.filledQuantity = o.filledQuantity := by
  obtain ⟨-, hsame⟩ | ⟨-, o₁, o₂, ho, hr, hroot⟩ | ⟨hacts, p, o₁, o₂, parent, hr⟩ :=
    HandlerCalls.report_cases hw r
  · rw [hsame] at ho'
    exact ⟨o', ho', rfl⟩
  · have hne : c ≠ r.orderId := by
      rintro rfl
      rw [hroot] at hc
      cases hc
    rw [(hw.onExecutionReport_root ho hr hroot).1, setOrder_other hne] at ho'
    exact ⟨o', ho', rfl⟩
  · have hcp : c ≠ p := by
      rintro rfl
      rw [hw.parentNoChild hr.parentOf] at hc
      cases hc
    rw [(hw.onExecutionReport_child hr).1, setOrder_other hcp] at ho'
    by_cases hcr : c = r.orderId
    · subst hcr
      rw [setOrder_self] at ho'
      obtain rfl := Option.some.inj ho'
      obtain ⟨-, -, -, -, -, hfilled⟩ := Order.onReport_fields hr.applied
      exact ⟨o₁, hr.order, hfilled.trans (if_neg fun hlast => hquiet ⟨hacts, hlast⟩)⟩
    · rw [setOrder_other hcr] at ho'
      exact ⟨o', ho', rfl⟩

@[simp] theorem onFill_handler (o : Order) :
    (d.onFill o r).gateway.execHandler = d.gateway.execHandler := by
  unfold onFill
  split
  · rfl
  · rfl
  · split <;> rfl

@[simp] theorem onFill_fillCallback (o : Order) : (d.onFill o r).fillCallback = d.fillCallback := by
  unfold onFill
  split
  · rfl
  · rfl
  · split <;> rfl

@[simp] theorem next_handler (call : Call) :
    (d.next call).gateway.execHandler = HandlerCalls.next d.gateway.execHandler call := by
  cases call with
  | trackOrder parent => rfl
  | trackChildOrder parentId child => rfl
  | report r =>
    simp only [next, onExecutionReport, HandlerCalls.next, perform]
    split
    · rw [onFill_handler]
      rfl
    · rfl

@[simp] theorem next_fillCallback (call : Call) : (d.next call).fillCallback = d.fillCallback := by
  cases call with
  | trackOrder parent => rfl
  | trackChildOrder parentId child => rfl
  | report r =>
    simp only [next, onExecutionReport]
    split
    · rw [onFill_fillCallback]
      rfl
    · rfl

theorem next_report_fill {o' : Order} (hfill : (d.gateway.execHandler.onExecutionReport r).2.fill = some (o', r)) :
    d.next (.report r) = (d.setHandler (d.gateway.execHandler.onExecutionReport r).1).onFill o' r := by
  simp only [next, onExecutionReport, hfill]

theorem next_report_quiet (hw : d.gateway.execHandler.WellFormed) (hquiet : ¬d.ProcessesFill (.report r)) :
    d.next (.report r) = d.setHandler (d.gateway.execHandler.onExecutionReport r).1 := by
  simp only [next, onExecutionReport, fill_of_quiet hw fun h => hquiet ⟨h.1, h.2.1⟩]

structure Attached (d : FixDesk V) : Prop where
  handler : d.gateway.execHandler.WellFormed
  hook : d.gateway.execHandler.hasFillCallback = true
  set : d.fillCallback.isSome

theorem Attached.next (ha : d.Attached) (ht : d.Tracks call) : (d.next call).Attached := by
  have htracks : HandlerCalls.Tracks d.gateway.execHandler call := by
    cases call with
    | trackOrder parent => exact ht
    | trackChildOrder parentId child => exact ht.1
    | report r => exact ht
  have hhook : (HandlerCalls.next d.gateway.execHandler call).hasFillCallback =
      d.gateway.execHandler.hasFillCallback := by
    cases call with
    | trackOrder parent => rfl
    | trackChildOrder parentId child => rfl
    | report r =>
      obtain ⟨orders, hframe⟩ := d.gateway.execHandler.onExecutionReport_frame r
      simp only [HandlerCalls.next, perform]
      rw [hframe]
  refine ⟨?_, ?_, ?_⟩
  · rw [next_handler]
    exact wellFormed_next ha.handler htracks
  · rw [next_handler, hhook]
    exact ha.hook
  · rw [next_fillCallback]
    exact ha.set

/-- One callback cannot serve them all: whoever does not hold it misses the fill. -/
theorem Attached.not_reaches (ha : d.Attached) (hfill : d.ProcessesFill (.report r)) :
    ∃ o ∈ (d.next (.report r)).gateway.execHandler.orders r.orderId,
      ¬d.Reaches (d.next (.report r)) o r := by
  obtain ⟨o, ho, hdeferred⟩ := fill_of_acts ha.handler ha.hook hfill.1 hfill.2
  refine ⟨o, by rw [next_handler]; exact ho, ?_⟩
  rw [next_report_fill hdeferred]
  rintro ⟨hrecorded, -, hsent⟩
  have hset := ha.set
  cases hcallback : d.fillCallback with
  | none =>
    rw [hcallback] at hset
    cases hset
  | some owner =>
    cases owner with
    | gateway =>
      simp [onFill, setHandler, hcallback] at hsent
    | fix =>
      have hsame : d.gateway.fillManager = (d.gateway.recordFill o r).fillManager := by
        rw [← hrecorded]
        simp only [onFill, setHandler, hcallback]
        split <;> rfl
      have hlength := congrArg (fun m => m.allFills.length) hsame
      simp [Gateway.recordFill, FillManager.recordFill] at hlength

/-- What the gateway records does not depend on who else is there, only on whether its own callback is
the one that is set. -/
theorem Attached.next_gateway (ha : d.Attached) (r : ExecutionReport) :
    (d.next (.report r)).gateway.fillManager = (d.alone.applyReport r).fillManager ∧
      (d.next (.report r)).gateway.riskManager = (d.alone.applyReport r).riskManager := by
  have hset := ha.set
  cases hcallback : d.fillCallback with
  | none =>
    rw [hcallback] at hset
    cases hset
  | some owner =>
    cases owner with
    | gateway =>
      have halone : d.alone = d.gateway := by
        unfold alone
        rw [hcallback, decide_eq_true rfl, ← ha.hook]
      rw [halone]
      unfold FixDesk.next onExecutionReport Gateway.applyReport
      cases hfill : (d.gateway.execHandler.onExecutionReport r).2.fill with
      | none => simp [hfill, setHandler]
      | some fill => simp [hfill, onFill, setHandler, hcallback]
    | fix =>
      have hoff : d.alone.execHandler.hasFillCallback = false := by
        simp [alone, hcallback]
      have hsilent : (d.alone.execHandler.onExecutionReport r).2.fill = none := by
        refine fill_of_quiet (wellFormed_hooks ha.handler _ _ _) fun hcond => ?_
        rw [hoff] at hcond
        exact Bool.false_ne_true hcond.2.2
      have happly : d.alone.applyReport r =
          { d.alone with execHandler := (d.alone.execHandler.onExecutionReport r).1 } := by
        simp only [Gateway.applyReport, hsilent]
      rw [happly]
      simp only [FixDesk.next, onExecutionReport]
      split
      · simp only [onFill, setHandler, hcallback]
        split <;> exact ⟨rfl, rfl⟩
      · exact ⟨rfl, rfl⟩

theorem Attached.noFill_of_keeps (ha : d.Attached) (hk : d.KeepsFills call) : ¬d.ProcessesFill call := by
  intro hfill
  cases call with
  | trackOrder parent => exact hfill
  | trackChildOrder parentId child => exact hfill
  | report r =>
    obtain ⟨o, ho, hmissed⟩ := ha.not_reaches hfill
    exact hmissed (hk.1 r rfl hfill o ho)

theorem Settled.next (hs : Settled d.gateway) (ht : d.Tracks call) (hq : ¬d.ProcessesFill call) :
    Settled (d.next call).gateway := by
  have hw := hs.handler
  cases call with
  | trackOrder parent =>
    refine ⟨hw.trackOrder, fun c o hc ho => ?_, fun id hid => ?_⟩
    · have hne : c ≠ parent.id := by
        rintro rfl
        have hroot : d.gateway.execHandler.childToParent parent.id = none := ht
        simp [FixDesk.next, setHandler, hroot] at hc
      apply hs.agree c o hc
      rw [← trackOrder_other hne]
      exact ho
    · have hne : id ≠ parent.id := by
        rintro rfl
        simp [FixDesk.next, setHandler] at hid
      apply hs.unrecorded id
      rw [← trackOrder_other hne]
      exact hid
  | trackChildOrder parentId child =>
    obtain ⟨⟨hparent, hroot, hnew⟩, hfilled⟩ := ht
    refine ⟨hw.trackChildOrder hparent hroot hnew, fun c o hc ho => ?_, fun id hid => ?_⟩
    · by_cases hchild : c = child.id
      · subst hchild
        have hself : (d.gateway.execHandler.trackChildOrder parentId child).orders child.id = some o := ho
        rw [trackChildOrder_self] at hself
        rw [← Option.some.inj hself, hfilled]
        exact hs.unrecorded child.id hnew
      · refine hs.agree c o ?_ ?_
        · simpa [FixDesk.next, trackChildOrder_childToParent, hchild] using hc
        · rw [← trackChildOrder_other hchild]
          exact ho
    · have hne : id ≠ child.id := by
        rintro rfl
        simp [FixDesk.next] at hid
      apply hs.unrecorded id
      rw [← trackChildOrder_other hne]
      exact hid
  | report r =>
    rw [next_report_quiet hw hq]
    refine ⟨hw.report r, fun c o hc ho => ?_, fun id hid => ?_⟩
    · have hc' : (d.gateway.execHandler.childToParent c).isSome := by
        obtain ⟨orders, hframe⟩ := d.gateway.execHandler.onExecutionReport_frame r
        simpa [setHandler, hframe] using hc
      obtain ⟨o₁, ho₁, hsame⟩ := filled_of_quiet hw hq hc' ho
      rw [hsame]
      exact hs.agree c o₁ hc' ho₁
    · apply hs.unrecorded id
      have hsome := hw.report_isSome r id
      have hnone : (d.gateway.execHandler.onExecutionReport r).1.orders id = none := hid
      rw [hnone] at hsome
      exact Option.isNone_iff_eq_none.mp (by simpa using hsome.symm)

theorem keeps_of_settled (hs : Settled d.gateway) (ht : d.Tracks call) (hq : ¬d.ProcessesFill call) :
    d.KeepsFills call :=
  ⟨fun _ _ hfill => absurd hfill hq, (hs.next ht hq).agree⟩

theorem settled_attach (hs : Settled g) (initializeFirst : Bool) : Settled (attach g initializeFirst).gateway := by
  cases initializeFirst with
  | false => exact ⟨wellFormed_hooks hs.handler _ _ _, hs.agree, hs.unrecorded⟩
  | true => exact ⟨wellFormed_hooks hs.handler _ _ _, hs.agree, hs.unrecorded⟩

theorem attached_attach (hs : Settled g) (initializeFirst : Bool) : (attach g initializeFirst).Attached := by
  refine ⟨(settled_attach hs initializeFirst).handler, ?_, ?_⟩
  · cases initializeFirst <;> rfl
  · cases initializeFirst <;> rfl

theorem noFill_along (ha : d.Attached) {calls : List Call} (ht : Along next Tracks d calls)
    (hk : Along next KeepsFills d calls) : Along next (fun d call => ¬d.ProcessesFill call) d calls :=
  (ht.and hk).imp ha (fun _ _ ha h => ha.next h.1) fun _ _ ha h => ha.noFill_of_keeps h.2

/-- Whichever of the two attachments comes last has the only fill callback, so the first fill that is
processed goes past somebody. -/
theorem fills_kept_iff (g : Gateway V) (hs : Settled g) (initializeFirst : Bool) (calls : List Call)
    (ht : Along next Tracks (attach g initializeFirst) calls) :
    Along next KeepsFills (attach g initializeFirst) calls ↔
      Along next (fun d call => ¬d.ProcessesFill call) (attach g initializeFirst) calls := by
  constructor
  · intro hk
    exact noFill_along (attached_attach hs initializeFirst) ht hk
  · intro hq
    exact (ht.and hq).imp (I := fun d => Settled d.gateway) (settled_attach hs initializeFirst)
      (fun d call hs h => hs.next h.1 h.2) fun d call hs h => keeps_of_settled hs h.1 h.2

def built : Gateway Unit where
  riskManager := { rateLimiter := { maxPerSecond := 0, windowStart := 0 } }

theorem settled_built : Settled built :=
  ⟨.initial, fun _ _ hc _ => absurd hc Bool.false_ne_true, fun _ _ => rfl⟩

def oneOrder : List Call :=
  [.trackOrder { id := 1, quantity := 10, remainingQuantity := 10 },
    .trackChildOrder 1 { id := 2, parentOrderId := 1, quantity := 10, remainingQuantity := 10, state := .pendingNew },
    .report { orderId := 2, state := .accepted }]

def fillOfTen : ExecutionReport :=
  { orderId := 2, state := .filled, lastPrice := 100, lastQuantity := 10, cumQuantity := 10 }

theorem fills_kept_acknowledged : Along next KeepsFills (attach built true) oneOrder :=
  (fills_kept_iff built settled_built true oneOrder (by decide)).mpr (by decide)

theorem not_keeps_trade (initializeFirst : Bool) :
    ¬Along next KeepsFills (attach built initializeFirst) (oneOrder ++ [.report fillOfTen]) := by
  intro hk
  have ht : Along next Tracks (attach built initializeFirst) (oneOrder ++ [.report fillOfTen]) := by
    cases initializeFirst <;> decide
  have hquiet := noFill_along (attached_attach settled_built initializeFirst) ht hk
  cases initializeFirst <;> revert hquiet <;> decide

theorem fill_missed :
    (Along next Tracks (attach built true) (oneOrder ++ [.report fillOfTen]) ∧
      ¬Along next KeepsFills (attach built true) (oneOrder ++ [.report fillOfTen])) ∧
    Along next Tracks (attach built false) (oneOrder ++ [.report fillOfTen]) ∧
      ¬Along next KeepsFills (attach built false) (oneOrder ++ [.report fillOfTen]) :=
  ⟨⟨by decide, not_keeps_trade true⟩, by decide, not_keeps_trade false⟩

end FixDesk

end Klett.Sor

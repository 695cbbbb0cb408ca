import Klett.Sor.ReportsInFlight

namespace Klett.Sor.Orphans

open Klett.Lib Klett.Sor.System

def Attended (h : ExecutionHandler) (id : ℕ) : Prop :=
  ∃ c o, h.childToParent c = some id ∧ h.orders c = some o ∧ o.isTerminal = false

/-- Every open parent has a live child, or is excepted. -/
def AttendedBut (excepted : ℕ → Prop) (h : ExecutionHandler) : Prop :=
  ∀ id o, h.orders id = some o → h.childToParent id = none → o.isTerminal = false →
    Attended h id ∨ excepted id

abbrev AllAttended (h : ExecutionHandler) : Prop := AttendedBut (fun _ => False) h

section Handler

variable {h : ExecutionHandler} {excepted excepted' : ℕ → Prop} {p : ℕ} {order child : Order}
  {r : ExecutionReport}

theorem AttendedBut.mono (ha : AttendedBut excepted h) (he : ∀ id, excepted id → excepted' id) :
    AttendedBut excepted' h :=
  fun id o ho hroot hopen => (ha id o ho hroot hopen).imp_right (he id)

theorem Attended.setOrder {id key : ℕ} (ha : Attended h id) (o : Order)
    (hother : h.childToParent key ≠ some id) : Attended (h.setOrder key o) id := by
  obtain ⟨c, live, hparent, hlive, hopen⟩ := ha
  refine ⟨c, live, hparent, ?_, hopen⟩
  rw [ExecutionHandler.setOrder_other]
  · exact hlive
  · rintro rfl
    exact hother hparent

theorem AttendedBut.trackOrder (ha : AttendedBut excepted h) (hroot : h.childToParent order.id = none)
    (he : excepted order.id) : AttendedBut excepted (h.trackOrder order) := by
  intro id o ho hid hopen
  by_cases heq : id = order.id
  · exact .inr (heq ▸ he)
  · rw [ExecutionHandler.trackOrder_other heq] at ho
    refine (ha id o ho hid hopen).imp_left fun hattended => hattended.setOrder order ?_
    rw [hroot]
    exact Option.some_ne_none id |>.symm

theorem AttendedBut.trackChildOrder (ha : AttendedBut excepted h) (p : ℕ) (child : Order)
    (hnew : h.orders child.id = none)
    (hopen : child.isTerminal = false) : AttendedBut excepted (h.trackChildOrder p child) ∧
      Attended (h.trackChildOrder p child) p := by
  refine ⟨fun id o ho hroot hopen => ?_, child.id, child, ?_, ExecutionHandler.trackChildOrder_self, hopen⟩
  · rw [ExecutionHandler.trackChildOrder_childToParent] at hroot
    split_ifs at hroot with hid
    rw [ExecutionHandler.trackChildOrder_other hid] at ho
    refine (ha id o ho hroot hopen).imp_left fun ⟨c, live, hparent, hlive, hlives⟩ => ?_
    have hne : c ≠ child.id := by
      rintro rfl
      rw [hnew] at hlive
      cases hlive
    refine ⟨c, live, ?_, (ExecutionHandler.trackChildOrder_other hne).trans hlive, hlives⟩
    rw [ExecutionHandler.trackChildOrder_childToParent, if_neg hne]
    exact hparent
  · rw [ExecutionHandler.trackChildOrder_childToParent, if_pos rfl]

/-- A report leaves every open parent with a live child, except one that it makes due for a reroute. -/
theorem AttendedBut.report (ha : AllAttended h) (hw : h.WellFormed) (hhook : h.hasRerouteCallback = true)
    (hstrands : h.strandsParent r = false) :
    AttendedBut (fun id => (h.onExecutionReport r).2.reroute = some id) (h.onExecutionReport r).1 := by
  obtain hignored | ⟨o, o', ho, hr, hroot⟩ | ⟨p, o, o', parent, hr⟩ := hw.report_cases r
  · rw [ExecutionHandler.onExecutionReport_ignored hignored]
    exact ha.mono fun _ hid => hid.elim
  · rw [(hw.onExecutionReport_root ho hr hroot).1]
    intro id q hq hid hopen
    have hother : h.childToParent r.orderId ≠ some id := by rw [hroot]; exact (Option.some_ne_none id).symm
    refine .inl (Attended.setOrder ?_ o' hother)
    by_cases heq : id = r.orderId
    · rw [heq, ExecutionHandler.setOrder_self] at hq
      rw [heq]
      refine (ha r.orderId o ho hroot (Bool.eq_false_iff.mpr fun hended => ?_)).resolve_right not_false
      rw [← Option.some.inj hq, Order.onReport_isTerminal hr hended] at hopen
      cases hopen
    · rw [ExecutionHandler.setOrder_other heq] at hq
      exact (ha id q hq hid hopen).resolve_right not_false
  · obtain ⟨hafter, hreroute, -⟩ := hw.onExecutionReport_child hr
    have hpne := hw.ne_parent hr.parentOf
    have hproot := hw.parentNoChild hr.parentOf
    rw [hafter, hreroute]
    intro id q hq hid hopen
    by_cases heq : id = p
    · rw [heq, ExecutionHandler.setOrder_self] at hq
      rw [heq]
      cases hended : o'.isTerminal with
      | false =>
        refine .inl ⟨r.orderId, o', hr.parentOf, ?_, hended⟩
        rw [ExecutionHandler.setOrder_other hpne, ExecutionHandler.setOrder_self]
      | true =>
        have hid' : (parent.withTrade r).id = p :=
          (parent.sameTerms_withTrade r).id.trans (hw.keyed hr.parent)
        cases hall : (h.afterTrade r p o' parent).allTerminal (parent.withTrade r).id with
        | true =>
          rw [← Option.some.inj hq] at hopen
          rw [ExecutionHandler.parentAfter_open hr hended hopen hall hstrands, hhook]
          exact .inr rfl
        | false =>
          obtain ⟨c, hc, live, hlive, hlives⟩ := ExecutionHandler.exists_live_of_allTerminal hall
          have hparent : h.childToParent c = some p := by
            rw [hid'] at hc
            exact hw.mem_children.mp hc
          have hne := hw.ne_parent hparent
          refine .inl ⟨c, live, hparent, ?_, hlives⟩
          rw [ExecutionHandler.afterTrade, ExecutionHandler.setOrder_other hne] at hlive
          rw [ExecutionHandler.setOrder_other hne]
          exact hlive
    · have hidr : id ≠ r.orderId := by
        rintro rfl
        rw [ExecutionHandler.setOrder_childToParent, ExecutionHandler.setOrder_childToParent,
          hr.parentOf] at hid
        cases hid
      rw [ExecutionHandler.setOrder_other heq, ExecutionHandler.setOrder_other hidr] at hq
      have hattended := (ha id q hq hid hopen).resolve_right not_false
      refine .inl ((hattended.setOrder o' ?_).setOrder _ ?_)
      · rw [hr.parentOf]
        exact fun hsome => heq (Option.some.inj hsome).symm
      · rw [ExecutionHandler.setOrder_childToParent, hproot]
        exact (Option.some_ne_none id).symm

end Handler

variable {V : Type}

structure Hooked (excepted : ℕ → Prop) (g : Gateway V) : Prop where
  hooked : g.execHandler.hasRerouteCallback = true
  attended : AttendedBut excepted g.execHandler

namespace Hooked

variable [VenueAdapter V] {P : Platform} {t : Readings} {excepted : ℕ → Prop} {es : List Event}
  {g g' : Gateway V} {unused : List ℕ} {order : Order} {r : ExecutionReport}

omit [VenueAdapter V] in
theorem congr (ha : Hooked excepted g) (hh : g'.execHandler = g.execHandler) : Hooked excepted g' := by
  refine ⟨?_, ?_⟩
  · rw [hh]
    exact ha.hooked
  · rw [hh]
    exact ha.attended

theorem dispatchSlice (ha : Hooked excepted g) (order : Order) (hn : Numbered es g unused)
    (slice : Slice) :
    Hooked excepted (g.dispatchSlice order slice).1 ∧
      Attended (g.dispatchSlice order slice).1.execHandler order.id := by
  obtain ⟨_, -, -, venues, queue, heq⟩ := g.dispatchSlice_eq order slice
  have hnew : g.execHandler.orders g.nextOrderId = none := by
    by_contra htracked
    exact (hn.bounded (Option.isSome_iff_ne_none.mpr htracked)).ne rfl
  obtain ⟨hattended, hself⟩ :=
    ha.attended.trackChildOrder order.id (Gateway.childOf order slice g.nextOrderId) hnew rfl
  rw [heq]
  exact ⟨⟨ha.hooked, hattended⟩, hself⟩

theorem processSingleOrder (ha : Hooked (· = order.id) g) (hn : Numbered es g unused)
    (hr : Ready es g unused order) (hpass : g.passes order t = true)
    (hslices : g.slicesFor P order t ≠ []) :
    Hooked (fun _ => False) (g.processSingleOrder P order t).1 := by
  have hall := hn.processSingleOrder_invariant (P := P) (t := t) (Q := fun _ => True)
    (I := fun es' g' => Hooked (· = order.id) g' ∧
      (es' = es ++ [.tracked (order.apply .submit)] ∨ Attended g'.execHandler order.id)) hr
    (fun hrefused => by rw [hrefused] at hpass; cases hpass)
    (fun _ engine limiter => by
      refine ⟨⟨ha.hooked, ha.attended.trackOrder ?_ (order.apply_id .submit)⟩, .inl rfl⟩
      rw [Order.apply_id]
      exact hr.root)
    (fun g' _ slice _ _ hn' _ ha' => by
      obtain ⟨hhooked, hself⟩ := ha'.1.dispatchSlice (order.apply .submit) hn' slice
      rw [Order.apply_id] at hself
      exact ⟨hhooked, .inr hself⟩) fun _ _ => trivial
  obtain ⟨-, hhooked, hchildless | hself⟩ := hall
  · obtain ⟨child, hchild⟩ := Gateway.processSingleOrder_creates hslices
    rw [List.append_cancel_left hchildless] at hchild
    simp at hchild
  · refine ⟨hhooked.hooked, fun id o ho hroot hopen => .inl ?_⟩
    rcases hhooked.attended id o ho hroot hopen with hattended | rfl
    · exact hattended
    · exact hself

theorem processNewOrder (ha : Hooked (fun _ => False) g) (hn : Numbered es g unused)
    (hr : Ready es g unused order)
    (hslices : g.passes order t = true → g.slicesFor P order t ≠ []) :
    Hooked (fun _ => False) (g.processSingleOrder P order t).1 := by
  cases hpass : g.passes order t with
  | false =>
    obtain ⟨limiter, heq⟩ := Gateway.processSingleOrder_refused (P := P) hpass
    rw [heq]
    exact ha.congr rfl
  | true =>
    have ha' : Hooked (· = order.id) g := ⟨ha.hooked, ha.attended.mono fun _ hid => hid.elim⟩
    exact ha'.processSingleOrder hn hr hpass (hslices hpass)

theorem processReport (ha : Hooked (fun _ => False) g) (hn : Numbered es g unused)
    (hstrands : g.execHandler.strandsParent r = false)
    (hreroute : ∀ parent ∈ g.rerouteDue r,
      (g.applyReport r).passes (Gateway.rerouteOrder parent) t = true ∧
        (g.applyReport r).slicesFor P (Gateway.rerouteOrder parent) t ≠ []) :
    Hooked (fun _ => False) (g.processReport P r t).1 := by
  have hreport := ha.attended.report hn.handler ha.hooked hstrands
  obtain ⟨fills, happly⟩ := g.applyReport_frame (r := r)
  obtain ⟨orders, hframe⟩ := g.execHandler.onExecutionReport_frame r
  have hhandler : (g.applyReport r).execHandler = (g.execHandler.onExecutionReport r).1 := by rw [happly]
  have hhooked : (g.applyReport r).execHandler.hasRerouteCallback = true := by
    rw [hhandler, hframe]
    exact ha.hooked
  -- what the report makes due is found under its id
  have hfound {id : ℕ} {o : Order} (ho : (g.applyReport r).execHandler.orders id = some o)
      (hexcepted : (g.execHandler.onExecutionReport r).2.reroute = some id) : g.rerouteDue r = some o := by
    rw [hhandler] at ho
    unfold Gateway.rerouteDue ExecutionHandler.rerouted
    simp only [hexcepted, Option.bind_some, ho]
  rw [← hhandler] at hreport
  obtain ⟨done, -, ⟨hnone, heq⟩ | ⟨parent, hdue, heq⟩⟩ := g.processReport_cases (P := P) r t
  · rw [heq]
    refine ⟨hhooked, fun id o ho hroot hopen => (hreport id o ho hroot hopen).imp_right fun hexcepted => ?_⟩
    rw [hfound ho hexcepted] at hnone
    cases hnone
  · obtain ⟨hpass, hslices⟩ := hreroute parent hdue
    have ha' : Hooked (· = (Gateway.rerouteOrder parent).id) (g.applyReport r) := by
      refine ⟨hhooked, fun id o ho hroot hopen => (hreport id o ho hroot hopen).imp_right fun hexcepted => ?_⟩
      obtain rfl : parent = o := Option.some.inj (hdue.symm.trans (hfound ho hexcepted))
      exact ((hn.applyReport r).handler.keyed ho).symm
    rw [heq]
    exact ha'.processSingleOrder (hn.applyReport r) (hn.reroute hdue).1 hpass hslices

end Hooked

/-- What the parents need of a step: an order that is taken up and passes the risk check is cut into
slices, a reroute passes it, and no report strands a parent. -/
def ParentsServed [VenueAdapter V] (P : Platform) : Machine.Guard (System V) (Action V) Event := fun _ s a =>
  (∀ x ∈ s.takenUp a, x.gateway.passes x.order x.readings = true →
    x.gateway.slicesFor P x.order x.readings ≠ []) ∧
  (∀ x ∈ s.reroute a, x.gateway.passes (Gateway.rerouteOrder x.parent) x.readings = true) ∧
  ∀ r ∈ s.nextReport a, s.gateway.execHandler.strandsParent r = false

instance [VenueAdapter V] (P : Platform) (k : Trace (Action V) Event) (s : System V) (a : Action V) :
    Decidable (ParentsServed P k s a) :=
  inferInstanceAs (Decidable ((∀ x ∈ s.takenUp a, _ → _) ∧ (∀ x ∈ s.reroute a, _) ∧
    ∀ r ∈ s.nextReport a, _))

theorem Hooked.step [VenueAdapter V] {P : Platform} {s s' : System V} {a : Action V} {es : List Event}
    {k : Trace (Action V) Event} (ha : Hooked (fun _ => False) s.gateway)
    (hn : Numbered k.events s.gateway s.unused) (hserved : ParentsServed P k s a)
    (h : (machine P).step s a = some (s', es)) : Hooked (fun _ => False) s'.gateway := by
  cases step_effect h with
  | quiet hq => exact ha.congr hq.execHandler
  | stopped hthread => exact ha.congr rfl
  | allocated => exact ha.congr rfl
  | submitted hassign hpush => exact ha.congr rfl
  | @orderTaken order queue t hthread hpop =>
    obtain ⟨hpopped, hready, -⟩ := hn.pop hpop
    have ha' : Hooked (fun _ => False) { s.gateway with orderQueue := queue } := ha.congr rfl
    exact ha'.processNewOrder hpopped hready (hserved.1 _ (takenUp_of_pop hthread hpop))
  | @cancelTaken request queue t =>
    have ha' : Hooked (fun _ => False) { s.gateway with cancelQueue := queue } := ha.congr rfl
    obtain ⟨-, heq⟩ | ⟨-, es, -, ⟨_, _, hcalls⟩, -⟩ := Gateway.processCancel_cases
      (g := { s.gateway with cancelQueue := queue }) request
    · rw [heq]
      exact ha'
    · exact ha'.congr (by rw [setGateway, hcalls])
  | @reportTaken report queue t hthread hpop =>
    have ha' : Hooked (fun _ => False) { s.gateway with reportQueue := queue } := ha.congr rfl
    have hn' : Numbered k.events { s.gateway with reportQueue := queue } s.unused :=
      hn.quiet rfl rfl le_rfl
    refine ha'.processReport hn' (hserved.2.2 report (nextReport_of_pop hthread hpop)) fun parent hdue => ?_
    have hx := reroute_of_due hthread hpop hdue (t := t)
    have hpass := hserved.2.1 _ hx
    exact ⟨hpass, hserved.1 _ (takenUp_of_due hx) hpass⟩
  | venueRan hfound hrun => exact ha.congr rfl
  | notified houtbox =>
    obtain ⟨⟨_, _, hcalls⟩, -⟩ := s.gateway.onExecutionReport_calls _
    exact ha.congr (by rw [hcalls])

section Runs

open ReportDelivery (HasRoom)
open ReportsInFlight (InFlight NoLateRejects VenuesReachable)

def Held (s : System SimulatedExchange) (child : Order) : Prop :=
  (∃ x ∈ s.gateway.venues child.targetVenue, (x.activeOrders child.id).isSome) ∨
    ∃ r ∈ s.outbox child.targetVenue, r.orderId = child.id

instance (s : System SimulatedExchange) (child : Order) : Decidable (Held s child) :=
  inferInstanceAs (Decidable ((∃ x ∈ s.gateway.venues child.targetVenue, _) ∨
    ∃ r ∈ s.outbox child.targetVenue, _))

def Orderly (P : Platform) : Machine.Guard (System SimulatedExchange) (Action SimulatedExchange) Event :=
  fun k s a => FreshIds k s a ∧ HasRoom P k s a ∧ NoLateRejects P k s a ∧ VenuesReachable P k s a ∧
    ParentsServed P k s a

instance (P : Platform) (k : Trace (Action SimulatedExchange) Event) (s : System SimulatedExchange)
    (a : Action SimulatedExchange) : Decidable (Orderly P k s a) :=
  inferInstanceAs (Decidable (_ ∧ _ ∧ _ ∧ _ ∧ _))

variable {P : Platform} {configs : ℕ → Option ExchangeConfig} {engine : RoutingEngine}
  {md : MarketDataAggregator} {limits : RiskLimits} {symbolLimits : Symbol → Option RiskLimits}
  {limiter : RateLimiter} {h : Trace (Action SimulatedExchange) Event} {s : System SimulatedExchange}

theorem InFlight.initial : InFlight (initialized (exchanges configs) engine md limits symbolLimits
    limiter).gateway fun _ => [] := by
  have hempty {v : ℕ} {x : SimulatedExchange} (hx : exchanges configs v = some x) (id : ℕ) :
      x.activeOrders id = none := by
    obtain ⟨config, -, rfl⟩ := Option.map_eq_some_iff.mp hx
    rfl
  refine ⟨fun hx id internal hactive => ?_, fun {v x id} hx hactive => ?_, by simp, by simp [initialized],
    by simp [initialized, Gateway.child]⟩
  · rw [hempty hx id] at hactive
    cases hactive
  · rw [hempty hx id] at hactive
    cases hactive

/-- Once the report queue is empty, a tracked parent without a child that a venue holds is terminal, in
every run in which each order and each reroute finds its venues, and no report is lost, late or strands a
parent. -/
theorem no_orphans {id : ℕ} {p : Order}
    (hr : (machine P).Reach (Orderly P)
      (initialized (exchanges configs) engine md limits symbolLimits limiter) h s)
    (hidle : s.gateway.reportQueue.items = []) (hp : s.gateway.execHandler.getOrder id = some p)
    (hroot : s.gateway.execHandler.childToParent id = none)
    (hheld : ∀ c ∈ s.gateway.execHandler.getChildren id, ∀ child ∈ s.gateway.execHandler.getOrder c,
      ¬Held s child) : p.isTerminal = true := by
  obtain ⟨hn, hflight, hattended⟩ : Numbered h.events s.gateway s.unused ∧ InFlight s.gateway s.outbox ∧
      Hooked (fun _ => False) s.gateway := by
    refine hr.invariant (I := fun h s => Numbered h.events s.gateway s.unused ∧
      InFlight s.gateway s.outbox ∧ Hooked (fun _ => False) s.gateway) ?_ fun k t a u es hi hc hstep => ?_
    · refine ⟨Numbered.initial, InFlight.initial, rfl, ?_⟩
      intro id o ho
      cases ho
    · obtain ⟨hfresh, hroom, hlate, hreach, hserved⟩ := hc
      rw [Trace.events_append, Trace.events_single]
      exact ⟨hi.1.step hfresh hstep, hi.2.1.step hi.1 hroom hlate hreach hstep,
        hi.2.2.step hi.1 hserved hstep⟩
  by_contra hopen
  obtain ⟨c, child, hparent, hchild, hlive⟩ :=
    (hattended.attended id p hp hroot (Bool.eq_false_iff.mpr hopen)).resolve_right not_false
  obtain ⟨x, hx, hstep⟩ := hflight.inStep (Gateway.child_of_parent hparent hchild)
  have hid : child.id = c := hn.handler.keyed hchild
  have hfree := hheld c (hn.handler.mem_children.mpr hparent) child hchild
  have hnone : ExchangeAgreement.about c (s.gateway.reportQueue.items ++ s.outbox child.targetVenue) = [] := by
    rw [hidle, List.nil_append]
    exact ExchangeAgreement.about_other fun r hr heq => hfree (.inr ⟨r, hr, heq.trans hid.symm⟩)
  rw [hnone] at hstep
  have hdropped : x.activeOrders child.id = none := by
    by_contra hactive
    exact hfree (.inl ⟨x, hx, Option.isSome_iff_ne_none.mpr hactive⟩)
  have hended := hstep.dropped hdropped
  rw [Order.after_nil, hlive] at hended
  cases hended

end Runs

def filled : List (Action SimulatedExchange) :=
  sending buyTen ++ [.venue 1 (.processMatching fun _ => ⟨1 / 2, 1 / 2, 1 / 2, 1 / 2⟩), .notify 1,
    .execLoop {}, .execLoop {}, .execLoop {}]

theorem no_orphans_filled : ∃ h s p, (machine .exact).Run calm h s ∧
    s.gateway.execHandler.getOrder 1 = some p ∧ s.gateway.execHandler.getChildren 1 = [2] ∧
    p.isTerminal = true := by
  obtain ⟨h, s, hr, hidle, hroot, hchildren, hheld, htracked⟩ := Machine.exists_reach (machine .exact)
    (Orderly .exact) calm
    (fun _ s => s.gateway.reportQueue.items = [] ∧ s.gateway.execHandler.childToParent 1 = none ∧
      s.gateway.execHandler.getChildren 1 = [2] ∧
      (∀ c ∈ s.gateway.execHandler.getChildren 1, ∀ child ∈ s.gateway.execHandler.getOrder c,
        ¬Held s child) ∧ (s.gateway.execHandler.getOrder 1).isSome) filled (by decide +kernel)
  obtain ⟨p, hp⟩ := Option.isSome_iff_exists.mp htracked
  exact ⟨h, s, p, hr.run, hp, hchildren, no_orphans hr hidle hp hroot hheld⟩

def unquoted : Order := { buyTen with symbol := .assign [66] }

/-- Routing rejects the order, all queues are empty, no child exists, and the parent stays PendingNew. -/
theorem unrouted_parent_orphaned : ∃ h s p, (machine .exact).Run calm h s ∧
    s.gateway.orderQueue.items = [] ∧ s.gateway.cancelQueue.items = [] ∧
    s.gateway.reportQueue.items = [] ∧ s.outbox 1 = [] ∧
    s.gateway.execHandler.getOrder 1 = some p ∧ s.gateway.execHandler.getChildren 1 = [] ∧
    p.state = .pendingNew := by
  obtain ⟨h, s, hr, horders, hcancels, hreports, houtbox, hchildren, p, hp, hstate⟩ :=
    Machine.exists_run (machine .exact) calm
    (fun _ s => s.gateway.orderQueue.items = [] ∧ s.gateway.cancelQueue.items = [] ∧
      s.gateway.reportQueue.items = [] ∧ s.outbox 1 = [] ∧ s.gateway.execHandler.getChildren 1 = [] ∧
      ∃ p ∈ s.gateway.execHandler.getOrder 1, p.state = .pendingNew) (sending unquoted) (by decide +kernel)
  exact ⟨h, s, p, hr, horders, hcancels, hreports, houtbox, hp, hchildren, hstate⟩

end Klett.Sor.Orphans

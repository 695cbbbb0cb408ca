import Mathlib.Algebra.BigOperators.Group.List.Basic
import Klett.Sor.OrderIds

namespace Klett.Sor.ParentAccounting

open Klett.Lib Klett.Sor.System

def childIds (parentId : ℕ) (es : List Event) : List ℕ :=
  es.filterMap fun
    | .childCreated id child => if id = parentId then some child.id else none
    | _ => none

def fills (es : List Event) : List ExecutionReport :=
  es.filterMap fun
    | .processed report true => if report.lastQuantity > 0 then some report else none
    | _ => none

def filledFor (parentId : ℕ) (es : List Event) : ℤ :=
  (((fills es).filter fun r => r.orderId ∈ childIds parentId es).map ExecutionReport.lastQuantity).sum

section Events

variable {es es' : List Event} {p c : ℕ} {r : ExecutionReport}

@[simp] theorem childIds_append : childIds p (es ++ es') = childIds p es ++ childIds p es' := by
  simp [childIds]

@[simp] theorem fills_append : fills (es ++ es') = fills es ++ fills es' := by simp [fills]

theorem mem_childIds : c ∈ childIds p es ↔ ∃ child, .childCreated p child ∈ es ∧ child.id = c := by
  unfold childIds
  rw [List.mem_filterMap]
  constructor
  · rintro ⟨e, he, hc⟩
    split at hc
    next id child =>
      split_ifs at hc with hp
      exact ⟨child, hp ▸ he, Option.some.inj hc⟩
    · cases hc
  · rintro ⟨child, he, rfl⟩
    exact ⟨_, he, by simp⟩

theorem fills_eq_nil (h : ∀ e ∈ es, ∀ r, e ≠ .processed r true) : fills es = [] := by
  refine List.filterMap_eq_nil_iff.mpr fun e he => ?_
  split
  next r => exact absurd rfl (h _ he r)
  · rfl

theorem filledFor_same (hes : fills es' = []) (hnew : ∀ r ∈ fills es, r.orderId ∉ childIds p es') :
    filledFor p (es ++ es') = filledFor p es := by
  unfold filledFor
  rw [fills_append, hes, List.append_nil]
  congr 2
  refine List.filter_congr fun r hr => ?_
  simp [hnew r hr]

theorem mem_fills_processed {f : ExecutionReport} {applied : Bool}
    (h : f ∈ fills [.processed r applied]) : applied = true ∧ f = r := by
  cases applied with
  | false => simp [fills] at h
  | true =>
    by_cases hpos : 0 < r.lastQuantity
    · exact ⟨rfl, by simpa [fills, hpos] using h⟩
    · simp [fills, hpos] at h

theorem filledFor_processed (applied : Bool) : filledFor p (es ++ [.processed r applied]) =
    filledFor p es + if applied = true ∧ r.orderId ∈ childIds p es then max 0 r.lastQuantity else 0 := by
  have hsame : childIds p (es ++ [.processed r applied]) = childIds p es := by simp [childIds]
  unfold filledFor
  rw [hsame, fills_append, List.filter_append, List.map_append, List.sum_append]
  congr 1
  cases applied with
  | false => simp [fills]
  | true =>
    by_cases hpos : 0 < r.lastQuantity
    · by_cases hc : r.orderId ∈ childIds p es
      · simp [fills, hpos, hc, max_eq_right hpos.le]
      · simp [fills, hpos, hc]
    · simp [fills, hpos, max_eq_left (not_lt.mp hpos)]

end Events

variable {V : Type}

/-- What the accounts of the parents need of a step: clients submit unfilled orders, a reported trade of
a known order is a trade of a child, and no reroute of a partly filled parent passes the risk check. -/
def ParentsKept [VenueAdapter V] : Machine.Guard (System V) (Action V) Event := fun _ s a =>
  (∀ order ∈ a.submits, order.filledQuantity = 0) ∧
    (∀ r ∈ s.nextReport a, (s.gateway.execHandler.orders r.orderId).isSome → 0 < r.lastQuantity →
      s.gateway.execHandler.childToParent r.orderId ≠ none) ∧
    ∀ x ∈ s.reroute a, x.parent.filledQuantity ≠ 0 →
      x.gateway.passes (Gateway.rerouteOrder x.parent) x.readings = false

instance [VenueAdapter V] (k : Trace (Action V) Event) (s : System V) (a : Action V) :
    Decidable (ParentsKept k s a) :=
  inferInstanceAs (Decidable ((∀ order ∈ a.submits, _) ∧ (∀ r ∈ s.nextReport a, _ → _) ∧
    ∀ x ∈ s.reroute a, _ → _))

structure Balanced (es : List Event) (g : Gateway V) : Prop where
  unfilled : ∀ {o}, .submitted o ∈ es → o.filledQuantity = 0
  known : ∀ {r}, r ∈ fills es → (g.execHandler.orders r.orderId).isSome
  parents : ∀ {o p}, .submitted o ∈ es → g.execHandler.orders o.id = some p →
    p.quantity = o.quantity ∧ p.filledQuantity = filledFor o.id es

def Agrees (es : List Event) (order : Order) : Prop :=
  ∀ {o}, .submitted o ∈ es → o.id = order.id →
    order.quantity = o.quantity ∧ order.filledQuantity = filledFor o.id es

namespace Balanced

variable {es es' : List Event} {g g' : Gateway V} {unused : List ℕ} {order : Order} {r : ExecutionReport}

theorem same (hb : Balanced es g) (hh : g'.execHandler = g.execHandler) (hid : ∀ e ∈ es', e.NoId)
    (hes : fills es' = []) : Balanced (es ++ es') g' := by
  have hsubmitted {o : Order} : .submitted o ∈ es ++ es' ↔ .submitted o ∈ es := by
    rw [List.mem_append, or_iff_left fun he => hid (.submitted o) he]
  have hnone (p : ℕ) : childIds p es' = [] := by
    refine List.filterMap_eq_nil_iff.mpr fun e he => ?_
    have hnoid := hid e he
    cases e <;> first | rfl | exact hnoid.elim
  refine ⟨fun ho => hb.unfilled (hsubmitted.mp ho), fun {r} hr => ?_, fun {o p} ho hp => ?_⟩
  · rw [fills_append, hes, List.append_nil] at hr
    rw [hh]
    exact hb.known hr
  · rw [hh] at hp
    rw [filledFor_same hes (by simp [hnone])]
    exact hb.parents (hsubmitted.mp ho) hp

theorem quiet (hb : Balanced es g) (hh : g'.execHandler = g.execHandler) : Balanced es g' := by
  have hsame := hb.same hh (List.forall_mem_nil Event.NoId) rfl
  rwa [List.append_nil] at hsame

theorem push (hb : Balanced es g) (hnone : g.execHandler.orders order.id = none)
    (hh : g'.execHandler = g.execHandler) (hfilled : order.filledQuantity = 0) :
    Balanced (es ++ [.submitted order]) g' := by
  refine ⟨fun {o} ho => ?_, fun {r} hr => ?_, fun {o p} ho hp => ?_⟩
  · rcases List.mem_append.mp ho with ho | ho
    · exact hb.unfilled ho
    · rw [Event.submitted.inj (List.mem_singleton.mp ho)]
      exact hfilled
  · rw [hh]
    exact hb.known (by simpa [fills] using hr)
  · rw [hh] at hp
    rw [filledFor_same (by simp [fills]) (by simp [childIds])]
    rcases List.mem_append.mp ho with ho | ho
    · exact hb.parents ho hp
    · rw [Event.submitted.inj (List.mem_singleton.mp ho), hnone] at hp
      cases hp

theorem admitted (hb : Balanced es g) (hagrees : Agrees es order) (engine : RoutingEngine)
    (limiter : RateLimiter) :
    Balanced (es ++ [.tracked (order.apply .submit)]) (g.admitted (order.apply .submit) engine limiter) := by
  have hother {id : ℕ} (hne : id ≠ order.id) :
      (g.admitted (order.apply .submit) engine limiter).execHandler.orders id = g.execHandler.orders id :=
    ExecutionHandler.trackOrder_other (by rwa [Order.apply_id])
  have hself : (g.admitted (order.apply .submit) engine limiter).execHandler.orders order.id =
      some (order.apply .submit) := by
    have hself := ExecutionHandler.trackOrder_self (h := g.execHandler) (order.apply .submit)
    rwa [Order.apply_id] at hself
  refine ⟨fun ho => hb.unfilled (by simpa using ho), fun {r} hr => ?_, fun {o p} ho hp => ?_⟩
  · have hknown := hb.known (r := r) (by simpa [fills] using hr)
    by_cases heq : r.orderId = order.id
    · rw [heq, hself]
      rfl
    · rwa [hother heq]
  · rw [filledFor_same (by simp [fills]) (by simp [childIds])]
    have hold : .submitted o ∈ es := by simpa using ho
    by_cases heq : o.id = order.id
    · rw [heq, hself] at hp
      rw [← Option.some.inj hp, Order.apply_quantity, Order.apply_filledQuantity]
      exact hagrees hold heq
    · rw [hother heq] at hp
      exact hb.parents hold hp

theorem createChild (hb : Balanced es g) (hn : Numbered es g unused) (slice : Slice) :
    Balanced (es ++ [.childCreated order.id (Gateway.childOf order slice g.nextOrderId)])
      (g.createChild order slice) := by
  have hother {id : ℕ} (hlt : id < g.nextOrderId) :
      (g.createChild order slice).execHandler.orders id = g.execHandler.orders id :=
    ExecutionHandler.trackChildOrder_other hlt.ne
  refine ⟨fun ho => hb.unfilled (by simpa using ho), fun {r} hr => ?_, fun {o p} ho hp => ?_⟩
  · have hknown := hb.known (r := r) (by simpa [fills] using hr)
    rwa [hother (hn.bounded hknown)]
  · have hold : .submitted o ∈ es := by simpa using ho
    rw [hother (hn.submitted hold).1] at hp
    rw [filledFor_same (by simp [fills])]
    · exact hb.parents hold hp
    · intro r hr hmem
      obtain ⟨child, hchild, hid⟩ := mem_childIds.mp hmem
      obtain ⟨-, rfl⟩ : o.id = order.id ∧ child = _ := by simpa using hchild
      exact (hn.bounded (hb.known hr)).ne hid.symm

/-- A trade of a child is a trade of its parent; a trade that is reported for a parent itself is in no
account. -/
theorem report (hb : Balanced es g) (hn : Numbered es g unused) {r : ExecutionReport}
    (hchild : (g.execHandler.orders r.orderId).isSome → 0 < r.lastQuantity →
      g.execHandler.childToParent r.orderId ≠ none) :
    Balanced (es ++ [.processed r (g.applies r)]) (g.applyReport r) := by
  obtain ⟨fills', happly⟩ := g.applyReport_frame (r := r)
  have hsome (id : ℕ) : ((g.applyReport r).execHandler.orders id).isSome =
      (g.execHandler.orders id).isSome := by
    rw [happly]
    exact hn.handler.report_isSome r id
  have hmem {p : ℕ} : r.orderId ∈ childIds p es ↔ g.execHandler.childToParent r.orderId = some p :=
    mem_childIds.trans hn.created.symm
  refine ⟨fun ho => hb.unfilled (by simpa using ho), fun {f} hf => ?_, fun {o p} ho hp => ?_⟩
  · rw [hsome]
    rw [fills_append] at hf
    rcases List.mem_append.mp hf with hf | hf
    · exact hb.known hf
    · obtain ⟨happlied, rfl⟩ := mem_fills_processed hf
      exact Gateway.applies_known happlied
  have hold : .submitted o ∈ es := by simpa using ho
  simp only [filledFor_processed, hmem]
  rw [happly] at hp
  simp only at hp
  obtain hignored | ⟨q, q', hq, hr, hroot⟩ | ⟨parentId, q, q', parent, hr⟩ := hn.handler.report_cases r
  · rw [ExecutionHandler.onExecutionReport_ignored hignored] at hp
    rw [Gateway.applies_ignored hignored, if_neg (by simp), add_zero]
    exact hb.parents hold hp
  · have hnotrade : ¬0 < r.lastQuantity := fun hpos => hchild (by rw [hq]; rfl) hpos hroot
    rw [(hn.handler.onExecutionReport_root hq hr hroot).1] at hp
    rw [if_neg (by simp [hroot]), add_zero]
    by_cases heq : o.id = r.orderId
    · rw [heq, ExecutionHandler.setOrder_self] at hp
      obtain ⟨-, -, -, hquantity, -, hfilled⟩ := Order.onReport_fields hr
      rw [if_neg hnotrade] at hfilled
      rw [← Option.some.inj hp, hquantity, hfilled]
      exact hb.parents hold (by rw [heq]; exact hq)
    · rw [ExecutionHandler.setOrder_other heq] at hp
      exact hb.parents hold hp
  · have hne : o.id ≠ r.orderId := fun heq => by
      have hnone := (hn.submitted hold).2.2
      rw [heq, hr.parentOf] at hnone
      cases hnone
    rw [(hn.handler.onExecutionReport_child hr).1] at hp
    rw [Gateway.applies_applied hr.order hr.applied]
    by_cases heq : o.id = parentId
    · rw [heq, ExecutionHandler.setOrder_self] at hp
      have hbefore := hb.parents hold (by rw [heq]; exact hr.parent)
      rw [← Option.some.inj hp, ExecutionHandler.sameTerms_parentAfter.quantity,
        ExecutionHandler.parentAfter_filledQuantity, hbefore.2, if_pos ⟨rfl, by rw [hr.parentOf, heq]⟩]
      exact ⟨hbefore.1, rfl⟩
    · rw [ExecutionHandler.setOrder_other heq, ExecutionHandler.setOrder_other hne] at hp
      have hother : g.execHandler.childToParent r.orderId ≠ some o.id := by
        rw [hr.parentOf]
        exact fun h => heq (Option.some.inj h).symm
      rw [if_neg fun h => hother h.2, add_zero]
      exact hb.parents hold hp

theorem agrees_pop (hb : Balanced es g) (hn : Numbered es g unused)
    {queue : Fifo Order 8192} (hpop : g.orderQueue.tryPop = some (order, queue)) : Agrees es order := by
  intro o ho hid
  obtain ⟨-, -, hnone, hsubmitted⟩ := hn.pop hpop
  have hempty : childIds o.id es = [] := by
    refine List.eq_nil_iff_forall_not_mem.mpr fun c hc => ?_
    have htracked := hn.handler.parentTracked (hn.created.mpr (mem_childIds.mp hc))
    rw [hid, hnone] at htracked
    cases htracked
  refine ⟨by rw [hn.once ho hsubmitted hid], ?_⟩
  rw [hb.unfilled hsubmitted]
  unfold filledFor
  simp [hempty]

theorem agrees_reroute (hb : Balanced es (g.applyReport r)) (hn : Numbered es' g unused)
    {parent : Order} (hdue : g.rerouteDue r = some parent) (hunfilled : parent.filledQuantity = 0) :
    Agrees es (Gateway.rerouteOrder parent) := by
  intro o ho hid
  obtain ⟨hremaining, -, -⟩ := Gateway.rerouteDue_open hn.handler hdue
  obtain ⟨-, -, hfound⟩ := hn.reroute hdue
  have hparent := hb.parents ho (p := parent) (by rw [hid]; exact hfound)
  rw [Gateway.rerouteOrder]
  simp only
  refine ⟨?_, by rw [← hparent.2, hunfilled]⟩
  rw [hremaining, Order.leavesQty, hunfilled, sub_zero, hparent.1]

section Steps

variable [VenueAdapter V] {P : Platform} {t : Readings}

theorem dispatchSlice (hb : Balanced es g) (hn : Numbered es g unused) (slice : Slice) :
    Balanced (es ++ (g.dispatchSlice order slice).2) (g.dispatchSlice order slice).1 := by
  obtain ⟨sent, heq, hsent, venues, queue, hcalls⟩ := g.dispatchSlice_eq order slice
  have hkind : ∀ e ∈ sent, e.NoId ∧ ∀ r, e ≠ .processed r true := fun e he => by
    rcases hsent e he with hreport | ⟨accepted, rfl⟩
    · cases e <;> first | exact hreport.elim | exact ⟨trivial, by simp⟩
    · exact ⟨trivial, by simp⟩
  rw [heq, ← List.singleton_append, ← List.append_assoc, hcalls]
  exact (hb.createChild hn slice).same rfl (fun e he => (hkind e he).1)
    (fills_eq_nil fun e he => (hkind e he).2)

theorem processSingleOrder (hb : Balanced es g) (hn : Numbered es g unused)
    (hr : Ready es g unused order) (hagrees : g.passes order t = true → Agrees es order) :
    Balanced (es ++ (g.processSingleOrder P order t).2) (g.processSingleOrder P order t).1 :=
  (hn.processSingleOrder_invariant (I := fun es g => Balanced es g) (Q := fun _ => True) hr
    (fun _ _ => hb.quiet rfl)
    (fun hpass engine limiter => hb.admitted (hagrees hpass) engine limiter)
    (fun _ _ slice _ _ hn' _ hb' => hb'.dispatchSlice hn' slice) fun _ _ => trivial).2

theorem processReport (hb : Balanced es g) (hn : Numbered es g unused)
    (hchild : (g.execHandler.orders r.orderId).isSome → 0 < r.lastQuantity →
      g.execHandler.childToParent r.orderId ≠ none)
    (hreroute : ∀ parent ∈ g.rerouteDue r, parent.filledQuantity ≠ 0 →
      (g.applyReport r).passes (Gateway.rerouteOrder parent) t = false) :
    Balanced (es ++ (g.processReport P r t).2) (g.processReport P r t).1 := by
  have hreport := hb.report hn hchild
  have hshown : Numbered (es ++ [.processed r (g.applies r)]) (g.applyReport r) unused :=
    (hn.applyReport r).same rfl rfl le_rfl (by simp [Event.NoId])
  obtain ⟨done, hd, ⟨-, heq⟩ | ⟨parent, hdue, heq⟩⟩ := g.processReport_cases (P := P) r t
  all_goals
    have hdone : ∀ e ∈ done, e.NoId ∧ ∀ r, e ≠ .processed r true := fun e he => by
      obtain ⟨o, rfl⟩ := hd e he
      exact ⟨trivial, by simp⟩
    rw [heq]
  · have hall := hreport.same rfl (fun e he => (hdone e he).1) (fills_eq_nil fun e he => (hdone e he).2)
    simpa using hall
  · have hn' : Numbered (es ++ [.processed r (g.applies r)]) g unused :=
      hn.same rfl rfl le_rfl (by simp [Event.NoId])
    have hagain := hreport.processSingleOrder (P := P) (t := t) hshown (hn'.reroute hdue).1
      fun hpass => hreport.agrees_reroute hn' hdue <| by_contra fun hfilled => by
        rw [hreroute parent hdue hfilled] at hpass
        cases hpass
    have hall := hagain.same rfl (fun e he => (hdone e he).1) (fills_eq_nil fun e he => (hdone e he).2)
    simpa using hall

theorem step {s s' : System V} {a : Action V} {k : Trace (Action V) Event}
    (hb : Balanced k.events s.gateway) (hn : Numbered k.events s.gateway s.unused) (hf : FreshIds k s a)
    (hk : ParentsKept k s a) (h : (machine P).step s a = some (s', es)) :
    Balanced (k.events ++ es) s'.gateway := by
  have hreported {es : List Event} (hes : ∀ e ∈ es, e.IsReported) :
      (∀ e ∈ es, e.NoId) ∧ fills es = [] := by
    refine ⟨fun e he => ?_, fills_eq_nil fun e he r => ?_⟩
    all_goals
      have hreport := hes e he
      cases e <;> first | exact hreport.elim | simp [Event.NoId]
  cases step_effect h with
  | quiet hq => exact hb.same hq.execHandler (by simp) rfl
  | stopped hthread => exact hb.same rfl (by simp [Event.NoId]) rfl
  | allocated =>
    rw [List.append_nil]
    exact hb.quiet rfl
  | @submitted request order nextOrderId queue hassign hpush =>
    refine hb.push (hn.step_submitted hf h (List.mem_singleton_self _)) rfl ?_
    have hunfilled := hk.1 request rfl
    unfold assignId at hassign
    split at hassign <;> cases hassign <;> exact hunfilled
  | @orderTaken order queue t hthread hpop =>
    obtain ⟨hpopped, hready, -⟩ := hn.pop hpop
    have hb' : Balanced k.events { s.gateway with orderQueue := queue } := hb.quiet rfl
    exact hb'.processSingleOrder hpopped hready fun _ => hb.agrees_pop hn hpop
  | @cancelTaken request queue t =>
    obtain ⟨-, heq⟩ | ⟨-, es, heq, ⟨venues, reports, hcalls⟩, hes⟩ := Gateway.processCancel_cases
      (g := { s.gateway with cancelQueue := queue }) request
    · rw [heq]
      exact hb.same rfl (by simp) rfl
    · rw [heq, setGateway, hcalls, ← List.singleton_append, ← List.append_assoc]
      have htaken : ∀ e ∈ [Event.cancelTaken request.orderId], e.NoId := by simp [Event.NoId]
      exact (hb.same rfl htaken rfl).same rfl (hreported hes).1 (hreported hes).2
  | @reportTaken report queue t hthread hpop =>
    have hn' : Numbered k.events { s.gateway with reportQueue := queue } s.unused :=
      hn.quiet rfl rfl le_rfl
    have hb' : Balanced k.events { s.gateway with reportQueue := queue } := hb.quiet rfl
    exact hb'.processReport hn' (hk.2.1 report (nextReport_of_pop hthread hpop)) fun parent hdue =>
      hk.2.2 _ (reroute_of_due hthread hpop hdue)
  | venueRan hfound hrun => exact hb.same rfl (by simp) rfl
  | notified houtbox =>
    obtain ⟨⟨venues, reports, hcalls⟩, hes⟩ := s.gateway.onExecutionReport_calls _
    rw [hcalls]
    exact hb.same rfl (hreported hes).1 (hreported hes).2

end Steps

end Balanced

section Runs

variable [VenueAdapter V] {P : Platform} {venues : ℕ → Option V} {engine : RoutingEngine}
  {md : MarketDataAggregator} {limits : RiskLimits} {symbolLimits : Symbol → Option RiskLimits}
  {limiter : RateLimiter} {h : Trace (Action V) Event} {s : System V} {o p : Order}

/-- A parent keeps the quantity it was submitted with, and its filled quantity is what its children have
traded, in every run in which no partly filled parent goes through routing again. -/
theorem parent_accounts_kept
    (hr : (machine P).Reach (fun k s a => FreshIds k s a ∧ ParentsKept k s a)
      (initialized venues engine md limits symbolLimits limiter) h s)
    (ho : .submitted o ∈ h.events) (hp : s.gateway.execHandler.getOrder o.id = some p) :
    p.quantity = o.quantity ∧ p.filledQuantity = filledFor o.id h.events := by
  have hboth : Numbered h.events s.gateway s.unused ∧ Balanced h.events s.gateway := by
    refine hr.invariant (I := fun h s => Numbered h.events s.gateway s.unused ∧ Balanced h.events s.gateway)
      ?_ fun k t a u es hi hc hstep => ?_
    · exact ⟨Numbered.initial, by simp, by simp [fills], by simp⟩
    · rw [Trace.events_append, Trace.events_single]
      exact ⟨hi.1.step hc.1 hstep, hi.2.step hi.1 hc.1 hc.2 hstep⟩
  exact hboth.2.parents ho hp

end Runs

def immediateTen : Order := { buyTen with tif := .ioc }

def halfFilled : List (Action SimulatedExchange) :=
  sending immediateTen ++ [.venue 1 (.processMatching fun _ => ⟨1 / 2, 1 / 2, 1 / 10, 1 / 2⟩), .notify 1,
    .notify 1, .execLoop {}, .execLoop {}, .execLoop {}]

theorem parent_accounts_kept_half : ∃ h s p, (machine .exact).Run calm h s ∧
    s.gateway.execHandler.getOrder 1 = some p ∧ p.quantity = 10 ∧ p.filledQuantity = filledFor 1 h.events ∧
    filledFor 1 h.events = 5 := by
  obtain ⟨h, s, hr, ho, hfilled, htracked⟩ := Machine.exists_reach (machine .exact)
    (fun k s a => FreshIds k s a ∧ ParentsKept k s a) calm
    (fun h s => .submitted { immediateTen with id := 1 } ∈ h.events ∧ filledFor 1 h.events = 5 ∧
      (s.gateway.execHandler.getOrder 1).isSome) halfFilled (by decide +kernel)
  obtain ⟨p, hp⟩ := Option.isSome_iff_exists.mp htracked
  obtain ⟨hquantity, hkept⟩ := parent_accounts_kept hr ho hp
  exact ⟨h, s, p, hr.run, hp, hquantity, hkept, hfilled⟩

/-- The handler hears of the cancel too, and the reroute tracks the parent anew, with what is left of it. -/
theorem rerouted_parent_overwritten : ∃ h s p, (machine .exact).Run calm h s ∧
    .submitted { immediateTen with id := 1 } ∈ h.events ∧ s.gateway.execHandler.getOrder 1 = some p ∧
    p.quantity = 5 ∧ p.filledQuantity = 0 ∧ filledFor 1 h.events = 5 := by
  obtain ⟨h, s, hr, ho, hfilled, p, hp, hfields⟩ := Machine.exists_run (machine .exact) calm
    (fun h s => .submitted { immediateTen with id := 1 } ∈ h.events ∧ filledFor 1 h.events = 5 ∧
      ∃ p ∈ s.gateway.execHandler.getOrder 1, p.quantity = 5 ∧ p.filledQuantity = 0)
    (halfFilled ++ [.execLoop {}]) (by decide +kernel)
  exact ⟨h, s, p, hr, ho, hp, hfields.1, hfields.2, hfilled⟩

end Klett.Sor.ParentAccounting
